import Highlighter.Pattern.Match

/-! All ends of a pattern at a place, in the order of preference. Matching a
pattern without marks finds the first of them that its continuation accepts. -/

namespace Highlighter.Pattern

/-- All ends of a trial, the preferred one first. -/
abbrev Branches := Reach → List Reach

def inOrder (greedy : Bool) (more stop : List Reach) : List Reach :=
  if greedy then more ++ stop else stop ++ more

def waysTimes (m : Branches) : Nat → Branches
  | 0, r => [r]
  | n + 1, r => (m r).flatMap (waysTimes m n)

def waysUpTo (m : Branches) (greedy : Bool) : Nat → Branches
  | 0, r => [r]
  | n + 1, r => inOrder greedy ((m r).flatMap (waysUpTo m greedy n)) [r]

def waysOn (m : Branches) (greedy : Bool) : Nat → Branches
  | 0, r => [r]
  | n + 1, r =>
    inOrder greedy
      ((m r).flatMap fun r' => if r.taken < r'.taken then waysOn m greedy n r' else []) [r]

def waysPlus (m : Branches) (greedy : Bool) : Branches := fun r =>
  (m r).flatMap fun r' => if r.taken < r'.taken then waysOn m greedy r'.rest.length r' else [r']

def waysRep (m : Branches) (least : Nat) (most : Option Nat) (greedy : Bool) : Branches :=
  match least, most with
  | 0, none => fun r => inOrder greedy (waysPlus m greedy r) [r]
  | n + 1, none => fun r => (waysTimes m n r).flatMap (waysPlus m greedy)
  | n, some top => fun r => (waysTimes m n r).flatMap (waysUpTo m greedy (top - n))

/-- The ends of `p`, the preferred one first; marks are passed over. -/
def ways : Pattern → Branches
  | empty, r | mark _, r => [r]
  | one s, r => (r.take? s).toList
  | edge e, r => if r.atEdge e then [r] else []
  | seq p q, r => (p.ways r).flatMap q.ways
  | alt p q, r => p.ways r ++ q.ways r
  | group i p, r => (p.ways r).map (·.record i r.taken)
  | rep p least most greedy, r => waysRep p.ways least most greedy r

variable {β : Type}

/-! ### Searches -/

@[simp] theorem fail_orElse (s : Search β) : Search.fail.orElse s = s := rfl

@[simp] theorem orElse_fail (s : Search β) : s.orElse .fail = s := by
  funext passed
  simp only [Search.orElse, Search.fail]
  split <;> simp_all

theorem orElse_assoc (s t u : Search β) : (s.orElse t).orElse u = s.orElse (t.orElse u) := by
  funext passed
  simp only [Search.orElse]
  cases h : s passed with
  | mk b passed => cases b <;> rfl

/-- The first answer to one of several reaches. -/
def firstOf (k : Reach → Search β) : List Reach → Search β
  | [] => .fail
  | r :: l => (k r).orElse (firstOf k l)

@[simp] theorem firstOf_nil (k : Reach → Search β) : firstOf k [] = .fail := rfl

@[simp] theorem firstOf_cons (k : Reach → Search β) (r : Reach) (l : List Reach) :
    firstOf k (r :: l) = (k r).orElse (firstOf k l) := rfl

theorem firstOf_singleton (k : Reach → Search β) (r : Reach) : firstOf k [r] = k r := by simp

theorem firstOf_append (k : Reach → Search β) (l l' : List Reach) :
    firstOf k (l ++ l') = (firstOf k l).orElse (firstOf k l') := by
  induction l with
  | nil => rfl
  | cons r l ih => simp [ih, orElse_assoc]

theorem firstOf_flatMap (k : Reach → Search β) (l : List Reach) (w : Branches) :
    firstOf k (l.flatMap w) = firstOf (fun r => firstOf k (w r)) l := by
  induction l with
  | nil => rfl
  | cons r l ih => simp [firstOf_append, ih]

theorem firstOf_map (k : Reach → Search β) (l : List Reach) (f : Reach → Reach) :
    firstOf k (l.map f) = firstOf (fun r => k (f r)) l := by
  induction l with
  | nil => rfl
  | cons r l ih => simp [ih]

theorem firstOf_answer (l : List Reach) (passed : Passed) :
    firstOf .answer l passed = (l.head?, passed) := by
  cases l <;> rfl

/-! ### Trials -/

/-- A trial that tries the branches in order. -/
def Follows (m : Trial β) (w : Branches) : Prop := ∀ r k, m r k = firstOf k (w r)

theorem prefer_eq (greedy : Bool) (more stop : List Reach) (k : Reach → Search β) :
    prefer greedy (firstOf k more) (firstOf k stop) = firstOf k (inOrder greedy more stop) := by
  cases greedy <;> simp [prefer, inOrder, firstOf_append]

theorem Follows.times {m : Trial β} {w : Branches} (h : Follows m w) (n : Nat) :
    Follows (runTimes m n) (waysTimes w n) := by
  induction n with
  | zero => intro r k; exact (firstOf_singleton k r).symm
  | succ n ih => intro r k; simp only [runTimes, waysTimes, h r, ih _ k, firstOf_flatMap]

theorem Follows.upTo {m : Trial β} {w : Branches} (h : Follows m w) (greedy : Bool) (n : Nat) :
    Follows (runUpTo m greedy n) (waysUpTo w greedy n) := by
  induction n with
  | zero => intro r k; exact (firstOf_singleton k r).symm
  | succ n ih =>
    intro r k
    rw [waysUpTo, ← prefer_eq, firstOf_flatMap, firstOf_singleton, runUpTo]
    simp only [h r, ih _ k]

theorem Follows.on {m : Trial β} {w : Branches} (h : Follows m w) (greedy : Bool) (n : Nat) :
    Follows (runOn m greedy n) (waysOn w greedy n) := by
  induction n with
  | zero => intro r k; exact (firstOf_singleton k r).symm
  | succ n ih =>
    intro r k
    rw [waysOn, ← prefer_eq, firstOf_flatMap, firstOf_singleton, runOn]
    simp only [h r, ih _ k]
    congr 2
    funext r'
    split <;> rfl

theorem Follows.plus {m : Trial β} {w : Branches} (h : Follows m w) (greedy : Bool) :
    Follows (runPlus m greedy) (waysPlus w greedy) := by
  intro r k
  rw [waysPlus, firstOf_flatMap, runPlus, h r]
  congr 1
  funext r'
  split
  · exact h.on greedy _ r' k
  · exact (firstOf_singleton k r').symm

theorem Follows.rep {m : Trial β} {w : Branches} (h : Follows m w) (least : Nat)
    (most : Option Nat) (greedy : Bool) :
    Follows (runRep m least most greedy) (waysRep w least most greedy) := by
  intro r k
  match least, most with
  | 0, none =>
    simp only [runRep, waysRep]
    rw [← prefer_eq, firstOf_singleton, h.plus greedy r k]
  | n + 1, none =>
    simp only [runRep, waysRep, firstOf_flatMap]
    rw [h.times n r]
    congr 1
    funext r'
    exact h.plus greedy r' k
  | 0, some top =>
    simp only [runRep, waysRep, firstOf_flatMap]
    rw [h.times 0 r]
    congr 1
    funext r'
    exact h.upTo greedy _ r' k
  | n + 1, some top =>
    simp only [runRep, waysRep, firstOf_flatMap]
    rw [h.times (n + 1) r]
    congr 1
    funext r'
    exact h.upTo greedy _ r' k

/-- Running a pattern without marks is trying its ways in order. -/
theorem run_eq_firstOf {p : Pattern} (h : p.unmarked) (r : Reach) (k : Reach → Search β) :
    p.run r k = firstOf k (p.ways r) := by
  induction p generalizing r k with
  | empty => exact (firstOf_singleton k r).symm
  | one s => cases hr : r.take? s <;> simp [run, ways, hr]
  | edge e => simp only [run, ways]; split <;> simp
  | seq p q ihp ihq =>
    simp only [unmarked, Bool.and_eq_true] at h
    simp only [run, ways, ihp h.1, ihq h.2, firstOf_flatMap]
  | alt p q ihp ihq =>
    simp only [unmarked, Bool.and_eq_true] at h
    simp only [run, ways, ihp h.1, ihq h.2, firstOf_append]
  | group i p ih => simp only [run, ways, ih h, firstOf_map]
  | rep p least most greedy ih => exact Follows.rep (fun r k => ih h r k) least most greedy r k
  | mark i => simp [unmarked] at h

/-- The match of a pattern without marks is the first of its ways. -/
theorem match?_eq_head? {p : Pattern} (h : p.unmarked) (r : Reach) :
    p.match? r = (p.ways r).head? := by
  rw [match?, run_eq_firstOf h, firstOf_answer]

end Highlighter.Pattern
