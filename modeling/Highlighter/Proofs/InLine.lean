import Highlighter.Pattern.Ways
import Highlighter.Proofs.Matches

/-! Patterns that stay in their line. They have no set with a newline in it and do not ask
for the ends of the text, so the end of a line is to them what the end of the text is.
Proved: such a pattern has the same ways over a line that stands within a longer text as
over the line alone, and a pattern that only has to fit one frame has them in that one. -/

namespace Highlighter

/-- What stands around a line: nothing or a newline behind its start, and nothing or a
newline and more text ahead of its end. -/
structure Frame where
  behind : Option Char
  ahead : List Char
  behind_newline : behind.all (· == '\n')
  ahead_newline : ahead.head?.all (· == '\n')

namespace Frame

def first (cs : List Char) : Frame := ⟨none, '\n' :: cs, rfl, rfl⟩

def last : Frame := ⟨some '\n', [], rfl, rfl⟩

def between (cs : List Char) : Frame := ⟨some '\n', '\n' :: cs, rfl, rfl⟩

end Frame

namespace CharSet

/-- Whether the end of the framed line is to the set what the end of the text is. -/
def staysWithin (f : Frame) (s : CharSet) : Bool := f.ahead.isEmpty || !s.has '\n'

end CharSet

/-! ### Places in a line -/

theorem any_isWord_or (o : Option Char) {o' : Option Char} (h : o'.all (· == '\n')) :
    (o.or o').any Text.isWord = o.any Text.isWord := by
  cases o with
  | some c => rfl
  | none =>
    cases o' with
    | none => rfl
    | some c =>
      have hc : c = '\n' := by simpa using h
      subst hc; decide

theorem all_newline_or (o : Option Char) {o' : Option Char} (h : o'.all (· == '\n')) :
    (o.or o').all (· == '\n') = o.all (· == '\n') := by
  cases o with
  | some c => rfl
  | none => simpa using h

namespace Edge

def isTextEdge : Edge → Bool
  | textStart | textEnd => true
  | _ => false

/-- Whether the frame does not hide an end of the text that the edge asks for. -/
def staysWithin (f : Frame) : Edge → Bool
  | textStart => f.behind.isNone
  | textEnd => f.ahead.isEmpty
  | _ => true

theorem staysWithin_of_isTextEdge {e : Edge} (h : e.isTextEdge = false) (f : Frame) :
    e.staysWithin f := by
  cases e <;> first | rfl | cases h

theorem holds_or {e : Edge} {f : Frame} (h : e.staysWithin f) (before after : Option Char) :
    e.holds (before.or f.behind) (after.or f.ahead.head?) = e.holds before after := by
  have hb := f.behind_newline
  have ha := f.ahead_newline
  cases e with
  | textStart => rw [Option.isNone_iff_eq_none.1 h, Option.or_none]; rfl
  | textEnd => rw [List.isEmpty_iff.1 h, List.head?_nil, Option.or_none]; rfl
  | lineStart => exact all_newline_or before hb
  | lineEnd => exact all_newline_or after ha
  | wordBoundary | noWordBoundary | wordStart | wordEnd =>
    simp only [holds, any_isWord_or _ hb, any_isWord_or _ ha]

end Edge

namespace Reach

/-- The same place, with the line in a frame. -/
def within (r : Reach) (f : Frame) : Reach :=
  { r with before := r.before.or f.behind, rest := r.rest ++ f.ahead }

@[simp] theorem taken_within (r : Reach) (f : Frame) : (r.within f).taken = r.taken := rfl

theorem take?_within (r : Reach) (f : Frame) {s : CharSet} (hs : s.staysWithin f) :
    (r.within f).take? s = (r.take? s).map (·.within f) := by
  obtain ⟨before, rest, taken, spans⟩ := r
  cases rest with
  | cons c cs =>
    simp only [take?, within, List.cons_append]
    split_ifs <;> rfl
  | nil =>
    obtain ⟨behind, ahead, hb, ha⟩ := f
    cases ahead with
    | nil => rfl
    | cons c cs =>
      have hc : c = '\n' := by simpa using ha
      have hs' : s.has '\n' = false := by simpa [CharSet.staysWithin] using hs
      simp [take?, within, hc, hs']

theorem atEdge_within (r : Reach) (f : Frame) {e : Edge} (he : e.staysWithin f) :
    (r.within f).atEdge e = r.atEdge e := by
  rw [atEdge, within, List.head?_append]
  exact Edge.holds_or he _ _

end Reach

namespace Pattern

/-- Whether the pattern takes no newline and does not see the ends of the text. -/
def staysInLine : Pattern → Bool
  | empty => true
  | one s => !s.has '\n'
  | edge e => !e.isTextEdge
  | seq p q | alt p q => p.staysInLine && q.staysInLine
  | group _ p | rep p _ _ _ => p.staysInLine
  | mark _ => false

/-- Whether the frame is to the pattern what the ends of the text are. -/
def staysWithin (f : Frame) : Pattern → Bool
  | empty => true
  | one s => s.staysWithin f
  | edge e => e.staysWithin f
  | seq p q | alt p q => p.staysWithin f && q.staysWithin f
  | group _ p | rep p _ _ _ => p.staysWithin f
  | mark _ => false

theorem staysWithin_of_staysInLine {p : Pattern} (h : p.staysInLine) (f : Frame) :
    p.staysWithin f := by
  induction p with
  | empty => rfl
  | one s =>
    simp only [staysInLine] at h
    simp [staysWithin, CharSet.staysWithin, h]
  | edge e => exact Edge.staysWithin_of_isTextEdge (by simpa [staysInLine] using h) f
  | seq p q ihp ihq | alt p q ihp ihq =>
    simp only [staysInLine, Bool.and_eq_true] at h
    simp only [staysWithin, ihp h.1, ihq h.2, Bool.and_self]
  | group _ p ih | rep p _ _ _ ih => exact ih h
  | mark => cases h

theorem unmarked_of_staysWithin {f : Frame} {p : Pattern} (h : p.staysWithin f) : p.unmarked := by
  induction p with
  | empty | one | edge => rfl
  | seq p q ihp ihq | alt p q ihp ihq =>
    simp only [staysWithin, Bool.and_eq_true] at h
    simp only [unmarked, ihp h.1, ihq h.2, Bool.and_self]
  | group _ p ih | rep p _ _ _ ih => exact ih h
  | mark => cases h

/-! ### Repetitions over enough text -/

theorem gives_firstOf {β : Type} {k : Reach → Search β} {l : List Reach} {r : Reach} {b : β}
    (hr : r ∈ l) (hk : k r = .answer b) (hk' : ∀ x, x ≠ r → k x = .fail) :
    (firstOf k l).Gives b := by
  induction l with
  | nil => simp at hr
  | cons x l ih =>
    by_cases hx : x = r
    · exact ⟨∅, ∅, by rw [firstOf_cons, hx, hk]; rfl⟩
    · rw [firstOf_cons, hk' x hx, fail_orElse]
      exact ih ((List.mem_cons.1 hr).resolve_left (Ne.symm hx))

/-- Each end of a pattern is reached from where it begins. -/
theorem leads_of_mem_ways {p : Pattern} (h : p.unmarked) {r r' : Reach} (hr : r' ∈ p.ways r) :
    r.Leads r' := by
  -- a search that accepts this end alone
  have hg : (p.run r fun x => if x = r' then .answer () else .fail).Gives () := by
    rw [run_eq_firstOf h]
    exact gives_firstOf hr (if_pos rfl) fun x hx => if_neg hx
  obtain ⟨x, hx, hk⟩ := sound_run p _ _ _ hg
  split_ifs at hk with he
  · rwa [← he]
  · exact absurd hk Search.not_gives_fail

def Leading (w : Branches) : Prop := ∀ r, ∀ r' ∈ w r, r.Leads r'

theorem waysOn_of_rest_eq_nil {w : Branches} (hw : Leading w) (greedy : Bool) (n : Nat)
    {r : Reach} (hr : r.rest.length = 0) : waysOn w greedy n r = [r] := by
  cases n with
  | zero => rfl
  | succ n =>
    have hnone : (w r).flatMap (fun r' => if r.taken < r'.taken then waysOn w greedy n r' else []) =
        [] := by
      rw [List.flatMap_eq_nil_iff]
      intro r' hr'
      have hadd := (hw r r' hr').taken_add
      exact if_neg (by omega)
    rw [waysOn, hnone]
    cases greedy <;> rfl

/-- Repetitions that each take something are bounded by the text ahead. -/
theorem waysOn_eq {w : Branches} (hw : Leading w) (greedy : Bool) {n k : Nat} {r : Reach}
    (hn : r.rest.length ≤ n) (hk : r.rest.length ≤ k) :
    waysOn w greedy n r = waysOn w greedy k r := by
  induction n generalizing k r with
  | zero =>
    have hr : r.rest.length = 0 := by omega
    rw [waysOn_of_rest_eq_nil hw greedy _ hr, waysOn_of_rest_eq_nil hw greedy _ hr]
  | succ n ih =>
    cases k with
    | zero =>
      have hr : r.rest.length = 0 := by omega
      rw [waysOn_of_rest_eq_nil hw greedy _ hr, waysOn_of_rest_eq_nil hw greedy _ hr]
    | succ k =>
      rw [waysOn, waysOn]
      congr 1
      rw [List.flatMap_def, List.flatMap_def]
      congr 1
      refine List.map_congr_left fun r' hr' => ?_
      have hadd := (hw r r' hr').taken_add
      split_ifs with hlt
      · exact ih (by omega) (by omega)
      · rfl

/-! ### Ways in a line -/

/-- Branches that are the same in a frame. -/
def FramedBy (f : Frame) (w : Branches) : Prop := ∀ r, w (r.within f) = (w r).map (·.within f)

namespace FramedBy

variable {f : Frame} {w w' : Branches}

theorem flatMap (hw : FramedBy f w) (hw' : FramedBy f w') :
    FramedBy f fun r => (w r).flatMap w' := by
  intro r
  simp only [hw r, List.flatMap_map, List.map_flatMap]
  exact congrArg (List.flatMap · (w r)) (funext hw')

theorem inOrder (hw : FramedBy f w) (greedy : Bool) :
    FramedBy f fun r => inOrder greedy (w r) [r] := by
  intro r
  cases greedy <;> simp [Pattern.inOrder, hw r]

theorem times (hw : FramedBy f w) (n : Nat) : FramedBy f (waysTimes w n) := by
  induction n with
  | zero => intro r; rfl
  | succ n ih => exact hw.flatMap ih

theorem upTo (hw : FramedBy f w) (greedy : Bool) (n : Nat) :
    FramedBy f (waysUpTo w greedy n) := by
  induction n with
  | zero => intro r; rfl
  | succ n ih => exact (hw.flatMap ih).inOrder greedy

theorem on (hw : FramedBy f w) (greedy : Bool) (n : Nat) : FramedBy f (waysOn w greedy n) := by
  induction n with
  | zero => intro r; rfl
  | succ n ih =>
    refine inOrder (w := fun r => (w r).flatMap fun r' =>
      if r.taken < r'.taken then waysOn w greedy n r' else []) ?_ greedy
    intro r
    simp only [hw r, List.flatMap_map, List.map_flatMap]
    congr 1
    funext r'
    by_cases hlt : r.taken < r'.taken
    · rw [if_pos hlt, if_pos (by exact hlt)]
      exact ih r'
    · rw [if_neg hlt, if_neg (by exact hlt)]
      rfl

theorem plus (hw : FramedBy f w) (hl : Leading w) (greedy : Bool) :
    FramedBy f (waysPlus w greedy) := by
  intro r
  simp only [waysPlus, hw r, List.flatMap_map, List.map_flatMap]
  congr 1
  funext r'
  by_cases hlt : r.taken < r'.taken
  · have hle : r'.rest.length ≤ (r'.within f).rest.length := by
      simp [Reach.within]
    rw [if_pos hlt, if_pos (by exact hlt), waysOn_eq hl greedy (Nat.le_refl _) hle]
    exact hw.on greedy _ r'
  · rw [if_neg hlt, if_neg (by exact hlt)]
    rfl

theorem rep (hw : FramedBy f w) (hl : Leading w) (least : Nat) (most : Option Nat)
    (greedy : Bool) : FramedBy f (waysRep w least most greedy) := by
  match least, most with
  | 0, none => exact (hw.plus hl greedy).inOrder greedy
  | n + 1, none => exact (hw.times n).flatMap (hw.plus hl greedy)
  | 0, some top => exact (hw.times 0).flatMap (hw.upTo greedy _)
  | n + 1, some top => exact (hw.times (n + 1)).flatMap (hw.upTo greedy _)

end FramedBy

/-- A pattern has the same ways in a frame that is to it what the ends of the text are. -/
theorem framedBy_ways {f : Frame} {p : Pattern} (h : p.staysWithin f) : FramedBy f p.ways := by
  induction p with
  | empty => intro r; rfl
  | one s =>
    intro r
    rw [ways, ways, Reach.take?_within r f h]
    cases r.take? s <;> rfl
  | edge e =>
    intro r
    rw [ways, ways, Reach.atEdge_within r f h]
    split_ifs <;> rfl
  | seq p q ihp ihq =>
    simp only [staysWithin, Bool.and_eq_true] at h
    exact (ihp h.1).flatMap (ihq h.2)
  | alt p q ihp ihq =>
    simp only [staysWithin, Bool.and_eq_true] at h
    intro r
    rw [ways, ways, ihp h.1 r, ihq h.2 r, List.map_append]
  | group i p ih =>
    intro r
    rw [ways, ways, ih h r, List.map_map, List.map_map]
    rfl
  | rep p least most greedy ih =>
    have hu : p.unmarked := unmarked_of_staysWithin h
    exact (ih h).rep (fun _ _ hr => leads_of_mem_ways hu hr) least most greedy
  | mark => cases h

theorem match?_within_of_staysWithin {p : Pattern} {f : Frame} (h : p.staysWithin f) (r : Reach) :
    p.match? (r.within f) = (p.match? r).map (·.within f) := by
  have hu := unmarked_of_staysWithin h
  rw [match?_eq_head? hu, match?_eq_head? hu, framedBy_ways h r, List.head?_map]

theorem match?_within {p : Pattern} (h : p.staysInLine) (r : Reach) (f : Frame) :
    p.match? (r.within f) = (p.match? r).map (·.within f) :=
  match?_within_of_staysWithin (staysWithin_of_staysInLine h f) r

end Pattern

end Highlighter
