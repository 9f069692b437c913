import Mathlib.Data.List.TakeWhile
import Mathlib.Tactic.SplitIfs
import Highlighter.Text.CharClass

/-! Conditional blocks, line by line. The preprocessor tells by the directives in its lines
where a block ends that it skips: `#if` nests, `#endif` ends the innermost block, and another
branch ends the block only if it is one of its own. A simpler count takes each branch for an
end. Proved: the simpler count is never deeper, it ends a block with the same line if no inner
block has another branch, and it is never caught up with behind such a branch. -/

namespace Highlighter

structure Line where
  chars : List Char
  newline_free : '\n' ∉ chars
  deriving DecidableEq

def unlines (ls : List Line) : List Char := ls.flatMap fun l => l.chars ++ ['\n']

@[simp] theorem unlines_nil : unlines [] = [] := rfl

@[simp] theorem unlines_cons (l : Line) (ls : List Line) :
    unlines (l :: ls) = l.chars ++ '\n' :: unlines ls := by
  simp [unlines]

/-! ### Directives -/

def isBlank (c : Char) : Bool := c == ' ' || c == '\t'

/-- What is behind the `#` of a directive and the blanks after it. -/
def directive? (cs : List Char) : Option (List Char) :=
  match cs.dropWhile isBlank with
  | '#' :: ds => some (ds.dropWhile isBlank)
  | _ => none

theorem directive?_eq_some {cs ds : List Char} : directive? cs = some ds ↔
    ∃ bs bs', cs = bs ++ '#' :: (bs' ++ ds) ∧ (∀ c ∈ bs, isBlank c) ∧ (∀ c ∈ bs', isBlank c) ∧
      ¬ ds.head?.any isBlank := by
  constructor
  · intro h
    have hcs := List.takeWhile_append_dropWhile (p := isBlank) (l := cs)
    unfold directive? at h
    split at h
    · next es hes =>
      cases h
      refine ⟨cs.takeWhile isBlank, es.takeWhile isBlank, ?_, ?_, ?_, ?_⟩
      · rw [List.takeWhile_append_dropWhile, ← hes, hcs]
      · exact fun c hc => List.mem_takeWhile_imp hc
      · exact fun c hc => List.mem_takeWhile_imp hc
      · have hhead := List.head?_dropWhile_not isBlank es
        cases hds : (es.dropWhile isBlank).head? with
        | none => simp
        | some c => rw [hds] at hhead; simp [hhead]
    · cases h
  · rintro ⟨bs, bs', rfl, hbs, hbs', hds⟩
    have hdrop : ds.dropWhile isBlank = ds := by
      cases ds with
      | nil => rfl
      | cons d ds => exact List.dropWhile_cons_of_neg (by simpa using hds)
    rw [directive?, List.dropWhile_append_of_pos hbs, List.dropWhile_cons_of_neg (by decide)]
    simp only
    rw [List.dropWhile_append_of_pos hbs', hdrop]

def startsWith (w : String) (cs : List Char) : Bool := w.toList.isPrefixOf cs

def startsWithWord (w : String) (cs : List Char) : Bool :=
  startsWith w cs && !(cs.drop w.length).head?.any Text.isWord

def isBranch (cs : List Char) : Bool := startsWithWord "else" cs || startsWithWord "elif" cs

/-- What a line does to the conditional block that it stands in. -/
inductive Role where
  | opens | closes | branches | plain
  deriving DecidableEq, Repr

namespace Line

def directs (l : Line) (form : List Char → Bool) : Bool := (directive? l.chars).any form

def role (l : Line) : Role :=
  if l.directs (startsWith "if") then .opens
  else if l.directs (startsWith "endif") then .closes
  else if l.directs isBranch then .branches
  else .plain

theorem role_of_chars_eq_nil {l : Line} (h : l.chars = []) : l.role = .plain := by
  rw [role, directs, directs, directs, h]
  rfl

end Line

/-! ### Depths -/

namespace Role

/-- The depth behind a line. Another branch of the outermost block ends what is skipped. -/
def nest : Role → Nat → Nat
  | opens, d => d + 1
  | closes, d => d - 1
  | branches, d => if d ≤ 1 then 0 else d
  | plain, d => d

/-- The depth behind a line if each branch counts as an end. -/
def count : Role → Nat → Nat
  | opens, d => d + 1
  | closes, d | branches, d => d - 1
  | plain, d => d

theorem count_le_nest (r : Role) {c d : Nat} (h : c ≤ d) : r.count c ≤ r.nest d := by
  cases r with
  | branches => simp only [count, nest]; split_ifs <;> omega
  | opens | closes | plain => simp only [count, nest]; omega

theorem count_lt_nest (r : Role) {c d : Nat} (h : c < d) (hd : r.nest d ≠ 0) :
    r.count c < r.nest d := by
  cases r with
  | branches => simp only [count, nest] at hd ⊢; split_ifs at hd ⊢ <;> omega
  | opens | closes | plain => simp only [count, nest] at hd ⊢; omega

theorem count_eq_nest {r : Role} (h : r ≠ branches) : r.count = r.nest := by
  cases r <;> first | rfl | exact absurd rfl h

end Role

/-- The depth behind some lines. At depth 0 the block has ended, and what is behind it does
not count. -/
def depthBehind (step : Role → Nat → Nat) : Nat → List Line → Nat
  | 0, _ => 0
  | d + 1, [] => d + 1
  | d + 1, l :: ls => depthBehind step (step l.role (d + 1)) ls

/-- The lines up to the one that ends the block. -/
def blockLines (step : Role → Nat → Nat) : Nat → List Line → List Line
  | 0, _ => []
  | _ + 1, [] => []
  | d + 1, l :: ls => l :: blockLines step (step l.role (d + 1)) ls

section Depth

variable {step : Role → Nat → Nat}

@[simp] theorem depthBehind_zero (ls : List Line) : depthBehind step 0 ls = 0 := by
  cases ls <;> rfl

@[simp] theorem depthBehind_nil (d : Nat) : depthBehind step d [] = d := by
  cases d <;> rfl

@[simp] theorem blockLines_zero (ls : List Line) : blockLines step 0 ls = [] := by
  cases ls <;> rfl

@[simp] theorem blockLines_nil (d : Nat) : blockLines step d [] = [] := by
  cases d <;> rfl

theorem depthBehind_append (d : Nat) (ls ks : List Line) :
    depthBehind step d (ls ++ ks) = depthBehind step (depthBehind step d ls) ks := by
  induction ls generalizing d with
  | nil => simp
  | cons l ls ih =>
    cases d with
    | zero => simp
    | succ d => exact ih _

theorem prefix_blockLines (step : Role → Nat → Nat) (d : Nat) (ls : List Line) :
    blockLines step d ls <+: ls := by
  induction ls generalizing d with
  | nil => simp
  | cons l ls ih =>
    cases d with
    | zero => simp
    | succ d => exact List.prefix_cons_inj l |>.2 (ih _)

/-- A line belongs to a block that the lines before it have not ended. -/
theorem blockLines_append_singleton {d : Nat} {ls : List Line} (l : Line)
    (h : depthBehind step d ls ≠ 0) : blockLines step d (ls ++ [l]) = ls ++ [l] := by
  induction ls generalizing d with
  | nil =>
    cases d with
    | zero => simp at h
    | succ d => simp [blockLines]
  | cons k ls ih =>
    cases d with
    | zero => simp at h
    | succ d => exact congrArg (k :: ·) (ih h)

end Depth

/-! ### The two counts -/

theorem depthBehind_count_le {c d : Nat} (h : c ≤ d) (ls : List Line) :
    depthBehind Role.count c ls ≤ depthBehind Role.nest d ls := by
  induction ls generalizing c d with
  | nil => simpa using h
  | cons l ls ih =>
    cases c with
    | zero => simp
    | succ c =>
      obtain ⟨d, rfl⟩ : ∃ k, d = k + 1 := ⟨d - 1, by omega⟩
      exact ih (l.role.count_le_nest h)

theorem depthBehind_count_eq {d : Nat} {ls : List Line} (h : ∀ l ∈ ls, l.role ≠ .branches) :
    depthBehind Role.count d ls = depthBehind Role.nest d ls := by
  induction ls generalizing d with
  | nil => simp
  | cons l ls ih =>
    obtain ⟨hl, hls⟩ := List.forall_mem_cons.1 h
    cases d with
    | zero => simp
    | succ d =>
      rw [depthBehind, depthBehind, Role.count_eq_nest hl]
      exact ih hls

/-- The simpler count has left a block, or leaves it at a branch of an inner one. -/
def EndsEarly (c d : Nat) (ls : List Line) : Prop :=
  c < d ∨ c = d ∧ ∃ l ∈ ls, l.role = .branches

/-- A block that the simpler count leaves too early is never caught up with. -/
theorem EndsEarly.tail {c d : Nat} {l : Line} {ls : List Line} (h : EndsEarly c d (l :: ls))
    (hd : l.role.nest d ≠ 0) : EndsEarly (l.role.count c) (l.role.nest d) ls := by
  rcases h with hlt | ⟨rfl, k, hk, hr⟩
  · exact .inl (l.role.count_lt_nest hlt hd)
  · by_cases hl : l.role = .branches
    · rw [hl, Role.nest] at hd
      have hc : ¬ c ≤ 1 := fun h1 => hd (if_pos h1)
      rw [hl]
      refine .inl ?_
      simp only [Role.count, Role.nest, if_neg hc]
      omega
    · refine .inr ⟨by rw [Role.count_eq_nest hl], k, ?_, hr⟩
      exact (List.mem_cons.1 hk).resolve_left fun hkl => hl (hkl ▸ hr)

/-! ### Skipped blocks -/

/-- A block that is skipped from its second line on, up to the line that closes it. -/
structure SkippedBlock where
  body : List Line
  close : Line
  /-- No line of the body ends the block, and all blocks in it are closed. -/
  depth_body : depthBehind Role.nest 1 body = 1
  close_ends : close.role = .closes ∨ close.role = .branches

namespace SkippedBlock

variable (b : SkippedBlock)

/-- The lines behind the first one. -/
def lines : List Line := b.body ++ [b.close]

/-- The lines up to the one that ends the block if each branch does. -/
def counted : List Line := blockLines Role.count 1 b.lines

def left : List Line := b.lines.drop b.counted.length

theorem counted_append_left : b.counted ++ b.left = b.lines :=
  List.prefix_iff_eq_append.1 (prefix_blockLines Role.count 1 b.lines)

theorem depthBehind_lines : depthBehind Role.count 1 b.lines = 0 := by
  have hle := depthBehind_count_le (Nat.le_refl 1) b.lines
  have hnest : depthBehind Role.nest 1 b.lines = 0 := by
    rw [lines, depthBehind_append, b.depth_body]
    rcases b.close_ends with h | h <;> simp [depthBehind, h, Role.nest]
  omega

/-- All lines are counted if no inner block has another branch. -/
theorem counted_eq_lines (h : ∀ l ∈ b.body, l.role ≠ .branches) : b.counted = b.lines := by
  refine blockLines_append_singleton b.close ?_
  rw [depthBehind_count_eq h, b.depth_body]
  exact Nat.one_ne_zero

end SkippedBlock

end Highlighter
