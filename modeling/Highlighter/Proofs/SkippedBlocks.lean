import Highlighter.Proofs.Directives
import Highlighter.Proofs.LineStarts

/-! Skipped blocks. The scanner keeps one state on its stack for each block that is open, and
each line moves the stack by its role. Proved: behind `#if 0` each line comes out as one token
up to the line where the count of the scanner ends the block, and what is behind that line is
scanned as if it stood alone. A branch of an inner block is one that the scanner counts and
the preprocessor does not, so there the block ends too early. -/

namespace Highlighter

open Pattern Rules.EngineCpp

/-! ### Tokens of lines -/

/-- A line that is skipped is one token, and its newline is another. -/
def Line.tokens (l : Line) (n : Nat) : List Token :=
  (if l.chars = [] then [] else [⟨⟨n, 0⟩, l.role.kind, String.ofList l.chars⟩]) ++
    [⟨⟨n, l.chars.length⟩, .text, "\n"⟩]

def lineTokens : Nat → List Line → List Token
  | _, [] => []
  | n, l :: ls => l.tokens n ++ lineTokens (n + 1) ls

/-! ### Lines of a block -/

/-- The first state with a number of skipped blocks above it. -/
def nested : Nat → Stack
  | 0 => .root
  | d + 1 => (nested d).push skipped

theorem apply_move_nested (r : Role) (d : Nat) :
    r.move.apply (nested (d + 1)) = nested (r.count (d + 1)) := by
  cases r <;> rfl

/-- A newline is taken both in a skipped block and outside of it. -/
theorem takesNewline_nested (d : Nat) : takesNewline (Rules.engineCpp.rules (nested d).top) := by
  cases d with
  | zero => decide
  | succ d =>
    have h : takesNewline (Rules.engineCpp.rules skipped) := by decide
    exact h

namespace Scanner

variable {s : Scanner} {l : Line} {d n : Nat} {cs : List Char}

structure TakesLine (l : Line) (d n : Nat) (cs : List Char) (s s' : Scanner) : Prop where
  stack_eq : s'.stack = nested d
  rest_eq : s'.rest = '\n' :: cs
  location_eq : s'.location = ⟨n, l.chars.length⟩
  tokens_eq : s'.tokens = s.tokens ++ [⟨⟨n, 0⟩, l.role.kind, String.ofList l.chars⟩]

theorem takesLine_of_select {st : Stack} {r : Rule} {m : Reach}
    (h : AtLine st n (l.chars ++ '\n' :: cs) s) (hsel : s.select Rules.engineCpp = some (r, m))
    (hpos : 0 < m.taken) (ht : m.taken = l.chars.length)
    (hcut : cut s.location s.rest (r.action.pieces m) =
      [⟨⟨n, 0⟩, l.role.kind, String.ofList l.chars⟩])
    (hmove : r.move.apply st = nested d) : TakesLine l d n cs s (s.step Rules.engineCpp) := by
  rw [step_of_select hsel hpos]
  constructor
  · change r.move.apply s.stack = _
    rw [h.stack_eq, hmove]
  · change s.rest.drop m.taken = _
    rw [h.rest_eq, ht, List.drop_left]
  · change s.location.after (s.rest.take m.taken) = _
    rw [h.rest_eq, ht, List.take_left, h.location_eq,
      Location.after_of_not_mem _ l.newline_free, Nat.zero_add]
  · exact (tokens_apply s r m).trans (by rw [hcut])

/-- The step over a line of a block that is not empty. -/
theorem takesLine_step (hne : l.chars ≠ [])
    (h : AtLine (nested (d + 1)) n (l.chars ++ '\n' :: cs) s) :
    TakesLine l (l.role.count (d + 1)) n cs s (s.step Rules.engineCpp) := by
  have hst : s.stack.top = skipped := by rw [h.stack_eq]; rfl
  obtain ⟨r, m, hsel, ht, haction, hmove⟩ := select_line hne hst h.before_eq h.rest_eq
  have hpos : 0 < m.taken := by rw [ht]; exact List.length_pos_iff.2 hne
  have hpiece : piece l.role.kind m.taken = [(l.role.kind, l.chars.length)] := by
    rw [piece, if_neg (by omega), ht]
  refine takesLine_of_select h hsel hpos ht ?_ (by rw [hmove, apply_move_nested])
  rw [haction, h.location_eq, h.rest_eq]
  simp only [Action.pieces, hpiece, cut, List.take_left]

theorem run_of_takesLine (hne : l.chars ≠ []) (hr : s.rest ≠ [])
    (h : TakesLine l d n cs s (s.step Rules.engineCpp)) :
    AtLine (nested d) (n + 1) cs (s.run Rules.engineCpp 2) ∧
      (s.run Rules.engineCpp 2).tokens = s.tokens ++ l.tokens n := by
  obtain ⟨hstack, hrest, hlocation, htokens⟩ := h
  have hnl := step_newline_stay Rules.engineCpp hrest (by
    rw [hstack]; exact takesNewline_nested _)
  rw [run_succ hr, run_succ (by rw [hrest]; simp)]
  simpa [run, hstack, hlocation, htokens, Line.tokens, hne] using hnl

/-- An empty line is only its newline, wherever the scanner is. -/
theorem run_of_chars_eq_nil (hnil : l.chars = [])
    (h : AtLine (nested d) n (l.chars ++ '\n' :: cs) s) :
    AtLine (nested (l.role.count d)) (n + 1) cs (s.run Rules.engineCpp 1) ∧
      (s.run Rules.engineCpp 1).tokens = s.tokens ++ l.tokens n := by
  have hr : s.rest = '\n' :: cs := by rw [h.rest_eq, hnil]; rfl
  have hnl := step_newline_stay Rules.engineCpp hr (by
    rw [h.stack_eq]; exact takesNewline_nested _)
  rw [run_succ (by rw [hr]; simp), l.role_of_chars_eq_nil hnil]
  simpa [run, h.stack_eq, h.location_eq, Line.tokens, hnil, Role.count] using hnl

/-- A line of a block and its newline come out, and the stack is that of the count. -/
theorem exists_run_line (h : AtLine (nested (d + 1)) n (l.chars ++ '\n' :: cs) s) :
    ∃ k, AtLine (nested (l.role.count (d + 1))) (n + 1) cs (s.run Rules.engineCpp k) ∧
      (s.run Rules.engineCpp k).tokens = s.tokens ++ l.tokens n := by
  by_cases hne : l.chars = []
  · exact ⟨1, run_of_chars_eq_nil hne h⟩
  · exact ⟨2, run_of_takesLine hne (by rw [h.rest_eq]; simp) (takesLine_step hne h)⟩

/-- The lines of a block come out one by one, up to the line that ends it. -/
theorem exists_run_block {ls : List Line}
    (h : AtLine (nested d) n (unlines (blockLines Role.count d ls) ++ cs) s) :
    ∃ k, AtLine (nested (depthBehind Role.count d ls))
        (n + (blockLines Role.count d ls).length) cs (s.run Rules.engineCpp k) ∧
      (s.run Rules.engineCpp k).tokens =
        s.tokens ++ lineTokens n (blockLines Role.count d ls) := by
  induction ls generalizing d n s with
  | nil =>
    refine ⟨0, ?_⟩
    simpa [run, lineTokens] using h
  | cons l ls ih =>
    cases d with
    | zero =>
      refine ⟨0, ?_⟩
      simpa [run, lineTokens] using h
    | succ d =>
      rw [blockLines, unlines_cons, List.append_assoc, List.cons_append] at h
      obtain ⟨k, hline, htokens⟩ := exists_run_line h
      obtain ⟨k', hblock, htokens'⟩ := ih hline
      refine ⟨k + k', ?_⟩
      rw [run_add, htokens', htokens, List.append_assoc]
      have hn : n + (blockLines Role.count (d + 1) (l :: ls)).length =
          n + 1 + (blockLines Role.count (l.role.count (d + 1)) ls).length := by
        rw [blockLines, List.length_cons]
        omega
      rw [hn]
      exact ⟨hblock, rfl⟩

end Scanner

/-! ### The first line -/

def ifZero : Line := ⟨"#if 0".toList, by decide⟩

def ifZeroRule : Rule := statements.head (List.cons_ne_nil _ _)

theorem match?_ifZero : ifZeroRule.match? none ifZero.chars =
    some ⟨some '0', [], 5, [⟨2, 0, 5⟩, ⟨1, 0, 0⟩]⟩ := by decide

namespace Scanner

/-- The first line of a block takes two steps, one of them over the newline. -/
theorem run_ifZero (cs : List Char) :
    AtLine (nested 1) 1 cs ((start (ifZero.chars ++ '\n' :: cs)).run Rules.engineCpp 2) ∧
      ((start (ifZero.chars ++ '\n' :: cs)).run Rules.engineCpp 2).tokens = ifZero.tokens 0 := by
  have hframe := Rule.match?_within (r := ifZeroRule) (by decide) none ifZero.chars
    (.first cs)
  rw [match?_ifZero] at hframe
  have hsel : (start (ifZero.chars ++ '\n' :: cs)).select Rules.engineCpp =
      some (ifZeroRule, ⟨some '0', '\n' :: cs, 5, [⟨2, 0, 5⟩, ⟨1, 0, 0⟩]⟩) := by
    change (ifZeroRule :: statements.tail).findSome? _ = _
    refine findSome?_of_effect? ?_
    rw [effect?]
    exact congrArg (Option.filter _) hframe
  have hstep := step_of_select hsel (show 0 < 5 by decide)
  have hrest : ((start (ifZero.chars ++ '\n' :: cs)).step Rules.engineCpp).rest = '\n' :: cs := by
    rw [hstep]; rfl
  have hnl := step_newline_stay Rules.engineCpp hrest
    (by rw [hstep]; exact takesNewline_nested 1)
  rw [run_succ (by simp [start]), run_succ (by rw [hrest]; simp)]
  rw [hstep] at hnl ⊢
  exact hnl

end Scanner

/-! ### Blocks -/

/-- The lines come out one by one, and what is behind them is scanned as if it stood alone. -/
def RuleSet.ScansApart (rs : RuleSet) (ls : List Line) (rest : String) : Prop :=
  (rs.scan (String.ofList (unlines ls) ++ rest)).tokens =
      lineTokens 0 ls ++ (rs.scan rest).tokens.map (·.down ls.length) ∧
    (rs.scan (String.ofList (unlines ls) ++ rest)).depth = (rs.scan rest).depth

theorem staysWithin_last : Rules.engineCpp.staysWithin .last := by decide

/-- A block is apart from what is behind the line that ends it in the count of the scanner. -/
theorem scansApart_block {ls : List Line} (h : depthBehind Role.count 1 ls = 0) (rest : String) :
    Rules.engineCpp.ScansApart (ifZero :: blockLines Role.count 1 ls) rest := by
  have htext : (String.ofList (unlines (ifZero :: blockLines Role.count 1 ls)) ++ rest).toList =
      ifZero.chars ++ '\n' :: (unlines (blockLines Role.count 1 ls) ++ rest.toList) := by
    simp [String.toList_append]
  obtain ⟨hfirst, hfirst'⟩ :=
    Scanner.run_ifZero (unlines (blockLines Role.count 1 ls) ++ rest.toList)
  obtain ⟨k, hblock, hblock'⟩ := Scanner.exists_run_block hfirst
  rw [h, ← Scanner.run_add, ← htext] at hblock
  rw [← Scanner.run_add, ← htext] at hblock'
  obtain ⟨htokens, hdepth⟩ := Scanner.scan_of_atLine staysWithin_last hblock
  rw [hblock', htext, hfirst'] at htokens
  rw [Nat.add_comm] at htokens
  exact ⟨htokens, hdepth⟩

end Highlighter
