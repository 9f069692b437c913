import Highlighter.Proofs.Frames

/-! Starts of lines. Behind a newline a scanner in its first state is as good as new. Proved:
what it does from there on is what a scan of the text ahead does, further down; and a newline
is taken as plain text in a state whose rules before the one for it stay in their line. -/

namespace Highlighter

namespace Scanner

variable {s : Scanner}

structure AtLine (st : Stack) (n : Nat) (cs : List Char) (s : Scanner) : Prop where
  stack_eq : s.stack = st
  before_eq : s.before = some '\n'
  rest_eq : s.rest = cs
  location_eq : s.location = ⟨n, 0⟩
  idle_eq : s.idle = 0

theorem AtLine.eq_within_last {n : Nat} {cs : List Char} (h : AtLine .root n cs s) :
    s = (start cs).within .last n s.trail := by
  obtain ⟨stack, before, rest, location, idle, trail⟩ := s
  obtain ⟨hstack, hbefore, hrest, hlocation, hidle⟩ := h
  simp_all [within, start, Frame.last, Location.down, Location.start]

/-- A scan that comes to the start of a line in its first state goes on as a scan of its own. -/
theorem scan_of_atLine {rs : RuleSet} (hrs : rs.staysWithin .last) {source rest : String}
    {k n : Nat} (h : AtLine .root n rest.toList ((start source.toList).run rs k)) :
    (rs.scan source).tokens = ((start source.toList).run rs k).tokens ++
        (rs.scan rest).tokens.map (·.down n) ∧
      (rs.scan source).depth = (rs.scan rest).depth := by
  have heq := h.eq_within_last
  have hrun := run_within_last hrs (start rest.toList) n ((start source.toList).run rs k).trail
    ((idleLimit + 1) * rest.toList.length)
  rw [← heq, ← run_add] at hrun
  have hscan : rs.scan source =
      (rs.scan rest).within .last n ((start source.toList).run rs k).trail := by
    refine (run_eq_run (rest_scan rs source) ?_).trans hrun
    rw [hrun]
    change (rs.scan rest).rest ++ [] = []
    rw [rest_scan, List.append_nil]
  rw [hscan, tokens_within]
  exact ⟨rfl, rfl⟩

end Scanner

/-! ### Newlines -/

/-- Whether the rules take a newline as plain text and stay in their state. -/
def takesNewline : List Rule → Bool
  | [] => false
  | r :: rs =>
    if r.isNewline then r.move = .stay
    else r.staysInLine && !r.pattern.canBeEmpty && takesNewline rs

namespace Scanner

variable {s : Scanner}

theorem findSome?_newline {cs : List Char} (hr : s.rest = '\n' :: cs) {rs : List Rule}
    (h : takesNewline rs) : ∃ r, rs.findSome? (fun r => (s.effect? r).map (r, ·)) =
      some (r, ⟨some '\n', cs, 1, []⟩) ∧ r.action = .emit .text ∧ r.move = .stay := by
  induction rs with
  | nil => cases h
  | cons r rs ih =>
    rw [takesNewline] at h
    split_ifs at h with hn
    · have hmove : r.move = .stay := by simpa using h
      have haction := hn
      simp only [Rule.isNewline, Bool.and_eq_true, decide_eq_true_eq] at haction
      refine ⟨r, findSome?_of_effect? ?_, haction.2, hmove⟩
      rw [effect?, Rule.match?_newline hn, hr]
      rfl
    · simp only [Bool.and_eq_true, Bool.not_eq_true'] at h
      have hnone : s.effect? r = none := by
        rw [effect?, hr, Rule.match?_newline_eq_none h.1.1 h.1.2]
        rfl
      rw [findSome?_of_effect?_eq_none hnone]
      exact ih h.2

theorem step_newline_stay (rs : RuleSet) {cs : List Char} (hr : s.rest = '\n' :: cs)
    (h : takesNewline (rs.rules s.stack.top)) :
    AtLine s.stack (s.location.line + 1) cs (s.step rs) ∧
      (s.step rs).tokens = s.tokens ++ [⟨s.location, .text, "\n"⟩] := by
  obtain ⟨r, hsel, haction, hmove⟩ := findSome?_newline hr h
  have hselect : s.select rs = some (r, ⟨some '\n', cs, 1, []⟩) := hsel
  rw [step_of_select hselect Nat.one_pos]
  constructor
  · constructor <;> simp [apply, advance, happen, hr, hmove, Move.apply, Location.next]
  · change (s.apply r ⟨some '\n', cs, 1, []⟩).tokens = _
    rw [tokens_apply, haction, hr]
    rfl

end Scanner

end Highlighter
