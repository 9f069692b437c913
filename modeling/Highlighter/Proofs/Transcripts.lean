import Highlighter.Language
import Highlighter.Proofs.Frames

/-! Transcripts. Their rules take newlines one by one, each with a rule that goes back to the
first state, and all other rules stay in their line. So a scanner over a line within a longer
text does what it does over the line alone. Proved: a scan of two texts with a newline between
them is the scan of the first, the newline, and the scan of the second. -/

namespace Highlighter

/-! ### Rules that keep to their line -/

/-- Whether a rule keeps to its line. A rule that takes a newline goes back to the first
state; any other rule stays in the line, and leaves its state only with some text. After
each rule the states below are those that the new state is at home in. -/
def Rule.keepsLine (homes : List (List Nat)) (st : Stack) (r : Rule) : Bool :=
  homes[(r.move.apply st).top]? = some (r.move.apply st).below &&
    if r.isNewline then r.move.apply st = .root
    else r.staysInLine && (r.move = .stay || !r.pattern.canBeEmpty)

namespace RuleSet

/-- Whether all rules keep to their lines and a newline is taken in each state. The states
below each state are listed in `homes`. -/
def keepsLines (rs : RuleSet) (homes : List (List Nat)) : Bool :=
  homes.head? = some [] && homes.zipIdx.all fun (below, q) =>
    (rs.rules q).all (Rule.keepsLine homes ⟨q, below⟩) && (rs.rules q).any Rule.isNewline

variable {rs : RuleSet} {homes : List (List Nat)} {st : Stack}

theorem home_root (h : rs.keepsLines homes) : homes[0]? = some [] := by
  simp only [keepsLines, Bool.and_eq_true, decide_eq_true_eq] at h
  rw [← List.head?_eq_getElem?, h.1]

theorem keepsLine_of_mem (h : rs.keepsLines homes) (hst : homes[st.top]? = some st.below)
    {r : Rule} (hr : r ∈ rs.rules st.top) : r.keepsLine homes st := by
  simp only [keepsLines, Bool.and_eq_true, List.all_eq_true] at h
  exact (h.2 (st.below, st.top) (List.mk_mem_zipIdx_iff_getElem?.2 hst)).1 r hr

theorem exists_newline (h : rs.keepsLines homes) (hst : homes[st.top]? = some st.below) :
    ∃ r ∈ rs.rules st.top, r.isNewline := by
  simp only [keepsLines, Bool.and_eq_true, List.all_eq_true, List.any_eq_true] at h
  exact (h.2 (st.below, st.top) (List.mk_mem_zipIdx_iff_getElem?.2 hst)).2

end RuleSet

namespace Rule

/-- In front of some text, rules that keep to their line have the same match in every frame. -/
theorem match?_within_of_ne {r : Rule} {homes : List (List Nat)} {st : Stack}
    (h : r.keepsLine homes st) (before : Option Char) {rest : List Char} (hr : rest ≠ [])
    (f : Frame) : r.match? (before.or f.behind) (rest ++ f.ahead) =
      (r.match? before rest).map (·.within f) := by
  simp only [keepsLine, Bool.and_eq_true] at h
  have hrule := h.2
  split_ifs at hrule with hn
  · obtain ⟨c, cs, rfl⟩ := List.exists_cons_of_ne_nil hr
    rw [match?_newline hn, match?_newline hn]
    simp only [Reach.take?, Reach.start, List.cons_append]
    split_ifs <;> rfl
  · simp only [Bool.and_eq_true] at hrule
    exact match?_within hrule.1 before rest f

end Rule

namespace Scanner

variable {rs : RuleSet} {homes : List (List Nat)} {s : Scanner}

/-- The states below the active one are those that it is at home in. -/
def AtHome (homes : List (List Nat)) (s : Scanner) : Prop :=
  homes[s.stack.top]? = some s.stack.below

theorem atHome_start (h : rs.keepsLines homes) (source : List Char) :
    (start source).AtHome homes := RuleSet.home_root h

theorem atHome_step (h : rs.keepsLines homes) (hr : s.rest ≠ []) (hs : s.AtHome homes) :
    (s.step rs).AtHome homes := by
  have hmove {r : Rule} {m : Reach} (hsel : s.select rs = some (r, m)) :
      homes[(r.move.apply s.stack).top]? = some (r.move.apply s.stack).below := by
    have hkeep := RuleSet.keepsLine_of_mem h hs (select_eq_some hsel).1
    simp only [Rule.keepsLine, Bool.and_eq_true, decide_eq_true_eq] at hkeep
    exact hkeep.1
  generalize s.step rs = s', steps rs hr = hstep
  cases hstep with
  | take hsel _ => exact hmove hsel
  | look hsel _ _ => exact hmove hsel
  | skip _ _ => rw [AtHome, stack_giveUp]; exact hs

theorem framedBy_of_keepsLines (h : rs.keepsLines homes) (hr : s.rest ≠ [])
    (hs : s.AtHome homes) (f : Frame) : s.FramedBy rs f := fun r hmem =>
  r.match?_within_of_ne (RuleSet.keepsLine_of_mem h hs hmem) s.before hr f

/-- A run over a line is also a run over the line in a frame. -/
theorem exists_run_within (h : rs.keepsLines homes) (hs : s.AtHome homes) (f : Frame) (n : Nat)
    (past : List Event) (k : Nat) :
    ∃ k', (s.within f n past).run rs k' = (s.run rs k).within f n past := by
  induction k generalizing s with
  | zero => exact ⟨0, rfl⟩
  | succ k ih =>
    by_cases hr : s.rest = []
    · exact ⟨0, by rw [run_of_rest_eq_nil hr]; rfl⟩
    · obtain ⟨k', hk'⟩ := ih (atHome_step h hr hs)
      refine ⟨k' + 1, ?_⟩
      rw [run_succ (by simp [within, hr]), step_within (framedBy_of_keepsLines h hr hs f) hr, hk',
        run_succ hr]

theorem start_within_first (cs ds : List Char) :
    (start cs).within (.first ds) 0 [] = start (cs ++ '\n' :: ds) := rfl

/-! ### Newlines -/

/-- At a newline a rule takes it and goes back to the first state, or it has no effect. -/
theorem effect?_newline {r : Rule} (h : r.keepsLine homes s.stack) {cs : List Char}
    (hr : s.rest = '\n' :: cs) :
    if r.isNewline then
      s.effect? r = some ⟨some '\n', cs, 1, []⟩ ∧ r.action = .emit .text ∧
        r.move.apply s.stack = .root
    else s.effect? r = none := by
  simp only [Rule.keepsLine, Bool.and_eq_true] at h
  have hkeep := h.2
  unfold effect?
  split_ifs at hkeep ⊢ with hn
  · have hr' := hn
    simp only [Rule.isNewline, Bool.and_eq_true, decide_eq_true_eq] at hr'
    rw [Rule.match?_newline hn, hr]
    exact ⟨rfl, hr'.2, by simpa using hkeep⟩
  · simp only [Bool.and_eq_true, Bool.or_eq_true, decide_eq_true_eq, Bool.not_eq_true'] at hkeep
    have hmatch : r.match? s.before s.rest = (r.match? s.before []).map (·.within (.first cs)) := by
      rw [← Rule.match?_within hkeep.1, hr]
      rw [show (Frame.first cs).behind = none from rfl, Option.or_none]
      rfl
    rw [hmatch]
    cases hm : r.match? s.before [] with
    | none => rfl
    | some m =>
      rcases hkeep.2 with hstay | hempty
      · have hadd := (r.leads_of_match? hm).taken_add
        simp only [Reach.start, List.length_nil] at hadd
        have ht : m.taken = 0 := by omega
        simp [Option.filter, hstay, Move.changes, ht]
      · rw [Rule.match?_nil hempty] at hm
        cases hm

theorem select_newline (h : rs.keepsLines homes) (hs : s.AtHome homes) {cs : List Char}
    (hr : s.rest = '\n' :: cs) : ∃ r, s.select rs = some (r, ⟨some '\n', cs, 1, []⟩) ∧
      r.action = .emit .text ∧ r.move.apply s.stack = .root := by
  obtain ⟨r, hmem, hn⟩ := RuleSet.exists_newline h hs
  have heffect := effect?_newline (RuleSet.keepsLine_of_mem h hs hmem) hr
  rw [if_pos hn] at heffect
  have hsome : (s.select rs).isSome := by
    rw [select, List.findSome?_isSome_iff]
    exact ⟨r, hmem, by rw [heffect.1]; rfl⟩
  obtain ⟨⟨r', m⟩, hsel⟩ := Option.isSome_iff_exists.1 hsome
  obtain ⟨hmem', he⟩ := select_eq_some hsel
  have heffect' := effect?_newline (RuleSet.keepsLine_of_mem h hs hmem') hr
  split_ifs at heffect' with hn'
  · rw [heffect'.1] at he
    cases he
    exact ⟨r', hsel, heffect'.2⟩
  · rw [heffect'] at he
    cases he

/-- The step at a newline: it comes out as plain text, and the scanner stands in the first
state at the start of a new line. -/
theorem step_newline (h : rs.keepsLines homes) (hs : s.AtHome homes) {cs : List Char}
    (hr : s.rest = '\n' :: cs) : ∃ past,
      s.step rs = (start cs).within .last (s.location.line + 1) past ∧
      past.reverse.filterMap Event.token? = s.tokens ++ [⟨s.location, .text, "\n"⟩] := by
  obtain ⟨r, hsel, ha, hmove⟩ := select_newline h hs hr
  have hstep : s.step rs = { s.apply r ⟨some '\n', cs, 1, []⟩ with idle := 0 } := by
    unfold step
    rw [hsel]
    rfl
  refine ⟨(s.step rs).trail, ?_, ?_⟩
  · rw [hstep]
    simp [within, start, Frame.last, apply, advance, happen, hr, hmove, Location.next,
      Location.down, Location.start]
  · rw [hstep]
    change (s.apply r ⟨some '\n', cs, 1, []⟩).tokens = _
    rw [tokens_apply, ha, hr]
    rfl

end Scanner

namespace RuleSet

variable {rs : RuleSet} {homes : List (List Nat)}

theorem atHome_scan (h : rs.keepsLines homes) (source : String) :
    (rs.scan source).AtHome homes :=
  Scanner.run_induction (P := Scanner.AtHome homes) (fun _ hr hs => Scanner.atHome_step h hr hs)
    (Scanner.atHome_start h _) _

/-- The scan of a text up to a newline, as it stands in a longer text. -/
theorem exists_run_first (h : rs.keepsLines homes) (a b : String) :
    ∃ k, (Scanner.start (a ++ "\n" ++ b).toList).run rs k =
      (rs.scan a).within (.first b.toList) 0 [] := by
  have htext : (a ++ "\n" ++ b).toList = a.toList ++ '\n' :: b.toList := by
    simp [String.toList_append]
  rw [htext, ← Scanner.start_within_first]
  exact Scanner.exists_run_within h (Scanner.atHome_start h _) _ _ _ _

/-- Behind a newline a scan is that of the text behind it. -/
theorem scan_append_newline (h : rs.keepsLines homes) (a b : String) : ∃ past,
    rs.scan (a ++ "\n" ++ b) = (rs.scan b).within .last (a.toList.count '\n' + 1) past ∧
      past.reverse.filterMap Event.token? =
        (rs.scan a).tokens ++ [⟨Location.start.after a.toList, .text, "\n"⟩] := by
  obtain ⟨k, hk⟩ := exists_run_first h a b
  -- the step at the newline
  have hrest : ((rs.scan a).within (.first b.toList) 0 []).rest = '\n' :: b.toList := by
    rw [Scanner.within, Scanner.rest_scan]
    rfl
  obtain ⟨past, hstep, htokens⟩ :=
    Scanner.step_newline (s := (rs.scan a).within (.first b.toList) 0 []) h (atHome_scan h a) hrest
  have hline : ((rs.scan a).within (.first b.toList) 0 []).location =
      Location.start.after a.toList := Scanner.location_scan rs a
  rw [hline, Location.line_after, Location.start, Nat.zero_add] at hstep
  rw [hline] at htokens
  -- the second text
  obtain ⟨k', hk'⟩ := Scanner.exists_run_within h (Scanner.atHome_start h b.toList) .last
    (a.toList.count '\n' + 1) past ((idleLimit + 1) * b.toList.length)
  have hrun : (Scanner.start (a ++ "\n" ++ b).toList).run rs (k + (k' + 1)) =
      (rs.scan b).within .last (a.toList.count '\n' + 1) past := by
    rw [Scanner.run_add, hk, Scanner.run_succ (by rw [hrest]; simp), hstep, hk']
    rfl
  refine ⟨past, ?_, ?_⟩
  · rw [← hrun]
    refine Scanner.run_eq_run (Scanner.rest_scan rs _) ?_
    rw [hrun, Scanner.within, Scanner.rest_scan]
    rfl
  · rw [htokens, Scanner.tokens_within]
    simp

/-- A scan of two texts with a newline between them is the scan of the first, the newline,
and the scan of the second; nothing is left of the first on the stack. -/
def SplitsAtNewlines (rs : RuleSet) : Prop :=
  ∀ a b : String,
    (rs.scan (a ++ "\n" ++ b)).tokens =
      (rs.scan a).tokens ++ ⟨Location.start.after a.toList, .text, "\n"⟩ ::
        (rs.scan b).tokens.map (·.down (a.toList.count '\n' + 1)) ∧
    (rs.scan (a ++ "\n" ++ b)).depth = (rs.scan b).depth

theorem splitsAtNewlines (h : rs.keepsLines homes) : rs.SplitsAtNewlines := by
  intro a b
  obtain ⟨past, hscan, htokens⟩ := scan_append_newline h a b
  rw [hscan, Scanner.tokens_within, htokens]
  exact ⟨by simp, rfl⟩

end RuleSet

/-! ### The transcripts -/

theorem keepsLines_terminal : Rules.terminal.keepsLines [[], [0]] := by decide

theorem keepsLines_console : Rules.console.keepsLines [[], [0], [0]] := by decide

/-- A quoted type stands in a message. -/
theorem keepsLines_output : Rules.output.keepsLines [[], [0], [1, 0], [0], [0]] := by
  decide

/-- Transcripts are scanned line by line. -/
theorem transcripts_splitAtNewlines : Rules.terminal.SplitsAtNewlines ∧
    Rules.console.SplitsAtNewlines ∧ Rules.output.SplitsAtNewlines :=
  ⟨RuleSet.splitsAtNewlines keepsLines_terminal, RuleSet.splitsAtNewlines keepsLines_console,
    RuleSet.splitsAtNewlines keepsLines_output⟩

end Highlighter
