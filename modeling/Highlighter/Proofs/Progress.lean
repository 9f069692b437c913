import Highlighter.Proofs.Steps

/-! How long a scan takes and how deep its stack grows. A rule of a checked rule set pushes a
state that exists, and a pop stops above the first state. Steps without text are paid for out
of a budget that only text renews, and a step pushes at most one state. Proved: the stack of a
scan always stands on the first state, text is taken after at most `idleLimit` steps that take
none, and the depth at the end is bounded by the length of the text. -/

namespace Highlighter

namespace RuleSet

variable {rs : RuleSet}

/-- A rule set passes its check if it has states and pushes no others. -/
theorem fault?_eq_none_iff : rs.fault? = none ↔
    rs.states ≠ [] ∧ ∀ s ∈ rs.states, ∀ target ∈ s.targets, target < rs.states.length := by
  unfold fault?
  split_ifs with h
  · simp [List.isEmpty_iff.1 h]
  · simp [List.findSome?_eq_none_iff, mt List.isEmpty_iff.2 h]

theorem lt_of_push (h : rs.fault? = none) {i target : Nat} {r : Rule} (hr : r ∈ rs.rules i)
    (hm : r.move = .push target) : target < rs.states.length := by
  obtain ⟨s, hs, hmem⟩ := exists_state_of_mem_rules hr
  refine (fault?_eq_none_iff.1 h).2 s (List.mem_of_getElem? hs) target ?_
  exact List.mem_filterMap.2 ⟨r, hmem, by rw [hm]⟩

end RuleSet

/-! ### Stacks -/

namespace Stack

structure Stands (n : Nat) (s : Stack) : Prop where
  root : s.toList.getLast? = some 0
  lt : ∀ i ∈ s.toList, i < n

namespace Stands

variable {n : Nat} {s : Stack}

theorem push (h : s.Stands n) {state : Nat} (hs : state < n) : (s.push state).Stands n where
  root := by rw [toList_push, List.getLast?_cons, h.root]; rfl
  lt := by rw [toList_push]; exact List.forall_mem_cons.2 ⟨hs, h.lt⟩

theorem pop (h : s.Stands n) (count : Nat) : (s.pop count).Stands n where
  root := by
    have hlen : ¬ s.toList.length ≤ min count s.below.length := by
      rw [length_toList, depth]; omega
    rw [toList_pop, List.getLast?_drop, if_neg hlen, h.root]
  lt := by rw [toList_pop]; exact fun i hi => h.lt i (List.mem_of_mem_drop hi)

end Stands

theorem depth_push (s : Stack) (state : Nat) : (s.push state).depth = s.depth + 1 := rfl

theorem depth_pop_le (s : Stack) (count : Nat) : (s.pop count).depth ≤ s.depth := by
  rw [← length_toList, toList_pop, List.length_drop, length_toList]
  exact Nat.sub_le _ _

end Stack

namespace Move

theorem stands_apply {m : Move} {n : Nat} {s : Stack} (hs : s.Stands n)
    (hm : ∀ target, m = .push target → target < n) : (m.apply s).Stands n := by
  cases m with
  | stay => exact hs
  | push target => exact hs.push (hm target rfl)
  | pop count => exact hs.pop count

theorem depth_apply_le (m : Move) (s : Stack) : (m.apply s).depth ≤ s.depth + 1 := by
  cases m with
  | stay => exact Nat.le_succ _
  | push target => exact Nat.le_of_eq (s.depth_push target)
  | pop count => exact Nat.le_succ_of_le (s.depth_pop_le count)

end Move

/-! ### Steps -/

namespace Scanner

variable {rs : RuleSet} {s : Scanner}

theorem stands_step (h : rs.fault? = none) (hs : s.stack.Stands rs.states.length)
    (hr : s.rest ≠ []) : (s.step rs).stack.Stands rs.states.length := by
  generalize s.step rs = s', steps rs hr = hstep
  cases hstep with
  | take hsel _ | look hsel _ _ =>
    exact Move.stands_apply hs fun _ => RuleSet.lt_of_push h (select_eq_some hsel).1
  | skip hc _ => rw [stack_giveUp]; exact hs

/-- A step makes the stack deeper by no more than it takes off the budget. -/
theorem depth_add_budget_step_le (rs : RuleSet) (hr : s.rest ≠ []) (hi : s.idle ≤ idleLimit) :
    (s.step rs).depth + (s.step rs).budget ≤ s.depth + s.budget := by
  have hbudget := budget_step_lt rs hr hi
  have hdepth : (s.step rs).depth ≤ s.depth + 1 := by
    generalize s.step rs = s', steps rs hr = hstep
    cases hstep with
    | take | look => exact Move.depth_apply_le _ _
    | skip => rw [depth, stack_giveUp]; exact Nat.le_succ _
  omega

/-- A step takes text, or the text stays and the step counts as idle. -/
theorem rest_step_lt_or (rs : RuleSet) (hr : s.rest ≠ []) :
    (s.step rs).rest.length < s.rest.length ∨
      (s.step rs).rest = s.rest ∧ (s.step rs).idle = s.idle + 1 ∧ s.idle < idleLimit := by
  have hpos : 0 < s.rest.length := List.length_pos_iff.2 hr
  generalize s.step rs = s', steps rs hr = hstep
  cases hstep with
  | take _ ht => left; simp only [rest_apply, List.length_drop]; omega
  | look _ ht hi => right; exact ⟨by simp only [rest_apply, ht, List.drop_zero], rfl, hi⟩
  | skip hc _ => left; rw [rest_giveUp hc, hc]; exact Nat.lt_succ_self _

/-- Text is taken behind some idle steps, as many as the limit still allows at most. -/
theorem exists_run_take (rs : RuleSet) (s : Scanner) (hr : s.rest ≠ [])
    (hi : s.idle ≤ idleLimit) : ∃ k, s.idle + k ≤ idleLimit ∧ (s.run rs k).rest = s.rest ∧
      (s.run rs (k + 1)).rest.length < s.rest.length := by
  rcases rest_step_lt_or rs hr with ht | ⟨hrest, hidle, hlt⟩
  · exact ⟨0, hi, rfl, by rwa [run_succ hr]⟩
  · obtain ⟨k, hk, hsame, htaken⟩ :=
      exists_run_take rs (s.step rs) (by rwa [hrest]) (by omega)
    refine ⟨k + 1, by omega, ?_, ?_⟩
    · rw [run_succ hr, hsame, hrest]
    · rw [run_succ hr, ← hrest]
      exact htaken
termination_by idleLimit - s.idle

/-! ### Scans -/

inductive Reached (rs : RuleSet) (source : String) : Scanner → Prop
  | start : Reached rs source (.start source.toList)
  | step {s : Scanner} (h : Reached rs source s) (hr : s.rest ≠ []) : Reached rs source (s.step rs)

namespace Reached

variable {source : String}

theorem run (h : Reached rs source s) (n : Nat) : Reached rs source (s.run rs n) :=
  run_induction (fun _ hr h => h.step hr) h n

theorem stands (h : Reached rs source s) (hrs : rs.fault? = none) :
    s.stack.Stands rs.states.length := by
  induction h with
  | start =>
    have hpos := List.length_pos_iff.2 (RuleSet.fault?_eq_none_iff.1 hrs).1
    exact ⟨rfl, by simpa [Scanner.start, Stack.root, Stack.toList] using hpos⟩
  | step _ hr ih => exact stands_step hrs ih hr

theorem idle_le (h : Reached rs source s) : s.idle ≤ idleLimit := by
  cases h with
  | start => exact Nat.zero_le _
  | step _ hr => exact idle_step_le hr

theorem depth_add_budget_le (h : Reached rs source s) :
    s.depth + s.budget ≤ 1 + (idleLimit + 1) * source.length := by
  induction h with
  | start => exact Nat.le_of_eq (by simp [Scanner.start, depth, Stack.depth, Stack.root, budget,
      String.length_toList])
  | step h hr ih => exact Nat.le_trans (depth_add_budget_step_le rs hr h.idle_le) ih

end Reached

end Scanner

/-- In a scan with a checked rule set the stack always stands on the first state and holds
existing states alone, and text is taken after at most 64 steps that take none. So the scan
comes to the end of its text, with at most 65 states for each character over the first one. -/
theorem RuleSet.scan_progress {rs : RuleSet} (h : rs.fault? = none) (source : String) :
    (∀ s, Scanner.Reached rs source s →
      s.stack.toList ≠ [] ∧ s.stack.toList.getLast? = some 0 ∧
      (∀ i ∈ s.stack.toList, i < rs.states.length) ∧
      (s.rest ≠ [] → ∃ k ≤ 64, (s.run rs k).rest = s.rest ∧
        (s.run rs (k + 1)).rest.length < s.rest.length)) ∧
    Scanner.Reached rs source (rs.scan source) ∧ (rs.scan source).rest = [] ∧
    (rs.scan source).depth ≤ 1 + 65 * source.length := by
  have hscan : Scanner.Reached rs source (rs.scan source) := Scanner.Reached.start.run _
  refine ⟨fun s hs => ⟨by simp [Stack.toList], (hs.stands h).root, (hs.stands h).lt, fun hr => ?_⟩,
    hscan, Scanner.rest_scan rs source, ?_⟩
  · obtain ⟨k, hk, hsame, htaken⟩ := Scanner.exists_run_take rs s hr hs.idle_le
    exact ⟨k, Nat.le_trans (Nat.le_add_left _ _) hk, hsame, htaken⟩
  · exact Nat.le_trans (Nat.le_add_right _ _) hscan.depth_add_budget_le

/-- A state that pushes itself for ever is left at each character after 64 steps. -/
theorem RuleSet.scan_progress_cycle :
    let rs : RuleSet := ⟨"cycle", [⟨"root", [(Rule.peek .empty).push 0]⟩]⟩
    let s : Scanner := .start "xx".toList
    rs.fault? = none ∧
      (∃ k ≤ 64, (s.run rs k).rest = s.rest ∧ (s.run rs (k + 1)).rest.length < s.rest.length) ∧
      (rs.scan "xx").stack.toList.getLast? = some 0 ∧ (rs.scan "xx").rest = [] ∧
      (rs.scan "xx").depth = 129 ∧ (rs.scan "xx").depth ≤ 1 + 65 * "xx".length := by
  have h : RuleSet.fault? ⟨"cycle", [⟨"root", [(Rule.peek .empty).push 0]⟩]⟩ = none := by decide
  obtain ⟨hall, hreached, hrest, hdepth⟩ := RuleSet.scan_progress h "xx"
  exact ⟨h, (hall _ .start).2.2.2 (by simp [Scanner.start]), (hall _ hreached).2.1, hrest,
    by decide +kernel, hdepth⟩

end Highlighter
