import Highlighter.Proofs.Matches
import Highlighter.Scan.Scanner

/-! What a step of a scanner can do: take the match of a rule, look at one, or take a
character that no rule takes. Proved: no more steps in a row than the limit take no
text, so a scan comes to the end of its text, and more steps than it needs change
nothing. -/

namespace Highlighter

theorem Rule.leads_of_match? {r : Rule} {before : Option Char} {rest : List Char} {m : Reach}
    (h : r.match? before rest = some m) : Reach.Leads (.start before rest) m := by
  unfold match? at h
  split at h
  · cases h
  · next hm =>
    split_ifs at h <;> cases h
    · exact .refl _
    · exact Pattern.leads_of_match? hm

theorem Rule.pattern_match? {r : Rule} {before : Option Char} {rest : List Char} {m : Reach}
    (h : r.match? before rest = some m) (hp : r.action ≠ .peek) :
    r.pattern.match? (.start before rest) = some m := by
  unfold match? at h
  split at h
  · cases h
  · next hm =>
    rw [if_neg hp] at h
    split_ifs at h
    cases h
    exact hm

theorem Rule.match?_of_guard_eq_none {r : Rule} (hg : r.guard = none) (hp : r.action ≠ .peek)
    (before : Option Char) (rest : List Char) :
    r.match? before rest = r.pattern.match? (.start before rest) := by
  unfold match?
  rw [hg]
  cases r.pattern.match? (.start before rest) with
  | none => rfl
  | some m => exact congrArg some (if_neg hp)

theorem Rule.taken_of_peek {r : Rule} {before : Option Char} {rest : List Char} {m : Reach}
    (h : r.match? before rest = some m) (hp : r.action = .peek) : m.taken = 0 := by
  simp only [match?, hp, if_true] at h
  split at h
  · cases h
  · split_ifs at h
    cases h; rfl

theorem RuleSet.exists_state_of_mem_rules {rs : RuleSet} {i : Nat} {r : Rule}
    (h : r ∈ rs.rules i) : ∃ s, rs.states[i]? = some s ∧ r ∈ s.rules := by
  unfold rules at h
  cases hs : rs.states[i]? with
  | none => simp [hs] at h
  | some s => exact ⟨s, rfl, by simpa [hs] using h⟩

namespace Scanner

variable {rs : RuleSet} {s : Scanner}

theorem effect?_eq_some {r : Rule} {m : Reach} (h : s.effect? r = some m) :
    r.match? s.before s.rest = some m ∧ (0 < m.taken ∨ r.move.changes s.stack) := by
  rw [effect?, Option.filter_eq_some_iff] at h
  exact ⟨h.1, by simpa using h.2⟩

theorem select_eq_some {r : Rule} {m : Reach} (h : s.select rs = some (r, m)) :
    r ∈ rs.rules s.stack.top ∧ s.effect? r = some m := by
  obtain ⟨r', hr', h⟩ := List.exists_of_findSome?_eq_some h
  obtain ⟨m', hm, he⟩ := Option.map_eq_some_iff.1 h
  cases he
  exact ⟨hr', hm⟩

theorem match?_of_select {r : Rule} {m : Reach} (h : s.select rs = some (r, m)) :
    r.match? s.before s.rest = some m := (effect?_eq_some (select_eq_some h).2).1

theorem findSome?_of_effect? {r : Rule} {l : List Rule} {m : Reach} (h : s.effect? r = some m) :
    (r :: l).findSome? (fun r => (s.effect? r).map (r, ·)) = some (r, m) := by
  rw [List.findSome?_cons, h]
  rfl

theorem findSome?_of_effect?_eq_none {r : Rule} {l : List Rule} (h : s.effect? r = none) :
    (r :: l).findSome? (fun r => (s.effect? r).map (r, ·)) =
      l.findSome? fun r => (s.effect? r).map (r, ·) := by
  rw [List.findSome?_cons, h]
  rfl

/-- A selected match ends inside of the text. -/
theorem taken_le_of_select {r : Rule} {m : Reach} (h : s.select rs = some (r, m)) :
    m.taken ≤ s.rest.length := by
  have hadd := (r.leads_of_match? (match?_of_select h)).taken_add
  simp only [Reach.start] at hadd
  omega

inductive Steps (rs : RuleSet) (s : Scanner) : Scanner → Prop
  | take {r : Rule} {m : Reach} (h : s.select rs = some (r, m)) (ht : 0 < m.taken) :
      Steps rs s { s.apply r m with idle := 0 }
  | look {r : Rule} {m : Reach} (h : s.select rs = some (r, m)) (ht : m.taken = 0)
      (hi : s.idle < idleLimit) : Steps rs s { s.apply r m with idle := s.idle + 1 }
  | skip {c : Char} {cs : List Char} (hr : s.rest = c :: cs)
      (h : s.select rs = none ∨
        ∃ r m, s.select rs = some (r, m) ∧ m.taken = 0 ∧ idleLimit ≤ s.idle) :
      Steps rs s s.giveUp

theorem steps (rs : RuleSet) (h : s.rest ≠ []) : Steps rs s (s.step rs) := by
  obtain ⟨c, cs, hr⟩ := List.exists_cons_of_ne_nil h
  unfold step
  split
  · next hn => exact .skip hr (.inl hn)
  · next r m hs =>
    split_ifs with ht hi
    · exact .take hs ht
    · exact .look hs (by omega) hi
    · exact .skip hr (.inr ⟨r, m, hs, by omega, by omega⟩)

theorem step_of_select {r : Rule} {m : Reach} (h : s.select rs = some (r, m))
    (ht : 0 < m.taken) : s.step rs = { s.apply r m with idle := 0 } := by
  rw [step, h]
  exact if_pos ht

@[simp] theorem rest_apply (s : Scanner) (r : Rule) (m : Reach) :
    (s.apply r m).rest = s.rest.drop m.taken := rfl

/-- The scanner comes to where the match of a rule ends. -/
theorem place_apply {r : Rule} {m : Reach} (h : r.match? s.before s.rest = some m) :
    (s.apply r m).rest = m.rest ∧ (s.apply r m).before = m.before := by
  obtain ⟨cs, hrest, htaken, hbefore⟩ := (r.leads_of_match? h).exists_taken
  have hrest : s.rest = cs ++ m.rest := hrest
  have htaken : m.taken = cs.length := htaken.trans (Nat.zero_add _)
  refine ⟨?_, Eq.trans ?_ hbefore.symm⟩
  · rw [rest_apply, hrest, htaken, List.drop_left]
  · change (s.rest.take m.taken).getLast?.or s.before = _
    rw [hrest, htaken, List.take_left]
    rfl

theorem rest_giveUp {c : Char} {cs : List Char} (h : s.rest = c :: cs) : s.giveUp.rest = cs := by
  simp [giveUp, h, happen, advance]

theorem idle_giveUp {c : Char} {cs : List Char} (h : s.rest = c :: cs) : s.giveUp.idle = 0 := by
  simp [giveUp, h]

theorem stack_giveUp (s : Scanner) : s.giveUp.stack = s.stack := by
  unfold giveUp; split <;> rfl

/-! ### Runs -/

theorem run_of_rest_eq_nil (h : s.rest = []) (n : Nat) : s.run rs n = s := by
  cases n <;> simp [run, h]

theorem run_succ (h : s.rest ≠ []) (n : Nat) : s.run rs (n + 1) = (s.step rs).run rs n := by
  simp [run, h]

theorem run_add (s : Scanner) (n k : Nat) : s.run rs (n + k) = (s.run rs n).run rs k := by
  induction n generalizing s with
  | zero => simp [run]
  | succ n ih =>
    by_cases h : s.rest = []
    · rw [run_of_rest_eq_nil h, run_of_rest_eq_nil h, run_of_rest_eq_nil h]
    · rw [Nat.succ_add, run_succ h, run_succ h, ih]

/-- What each step keeps, a run keeps. -/
theorem run_induction {P : Scanner → Prop} (hstep : ∀ s, s.rest ≠ [] → P s → P (s.step rs))
    (h : P s) (n : Nat) : P (s.run rs n) := by
  induction n generalizing s with
  | zero => exact h
  | succ n ih =>
    by_cases hr : s.rest = []
    · rwa [run_of_rest_eq_nil hr]
    · rw [run_succ hr]
      exact ih (hstep s hr h)

theorem after_rest_advance (s : Scanner) (n : Nat) :
    (s.advance n).location.after (s.advance n).rest = s.location.after s.rest := by
  rw [advance, ← Location.after_append, List.take_append_drop]

/-- A step does not move the end of the text. -/
theorem after_rest_step (hr : s.rest ≠ []) :
    (s.step rs).location.after (s.step rs).rest = s.location.after s.rest := by
  generalize s.step rs = s', steps rs hr = h
  cases h with
  | take | look => exact after_rest_advance s _
  | skip =>
    unfold giveUp
    split
    · rfl
    · exact after_rest_advance s 1

/-- The steps that are left at most, if the limit is kept. -/
def budget (s : Scanner) : Nat := (idleLimit + 1) * s.rest.length - s.idle

theorem idle_step_le (hr : s.rest ≠ []) : (s.step rs).idle ≤ idleLimit := by
  generalize s.step rs = s', steps rs hr = h
  cases h with
  | take => exact Nat.zero_le _
  | look _ _ hi => exact hi
  | skip hr _ => rw [idle_giveUp hr]; exact Nat.zero_le _

theorem budget_step_lt (rs : RuleSet) (hr : s.rest ≠ []) (hi : s.idle ≤ idleLimit) :
    (s.step rs).budget < s.budget := by
  have hpos : 0 < s.rest.length := List.length_pos_iff.2 hr
  generalize s.step rs = s', steps rs hr = h
  cases h with
  | take h ht =>
    have := taken_le_of_select h
    simp only [budget, rest_apply, List.length_drop, idleLimit] at hi ⊢
    omega
  | look h ht hi =>
    simp only [budget, rest_apply, List.length_drop, ht, idleLimit] at hi ⊢
    omega
  | skip hc _ =>
    simp only [budget, rest_giveUp hc, idle_giveUp hc, hc, List.length_cons, idleLimit] at hi ⊢
    omega

/-- A run with steps enough comes to the end of the text. -/
theorem rest_run_eq_nil (hi : s.idle ≤ idleLimit) {n : Nat} (hn : s.budget ≤ n) :
    (s.run rs n).rest = [] := by
  induction n generalizing s with
  | zero =>
    by_cases hr : s.rest = []
    · exact hr
    · have := budget_step_lt rs hr hi
      omega
  | succ n ih =>
    by_cases hr : s.rest = []
    · rwa [run_of_rest_eq_nil hr]
    · rw [run_succ hr]
      have := budget_step_lt rs hr hi
      exact ih (idle_step_le hr) (by omega)

theorem rest_scan (rs : RuleSet) (source : String) : (rs.scan source).rest = [] :=
  rest_run_eq_nil (Nat.zero_le _) (Nat.sub_le _ _)

/-- A scan ends at the location of the end of its text. -/
theorem location_scan (rs : RuleSet) (source : String) :
    (rs.scan source).location = Location.start.after source.toList := by
  have h : (rs.scan source).location.after (rs.scan source).rest =
      Location.start.after source.toList :=
    run_induction (P := fun s => s.location.after s.rest = Location.start.after source.toList)
      (fun _ hr h => (after_rest_step hr).trans h) rfl _
  rwa [rest_scan] at h

/-- Runs that come to the end of the text come to the same state. -/
theorem run_eq_run {n k : Nat} (hn : (s.run rs n).rest = []) (hk : (s.run rs k).rest = []) :
    s.run rs n = s.run rs k := by
  rcases Nat.le_total n k with h | h
  · obtain ⟨d, rfl⟩ := Nat.exists_eq_add_of_le h
    rw [run_add, run_of_rest_eq_nil hn]
  · obtain ⟨d, rfl⟩ := Nat.exists_eq_add_of_le h
    rw [run_add, run_of_rest_eq_nil hk]

/-- A run to the end of the text goes through each state of a shorter run. -/
theorem run_run_eq {n : Nat} (h : (s.run rs n).rest = []) (k : Nat) :
    (s.run rs k).run rs n = s.run rs n := by
  rw [← run_add, Nat.add_comm, run_add, run_of_rest_eq_nil h]

end Scanner

end Highlighter
