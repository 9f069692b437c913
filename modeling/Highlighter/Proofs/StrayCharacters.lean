import Highlighter.Language
import Highlighter.Proofs.Ends
import Highlighter.Proofs.Frames
import Highlighter.Proofs.Progress

/-! Steps that take no text, and characters that no rule takes. Two checks read the rules of
each state: a rule that may take no text leads to states whose rules all take some, and the
rules of a state cover all characters. Proved: in the shipped rule sets a step without text
is followed by one that takes some, so the limit on such steps is never reached, and only
two states of C++, statements and template lists, leave a character to no rule. -/

namespace Highlighter

open Pattern

/-! ### Rules that take no text -/

/-- Whether the rule may change the stack without taking text. -/
def Rule.mayIdle (r : Rule) : Bool := r.move ≠ .stay && (r.action = .peek || r.pattern.canBeEmpty)

theorem Move.ne_stay_of_changes {m : Move} {st : Stack} (h : m.changes st) : m ≠ .stay := by
  rintro rfl
  cases h

theorem Stack.top_pop_mem {s : Stack} (h : s.below ≠ []) {n : Nat} (hn : 0 < n) :
    (s.pop n).top ∈ s.below := by
  obtain ⟨top, below⟩ := s
  obtain ⟨t, below, rfl⟩ := List.exists_cons_of_ne_nil h
  obtain ⟨n, rfl⟩ := Nat.exists_eq_succ_of_ne_zero (Nat.ne_of_gt hn)
  have hmem : (pop ⟨t, below⟩ n).top ∈ (pop ⟨t, below⟩ n).toList := List.mem_cons_self
  rw [toList_pop] at hmem
  exact List.mem_of_mem_drop hmem

theorem Stack.below_pop_subset (s : Stack) (n : Nat) : (s.pop n).below ⊆ s.below := by
  induction n generalizing s with
  | zero => exact List.Subset.refl _
  | succ n ih =>
    obtain ⟨top, below⟩ := s
    cases below with
    | nil => exact List.Subset.refl _
    | cons t below => exact List.Subset.trans (ih ⟨t, below⟩) (List.subset_cons_self t below)

namespace RuleSet

/-- Whether each rule of the state takes text or leaves the stack as it is. -/
def isAlert (rs : RuleSet) (state : Nat) : Bool := (rs.rules state).all (!·.mayIdle)

def pushes (rs : RuleSet) (state : Nat) : Bool :=
  (rs.rules state).any fun r => match r.move with
    | .push _ => true
    | _ => false

/-- Whether each rule that may take no text only leads to states whose rules take some. Below
the active state there are only states that push. -/
def idlesOnce (rs : RuleSet) : Bool :=
  rs.states.all fun st => st.rules.all fun r => !r.mayIdle || match r.move with
    | .stay => true
    | .push state => rs.isAlert state
    | .pop _ => (List.range rs.states.length).all fun state => !rs.pushes state || rs.isAlert state

variable {rs : RuleSet}

theorem lt_of_pushes {q : Nat} (h : rs.pushes q) : q < rs.states.length := by
  obtain ⟨r, hr, -⟩ := List.any_eq_true.1 h
  obtain ⟨st, hs, -⟩ := exists_state_of_mem_rules hr
  exact (List.getElem?_eq_some_iff.1 hs).1

theorem idlesOnce_of_mem (h : rs.idlesOnce) {q : Nat} {r : Rule} (hr : r ∈ rs.rules q)
    (hi : r.mayIdle) : match r.move with
      | .stay => True
      | .push state => rs.isAlert state
      | .pop _ => ∀ state, rs.pushes state → rs.isAlert state := by
  obtain ⟨st, hst, hmem⟩ := exists_state_of_mem_rules hr
  simp only [idlesOnce, List.all_eq_true] at h
  have hrule := h st (List.mem_of_getElem? hst) r hmem
  rw [hi, Bool.not_true, Bool.false_or] at hrule
  split at hrule
  · trivial
  · exact hrule
  · intro state hp
    have hstate := List.all_eq_true.1 hrule state (List.mem_range.2 (lt_of_pushes hp))
    rwa [hp, Bool.not_true, Bool.false_or] at hstate

end RuleSet

namespace Scanner

variable {rs : RuleSet} {s : Scanner}

theorem mayIdle_of_select {r : Rule} {m : Reach} (h : s.select rs = some (r, m))
    (ht : m.taken = 0) : r.mayIdle ∧ r.move.changes s.stack := by
  have hmatch := match?_of_select h
  have hchanges := (effect?_eq_some (select_eq_some h).2).2.resolve_left (by omega)
  refine ⟨?_, hchanges⟩
  simp only [Rule.mayIdle, Bool.and_eq_true, Bool.or_eq_true, decide_eq_true_eq]
  refine ⟨Move.ne_stay_of_changes hchanges, ?_⟩
  by_contra hno
  rw [not_or, Bool.not_eq_true] at hno
  have hpos := taken_lt_of_match? hno.2 (Rule.pattern_match? hmatch hno.1)
  rw [ht] at hpos
  exact Nat.lt_irrefl _ hpos

theorem not_isAlert_of_select {r : Rule} {m : Reach} (h : s.select rs = some (r, m))
    (ht : m.taken = 0) : ¬ rs.isAlert s.stack.top := by
  intro halert
  have hr := List.all_eq_true.1 halert r (select_eq_some h).1
  rw [(mayIdle_of_select h ht).1] at hr
  cases hr

/-- Below the active state there are only states that push, and behind a step without text the
rules of the active state take some. -/
structure Awake (rs : RuleSet) (s : Scanner) : Prop where
  below : ∀ q ∈ s.stack.below, rs.pushes q
  idle : s.idle = 0 ∨ s.idle = 1 ∧ rs.isAlert s.stack.top

namespace Awake

theorem start (source : List Char) : Awake rs (.start source) :=
  ⟨by simp [Scanner.start, Stack.root], .inl rfl⟩

theorem pushes_below (h : s.Awake rs) {r : Rule} (hr : r ∈ rs.rules s.stack.top) :
    ∀ q ∈ (r.move.apply s.stack).below, rs.pushes q := by
  cases hm : r.move with
  | stay => exact h.below
  | push state =>
    exact List.forall_mem_cons.2 ⟨List.any_eq_true.2 ⟨r, hr, by rw [hm]⟩, h.below⟩
  | pop n => exact fun q hq => h.below q (Stack.below_pop_subset _ _ hq)

/-- A step without text leads to a state whose rules take some. -/
theorem isAlert_apply (h : s.Awake rs) (hrs : rs.idlesOnce) {r : Rule} {m : Reach}
    (hsel : s.select rs = some (r, m)) (ht : m.taken = 0) :
    rs.isAlert (r.move.apply s.stack).top := by
  obtain ⟨hidle, hchanges⟩ := mayIdle_of_select hsel ht
  have honce := RuleSet.idlesOnce_of_mem hrs (select_eq_some hsel).1 hidle
  cases hm : r.move with
  | stay => exact absurd hm (Move.ne_stay_of_changes hchanges)
  | push state => rwa [hm] at honce
  | pop n =>
    rw [hm] at hchanges honce
    rw [Move.changes, Bool.and_eq_true, decide_eq_true_eq] at hchanges
    have hbelow : s.stack.below ≠ [] := by simpa using hchanges.2
    exact honce _ (h.below _ (Stack.top_pop_mem hbelow hchanges.1))

theorem step (h : s.Awake rs) (hrs : rs.idlesOnce) (hr : s.rest ≠ []) :
    (s.step rs).Awake rs := by
  generalize s.step rs = s', steps rs hr = hstep
  cases hstep with
  | take hsel _ => exact ⟨h.pushes_below (select_eq_some hsel).1, .inl rfl⟩
  | look hsel ht _ =>
    have hzero : s.idle = 0 := h.idle.resolve_right fun hi => not_isAlert_of_select hsel ht hi.2
    exact ⟨h.pushes_below (select_eq_some hsel).1,
      .inr ⟨congrArg (· + 1) hzero, h.isAlert_apply hrs hsel ht⟩⟩
  | skip hc _ => exact ⟨by rw [stack_giveUp]; exact h.below, .inl (idle_giveUp hc)⟩

theorem idle_le (h : s.Awake rs) : s.idle ≤ 1 := by
  rcases h.idle with h | h <;> omega

end Awake

theorem Reached.awake {source : String} (h : Reached rs source s) (hrs : rs.idlesOnce) :
    s.Awake rs := by
  induction h with
  | start => exact .start _
  | step _ hr ih => exact ih.step hrs hr

/-- Behind a step without text, the next step takes some. -/
theorem Awake.length_rest_lt (h : s.Awake rs) (hrs : rs.idlesOnce) (hr : s.rest ≠ [])
    (hsame : (s.step rs).rest = s.rest) :
    ((s.step rs).step rs).rest.length < s.rest.length := by
  have halert : rs.isAlert (s.step rs).stack.top := by
    have hlen := congrArg List.length hsame
    have hpos : 0 < s.rest.length := List.length_pos_iff.2 hr
    generalize s.step rs = s', steps rs hr = hstep at hlen
    cases hstep with
    | take _ ht =>
      simp only [rest_apply, List.length_drop] at hlen
      omega
    | look hsel ht _ => exact h.isAlert_apply hrs hsel ht
    | skip hc _ =>
      rw [rest_giveUp hc, hc, List.length_cons] at hlen
      omega
  rw [← hsame] at hr ⊢
  generalize (s.step rs).step rs = s'', steps rs hr = hstep
  have hpos : 0 < (s.step rs).rest.length := List.length_pos_iff.2 hr
  cases hstep with
  | take _ ht =>
    simp only [rest_apply, List.length_drop]
    omega
  | look hsel ht _ => exact absurd halert (not_isAlert_of_select hsel ht)
  | skip hc _ =>
    rw [rest_giveUp hc, hc]
    exact Nat.lt_succ_self _

end Scanner

/-! ### Rules that cover all characters -/

namespace CharSet

/-- The characters of a set that is put together from single ones. -/
def singles? : CharSet → Option (List Char)
  | range first last => if first = last then some [first] else none
  | nothing => some []
  | union s t => s.singles?.bind fun l => t.singles?.map (l ++ ·)
  | _ => none

theorem has_iff_mem_singles {s : CharSet} {l : List Char} (h : s.singles? = some l) (c : Char) :
    s.has c ↔ c ∈ l := by
  induction s generalizing l with
  | range first last =>
    obtain ⟨he, h⟩ := Option.ite_none_right_eq_some.1 h
    cases h
    rw [← he, List.mem_singleton, ← beq_iff_eq (a := c), ← has_char]
    rfl
  | nothing =>
    cases h
    simp [has]
  | union s t ihs iht =>
    obtain ⟨ls, hs, h⟩ := Option.bind_eq_some_iff.1 h
    obtain ⟨lt, ht, rfl⟩ := Option.map_eq_some_iff.1 h
    rw [has, Bool.or_eq_true, ihs hs, iht ht, List.mem_append]
  | word | digit | space | inter | compl | anyCase => cases h

/-- The characters that a set leaves out, if they are single ones. -/
def omitted? : CharSet → Option (List Char)
  | compl s => s.singles?
  | _ => none

theorem has_of_omitted? {s : CharSet} {l : List Char} (h : s.omitted? = some l) {c : Char}
    (hc : c ∉ l) : s.has c := by
  cases s with
  | compl s =>
    rw [has, Bool.not_eq_true']
    by_contra hs
    exact hc ((has_iff_mem_singles h c).1 (by simpa using hs))
  | _ => cases h

end CharSet

/-- The set whose characters the rule takes wherever they stand. -/
def Rule.takenSet? (r : Rule) : Option CharSet :=
  if r.guard = none ∧ r.action ≠ .peek then
    match r.pattern with
    | .one s | .rep (.one s) 1 none true => some s
    | _ => none
  else none

theorem Rule.exists_match? {r : Rule} {set : CharSet} (h : r.takenSet? = some set) {c : Char}
    (hc : set.has c) (before : Option Char) (cs : List Char) :
    ∃ m, r.match? before (c :: cs) = some m ∧ 0 < m.taken := by
  unfold takenSet? at h
  split_ifs at h with hr
  rw [Rule.match?_of_guard_eq_none hr.1 hr.2]
  split at h
  · next hp =>
    cases h
    rw [hp, match?_one]
    exact ⟨⟨some c, cs, 1, []⟩, by simp [Reach.take?, Reach.start, hc], Nat.one_pos⟩
  · next hp =>
    cases h
    obtain ⟨m, hm, -⟩ := match?_plus_one (r := .start before (c :: cs)) rfl hc
    rw [hp]
    exact ⟨m, hm, taken_lt_of_match? rfl hm⟩
  · cases h

namespace RuleSet

/-- Whether a rule of the state takes the character wherever it stands. -/
def takes (rs : RuleSet) (state : Nat) (c : Char) : Bool :=
  (rs.rules state).any fun r => r.takenSet?.any (·.has c)

/-- Whether the rules of the state cover all characters: all but some are taken by one rule,
and each of these by another. A state above the first one may be left at once as well. -/
def covers (rs : RuleSet) (state : Nat) : Bool :=
  ((rs.rules state).any fun r => r.takenSet?.any fun set =>
    set.omitted?.any fun l => l.all (rs.takes state)) ||
  (state ≠ 0 && (rs.rules state).contains ((Rule.peek .empty).pop 1))

variable {rs : RuleSet} {s : Scanner}

theorem isSome_select_of_effect {r : Rule} (hr : r ∈ rs.rules s.stack.top)
    (h : (s.effect? r).isSome) : (s.select rs).isSome := by
  rw [Scanner.select, List.findSome?_isSome_iff]
  exact ⟨r, hr, by rwa [Option.isSome_map]⟩

theorem isSome_select_of_takes {c : Char} {cs : List Char} (hr : s.rest = c :: cs)
    (h : rs.takes s.stack.top c) : (s.select rs).isSome := by
  obtain ⟨r, hmem, hset⟩ := List.any_eq_true.1 h
  obtain ⟨set, hset, hc⟩ := (Option.any_eq_true _ _).1 hset
  obtain ⟨m, hm, hpos⟩ := Rule.exists_match? hset hc s.before cs
  refine isSome_select_of_effect hmem ?_
  rw [Scanner.effect?, hr, hm]
  simp [Option.filter, hpos]

/-- A state that covers all characters has a rule to apply in front of any text. -/
theorem isSome_select_of_covers (h : rs.covers s.stack.top)
    (hroot : s.stack.toList.getLast? = some 0) (hr : s.rest ≠ []) : (s.select rs).isSome := by
  obtain ⟨c, cs, hcs⟩ := List.exists_cons_of_ne_nil hr
  rw [covers, Bool.or_eq_true, Bool.and_eq_true, decide_eq_true_eq, List.contains_iff_mem] at h
  rcases h with h | ⟨htop, hmem⟩
  · obtain ⟨r, hmem, h⟩ := List.any_eq_true.1 h
    obtain ⟨set, hset, h⟩ := (Option.any_eq_true _ _).1 h
    obtain ⟨l, hl, h⟩ := (Option.any_eq_true _ _).1 h
    refine isSome_select_of_takes hcs ?_
    by_cases hc : c ∈ l
    · exact List.all_eq_true.1 h c hc
    · refine List.any_eq_true.2 ⟨r, hmem, (Option.any_eq_true _ _).2 ⟨set, hset, ?_⟩⟩
      exact CharSet.has_of_omitted? hl hc
  · have hbelow : s.stack.below ≠ [] := by
      intro hnil
      rw [Stack.toList, hnil] at hroot
      exact htop (Option.some.inj hroot)
    refine isSome_select_of_effect hmem ?_
    have hmatch : ((Rule.peek .empty).pop 1).match? s.before s.rest =
        some (.start s.before s.rest) := rfl
    rw [Scanner.effect?, hmatch]
    simp [Option.filter, Rule.pop, Move.changes, hbelow]

end RuleSet

/-! ### The shipped rule sets -/

namespace Language

/-- The state is one of those that leave some characters to no rule. -/
def LeavesStray (l : Language) (state : Nat) : Prop :=
  l = engineCpp ∧ l.rules.stateName state ∈ ["statements", "template"]

instance (l : Language) (state : Nat) : Decidable (l.LeavesStray state) :=
  inferInstanceAs (Decidable (_ ∧ _))

theorem idlesOnce_rules (l : Language) : l.rules.idlesOnce := by
  cases l <;> decide

theorem fault?_rules (l : Language) : l.rules.fault? = none := by
  cases l <;> decide

theorem covers_or_leavesStray (l : Language) : ∀ q < l.rules.states.length,
    l.rules.covers q ∨ l.LeavesStray q := by
  cases l <;> decide

variable {l : Language} {source : String} {s : Scanner}

theorem leavesStray_of_select (h : Scanner.Reached l.rules source s) (hr : s.rest ≠ [])
    (hsel : s.select l.rules = none) : l.LeavesStray s.stack.top := by
  have hstands := h.stands l.fault?_rules
  have hlt := hstands.lt _ (show s.stack.top ∈ s.stack.toList from List.mem_cons_self)
  refine (l.covers_or_leavesStray _ hlt).resolve_left fun hcovers => ?_
  have hsome := RuleSet.isSome_select_of_covers hcovers hstands.root hr
  rw [hsel] at hsome
  cases hsome

end Language

namespace Scanner

variable {rs : RuleSet} {s : Scanner}

theorem stray_notMem_events (mv : Move) (st : Stack) (q : Nat) (c : Char) :
    .stray q c ∉ mv.events st := by
  cases mv <;> simp [Move.events]

theorem stray_mem_giveUp {q : Nat} {c d : Char} {cs : List Char} (h : s.rest = d :: cs) :
    .stray q c ∈ s.giveUp.trail ↔ (q = s.stack.top ∧ c = d) ∨ .stray q c ∈ s.trail := by
  simp [giveUp, h, happen, advance]

/-- Where the limit is not reached, a character is left stray only where no rule is selected. -/
theorem Reached.of_stray {source : String} {P : Nat → Prop} (h : Reached rs source s)
    (hrs : rs.idlesOnce) (hnone : ∀ s, Reached rs source s → s.rest ≠ [] →
      s.select rs = none → P s.stack.top) : ∀ q c, .stray q c ∈ s.trail → P q := by
  induction h with
  | start => simp [Scanner.start]
  | @step s hs hr ih =>
    intro q c
    generalize s.step rs = s', steps rs hr = hstep
    cases hstep with
    | @take r m _ _ | @look r m _ _ _ =>
      change .stray q c ∈ (((cut s.location s.rest (r.action.pieces m)).map Event.token ++
        r.move.events s.stack).reverse ++ s.trail) → P q
      simpa [stray_notMem_events] using ih q c
    | skip hc hno =>
      have hsel : s.select rs = none := by
        refine hno.resolve_right ?_
        rintro ⟨r, m, _, _, hlimit⟩
        have hidle := (hs.awake hrs).idle_le
        unfold idleLimit at hlimit
        omega
      rw [stray_mem_giveUp hc]
      rintro (⟨rfl, -⟩ | hmem)
      · exact hnone s hs hr hsel
      · exact ih q c hmem

end Scanner

/-- In a scan with a shipped rule set, a step that takes no text is followed by one that takes
some, so the limit on such steps is never reached, and a character is left to no rule only in
two states of C++. -/
theorem Language.strays_in_statements (l : Language) (source : String) :
    (∀ s, Scanner.Reached l.rules source s → s.rest ≠ [] →
      ((s.step l.rules).rest = s.rest →
        ((s.step l.rules).step l.rules).rest.length < s.rest.length) ∧
      s.idle < idleLimit ∧ (s.select l.rules = none → l.LeavesStray s.stack.top)) ∧
    ∀ q c, .stray q c ∈ (l.scan source).events → l.LeavesStray q := by
  have honce := l.idlesOnce_rules
  refine ⟨fun s hs hr => ⟨(hs.awake honce).length_rest_lt honce hr, ?_,
    leavesStray_of_select hs hr⟩, fun q c hmem => ?_⟩
  · exact Nat.lt_of_le_of_lt (hs.awake honce).idle_le (by decide)
  · have hscan : Scanner.Reached l.rules source (l.scan source) := Scanner.Reached.start.run _
    exact hscan.of_stray honce (fun _ => leavesStray_of_select) q c (List.mem_reverse.1 hmem)

example : let events := (Language.engineCpp.scan "@ template <@").events
    .stray 0 '@' ∈ events ∧ .stray Rules.EngineCpp.template '@' ∈ events := by decide +kernel

end Highlighter
