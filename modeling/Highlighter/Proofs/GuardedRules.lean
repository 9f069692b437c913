import Highlighter.Proofs.WordLists

/-! Guards as lookahead. A guard is tried behind the preferred end of its pattern alone, where a
lookahead would be tried behind each end until it matches. The two differ where a shorter end
comes in front of what the guard asks for. Proved: in the shipped rule sets there is no such
end, as each guarded pattern has one end at most, or ends in a greedy repetition of characters
that its guard does not begin with. -/

namespace Highlighter

open Pattern

namespace Pattern

variable {p q g : Pattern} {m : Reach} {s : CharSet} {Q Q' : Reach → Prop}

/-! ### Lookahead -/

/-- Whether a pattern matches from where a match stands. -/
def admits (g : Pattern) (m : Reach) : Bool := (g.match? m.restart).isSome

/-- The end of the pattern that a search finds if the guard has to match behind it, without
taking anything. -/
def matchBefore? (p g : Pattern) (r : Reach) : Option Reach :=
  (p.run r (fun m => if g.admits m then .answer m else .fail) ∅).1

theorem firstOf_answer_if (f : Reach → Bool) (l : List Reach) (passed : Passed) :
    firstOf (fun m => if f m then .answer m else .fail) l passed = (l.find? f, passed) := by
  induction l with
  | nil => rfl
  | cons r l ih =>
    rw [firstOf_cons, List.find?_cons]
    cases f r with
    | true => rfl
    | false => exact ih

/-- A lookahead finds the first of all ends behind which it matches. -/
theorem matchBefore?_eq_find? (h : p.unmarked) (r : Reach) :
    p.matchBefore? g r = (p.ways r).find? g.admits := by
  rw [matchBefore?, run_eq_firstOf h, firstOf_answer_if]

/-! ### Ends that have to be preferred -/

/-- The pattern has one end at most where the condition holds, its preferred one. -/
def PrefersOnly (p : Pattern) (Q : Reach → Prop) : Prop :=
  ∀ r, ∀ m ∈ p.ways r, Q m → (p.ways r).head? = some m

namespace PrefersOnly

theorem mono (h : PrefersOnly p Q) (hQ : ∀ m, Q' m → Q m) : PrefersOnly p Q' :=
  fun r m hm hq => h r m hm (hQ m hq)

theorem of_unique (h : ∀ r, ∀ m ∈ p.ways r, ∀ m' ∈ p.ways r, m = m') : PrefersOnly p Q := by
  intro r m hm _
  obtain ⟨x, l, hl⟩ := List.exists_cons_of_ne_nil (List.ne_nil_of_mem hm)
  rw [h r m hm x (by rw [hl]; exact List.mem_cons_self), hl]
  rfl

theorem edge (e : Edge) : PrefersOnly (.edge e) Q :=
  of_unique fun _ _ hm _ hm' => (mem_ways_edge.1 hm).2.trans (mem_ways_edge.1 hm').2.symm

theorem one (s : CharSet) : PrefersOnly (.one s) Q := by
  intro r m hm _
  obtain ⟨c, hc, hm⟩ := mem_ways_one.1 hm
  exact head?_one hc hm

theorem seq (hp : PrefersOnly p fun _ => True) (hq : PrefersOnly q Q) :
    PrefersOnly (.seq p q) Q := by
  intro r m hm hQ
  obtain ⟨x, hx, hm⟩ := mem_ways_seq.1 hm
  exact head?_flatMap_eq_some (hp r x hx trivial) (hq x m hm hQ)

/-- A shorter repetition leaves a character of the set ahead. -/
theorem star_one (s : CharSet) :
    PrefersOnly (star (.one s)) fun m => ∀ c ∈ m.rest.head?, s.has c = false := by
  intro r m hm hend
  obtain ⟨cs, hcs, hm⟩ := mem_ways_star_one.1 hm
  obtain ⟨m', hm', htakes, -⟩ := exists_head?_star_one hm.rest_eq hcs hend
  rw [hm', hm.unique htakes]

theorem plus_one (s : CharSet) :
    PrefersOnly (plus (.one s)) fun m => ∀ c ∈ m.rest.head?, s.has c = false := by
  intro r m hm hend
  obtain ⟨cs, hne, hcs, hm⟩ := mem_ways_plus_one.1 hm
  obtain ⟨m', hm', htakes, -⟩ := exists_head?_plus_one hm.rest_eq hne hcs hend
  rw [hm', hm.unique htakes]

end PrefersOnly

/-- A pattern that asks for some text and is admitted does not stand in front of a character
that it may not take. -/
theorem not_has_of_admits (hu : g.unmarked) (he : g.canBeEmpty = false)
    (hs : ∀ c, s.has c → ¬ g.mayTake c) (h : g.admits m) :
    ∀ c ∈ m.rest.head?, s.has c = false := by
  refine fun c hc => Bool.eq_false_iff.2 fun hhas => ?_
  obtain ⟨cs, hcs⟩ := List.head?_eq_some_iff.1 hc
  obtain ⟨x, hx⟩ := Option.isSome_iff_exists.1 h
  have hx := mem_ways_of_match? hu hx
  have hkeeps : x.rest = c :: cs :=
    preserves_rest hu (Bool.eq_false_iff.2 (hs c hhas)) m.restart hcs x hx
  exact rest_ne_of_mem_ways hu he hx (hkeeps.trans hcs.symm)

/-- If the guard may only match behind the preferred end, trying it there is a lookahead. -/
theorem PrefersOnly.matchBefore?_eq (h : p.PrefersOnly (g.admits ·)) (hu : p.unmarked)
    (r : Reach) : p.matchBefore? g r = (p.match? r).filter g.admits := by
  rw [matchBefore?_eq_find? hu, match?_eq_head? hu]
  cases hways : p.ways r with
  | nil => rfl
  | cons x l =>
    rw [List.head?_cons, List.find?_cons]
    cases hx : g.admits x with
    | true => simp [Option.filter, hx]
    | false =>
      have hnone : l.find? g.admits = none := by
        refine List.find?_eq_none.2 fun m hm hadmits => ?_
        have hhead := h r m (by rw [hways]; exact List.mem_cons_of_mem x hm) hadmits
        rw [hways, List.head?_cons, Option.some_inj] at hhead
        rw [← hhead, hx] at hadmits
        cases hadmits
      simp [Option.filter, hx, hnone]

end Pattern

/-! ### The shipped rule sets -/

/-- The guarded patterns of a rule set, each with its guard. -/
def RuleSet.guarded (rs : RuleSet) : List (Pattern × Pattern) :=
  rs.states.flatMap fun s => s.rules.filterMap fun r => r.guard.map (r.pattern, ·)

namespace Rules

def codeHead : Pattern := one (.anyOf [.letter, .asciiDigit, .of "_\"'("])

def callHead : Pattern := seqs [optBlanks, char '(']

def allGuarded : List (Pattern × Pattern) :=
  [(compilerDriver, driverEnd), (seqs [lineStart, compilerDriver], driverEnd),
    (seqs [lineStart, blanks], codeHead), (identifier, callHead), (blanks, char '>')]

theorem mem_allGuarded (l : Language) : ∀ x ∈ l.rules.guarded, x ∈ allGuarded := by
  cases l with
  | terminal =>
    rw [show Language.terminal.rules.guarded = [(seqs [lineStart, compilerDriver], driverEnd),
      (compilerDriver, driverEnd)] from rfl]
    simp [allGuarded]
  | console =>
    rw [show Language.console.rules.guarded = [(seqs [lineStart, compilerDriver], driverEnd),
      (compilerDriver, driverEnd), (compilerDriver, driverEnd)] from rfl]
    simp [allGuarded]
  | output =>
    rw [show Language.output.rules.guarded = [(seqs [lineStart, blanks], codeHead),
      (identifier, callHead)] from rfl]
    simp [allGuarded]
  | engineCpp =>
    rw [show Language.engineCpp.rules.guarded = [(blanks, char '>')] from rfl]
    simp [allGuarded]

/-- A pattern that takes neither of the blanks takes no character of their set. -/
theorem not_mayTake_of_has_blank {p : Pattern} (h : [' ', '\t'].any p.mayTake = false) {c : Char}
    (hc : CharSet.blank.has c) : ¬ p.mayTake c :=
  List.any_eq_false.1 h c (by simpa [CharSet.blank] using hc)

/-- Neither blanks nor a parenthesis go on with a name. -/
theorem not_mayTake_callHead {c : Char} (h : CharSet.identTail.has c) : ¬ callHead.mayTake c := by
  intro htake
  have hmem : c ∈ [' ', '\t', '('] := by
    simpa [callHead, seqs, optBlanks, Pattern.star, char, mayTake, canBeEmpty, CharSet.blank,
      or_assoc] using htake
  have hnot : [' ', '\t', '('].any CharSet.identTail.has = false := by decide
  exact List.any_eq_false.1 hnot c hmem h

theorem prefersOnly_compilerDriver {Q : Reach → Prop} : compilerDriver.PrefersOnly Q :=
  .of_unique fun _ _ hm _ hm' => eq_of_mem_ways_oneOf (by decide) compilerDrivers_apart hm hm'

theorem prefersOnly_allGuarded : ∀ x ∈ allGuarded,
    x.1.unmarked ∧ x.1.PrefersOnly (x.2.admits ·) := by
  simp only [allGuarded, List.forall_mem_cons, List.not_mem_nil, false_implies, implies_true,
    and_true]
  refine ⟨⟨rfl, prefersOnly_compilerDriver⟩, ⟨rfl, .seq (.edge _) prefersOnly_compilerDriver⟩,
    ⟨rfl, .seq (.edge _) ?_⟩, ⟨rfl, .seq (.one _) ?_⟩, ⟨rfl, ?_⟩⟩
  · exact (PrefersOnly.plus_one .blank).mono fun m =>
      not_has_of_admits rfl rfl fun c => not_mayTake_of_has_blank (by decide)
  · exact (PrefersOnly.star_one .identTail).mono fun m =>
      not_has_of_admits rfl rfl fun c => not_mayTake_callHead
  · exact (PrefersOnly.plus_one .blank).mono fun m =>
      not_has_of_admits rfl rfl fun c => not_mayTake_of_has_blank (by decide)

end Rules

/-- A guarded rule of a shipped rule set matches exactly where its pattern has an end with the
guard behind it. The preferred match is then the first of these ends, so the rule does what its
pattern would do with the guard as a lookahead. -/
theorem Language.guard_eq_lookahead (l : Language) {st : State} (hst : st ∈ l.rules.states)
    {r : Rule} (hr : r ∈ st.rules) {g : Pattern} (hg : r.guard = some g) (before : Option Char)
    (rest : List Char) :
    let here := Reach.start before rest
    ((r.match? before rest).isSome ↔ ∃ m ∈ r.pattern.ways here, g.admits m) ∧
      r.pattern.matchBefore? g here = (r.pattern.ways here).find? g.admits ∧
      (∀ m, r.pattern.matchBefore? g here = some m → r.pattern.match? here = some m) ∧
      r.match? before rest = (r.pattern.matchBefore? g here).map fun m =>
        if r.action = .peek then here else m := by
  intro here
  have hmem : (r.pattern, g) ∈ l.rules.guarded :=
    List.mem_flatMap.2 ⟨st, hst, List.mem_filterMap.2 ⟨r, hr, by rw [hg]; rfl⟩⟩
  obtain ⟨hu, hprefers⟩ := Rules.prefersOnly_allGuarded _ (Rules.mem_allGuarded l _ hmem)
  have hbefore : r.pattern.matchBefore? g here = (r.pattern.match? here).filter g.admits :=
    hprefers.matchBefore?_eq hu here
  have hrule : r.match? before rest = (r.pattern.matchBefore? g here).map fun m =>
      if r.action = .peek then here else m := by
    rw [hbefore, Rule.match?, hg]
    cases r.pattern.match? here with
    | none => rfl
    | some m =>
      change (if g.admits m then some (if r.action = .peek then here else m) else none) = _
      rw [Option.filter_some]
      cases g.admits m <;> rfl
  refine ⟨?_, matchBefore?_eq_find? hu here, fun m hm => ?_, hrule⟩
  · rw [hrule, Option.isSome_map, matchBefore?_eq_find? hu, List.find?_isSome]
  · rw [hbefore, Option.filter_eq_some_iff] at hm
    exact hm.1

/-- The name of a call is found up to its parenthesis, as by a lookahead. -/
theorem Language.guard_eq_lookahead_call :
    let st : State := ⟨"code_snippet", Rules.Output.excerptRules⟩
    let r : Rule := (Rule.token identifier .nameFunction).followedBy Rules.callHead
    let here := Reach.start none "call (x)".toList
    st ∈ Language.output.rules.states ∧ r ∈ st.rules ∧ r.guard = some Rules.callHead ∧
      (r.match? none "call (x)".toList).isSome ∧
      identifier.matchBefore? Rules.callHead here = some ⟨some 'l', " (x)".toList, 4, []⟩ ∧
      identifier.match? here = some ⟨some 'l', " (x)".toList, 4, []⟩ := by
  intro st r here
  have hst : st ∈ Language.output.rules.states := by
    change st ∈ [_, _, _, st, _]
    simp
  have hr : r ∈ st.rules := by
    change r ∈ _ :: _ :: _ :: r :: _
    simp
  obtain ⟨hmatch, hfind, hmain, -⟩ :=
    Language.output.guard_eq_lookahead hst hr rfl none "call (x)".toList
  have hfound : identifier.matchBefore? Rules.callHead here =
      some ⟨some 'l', " (x)".toList, 4, []⟩ := by
    decide +kernel
  have hway := hfind.symm.trans hfound
  refine ⟨hst, hr, rfl, hmatch.2 ?_, hfound, hmain _ hfound⟩
  exact ⟨_, List.mem_of_find?_eq_some hway, List.find?_some hway⟩

end Highlighter
