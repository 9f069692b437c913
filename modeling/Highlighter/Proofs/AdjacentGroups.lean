import Mathlib.Data.List.Chain
import Mathlib.Data.List.Nodup
import Highlighter.Language
import Highlighter.Proofs.Ends
import Highlighter.Proofs.GroupTokens
import Highlighter.Proofs.InLine

/-! Matches without gaps. The pattern of a rule with groups is a row of groups, none inside of
another, with nothing around them that takes text. A search comes through such a row from left
to right, so it records each group once, and each from where the one before it has been left.
Proved: in every match of such a rule of the shipped rule sets all groups take part and lie
side by side from the start of the match to its end, so the groups with text are its tokens,
one each, and no plain text comes between them. -/

namespace Highlighter

open Pattern

/-! ### Groups side by side -/

/-- Each group begins where the one before it ends, the first at one place, and the last ends
at the other. -/
def Adjoin : Nat → List Span → Nat → Prop
  | start, [], stop => start = stop
  | start, g :: gs, stop => g.start = start ∧ g.start ≤ g.stop ∧ Adjoin g.stop gs stop

namespace Adjoin

variable {a b c : Nat} {gs hs : List Span}

theorem append (h : Adjoin a gs b) (h' : Adjoin b hs c) : Adjoin a (gs ++ hs) c := by
  induction gs generalizing a with
  | nil => exact (show a = b from h) ▸ h'
  | cons g gs ih => exact ⟨h.1, h.2.1, ih h.2.2⟩

theorem start_eq (h : Adjoin a gs b) : ∀ g ∈ gs.head?, g.start = a := by
  cases gs with
  | nil => simp
  | cons g gs => simpa using h.1

theorem isChain (h : Adjoin a gs b) : gs.IsChain fun g g' => g'.start = g.stop := by
  induction gs generalizing a with
  | nil => exact .nil
  | cons g gs ih => exact List.isChain_cons.2 ⟨h.2.2.start_eq, ih h.2.2⟩

theorem stop_eq (h : Adjoin a gs b) : ∀ g ∈ gs.getLast?, g.stop = b := by
  induction gs generalizing a with
  | nil => simp
  | cons g gs ih =>
    cases gs with
    | nil => simpa [Adjoin] using h.2.2
    | cons g' gs => rw [List.getLast?_cons_cons]; exact ih h.2.2

theorem start_le_stop (h : Adjoin a gs b) : ∀ g ∈ gs, g.start ≤ g.stop := by
  induction gs generalizing a with
  | nil => simp
  | cons g gs ih => exact List.forall_mem_cons.2 ⟨h.2.1, ih h.2.2⟩

end Adjoin

/-! ### Rows of groups -/

namespace Pattern

variable {p : Pattern} {r m : Reach}

/-- Whether the pattern is a row of groups with no groups inside, and what stands around them
takes no text. -/
def isRow : Pattern → Bool
  | empty | edge _ | mark _ => true
  | seq p q => p.isRow && q.isRow
  | group _ p => p.groupNumbers.isEmpty
  | one _ | alt _ _ | rep _ _ _ _ => false

/-- A pattern without groups records nothing. -/
theorem preserves_spans (h : p.groupNumbers = []) (gs : List Span) :
    Preserves (fun r => r.spans = gs) p.ways := by
  induction p with
  | empty | mark => exact fun r hr m hm => List.mem_singleton.1 hm ▸ hr
  | one s =>
    intro r hr m hm
    obtain ⟨c, -, hm⟩ := mem_ways_one.1 hm
    exact hm.spans_eq.trans hr
  | edge e => exact fun r hr m hm => (mem_ways_edge.1 hm).2 ▸ hr
  | seq p q ihp ihq =>
    obtain ⟨hp, hq⟩ := List.append_eq_nil_iff.1 h
    exact (ihp hp).flatMap (ihq hq)
  | alt p q ihp ihq =>
    obtain ⟨hp, hq⟩ := List.append_eq_nil_iff.1 h
    intro r hr m hm
    rcases mem_ways_alt.1 hm with hm | hm
    · exact ihp hp r hr m hm
    · exact ihq hq r hr m hm
  | group => cases h
  | rep p least most greedy ih => exact (ih h).rep least most greedy

/-- What a row records on the way to one of its ends: its groups, side by side. -/
theorem exists_adjoin_of_mem_ways (hu : p.unmarked) (hrow : p.isRow) (hm : m ∈ p.ways r) :
    ∃ gs, m.spans = gs.reverse ++ r.spans ∧ gs.map (·.group) = p.groupNumbers ∧
      Adjoin r.taken gs m.taken := by
  induction p generalizing r m with
  | empty =>
    rw [mem_ways_empty] at hm
    exact ⟨[], by simp [hm], rfl, by rw [hm]; rfl⟩
  | edge e =>
    rw [mem_ways_edge] at hm
    exact ⟨[], by simp [hm.2], rfl, by rw [hm.2]; rfl⟩
  | seq p q ihp ihq =>
    rw [unmarked, Bool.and_eq_true] at hu
    rw [isRow, Bool.and_eq_true] at hrow
    obtain ⟨x, hx, hm⟩ := mem_ways_seq.1 hm
    obtain ⟨gs, hgs, hnumbers, hadjoin⟩ := ihp hu.1 hrow.1 hx
    obtain ⟨hs, hhs, hnumbers', hadjoin'⟩ := ihq hu.2 hrow.2 hm
    refine ⟨gs ++ hs, ?_, ?_, hadjoin.append hadjoin'⟩
    · rw [hhs, hgs, List.reverse_append, List.append_assoc]
    · rw [List.map_append, hnumbers, hnumbers', groupNumbers]
  | group i p =>
    obtain ⟨x, hx, rfl⟩ := mem_ways_group.1 hm
    have hnone : p.groupNumbers = [] := List.isEmpty_iff.1 hrow
    -- nothing is recorded inside, so the group itself is all that is new
    have hspans : x.spans = r.spans := preserves_spans hnone _ r rfl x hx
    refine ⟨[⟨i, r.taken, x.taken⟩], ?_, ?_, rfl, ?_, rfl⟩
    · rw [Reach.record, hspans]; rfl
    · rw [groupNumbers, hnone]; rfl
    · exact (leads_of_mem_ways (p := p) hu hx).taken_le
  | one | alt | rep => cases hrow
  | mark => cases hu

end Pattern

/-! ### The groups of a match -/

theorem length_eq_of_numbers {gs : List Span} {i n : Nat}
    (h : gs.map (·.group) = List.range' i n) : gs.length = n := by
  rw [← List.length_map (·.group), h, List.length_range']

/-- Where all groups have numbers of their own, each of them is the latest with its number. -/
theorem Reach.span?_of_mem {m : Reach} (h : (m.spans.map (·.group)).Nodup) {g : Span}
    (hg : g ∈ m.spans) : m.span? g.group = some g := by
  have hsome : (m.span? g.group).isSome := List.find?_isSome.2 ⟨g, hg, by simp⟩
  obtain ⟨g', hg'⟩ := Option.isSome_iff_exists.1 hsome
  have hnumber : g'.group = g.group := by simpa using List.find?_some hg'
  rw [hg', List.inj_on_of_nodup_map h (mem_of_span? hg') hg hnumber]

namespace Rule

/-- Whether the pattern of a rule with groups is a row of them, numbered from 1 on, and there is
one category for each. -/
def isDivided (r : Rule) : Bool :=
  match r.action with
  | .groups kinds => r.pattern.unmarked && r.pattern.isRow && !kinds.isEmpty &&
      r.pattern.groupNumbers == List.range' 1 kinds.length
  | _ => true

variable {r : Rule} {kinds : List Category} {before : Option Char} {rest : List Char} {m : Reach}

theorem ne_nil_of_isDivided (h : r.isDivided) (hk : r.action = .groups kinds) : kinds ≠ [] := by
  simp only [isDivided, hk, Bool.and_eq_true, Bool.not_eq_true'] at h
  exact List.isEmpty_eq_false_iff.1 h.1.2

theorem groupNumbers_of_isDivided (h : r.isDivided) (hk : r.action = .groups kinds) :
    r.pattern.groupNumbers = List.range' 1 kinds.length := by
  simp only [isDivided, hk, Bool.and_eq_true, beq_iff_eq] at h
  exact h.2

/-- The groups of a match: all those of the pattern, side by side. -/
theorem exists_adjoin_of_match? (h : r.isDivided) (hk : r.action = .groups kinds)
    (hm : r.match? before rest = some m) :
    ∃ gs, gs.map (·.group) = r.pattern.groupNumbers ∧ (∀ g ∈ gs, m.span? g.group = some g) ∧
      Adjoin 0 gs m.taken := by
  have hnumbers := groupNumbers_of_isDivided h hk
  simp only [isDivided, hk, Bool.and_eq_true] at h
  obtain ⟨⟨⟨hu, hrow⟩, -⟩, -⟩ := h
  have hway := mem_ways_of_rule hm (by rw [hk]; exact Action.noConfusion) hu
  obtain ⟨gs, hspans, hgs, hadjoin⟩ := exists_adjoin_of_mem_ways hu hrow hway
  -- a match begins with nothing recorded
  have hspans : m.spans = gs.reverse := hspans.trans (List.append_nil _)
  have hnodup : (m.spans.map (·.group)).Nodup := by
    rw [hspans, List.map_reverse, List.nodup_reverse, hgs, hnumbers]
    exact List.nodup_range' 1
  refine ⟨gs, hgs, fun g hg => Reach.span?_of_mem hnodup ?_, hadjoin⟩
  rwa [hspans, List.mem_reverse]

end Rule

/-- The groups of the pattern, one behind the other, are the whole match. -/
structure Reach.DividedInto (m : Reach) (p : Pattern) (gs : List Span) : Prop where
  takePart : p.groupNumbers.map m.span? = gs.map some
  first : gs.head?.map (·.start) = some 0
  next : gs.IsChain fun g g' => g'.start = g.stop
  last : gs.getLast?.map (·.stop) = some m.taken
  start_le_stop : ∀ g ∈ gs, g.start ≤ g.stop

theorem Adjoin.dividedInto {m : Reach} {p : Pattern} {gs : List Span} (h : Adjoin 0 gs m.taken)
    (hne : gs ≠ []) (hnumbers : gs.map (·.group) = p.groupNumbers)
    (hspans : ∀ g ∈ gs, m.span? g.group = some g) : m.DividedInto p gs where
  takePart := by
    rw [← hnumbers, List.map_map]
    exact List.map_congr_left hspans
  first := by
    rw [List.head?_eq_some_head hne, Option.map_some, h.start_eq _ (List.head?_eq_some_head hne)]
  next := h.isChain
  last := by
    have hlast := List.getLast?_eq_some_getLast hne
    rw [hlast, Option.map_some, h.stop_eq _ hlast]
  start_le_stop := h.start_le_stop

/-! ### Tokens of adjacent groups -/

def Span.token (g : Span) (kind : Category) (l : Location) (cs : List Char) : Token :=
  ⟨l.after (cs.take g.start), kind, String.ofList ((cs.drop g.start).take (g.stop - g.start))⟩

/-- One token for each group that has text. -/
def groupTokens (l : Location) (cs : List Char) (gs : List (Span × Category)) : List Token :=
  (gs.filter (·.1.hasText)).map fun (g, kind) => g.token kind l cs

theorem groupTokens_cons_of_hasText {g : Span} (hg : g.hasText) (kind : Category) (l : Location)
    (cs : List Char) (gs : List (Span × Category)) :
    groupTokens l cs ((g, kind) :: gs) = g.token kind l cs :: groupTokens l cs gs := by
  simp [groupTokens, hg]

theorem groupTokens_cons_of_not_hasText {g : Span} (hg : ¬ g.hasText) (kind : Category)
    (l : Location) (cs : List Char) (gs : List (Span × Category)) :
    groupTokens l cs ((g, kind) :: gs) = groupTokens l cs gs := by
  simp [groupTokens, hg]

/-- Where the groups lie side by side, the scanner passes them all. -/
theorem counted_of_adjoin {m : Reach} {gs : List Span} {kinds : List Category} {i at' stop : Nat}
    (h : Adjoin at' gs stop) (hnumbers : gs.map (·.group) = List.range' i kinds.length)
    (hspans : ∀ g ∈ gs, m.span? g.group = some g) :
    m.counted (fun _ => true) i at' kinds = gs.zip kinds := by
  induction kinds generalizing gs i at' with
  | nil => rw [Reach.counted, List.zip_nil_right]
  | cons kind kinds ih =>
    rw [List.length_cons, List.range'_succ] at hnumbers
    obtain ⟨g, gs, rfl, hfirst, hnumbers⟩ := List.map_eq_cons_iff.1 hnumbers
    obtain ⟨hg, hspans⟩ := List.forall_mem_cons.1 hspans
    rw [hfirst] at hg
    rw [Reach.counted_of_eligible hg rfl (Nat.le_of_eq h.1.symm), ih h.2.2 hnumbers hspans,
      List.zip_cons_cons]

/-- The pieces of groups side by side are cut into the tokens of these groups. -/
theorem cut_tiles_of_adjoin (l : Location) (cs : List Char) {gs : List Span}
    {kinds : List Category} {at' stop : Nat} (h : Adjoin at' gs stop)
    (hlength : gs.length = kinds.length) :
    cut (l.after (cs.take at')) (cs.drop at') (tiles stop at' (gs.zip kinds)) =
      groupTokens l cs (gs.zip kinds) := by
  induction gs generalizing kinds at' with
  | nil =>
    have hstop : at' = stop := h
    rw [List.zip_nil_left, tiles, hstop, Nat.sub_self]
    rfl
  | cons g gs ih =>
    obtain ⟨kind, kinds, rfl⟩ := List.exists_cons_of_length_eq_add_one hlength.symm
    obtain ⟨hstart, hle, h⟩ := h
    have ih := ih h (Nat.succ.inj hlength)
    have htext : piece .text (g.start - at') = [] := if_pos (by omega)
    rw [List.zip_cons_cons, tiles, htext, List.nil_append]
    by_cases hg : g.hasText
    · have hlt : g.start < g.stop := of_decide_eq_true hg
      have hpiece : piece kind (g.stop - g.start) = [(kind, g.stop - g.start)] :=
        if_neg (by omega)
      have hstop : at' + (g.stop - g.start) = g.stop := by omega
      rw [groupTokens_cons_of_hasText hg, ← ih, hpiece, List.singleton_append, cut,
        ← Location.after_append, ← List.take_add, List.drop_drop, hstop, Span.token, hstart]
    · have hstop : at' = g.stop := by
        have : ¬ g.start < g.stop := by simpa [Span.hasText] using hg
        omega
      have hpiece : piece kind (g.stop - g.start) = [] := if_pos (by omega)
      rw [groupTokens_cons_of_not_hasText hg, ← ih, hpiece, List.nil_append, hstop]

/-- The tokens of a match whose groups lie side by side are those of the groups with text. -/
theorem Scanner.tokens_apply_of_adjoin {s : Scanner} {r : Rule} {kinds : List Category}
    {m : Reach} (hk : r.action = .groups kinds) (hm : r.match? s.before s.rest = some m)
    {gs : List Span} (h : Adjoin 0 gs m.taken)
    (hnumbers : gs.map (·.group) = List.range' 1 kinds.length)
    (hspans : ∀ g ∈ gs, m.span? g.group = some g) :
    (s.apply r m).tokens = s.tokens ++ groupTokens s.location s.rest (gs.zip kinds) := by
  have hholds : m.Holds := (r.leads_of_match? hm).holds (Reach.holds_start _ _)
  have hlength := length_eq_of_numbers hnumbers
  rw [tokens_apply, hk, Action.pieces, groupPieces_eq_tiles hholds,
    counted_of_adjoin h hnumbers hspans]
  exact congrArg (s.tokens ++ ·) (cut_tiles_of_adjoin s.location s.rest h hlength)

/-! ### The shipped rule sets -/

theorem Language.isDivided_rules (l : Language) :
    ∀ st ∈ l.rules.states, ∀ r ∈ st.rules, r.isDivided := by
  cases l <;> decide

/-- The groups of a rule of a shipped rule set divide each of its matches without a gap, in any
text and at any place: all groups of the pattern take part, the first one begins where the match
begins, each other one where the one before it ends, and the last one ends where the match ends.
So the tokens of the match are those of the groups with text, each with its own category. -/
theorem Language.groups_fillMatch (l : Language) {st : State} (hst : st ∈ l.rules.states)
    {r : Rule} (hr : r ∈ st.rules) {kinds : List Category} (hk : r.action = .groups kinds)
    (s : Scanner) {m : Reach} (hm : r.match? s.before s.rest = some m) :
    r.pattern.groupNumbers = List.range' 1 kinds.length ∧
      ∃ gs, m.DividedInto r.pattern gs ∧ gs.length = kinds.length ∧
        (s.apply r m).tokens = s.tokens ++ groupTokens s.location s.rest (gs.zip kinds) := by
  have hdivided := l.isDivided_rules st hst r hr
  have hnumbers := Rule.groupNumbers_of_isDivided hdivided hk
  obtain ⟨gs, hgs, hspans, hadjoin⟩ := Rule.exists_adjoin_of_match? hdivided hk hm
  have hlength := length_eq_of_numbers (hgs.trans hnumbers)
  have hne : gs ≠ [] := by
    rw [← List.length_pos_iff, hlength, List.length_pos_iff]
    exact Rule.ne_nil_of_isDivided hdivided hk
  exact ⟨hnumbers, gs, hadjoin.dividedInto hne hgs hspans, hlength,
    Scanner.tokens_apply_of_adjoin hk hm hadjoin (hgs.trans hnumbers) hspans⟩

/-- An `include` with a comment behind it: the two groups for blanks are empty, and the other
three are the tokens. -/
theorem Language.groups_fillMatch_include :
    let st : State := ⟨"macro", Rules.EngineCpp.directiveRules⟩
    let kinds : List Category :=
      [.text, .commentPreproc, .text, .commentPreprocFile, .commentSingle]
    let r : Rule := .groups (seqs (numbered 1 [optBlanks, lit "include", optBlanks,
      Rules.EngineCpp.includeTarget, star (one (.except [.newline]))])) kinds
    let s := Scanner.start "include\"a\" b\n".toList
    let m : Reach := ⟨some 'b', ['\n'], 12,
      [⟨5, 10, 12⟩, ⟨4, 7, 10⟩, ⟨3, 7, 7⟩, ⟨2, 0, 7⟩, ⟨1, 0, 0⟩]⟩
    st ∈ Language.engineCpp.rules.states ∧ r ∈ st.rules ∧ r.action = .groups kinds ∧
      r.match? s.before s.rest = some m ∧
      (s.apply r m).tokens = [⟨⟨0, 0⟩, .commentPreproc, "include"⟩,
        ⟨⟨0, 7⟩, .commentPreprocFile, "\"a\""⟩, ⟨⟨0, 10⟩, .commentSingle, " b"⟩] ∧
      r.pattern.groupNumbers = List.range' 1 5 ∧
      ∃ gs, m.DividedInto r.pattern gs ∧ gs.length = 5 ∧
        (s.apply r m).tokens = s.tokens ++ groupTokens s.location s.rest (gs.zip kinds) := by
  intro st kinds r s m
  have hst : st ∈ Language.engineCpp.rules.states := by
    change st ∈ [_, _, st, _, _, _]
    simp
  have hr : r ∈ st.rules := List.mem_cons_self
  have hm : r.match? s.before s.rest = some m := by decide +kernel
  exact ⟨hst, hr, rfl, hm, by decide +kernel, Language.engineCpp.groups_fillMatch hst hr rfl s hm⟩

end Highlighter
