import Mathlib.Data.List.Basic
import Highlighter.Pattern.Ways
import Highlighter.Proofs.Lossless
import Highlighter.Rules.Parts

/-! The ends of a pattern, told by the text that it takes to come there. A pattern without
groups records nothing, so such a text and the place where it begins say all of an end.
Proved: what texts the patterns take that most rules are put together from. The order of the
ends only matters where nothing is asked for behind a repetition. -/

namespace Highlighter

namespace Reach

structure Takes (r : Reach) (cs : List Char) (r' : Reach) : Prop where
  rest_eq : r.rest = cs ++ r'.rest
  before_eq : r'.before = cs.getLast?.or r.before
  taken_eq : r'.taken = r.taken + cs.length
  spans_eq : r'.spans = r.spans

variable {r r' : Reach} {cs ds : List Char}

theorem Takes.taken_lt {c : Char} (h : r.Takes (c :: cs) r') : r.taken < r'.taken := by
  rw [h.taken_eq]
  exact Nat.lt_add_of_pos_right (Nat.succ_pos _)

@[simp] theorem takes_nil : r.Takes [] r' ↔ r' = r := by
  obtain ⟨before, rest, taken, spans⟩ := r
  obtain ⟨before', rest', taken', spans'⟩ := r'
  constructor
  · rintro ⟨hrest, hbefore, htaken, hspans⟩
    simp_all
  · rintro h
    cases h
    exact ⟨rfl, rfl, rfl, rfl⟩

/-- Any text that is ahead can be taken. -/
theorem exists_takes (h : r.rest = cs ++ ds) : ∃ r', r.Takes cs r' ∧ r'.rest = ds :=
  ⟨⟨cs.getLast?.or r.before, ds, r.taken + cs.length, r.spans⟩, ⟨h, rfl, rfl, rfl⟩, rfl⟩

theorem takes_append (cs ds : List Char) :
    r.Takes (cs ++ ds) r' ↔ ∃ x, r.Takes cs x ∧ x.Takes ds r' := by
  constructor
  · rintro ⟨hrest, hbefore, htaken, hspans⟩
    obtain ⟨x, hx, hrest'⟩ := exists_takes (hrest.trans (List.append_assoc _ _ _))
    refine ⟨x, hx, hrest', ?_, ?_, hspans.trans hx.spans_eq.symm⟩
    · rw [hbefore, hx.before_eq, List.getLast?_append, Option.or_assoc]
    · rw [htaken, hx.taken_eq, List.length_append, Nat.add_assoc]
  · rintro ⟨x, hx, h⟩
    refine ⟨?_, ?_, ?_, h.spans_eq.trans hx.spans_eq⟩
    · rw [hx.rest_eq, h.rest_eq, List.append_assoc]
    · rw [h.before_eq, hx.before_eq, List.getLast?_append, Option.or_assoc]
    · rw [h.taken_eq, hx.taken_eq, List.length_append, Nat.add_assoc]

theorem takes_cons (c : Char) (cs : List Char) :
    r.Takes (c :: cs) r' ↔ ∃ x, r.Takes [c] x ∧ x.Takes cs r' := takes_append [c] cs

theorem take?_eq_some_iff {s : CharSet} :
    r.take? s = some r' ↔ ∃ c, s.has c ∧ r.Takes [c] r' := by
  constructor
  · intro h
    obtain ⟨c, cs, hr, hc, rfl⟩ := take?_eq_some h
    exact ⟨c, hc, hr, rfl, rfl, rfl⟩
  · rintro ⟨c, hc, hrest, hbefore, htaken, hspans⟩
    obtain ⟨before', rest', taken', spans'⟩ := r'
    simp_all [take?]

/-- Behind a word, a boundary is where no word character follows. -/
theorem atEdge_wordBoundary (h : r.Takes cs r') (hw : cs.getLast?.any Text.isWord) :
    r'.atEdge .wordBoundary ↔ ¬ r'.rest.head?.any Text.isWord := by
  obtain ⟨c, hc, hword⟩ := (Option.any_eq_true _ _).1 hw
  rw [atEdge, h.before_eq, hc]
  simp [Edge.holds, hword]

end Reach

@[simp] theorem CharSet.has_except (l : List CharSet) (c : Char) :
    (except l).has c = !l.any (·.has c) := by
  rw [except, has, has_anyOf]

namespace Pattern

variable {r r' : Reach} {s : CharSet}

/-! ### Single parts -/

@[simp] theorem mem_ways_empty : r' ∈ empty.ways r ↔ r' = r := List.mem_singleton

theorem mem_ways_one : r' ∈ (one s).ways r ↔ ∃ c, s.has c ∧ r.Takes [c] r' := by
  rw [ways, Option.mem_toList, Reach.take?_eq_some_iff]

@[simp] theorem mem_ways_char {c : Char} : r' ∈ (char c).ways r ↔ r.Takes [c] r' := by
  simp [char, mem_ways_one]

@[simp] theorem mem_ways_edge {e : Edge} : r' ∈ (edge e).ways r ↔ r.atEdge e ∧ r' = r := by
  rw [ways]
  split_ifs with h <;> simp [h]

theorem mem_ways_seq {p q : Pattern} :
    r' ∈ (seq p q).ways r ↔ ∃ x ∈ p.ways r, r' ∈ q.ways x := List.mem_flatMap

@[simp] theorem mem_ways_alt {p q : Pattern} :
    r' ∈ (alt p q).ways r ↔ r' ∈ p.ways r ∨ r' ∈ q.ways r := List.mem_append

theorem mem_ways_group {i : Nat} {p : Pattern} :
    r' ∈ (group i p).ways r ↔ ∃ x ∈ p.ways r, x.record i r.taken = r' := List.mem_map

theorem mem_ways_of_match? {p : Pattern} (hp : p.unmarked) (h : p.match? r = some r') :
    r' ∈ p.ways r := by
  rw [match?_eq_head? hp] at h
  exact List.mem_of_head? h

theorem match?_eq_none_iff {p : Pattern} (hp : p.unmarked) :
    p.match? r = none ↔ ∀ m, m ∉ p.ways r := by
  rw [match?_eq_head? hp, List.head?_eq_none_iff, List.eq_nil_iff_forall_not_mem]

/-! ### Parts in a row -/

@[simp] theorem mem_ways_seqs_nil : r' ∈ (seqs []).ways r ↔ r' = r := mem_ways_empty

theorem mem_ways_seqs_cons {p : Pattern} {ps : List Pattern} :
    r' ∈ (seqs (p :: ps)).ways r ↔ ∃ x ∈ p.ways r, r' ∈ (seqs ps).ways x := by
  cases ps with
  | nil => simp [seqs]
  | cons q ps => exact mem_ways_seq

theorem mem_ways_seqs_append {ps qs : List Pattern} :
    r' ∈ (seqs (ps ++ qs)).ways r ↔ ∃ x ∈ (seqs ps).ways r, r' ∈ (seqs qs).ways x := by
  induction ps generalizing r with
  | nil => simp
  | cons p ps ih =>
    simp only [List.cons_append, mem_ways_seqs_cons, ih]
    constructor
    · rintro ⟨x, hx, y, hy, h⟩
      exact ⟨y, ⟨x, hx, hy⟩, h⟩
    · rintro ⟨y, ⟨x, hx, hy⟩, h⟩
      exact ⟨x, hx, y, hy, h⟩

@[simp] theorem mem_ways_lit {w : String} : r' ∈ (lit w).ways r ↔ r.Takes w.toList r' := by
  unfold lit
  induction w.toList generalizing r with
  | nil => simp
  | cons c cs ih => simp [mem_ways_seqs_cons, Reach.takes_cons c cs, ih]

/-! ### Repeated characters -/

theorem mem_inOrder {greedy : Bool} {l l' : List Reach} :
    r' ∈ inOrder greedy l l' ↔ r' ∈ l' ∨ r' ∈ l := by
  cases greedy <;> simp [inOrder, or_comm]

theorem mem_waysOn_one {greedy : Bool} {n : Nat} : r' ∈ waysOn (one s).ways greedy n r ↔
    ∃ cs, cs.length ≤ n ∧ (∀ c ∈ cs, s.has c) ∧ r.Takes cs r' := by
  induction n generalizing r with
  | zero => simp [waysOn]
  | succ n ih =>
    rw [waysOn, mem_inOrder, List.mem_singleton, List.mem_flatMap]
    constructor
    · rintro (rfl | ⟨x, hx, h⟩)
      · exact ⟨[], by simp⟩
      · obtain ⟨c, hc, hx⟩ := mem_ways_one.1 hx
        rw [if_pos hx.taken_lt] at h
        obtain ⟨cs, hn, hcs, h⟩ := ih.1 h
        exact ⟨c :: cs, Nat.succ_le_succ hn, List.forall_mem_cons.2 ⟨hc, hcs⟩,
          (Reach.takes_cons _ _).2 ⟨x, hx, h⟩⟩
    · rintro ⟨cs, hn, hcs, h⟩
      cases cs with
      | nil => exact .inl (Reach.takes_nil.1 h)
      | cons c cs =>
        obtain ⟨hc, hcs⟩ := List.forall_mem_cons.1 hcs
        obtain ⟨x, hx, h⟩ := (Reach.takes_cons _ _).1 h
        refine .inr ⟨x, mem_ways_one.2 ⟨c, hc, hx⟩, ?_⟩
        rw [if_pos hx.taken_lt]
        exact ih.2 ⟨cs, Nat.le_of_succ_le_succ hn, hcs, h⟩

theorem mem_waysPlus_one {greedy : Bool} : r' ∈ waysPlus (one s).ways greedy r ↔
    ∃ cs, cs ≠ [] ∧ (∀ c ∈ cs, s.has c) ∧ r.Takes cs r' := by
  rw [waysPlus, List.mem_flatMap]
  constructor
  · rintro ⟨x, hx, h⟩
    obtain ⟨c, hc, hx⟩ := mem_ways_one.1 hx
    rw [if_pos hx.taken_lt] at h
    obtain ⟨cs, -, hcs, h⟩ := mem_waysOn_one.1 h
    exact ⟨c :: cs, by simp, List.forall_mem_cons.2 ⟨hc, hcs⟩, (Reach.takes_cons _ _).2 ⟨x, hx, h⟩⟩
  · rintro ⟨cs, hne, hcs, h⟩
    obtain ⟨c, cs, rfl⟩ := List.exists_cons_of_ne_nil hne
    obtain ⟨hc, hcs⟩ := List.forall_mem_cons.1 hcs
    obtain ⟨x, hx, h⟩ := (Reach.takes_cons _ _).1 h
    refine ⟨x, mem_ways_one.2 ⟨c, hc, hx⟩, ?_⟩
    rw [if_pos hx.taken_lt]
    exact mem_waysOn_one.2 ⟨cs, by rw [h.rest_eq]; simp, hcs, h⟩

theorem ways_plus (p : Pattern) (r : Reach) : (plus p).ways r = waysPlus p.ways true r := by
  simp [plus, ways, waysRep, waysTimes]

theorem mem_ways_plus_one : r' ∈ (plus (one s)).ways r ↔
    ∃ cs, cs ≠ [] ∧ (∀ c ∈ cs, s.has c) ∧ r.Takes cs r' := by
  rw [ways_plus, mem_waysPlus_one]

theorem mem_ways_rep_one {greedy : Bool} : r' ∈ (rep (one s) 0 none greedy).ways r ↔
    ∃ cs, (∀ c ∈ cs, s.has c) ∧ r.Takes cs r' := by
  rw [ways, waysRep, mem_inOrder, mem_waysPlus_one, List.mem_singleton]
  constructor
  · rintro (rfl | ⟨cs, -, hcs, h⟩)
    · exact ⟨[], by simp⟩
    · exact ⟨cs, hcs, h⟩
  · rintro ⟨cs, hcs, h⟩
    by_cases hne : cs = []
    · subst hne; exact .inl (Reach.takes_nil.1 h)
    · exact .inr ⟨cs, hne, hcs, h⟩

@[simp] theorem mem_ways_star_one : r' ∈ (star (one s)).ways r ↔
    ∃ cs, (∀ c ∈ cs, s.has c) ∧ r.Takes cs r' := mem_ways_rep_one

theorem mem_ways_lazyStar_one : r' ∈ (lazyStar (one s)).ways r ↔
    ∃ cs, (∀ c ∈ cs, s.has c) ∧ r.Takes cs r' := mem_ways_rep_one

theorem mem_waysTimes_one {n : Nat} : r' ∈ waysTimes (one s).ways n r ↔
    ∃ cs, cs.length = n ∧ (∀ c ∈ cs, s.has c) ∧ r.Takes cs r' := by
  induction n generalizing r with
  | zero => simp [waysTimes]
  | succ n ih =>
    rw [waysTimes, List.mem_flatMap]
    constructor
    · rintro ⟨x, hx, h⟩
      obtain ⟨c, hc, hx⟩ := mem_ways_one.1 hx
      obtain ⟨cs, hn, hcs, h⟩ := ih.1 h
      exact ⟨c :: cs, congrArg Nat.succ hn, List.forall_mem_cons.2 ⟨hc, hcs⟩,
        (Reach.takes_cons _ _).2 ⟨x, hx, h⟩⟩
    · rintro ⟨cs, hn, hcs, h⟩
      obtain ⟨c, cs, rfl⟩ := List.exists_cons_of_length_eq_add_one hn
      obtain ⟨hc, hcs⟩ := List.forall_mem_cons.1 hcs
      obtain ⟨x, hx, h⟩ := (Reach.takes_cons _ _).1 h
      exact ⟨x, mem_ways_one.2 ⟨c, hc, hx⟩, ih.2 ⟨cs, Nat.succ.inj hn, hcs, h⟩⟩

/-- As each character counts as taken, a bound on the repetitions is a bound on the text. -/
theorem waysUpTo_one (s : CharSet) (greedy : Bool) (n : Nat) (r : Reach) :
    waysUpTo (one s).ways greedy n r = waysOn (one s).ways greedy n r := by
  induction n generalizing r with
  | zero => rfl
  | succ n ih =>
    have hmore : ((one s).ways r).flatMap (waysUpTo (one s).ways greedy n) =
        ((one s).ways r).flatMap fun r' =>
          if r.taken < r'.taken then waysOn (one s).ways greedy n r' else [] := by
      refine List.flatMap_congr fun x hx => ?_
      obtain ⟨c, -, hx⟩ := mem_ways_one.1 hx
      rw [if_pos hx.taken_lt, ih]
    rw [waysUpTo, waysOn, hmore]

/-- A counted repetition takes characters of the set, at least as many as it has to. -/
theorem takes_of_mem_ways_rep_one {least top : Nat} {greedy : Bool}
    (h : r' ∈ (rep (one s) least (some top) greedy).ways r) :
    ∃ cs, least ≤ cs.length ∧ (∀ c ∈ cs, s.has c) ∧ r.Takes cs r' := by
  have hrep : r' ∈ (waysTimes (one s).ways least r).flatMap
      (waysUpTo (one s).ways greedy (top - least)) := by
    cases least <;> exact h
  obtain ⟨x, hx, h⟩ := List.mem_flatMap.1 hrep
  obtain ⟨cs, hn, hcs, hx⟩ := mem_waysTimes_one.1 hx
  rw [waysUpTo_one] at h
  obtain ⟨ds, -, hds, h⟩ := mem_waysOn_one.1 h
  refine ⟨cs ++ ds, by rw [List.length_append]; omega, List.forall_mem_append.2 ⟨hcs, hds⟩,
    (Reach.takes_append _ _).2 ⟨x, hx, h⟩⟩

/-- The preferred end of a repetition is behind all characters of the set. -/
theorem head?_waysOn_one {n : Nat} (hn : r.rest.length ≤ n) :
    ∃ m, (waysOn (one s).ways true n r).head? = some m ∧ r.Takes (r.rest.takeWhile s.has) m := by
  induction n generalizing r with
  | zero =>
    have hr : r.rest = [] := List.length_eq_zero_iff.1 (by omega)
    exact ⟨r, rfl, by simp [hr]⟩
  | succ n ih =>
    cases hr : r.take? s with
    | none =>
      have hw : r.rest.takeWhile s.has = [] := by
        cases hrest : r.rest with
        | nil => rfl
        | cons c cs =>
          have hc : ¬ s.has c := by simpa [Reach.take?, hrest] using hr
          exact List.takeWhile_cons_of_neg hc
      exact ⟨r, by simp [waysOn, inOrder, ways, hr], by simp [hw]⟩
    | some x =>
      obtain ⟨c, hc, hx⟩ := Reach.take?_eq_some_iff.1 hr
      have hlen : x.rest.length ≤ n := by
        have := congrArg List.length hx.rest_eq
        simp only [List.length_append, List.length_singleton] at this
        omega
      obtain ⟨m, hm, ht⟩ := ih hlen
      refine ⟨m, ?_, ?_⟩
      · rw [waysOn, ways, hr]
        simp [inOrder, hx.taken_lt, hm]
      · rw [hx.rest_eq, List.singleton_append, List.takeWhile_cons_of_pos hc]
        exact (Reach.takes_cons _ _).2 ⟨x, hx, ht⟩

theorem match?_plus_one {c : Char} {cs : List Char} (hr : r.rest = c :: cs) (hc : s.has c) :
    ∃ m, (plus (one s)).match? r = some m ∧ r.Takes (r.rest.takeWhile s.has) m := by
  obtain ⟨x, hx, hrest⟩ := Reach.exists_takes (show r.rest = [c] ++ cs from hr)
  obtain ⟨m, hm, ht⟩ := head?_waysOn_one (s := s) (Nat.le_refl x.rest.length)
  refine ⟨m, ?_, ?_⟩
  · have htake : r.take? s = some x := Reach.take?_eq_some_iff.2 ⟨c, hc, hx⟩
    rw [match?_eq_head? rfl, ways_plus, waysPlus, ways, htake]
    simp [hx.taken_lt, hm]
  · rw [hr, List.takeWhile_cons_of_pos hc, ← hrest]
    exact (Reach.takes_cons _ _).2 ⟨x, hx, ht⟩

/-! ### What all ends keep -/

/-- What all branches keep if it holds where they begin. -/
def Preserves (Q : Reach → Prop) (w : Branches) : Prop := ∀ r, Q r → ∀ m ∈ w r, Q m

namespace Preserves

variable {Q : Reach → Prop} {w w' : Branches}

theorem flatMap (hw : Preserves Q w) (hw' : Preserves Q w') :
    Preserves Q fun r => (w r).flatMap w' := by
  intro r hr m hm
  obtain ⟨x, hx, hm⟩ := List.mem_flatMap.1 hm
  exact hw' x (hw r hr x hx) m hm

theorem inOrder (hw : Preserves Q w) (greedy : Bool) :
    Preserves Q fun r => inOrder greedy (w r) [r] := by
  intro r hr m hm
  rcases mem_inOrder.1 hm with hm | hm
  · rwa [List.mem_singleton.1 hm]
  · exact hw r hr m hm

theorem times (hw : Preserves Q w) (n : Nat) : Preserves Q (waysTimes w n) := by
  induction n with
  | zero => exact fun r hr m hm => List.mem_singleton.1 hm ▸ hr
  | succ n ih => exact hw.flatMap ih

theorem upTo (hw : Preserves Q w) (greedy : Bool) (n : Nat) :
    Preserves Q (waysUpTo w greedy n) := by
  induction n with
  | zero => exact fun r hr m hm => List.mem_singleton.1 hm ▸ hr
  | succ n ih => exact (hw.flatMap ih).inOrder greedy

theorem on (hw : Preserves Q w) (greedy : Bool) (n : Nat) : Preserves Q (waysOn w greedy n) := by
  induction n with
  | zero => exact fun r hr m hm => List.mem_singleton.1 hm ▸ hr
  | succ n ih =>
    refine inOrder (w := fun r => (w r).flatMap fun r' =>
      if r.taken < r'.taken then waysOn w greedy n r' else []) ?_ greedy
    intro r hr m hm
    obtain ⟨x, hx, hm⟩ := List.mem_flatMap.1 hm
    split_ifs at hm
    · exact ih x (hw r hr x hx) m hm
    · cases hm

theorem plus (hw : Preserves Q w) (greedy : Bool) : Preserves Q (waysPlus w greedy) := by
  intro r hr m hm
  obtain ⟨x, hx, hm⟩ := List.mem_flatMap.1 hm
  have hx := hw r hr x hx
  split_ifs at hm
  · exact hw.on greedy _ x hx m hm
  · exact List.mem_singleton.1 hm ▸ hx

theorem rep (hw : Preserves Q w) (least : Nat) (most : Option Nat) (greedy : Bool) :
    Preserves Q (waysRep w least most greedy) := by
  match least, most with
  | 0, none => exact (hw.plus greedy).inOrder greedy
  | n + 1, none => exact (hw.times n).flatMap (hw.plus greedy)
  | 0, some top => exact (hw.times 0).flatMap (hw.upTo greedy _)
  | n + 1, some top => exact (hw.times (n + 1)).flatMap (hw.upTo greedy _)

end Preserves

end Pattern

/-! ### Rules -/

open Pattern

theorem mem_ways_of_rule {r : Rule} {before : Option Char} {rest : List Char} {m : Reach}
    (h : r.match? before rest = some m) (hp : r.action ≠ .peek) (hu : r.pattern.unmarked) :
    m ∈ r.pattern.ways (.start before rest) :=
  mem_ways_of_match? hu (Rule.pattern_match? h hp)

/-- A rule that takes some text has an effect exactly where its pattern has an end. -/
theorem Scanner.effect?_eq_none_iff {s : Scanner} {r : Rule} (hg : r.guard = none)
    (hp : r.action ≠ .peek) (he : r.pattern.canBeEmpty = false) (hu : r.pattern.unmarked) :
    s.effect? r = none ↔ ∀ m, m ∉ r.pattern.ways (.start s.before s.rest) := by
  rw [effect?, Rule.match?_of_guard_eq_none hg hp, ← match?_eq_none_iff hu]
  cases hm : r.pattern.match? (.start s.before s.rest) with
  | none => simp
  | some m =>
    have hpos : 0 < m.taken := taken_lt_of_match? he hm
    simp [Option.filter, hpos]

/-! ### Steps -/

namespace Scanner

variable {s : Scanner} {st : Stack}

structure TakesText (kind : Category) (w : List Char) (st : Stack) (s s' : Scanner) : Prop where
  rest_eq : s.rest = w ++ s'.rest
  stack_eq : s'.stack = st
  tokens_eq : s'.tokens = s.tokens ++ [⟨s.location, kind, String.ofList w⟩]

theorem takesText_of_select {rs : RuleSet} {r : Rule} {m : Reach} {kind : Category} {w : List Char}
    (hsel : s.select rs = some (r, m)) (hm : (Reach.start s.before s.rest).Takes w m)
    (hne : w ≠ []) (ha : r.action = .emit kind) :
    TakesText kind w (r.move.apply s.stack) s (s.step rs) := by
  have hrest : s.rest = w ++ m.rest := hm.rest_eq
  have htaken : m.taken = w.length := hm.taken_eq.trans (Nat.zero_add _)
  have hpos : 0 < w.length := List.length_pos_iff.2 hne
  rw [step_of_select hsel (htaken ▸ hpos)]
  refine ⟨?_, rfl, (tokens_apply s r m).trans ?_⟩
  · change s.rest = w ++ s.rest.drop m.taken
    rw [hrest, htaken, List.drop_left]
  · rw [ha, Action.pieces, piece, if_neg (by omega), cut, cut, htaken, hrest, List.take_left]

end Scanner

end Highlighter
