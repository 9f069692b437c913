import Mathlib.Algebra.Order.BigOperators.Group.Finset
import Mathlib.Logic.Function.Iterate
import Highlighter.Proofs.Recast

/-! The pass over C++ tokens applied to its own result, over and over. A token climbs
down a ladder of at most three rungs, whatever the declared names of each pass are: a
name is open, then a class, then closed, and what the walk fixes is reached at once.
Proved: no category comes back, what the walk fixes is there after the first pass, and
a list of `n` tokens is at rest after `2 * n` passes. -/

namespace Highlighter

open Token Context

def passes (n : Nat) (ts : List Token) : List Token := classify^[n] ts

def kindAfter (ts : List Token) (n i : Nat) : Option Category := (passes n ts)[i]?.map (·.kind)

@[simp] theorem passes_zero (ts : List Token) : passes 0 ts = ts := rfl

theorem passes_succ (n : Nat) (ts : List Token) : passes (n + 1) ts = classify (passes n ts) :=
  Function.iterate_succ_apply' classify n ts

/-! ### One token in one pass -/

theorem getElem?_settle (s : Symbols) (last : Option (Category × String)) {ts : List Token}
    {sites : List Site} {i : Nat} {t : Token} {site : Site} (ht : ts[i]? = some t)
    (hs : sites[i]? = some site) :
    ∃ last', (settle s last ts sites)[i]? = some { t with kind := site.kind s last' t } := by
  induction ts generalizing last sites i with
  | nil => simp at ht
  | cons u us ih =>
    cases sites with
    | nil => simp at hs
    | cons site' sites =>
      cases i with
      | zero =>
        simp only [List.getElem?_cons_zero, Option.some.injEq] at ht hs
        subst ht hs
        exact ⟨last, rfl⟩
      | succ i =>
        rw [List.getElem?_cons_succ] at ht hs
        exact ih _ ht hs

theorem getElem?_classify {ts : List Token} {i : Nat} {t : Token} {site : Site}
    (ht : ts[i]? = some t) (hs : (sites ts)[i]? = some site) :
    ∃ s last, (classify ts)[i]? = some { t with kind := site.kind s last t } := by
  obtain ⟨last, h⟩ := getElem?_settle (Symbols.collect ts) none ht hs
  exact ⟨_, last, by rw [classify_eq_settle, h]⟩

@[simp] theorem Cursor.length_sites (p : Cursor) (ts : List Token) :
    (p.sites ts).length = ts.length := by
  induction ts generalizing p with
  | nil => rfl
  | cons t rest ih => simp [ih]

@[simp] theorem length_sites (ts : List Token) : (sites ts).length = ts.length :=
  Cursor.start.length_sites ts

@[simp] theorem length_classify (ts : List Token) : (classify ts).length = ts.length := by
  have h := recast_classify ts
  generalize sites ts = ss, classify ts = ts' at h
  induction h with
  | nil => rfl
  | cons _ _ ih => simp [ih]

theorem length_passes (n : Nat) (ts : List Token) : (passes n ts).length = ts.length := by
  induction n with
  | zero => rfl
  | succ n ih => rw [passes_succ, length_classify, ih]

theorem getElem?_sites_classify {ts : List Token} {i : Nat} {t' : Token} {site : Site}
    (ht : (classify ts)[i]? = some t') (hs : (sites ts)[i]? = some site) :
    (sites (classify ts))[i]? = some (site.after t') := by
  rw [sites_classify, List.getElem?_zipWith, ht, hs]

namespace Site

/-- How far a token with a category is from its rest. -/
def rung (site : Site) (k : Category) : Nat :=
  match site.fixed? with
  | some k' => if k = k' then 0 else 1
  | none => if k = .nameClass then 1 else if k.isOpenName then 2 else 0

theorem rung_le (site : Site) (k : Category) : site.rung k ≤ 2 := by
  unfold rung
  cases site.fixed? with
  | some k' => simp only; split_ifs <;> omega
  | none => simp only; split_ifs <;> omega

end Site

/-- A convention that leaves a name open takes it for a class. -/
theorem convention?_isOpenName {n : Standing} {s : Symbols} {last : Option (Category × String)}
    {name : String} {k : Category} (h : n.convention? s last name = some k) (ho : k.isOpenName) :
    k = .nameClass := by
  revert h; unfold Standing.convention?
  split_ifs <;> (intro h; cases h) <;> revert ho <;> decide

/-- An open name keeps its category, becomes a class, or is closed. -/
theorem nameKind_cases {n : Standing} (hn : n.behindNamespace = false) (s : Symbols)
    (last : Option (Category × String)) (t : Token) :
    n.nameKind s last t = t.kind ∨ n.nameKind s last t = .nameClass ∨
      (n.nameKind s last t).isOpenName = false := by
  simp only [Standing.nameKind, hn, Bool.false_eq_true, if_false]
  split_ifs with hd
  · exact .inr (.inl rfl)
  · cases hc : n.convention? s last t.text with
    | none => exact .inl rfl
    | some k =>
      cases ho : k.isOpenName with
      | true => exact .inr (.inl (convention?_isOpenName hc ho))
      | false => exact .inr (.inr ho)

theorem rung_of_fixed {site : Site} {k : Category} (h : site.fixed? = some k) (k' : Category) :
    site.rung k' = if k' = k then 0 else 1 := by
  simp [Site.rung, h]

/-- The token has the fixed category, or it climbs down to it. -/
theorem fixed_or_rung_lt {site : Site} {k : Category} (h : site.fixed? = some k) (k' : Category) :
    k = k' ∨ site.rung k < site.rung k' := by
  rw [rung_of_fixed h, rung_of_fixed h, if_pos rfl]
  by_cases hk : k' = k
  · exact .inl hk.symm
  · exact .inr (by simp [hk])

/-- An open name that declared names have a say in keeps its category or climbs down. -/
theorem nameKind_eq_or_rung_lt {n : Standing} (hn : n.behindNamespace = false) (s : Symbols)
    (last : Option (Category × String)) {t : Token} (ho : t.kind.isOpenName) :
    n.nameKind s last t = t.kind ∨
      (Site.single n).rung (n.nameKind s last t) < (Site.single n).rung t.kind := by
  have hrung (k : Category) : (Site.single n).rung k =
      if k = .nameClass then 1 else if k.isOpenName then 2 else 0 := by
    simp [Site.rung, Site.fixed?, hn]
  rw [hrung, hrung, ho]
  rcases nameKind_cases hn s last t with h | h | h
  · exact .inl h
  · rw [h]
    by_cases hc : t.kind = .nameClass
    · exact .inl hc.symm
    · exact .inr (by simp [hc])
  · have hne : n.nameKind s last t ≠ .nameClass := by rintro he; rw [he] at h; cases h
    rw [h, if_neg hne]
    simp only [Bool.false_eq_true, if_false, if_true]
    exact .inr (by split_ifs <;> omega)

/-- A pass keeps the category of a token or moves the token down. -/
theorem kind_eq_or_rung_lt (site : Site) (s : Symbols) (last : Option (Category × String))
    (t : Token) :
    (site.after t).kind s last t = t.kind ∨
      site.rung ((site.after t).kind s last t) < site.rung t.kind := by
  cases site with
  | blank => exact fixed_or_rung_lt rfl _
  | restored | linked | other => exact fixed_or_rung_lt rfl _
  | single n =>
    cases ho : t.kind.isOpenName with
    | false => exact .inl (by simp [Site.after, ho, Site.kind])
    | true =>
      simp only [Site.after, ho, if_true, Site.kind]
      cases hn : n.behindNamespace with
      | true =>
        have hk : n.nameKind s last t = .nameNamespace := by simp [Standing.nameKind, hn]
        rw [hk]
        exact fixed_or_rung_lt (by simp [Site.fixed?, hn]) _
      | false => exact nameKind_eq_or_rung_lt hn s last ho

/-! ### One token in all passes -/

theorem after_after (site : Site) (s : Symbols) (last : Option (Category × String)) (t : Token) :
    (site.after t).after { t with kind := (site.after t).kind s last t } =
      site.after { t with kind := (site.after t).kind s last t } := by
  cases site with
  | blank | restored | linked | other => rfl
  | single n =>
    cases ho : t.kind.isOpenName with
    | true => simp [Site.after, ho]
    | false => simp [Site.after, ho, Site.kind]

theorem isOpenName_of_single {p : Cursor} {ts : List Token} {i : Nat} {t : Token} {n : Standing}
    (ht : ts[i]? = some t) (hs : (p.sites ts)[i]? = some (.single n)) : t.kind.isOpenName := by
  induction ts generalizing p i with
  | nil => simp at ht
  | cons u rest ih =>
    cases i with
    | zero =>
      simp only [Cursor.sites_cons, List.getElem?_cons_zero, Option.some.injEq] at ht hs
      subst ht
      have hw := p.walks u rest
      rw [hs] at hw
      exact hw.isOpenName
    | succ i =>
      rw [Cursor.sites_cons, List.getElem?_cons_succ] at hs
      rw [List.getElem?_cons_succ] at ht
      exact ih ht hs

/-- The site of a token after any number of passes follows from its first site and the
category it has by then. -/
theorem getElem?_sites_passes {ts : List Token} {i : Nat} {site : Site}
    (hs : (sites ts)[i]? = some site) (n : Nat) :
    ∃ t, (passes n ts)[i]? = some t ∧ (sites (passes n ts))[i]? = some (site.after t) := by
  induction n with
  | zero =>
    have hi : i < ts.length := by
      have := (List.getElem?_eq_some_iff.1 hs).1
      rwa [length_sites] at this
    refine ⟨ts[i], List.getElem?_eq_getElem hi, ?_⟩
    rw [passes_zero, hs]
    cases site with
    | blank | restored | linked | other => rfl
    | single n =>
      have ho := isOpenName_of_single (List.getElem?_eq_getElem hi) hs
      simp [Site.after, ho]
  | succ n ih =>
    obtain ⟨t, ht, hsite⟩ := ih
    obtain ⟨s, last, hc⟩ := getElem?_classify ht hsite
    refine ⟨_, by rw [passes_succ]; exact hc, ?_⟩
    rw [passes_succ, getElem?_sites_classify hc hsite, after_after]

/-- What is a part of a qualified name in one pass is so in all of them. -/
theorem getElem?_sites_passes_linked {ts : List Token} (i : Nat) (k : Category) (n : Nat) :
    (sites (passes n ts))[i]? = some (.linked k) ↔ (sites ts)[i]? = some (.linked k) := by
  have hafter (site : Site) (t : Token) : site.after t = .linked k ↔ site = .linked k := by
    cases site with
    | blank | restored | linked | other => rfl
    | single n =>
      simp only [Site.after]
      split_ifs <;> simp
  cases hs : (sites ts)[i]? with
  | none =>
    have hi : ts.length ≤ i := by simpa using hs
    simp [length_passes, hi]
  | some site =>
    obtain ⟨t, -, hsite⟩ := getElem?_sites_passes hs n
    rw [hsite, Option.some.injEq, Option.some.injEq, hafter]

/-- The token at an index in a pass and in the next one. -/
theorem getElem?_passes {ts : List Token} {i : Nat} {site : Site}
    (hs : (sites ts)[i]? = some site) (n : Nat) :
    ∃ t s last, (passes n ts)[i]? = some t ∧
      (passes (n + 1) ts)[i]? = some { t with kind := (site.after t).kind s last t } := by
  obtain ⟨t, ht, hsite⟩ := getElem?_sites_passes hs n
  obtain ⟨s, last, hc⟩ := getElem?_classify ht hsite
  exact ⟨t, s, last, ht, by rw [passes_succ, hc]⟩

def rungAfter (ts : List Token) (n i : Nat) : Nat :=
  ((sites ts)[i]?.bind fun site => (kindAfter ts n i).map site.rung).getD 0

theorem rungAfter_le (ts : List Token) (n i : Nat) : rungAfter ts n i ≤ 2 := by
  unfold rungAfter
  cases (sites ts)[i]? with
  | none => exact Nat.zero_le _
  | some site =>
    cases kindAfter ts n i with
    | none => exact Nat.zero_le _
    | some k => exact site.rung_le k

theorem rungAfter_eq {ts : List Token} {n i : Nat} {site : Site} {k : Category}
    (hs : (sites ts)[i]? = some site) (hk : kindAfter ts n i = some k) :
    rungAfter ts n i = site.rung k := by
  simp [rungAfter, hs, hk]

/-- The ladder is climbed down only. -/
theorem kindAfter_succ (ts : List Token) (n i : Nat) :
    kindAfter ts (n + 1) i = kindAfter ts n i ∨ rungAfter ts (n + 1) i < rungAfter ts n i := by
  cases hs : (sites ts)[i]? with
  | none =>
    have hi : ts.length ≤ i := by simpa using hs
    have hnone (m : Nat) : kindAfter ts m i = none := by simp [kindAfter, length_passes, hi]
    exact .inl (by rw [hnone, hnone])
  | some site =>
    obtain ⟨t, s, last, ht, ht'⟩ := getElem?_passes hs n
    have hk : kindAfter ts n i = some t.kind := by simp [kindAfter, ht]
    have hk' : kindAfter ts (n + 1) i = some ((site.after t).kind s last t) := by
      simp [kindAfter, ht']
    rw [rungAfter_eq hs hk, rungAfter_eq hs hk', hk, hk', Option.some.injEq]
    exact kind_eq_or_rung_lt site s last t

theorem rungAfter_succ_le (ts : List Token) (i n : Nat) :
    rungAfter ts (n + 1) i ≤ rungAfter ts n i := by
  rcases kindAfter_succ ts n i with h | h
  · unfold rungAfter; rw [h]
  · omega

theorem rungAfter_antitone (ts : List Token) (i : Nat) {m n : Nat} (h : m ≤ n) :
    rungAfter ts n i ≤ rungAfter ts m i :=
  antitone_nat_of_succ_le (f := fun n => rungAfter ts n i) (rungAfter_succ_le ts i) h

/-- A token that is on the same rung has kept its category. -/
theorem kindAfter_eq {ts : List Token} {i m n : Nat} (hmn : m ≤ n)
    (h : rungAfter ts m i ≤ rungAfter ts n i) : kindAfter ts n i = kindAfter ts m i := by
  induction n, hmn using Nat.le_induction with
  | base => rfl
  | succ n hmn ih =>
    have hle := rungAfter_antitone ts i hmn
    have hsucc := rungAfter_succ_le ts i n
    rw [← ih (by omega)]
    rcases kindAfter_succ ts n i with he | hlt
    · exact he
    · omega

/-- What the walk fixes is there after the first pass. -/
theorem kindAfter_of_fixed {ts : List Token} {i : Nat} {site : Site} {k : Category}
    (hs : (sites ts)[i]? = some site) (hk : site.fixed? = some k) {n : Nat} (hn : 1 ≤ n) :
    kindAfter ts n i = some k := by
  obtain ⟨t, ht, -⟩ := getElem?_sites_passes hs 0
  obtain ⟨s, last, hc⟩ := getElem?_classify ht hs
  have hfirst : kindAfter ts 1 i = some k := by
    rw [← site.kind_of_fixed hk s last t]
    rw [kindAfter, passes_succ, hc]
    rfl
  rw [← hfirst]
  refine kindAfter_eq hn ?_
  rw [rungAfter_eq hs hfirst, rung_of_fixed hk, if_pos rfl]
  exact Nat.zero_le _

/-- A name that is closed stays closed. -/
theorem kindAfter_of_closed {ts : List Token} {i m n : Nat} {k : Category} (hm : 1 ≤ m)
    (hk : kindAfter ts m i = some k) (hc : k.isOpenName = false) (hmn : m ≤ n) :
    kindAfter ts n i = some k := by
  cases hs : (sites ts)[i]? with
  | none =>
    have hi : ts.length ≤ i := by simpa using hs
    simp [kindAfter, length_passes, hi] at hk
  | some site =>
    cases hf : site.fixed? with
    | some k' =>
      rw [kindAfter_of_fixed hs hf hm] at hk
      rw [kindAfter_of_fixed hs hf (by omega), hk]
    | none =>
      rw [kindAfter_eq hmn ?_, hk]
      have hne : k ≠ .nameClass := by rintro rfl; cases hc
      rw [rungAfter_eq hs hk]
      simp [Site.rung, hf, hne, hc]

/-! ### All tokens -/

/-- All rungs that are left after a number of passes. -/
def height (ts : List Token) (n : Nat) : Nat := ∑ i ∈ Finset.range ts.length, rungAfter ts n i

theorem height_le (ts : List Token) (n : Nat) : height ts n ≤ 2 * ts.length := by
  have h := Finset.sum_le_card_nsmul (Finset.range ts.length) (rungAfter ts n) 2
    fun i _ => rungAfter_le ts n i
  rw [Finset.card_range] at h
  rw [Nat.mul_comm]
  exact h

/-- Passes move no text and no location. -/
theorem passes_eq_of_kindAfter {ts : List Token} {n : Nat}
    (h : ∀ i, kindAfter ts (n + 1) i = kindAfter ts n i) : passes (n + 1) ts = passes n ts := by
  refine List.ext_getElem? fun i => ?_
  cases hs : (sites ts)[i]? with
  | none =>
    have hi : ts.length ≤ i := by simpa using hs
    simp [length_passes, hi]
  | some site =>
    obtain ⟨t, s, last, ht, ht'⟩ := getElem?_passes hs n
    have hk := h i
    simp only [kindAfter, ht, ht', Option.map_some, Option.some.injEq] at hk
    rw [ht, ht', hk]

theorem height_succ_lt {ts : List Token} {n : Nat} (h : passes (n + 1) ts ≠ passes n ts) :
    height ts (n + 1) < height ts n := by
  obtain ⟨i, hi⟩ := not_forall.1 (mt passes_eq_of_kindAfter h)
  have hlt : rungAfter ts (n + 1) i < rungAfter ts n i := (kindAfter_succ ts n i).resolve_left hi
  refine Finset.sum_lt_sum (fun j _ => rungAfter_succ_le ts j n) ⟨i, ?_, hlt⟩
  rw [Finset.mem_range]
  by_contra hlen
  have hs : (sites ts)[i]? = none := by simpa using hlen
  simp [rungAfter, hs] at hlt

/-- Each pass leaves all tokens alone or takes a rung away. -/
theorem passes_eq_or_height_le (ts : List Token) (n : Nat) :
    passes (n + 1) ts = passes n ts ∨ height ts (n + 1) + (n + 1) ≤ 2 * ts.length := by
  induction n with
  | zero =>
    by_cases h : passes 1 ts = passes 0 ts
    · exact .inl h
    · have := height_succ_lt h
      have := height_le ts 0
      exact .inr (by omega)
  | succ n ih =>
    rcases ih with ih | ih
    · exact .inl (by rw [passes_succ (n + 1), ih, ← passes_succ, ih])
    · by_cases h : passes (n + 2) ts = passes (n + 1) ts
      · exact .inl h
      · have := height_succ_lt h
        exact .inr (by omega)

theorem passes_eq_of_le {ts : List Token} {n : Nat} (h : 2 * ts.length ≤ n) :
    passes n ts = passes (2 * ts.length) ts := by
  have hrest := (passes_eq_or_height_le ts (2 * ts.length)).resolve_right (by omega)
  induction n, h using Nat.le_induction with
  | base => rfl
  | succ n _ ih => rw [passes_succ, ih, ← passes_succ, hrest]

structure Settles (ts : List Token) : Prop where
  /-- No pass after the `2 * n + 1`st one changes anything. -/
  comes_to_rest : ∀ m, 2 * ts.length + 1 ≤ m → passes m ts = passes (2 * ts.length + 1) ts
  /-- A token that has some category again has had it all along. -/
  no_return : ∀ i a b c, a ≤ b → b ≤ c → kindAfter ts c i = kindAfter ts a i →
    kindAfter ts b i = kindAfter ts a i
  /-- All passes see the same qualified names. -/
  linked_iff : ∀ (i : Nat) (k : Category) (n : Nat), (sites (passes n ts))[i]? = some (.linked k) ↔
    (sites ts)[i]? = some (.linked k)
  /-- Qualified names have their categories after the first pass. -/
  linked : ∀ i k n, (sites ts)[i]? = some (.linked k) → 1 ≤ n → kindAfter ts n i = some k
  /-- Keywords are restored by the first pass. -/
  restored : ∀ i k n, (sites ts)[i]? = some (.restored k) → 1 ≤ n → kindAfter ts n i = some k
  /-- Whatever is not an open name after some pass stays what it is. -/
  closed : ∀ i k m n, 1 ≤ m → m ≤ n → kindAfter ts m i = some k → k.isOpenName = false →
    kindAfter ts n i = some k

/-- Passes over any list of tokens come to rest, and no token turns back on the way. -/
theorem passes_settle (ts : List Token) : Settles ts where
  comes_to_rest m hm := by
    rw [passes_eq_of_le (n := m) (by omega), passes_eq_of_le (n := 2 * ts.length + 1) (by omega)]
  no_return i a b c hab hbc h := by
    refine kindAfter_eq hab ?_
    have hac : rungAfter ts c i = rungAfter ts a i := by unfold rungAfter; rw [h]
    have := rungAfter_antitone ts i hbc
    omega
  linked_iff i k n := getElem?_sites_passes_linked i k n
  linked i k n hs hn := kindAfter_of_fixed hs rfl hn
  restored i k n hs hn := kindAfter_of_fixed hs rfl hn
  closed i k m n hm hmn hk hc := kindAfter_of_closed hm hk hc hmn

end Highlighter
