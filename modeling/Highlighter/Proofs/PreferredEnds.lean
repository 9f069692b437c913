import Highlighter.Proofs.Ends
import Highlighter.Proofs.InLine

/-! The preferred end of a repetition at the end of a pattern. A greedy repetition goes on as
long as it can and a lazy one no further than it has to, whatever stands in front of it.
Proved: behind the match of a pattern that ends in a greedy repetition, what is repeated has
no more ways; and a lazy repetition of single characters comes to the first place where what
follows it has one. -/

namespace Highlighter.Pattern

variable {p q : Pattern} {r m : Reach} {s : CharSet}

/-! ### The last part of a pattern -/

theorem exists_of_head?_flatMap {α β : Type} {l : List α} {f : α → List β} {b : β}
    (h : (l.flatMap f).head? = some b) : ∃ a ∈ l, (f a).head? = some b := by
  induction l with
  | nil => cases h
  | cons a l ih =>
    rw [List.flatMap_cons, List.head?_append] at h
    cases ha : (f a).head? with
    | some b' =>
      rw [ha] at h
      cases h
      exact ⟨a, List.mem_cons_self, ha⟩
    | none =>
      rw [ha, Option.none_or] at h
      obtain ⟨a', hmem, ha'⟩ := ih h
      exact ⟨a', List.mem_cons_of_mem _ hmem, ha'⟩

/-- The preferred end of some parts in a row is a preferred end of the last one. -/
theorem exists_of_head?_seqs {l : List Pattern}
    (h : ((seqs (l ++ [q])).ways r).head? = some m) :
    ∃ x ∈ (seqs l).ways r, (q.ways x).head? = some m := by
  induction l generalizing r with
  | nil => exact ⟨r, List.mem_singleton_self r, h⟩
  | cons p l ih =>
    have hseq : seqs (p :: l ++ [q]) = seq p (seqs (l ++ [q])) := by
      cases l <;> rfl
    rw [hseq, ways] at h
    obtain ⟨y, hy, h⟩ := exists_of_head?_flatMap h
    obtain ⟨x, hx, h⟩ := ih h
    exact ⟨x, mem_ways_seqs_cons.2 ⟨y, hy, hx⟩, h⟩

/-! ### Greedy repetitions -/

theorem taken_lt_of_mem_ways (hu : p.unmarked) (hp : p.canBeEmpty = false) (h : m ∈ p.ways r) :
    r.taken < m.taken := by
  -- a search that accepts this end alone
  have hg : (p.run r fun x => if x = m then .answer () else .fail).Gives () := by
    rw [run_eq_firstOf hu]
    exact gives_firstOf h (if_pos rfl) fun x hx => if_neg hx
  obtain ⟨x, -, hlt, hk⟩ := strict_run hp _ _ _ hg
  split_ifs at hk with he
  · rwa [← he]
  · exact absurd hk Search.not_gives_fail

theorem self_mem_waysOn (w : Branches) (greedy : Bool) (n : Nat) (r : Reach) :
    r ∈ waysOn w greedy n r := by
  cases n with
  | zero => exact List.mem_singleton_self r
  | succ n => exact mem_inOrder.2 (.inl (List.mem_singleton_self r))

theorem ways_eq_nil_of_head?_waysOn (hu : p.unmarked) (hp : p.canBeEmpty = false) {n : Nat}
    (hn : r.rest.length ≤ n) (h : (waysOn p.ways true n r).head? = some m) : p.ways m = [] := by
  induction n generalizing r with
  | zero =>
    cases h
    refine List.eq_nil_iff_forall_not_mem.2 fun x hx => ?_
    have hlt := taken_lt_of_mem_ways hu hp hx
    have hadd := (leads_of_mem_ways hu hx).taken_add
    omega
  | succ n ih =>
    simp only [waysOn, inOrder, if_true, List.head?_append] at h
    cases hmore : ((p.ways r).flatMap fun r' =>
        if r.taken < r'.taken then waysOn p.ways true n r' else []).head? with
    | some m' =>
      rw [hmore] at h
      cases h
      obtain ⟨x, hx, hm⟩ := exists_of_head?_flatMap hmore
      have hlt := taken_lt_of_mem_ways hu hp hx
      have hadd := (leads_of_mem_ways hu hx).taken_add
      rw [if_pos hlt] at hm
      exact ih (by omega) hm
    | none =>
      rw [hmore] at h
      cases h
      refine List.eq_nil_iff_forall_not_mem.2 fun x hx => ?_
      rw [List.head?_eq_none_iff, List.flatMap_eq_nil_iff] at hmore
      have hnil := hmore x hx
      rw [if_pos (taken_lt_of_mem_ways hu hp hx)] at hnil
      exact List.ne_nil_of_mem (self_mem_waysOn p.ways true n x) hnil

theorem ways_eq_nil_of_head?_waysPlus (hu : p.unmarked) (hp : p.canBeEmpty = false)
    (h : (waysPlus p.ways true r).head? = some m) : p.ways m = [] := by
  obtain ⟨x, hx, hm⟩ := exists_of_head?_flatMap h
  rw [if_pos (taken_lt_of_mem_ways hu hp hx)] at hm
  exact ways_eq_nil_of_head?_waysOn hu hp (Nat.le_refl _) hm

/-- Behind the preferred end of a greedy repetition, there are no more ways to repeat. -/
theorem ways_eq_nil_of_head?_star (hu : p.unmarked) (hp : p.canBeEmpty = false)
    (h : ((star p).ways r).head? = some m) : p.ways m = [] := by
  simp only [star, ways, waysRep, inOrder, if_true, List.head?_append] at h
  cases hmore : (waysPlus p.ways true r).head? with
  | some m' =>
    rw [hmore] at h
    cases h
    exact ways_eq_nil_of_head?_waysPlus hu hp hmore
  | none =>
    rw [hmore] at h
    cases h
    rw [List.head?_eq_none_iff, waysPlus, List.flatMap_eq_nil_iff] at hmore
    refine List.eq_nil_iff_forall_not_mem.2 fun x hx => ?_
    have hnil := hmore x hx
    rw [if_pos (taken_lt_of_mem_ways hu hp hx)] at hnil
    exact List.ne_nil_of_mem (self_mem_waysOn p.ways true _ x) hnil

theorem ways_one_eq_nil_iff : (one s).ways m = [] ↔ ∀ c ∈ m.rest.head?, s.has c = false := by
  rw [ways, Option.toList_eq_nil_iff, Reach.take?]
  cases m.rest with
  | nil => simp
  | cons c cs => simp

theorem not_has_of_head?_star (h : ((star (one s)).ways r).head? = some m) :
    ∀ c ∈ m.rest.head?, s.has c = false :=
  ways_one_eq_nil_iff.1 (ways_eq_nil_of_head?_star rfl rfl h)

theorem not_has_of_head?_plus (h : ((plus (one s)).ways r).head? = some m) :
    ∀ c ∈ m.rest.head?, s.has c = false := by
  rw [ways_plus] at h
  exact ways_one_eq_nil_iff.1 (ways_eq_nil_of_head?_waysPlus rfl rfl h)

/-! ### Parts that are tried in a row -/

theorem head?_flatMap_eq_some {α β : Type} {l : List α} {f : α → List β} {a : α} {b : β}
    (ha : l.head? = some a) (hb : (f a).head? = some b) : (l.flatMap f).head? = some b := by
  obtain ⟨l, rfl⟩ := List.head?_eq_some_iff.1 ha
  rw [List.flatMap_cons, List.head?_append, hb, Option.some_or]

/-- The preferred end of some parts is found part by part, if each of them has one there. -/
theorem head?_seqs_cons {ps : List Pattern} {x : Reach} (hx : (p.ways r).head? = some x)
    (hm : ((seqs ps).ways x).head? = some m) : ((seqs (p :: ps)).ways r).head? = some m := by
  cases ps with
  | nil =>
    cases hm
    exact hx
  | cons q ps => exact head?_flatMap_eq_some hx hm

theorem head?_one {c : Char} (hc : s.has c) (hm : r.Takes [c] m) :
    ((one s).ways r).head? = some m := by
  rw [ways, Reach.take?_eq_some_iff.2 ⟨c, hc, hm⟩]
  rfl

theorem takeWhile_append_of_not {cs ds : List Char} (hcs : ∀ c ∈ cs, s.has c)
    (hds : ∀ d ∈ ds.head?, s.has d = false) : (cs ++ ds).takeWhile s.has = cs := by
  rw [List.takeWhile_append_of_pos hcs]
  cases ds with
  | nil => simp
  | cons d ds => rw [List.takeWhile_cons_of_neg (by simp [hds d rfl]), List.append_nil]

theorem exists_head?_plus_one {cs ds : List Char} (hr : r.rest = cs ++ ds) (hne : cs ≠ [])
    (hcs : ∀ c ∈ cs, s.has c) (hds : ∀ d ∈ ds.head?, s.has d = false) :
    ∃ m, ((plus (one s)).ways r).head? = some m ∧ r.Takes cs m ∧ m.rest = ds := by
  obtain ⟨c, cs, rfl⟩ := List.exists_cons_of_ne_nil hne
  obtain ⟨m, hm, htakes⟩ := match?_plus_one (s := s) hr (hcs c List.mem_cons_self)
  rw [match?_eq_head? rfl] at hm
  rw [hr, takeWhile_append_of_not hcs hds] at htakes
  exact ⟨m, hm, htakes, List.append_cancel_left (htakes.rest_eq.symm.trans hr)⟩

theorem ways_star (p : Pattern) (r : Reach) :
    (star p).ways r = waysPlus p.ways true r ++ [r] := rfl

theorem exists_head?_star_one {cs ds : List Char} (hr : r.rest = cs ++ ds)
    (hcs : ∀ c ∈ cs, s.has c) (hds : ∀ d ∈ ds.head?, s.has d = false) :
    ∃ m, ((star (one s)).ways r).head? = some m ∧ r.Takes cs m ∧ m.rest = ds := by
  rw [ways_star, List.head?_append]
  by_cases hne : cs = []
  · subst hne
    have hnone : (one s).ways r = [] := ways_one_eq_nil_iff.2 (by rwa [hr])
    exact ⟨r, by rw [waysPlus, hnone]; rfl, Reach.takes_nil.2 rfl, hr⟩
  · obtain ⟨m, hm, htakes⟩ := exists_head?_plus_one hr hne hcs hds
    rw [ways_plus] at hm
    exact ⟨m, by rw [hm]; rfl, htakes⟩

/-- A repetition that comes to the end of the text is not repeated. -/
theorem head?_plus_of_rest_eq_nil (h : (p.ways r).head? = some m) (hlt : r.taken < m.taken)
    (hm : m.rest = []) : ((plus p).ways r).head? = some m := by
  rw [ways_plus]
  refine head?_flatMap_eq_some h ?_
  rw [if_pos hlt, hm]
  rfl

/-! ### Lazy repetitions -/

/-- A lazy repetition ends at once, or behind one character more. -/
theorem ways_lazyStar_one (s : CharSet) (r : Reach) :
    (lazyStar (one s)).ways r = r :: ((one s).ways r).flatMap (lazyStar (one s)).ways := by
  have hleads : Leading (one s).ways := fun _ _ h => leads_of_mem_ways rfl h
  have hon (x : Reach) (n : Nat) (hn : x.rest.length ≤ n) :
      (lazyStar (one s)).ways x = waysOn (one s).ways false n x := by
    rw [waysOn_eq hleads false hn (Nat.le_succ_of_le hn)]
    refine congrArg (inOrder false · [x]) ?_
    refine List.flatMap_congr fun y hy => ?_
    obtain ⟨c, -, hy⟩ := mem_ways_one.1 hy
    have hlen := congrArg List.length hy.rest_eq
    rw [List.length_append, List.length_singleton] at hlen
    rw [if_pos hy.taken_lt, if_pos hy.taken_lt]
    exact waysOn_eq hleads false (Nat.le_refl _) (by omega)
  rw [hon r _ (Nat.le_succ r.rest.length)]
  refine congrArg (r :: ·) ?_
  refine List.flatMap_congr fun y hy => ?_
  obtain ⟨c, -, hy⟩ := mem_ways_one.1 hy
  have hlen := congrArg List.length hy.rest_eq
  rw [List.length_append, List.length_singleton] at hlen
  rw [if_pos hy.taken_lt, hon y r.rest.length (by omega)]

end Highlighter.Pattern
