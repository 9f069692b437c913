import Highlighter.Proofs.PreferredEnds

/-! Which rule is selected. A rule has no effect in front of a character that its pattern
cannot begin with, and the first rule behind such ones decides on the step. Proved: where a
pattern may not take the character ahead, it comes nowhere; and a rule for one token makes one
of its match if the rules in front of it have no effect. -/

namespace Highlighter

open Pattern

/-! ### What a pattern begins with -/

namespace Pattern

variable {p : Pattern} {r m : Reach} {c : Char} {cs : List Char}

/-- Whether the pattern may take a text that begins with the character. -/
def mayTake (c : Char) : Pattern → Bool
  | empty | edge _ | mark _ => false
  | one s => s.has c
  | seq p q => p.mayTake c || (p.canBeEmpty && q.mayTake c)
  | alt p q => p.mayTake c || q.mayTake c
  | group _ p | rep p _ _ _ => p.mayTake c

/-- Behind some text, less is ahead. -/
theorem rest_ne_of_mem_ways (hu : p.unmarked) (he : p.canBeEmpty = false) (h : m ∈ p.ways r) :
    m.rest ≠ r.rest := by
  intro hrest
  have hlt := taken_lt_of_mem_ways hu he h
  have hadd := (leads_of_mem_ways hu h).taken_add
  rw [hrest] at hadd
  omega

/-- In front of a character that it may not take, a pattern comes nowhere. -/
theorem preserves_rest (hu : p.unmarked) (h : p.mayTake c = false) :
    Preserves (fun r => r.rest = c :: cs) p.ways := by
  induction p with
  | empty | mark => exact fun r hr m hm => List.mem_singleton.1 hm ▸ hr
  | one s =>
    intro r hr m hm
    rw [ways_one_eq_nil_iff.2 (by rw [hr]; rintro d ⟨⟩; exact h)] at hm
    cases hm
  | edge e => exact fun r hr m hm => (mem_ways_edge.1 hm).2 ▸ hr
  | seq p q ihp ihq =>
    simp only [unmarked, mayTake, Bool.and_eq_true, Bool.or_eq_false_iff] at hu h
    cases he : p.canBeEmpty with
    | true => exact (ihp hu.1 h.1).flatMap (ihq hu.2 (by simpa [he] using h.2))
    | false =>
      intro r hr m hm
      obtain ⟨x, hx, -⟩ := mem_ways_seq.1 hm
      exact absurd ((ihp hu.1 h.1 r hr x hx).trans hr.symm) (rest_ne_of_mem_ways hu.1 he hx)
  | alt p q ihp ihq =>
    simp only [unmarked, mayTake, Bool.and_eq_true, Bool.or_eq_false_iff] at hu h
    intro r hr m hm
    rcases mem_ways_alt.1 hm with hm | hm
    · exact ihp hu.1 h.1 r hr m hm
    · exact ihq hu.2 h.2 r hr m hm
  | group i p ih =>
    intro r hr m hm
    obtain ⟨x, hx, rfl⟩ := mem_ways_group.1 hm
    exact ih hu h r hr x hx
  | rep p least most greedy ih => exact (ih hu h).rep least most greedy

end Pattern

/-- Whether the rule asks for some text that does not begin with the character. -/
def Rule.skips (c : Char) (r : Rule) : Bool :=
  r.pattern.unmarked && !r.pattern.canBeEmpty && !r.pattern.mayTake c

namespace Scanner

variable {s : Scanner}

theorem effect?_of_skips {r : Rule} {c : Char} {cs : List Char} (h : r.skips c)
    (hr : s.rest = c :: cs) : s.effect? r = none := by
  simp only [Rule.skips, Bool.and_eq_true, Bool.not_eq_true'] at h
  obtain ⟨⟨hu, he⟩, hc⟩ := h
  have hnone : r.pattern.match? (.start s.before s.rest) = none := by
    refine (match?_eq_none_iff hu).2 fun m hm => ?_
    exact rest_ne_of_mem_ways hu he hm ((preserves_rest hu hc _ hr m hm).trans hr.symm)
  rw [effect?, Rule.match?, hnone]
  rfl

theorem findSome?_append_of_forall {l l' : List Rule} (h : ∀ r ∈ l, s.effect? r = none) :
    (l ++ l').findSome? (fun r => (s.effect? r).map (r, ·)) =
      l'.findSome? fun r => (s.effect? r).map (r, ·) := by
  rw [List.findSome?_append, List.findSome?_eq_none_iff.2 fun r hr => by rw [h r hr]; rfl,
    Option.none_or]

/-- A rule makes one token of its match if no rule in front of it has an effect. -/
theorem takesText_of_effect? {rs : RuleSet} {l l' : List Rule} {r : Rule} {m : Reach}
    {kind : Category} {w : List Char} (hrules : rs.rules s.stack.top = l ++ r :: l')
    (hl : ∀ r ∈ l, s.effect? r = none) (he : s.effect? r = some m)
    (hm : (Reach.start s.before s.rest).Takes w m) (hne : w ≠ []) (ha : r.action = .emit kind) :
    TakesText kind w (r.move.apply s.stack) s (s.step rs) := by
  refine takesText_of_select ?_ hm hne ha
  rw [select, hrules, findSome?_append_of_forall hl, findSome?_of_effect? he]

/-- A rule that only makes tokens has an effect where its pattern takes some text. -/
theorem effect?_token {p : Pattern} {kind : Category} {m : Reach} {w : List Char}
    (hm : p.match? (.start s.before s.rest) = some m)
    (htakes : (Reach.start s.before s.rest).Takes w m) (hne : w ≠ []) :
    s.effect? (.token p kind) = some m := by
  have hpos : 0 < m.taken := by
    rw [htakes.taken_eq]
    exact Nat.add_pos_right _ (List.length_pos_iff.2 hne)
  rw [effect?, Rule.match?_of_guard_eq_none rfl (by simp [Rule.token])]
  simp [Rule.token, hm, Option.filter, hpos]

theorem takesText_token {rs : RuleSet} {l l' : List Rule} {p : Pattern} {kind : Category}
    {m : Reach} {w : List Char} (hrules : rs.rules s.stack.top = l ++ Rule.token p kind :: l')
    (hl : ∀ r ∈ l, s.effect? r = none) (hm : p.match? (.start s.before s.rest) = some m)
    (htakes : (Reach.start s.before s.rest).Takes w m) (hne : w ≠ []) :
    TakesText kind w s.stack s (s.step rs) :=
  takesText_of_effect? hrules hl (effect?_token hm htakes hne) htakes hne rfl

end Scanner

end Highlighter
