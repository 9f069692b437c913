import Highlighter.Pattern.Normal
import Highlighter.Proofs.WordLists

/-! Normal forms of sequences and of choices between texts. A sequence is flattened, and a
choice between single characters becomes a set, in which the order of the texts is lost.
Proved: a sequence has the ends of its parts in a row, and the first end of a choice between
texts that meets a condition is the one of the choice as it was written. -/

namespace Highlighter.Pattern

variable {p q : Pattern} {ps : List Pattern} {ws : List String}

/-! ### Sequences -/

theorem ways_seqs_cons (p : Pattern) (ps : List Pattern) (r : Reach) :
    (seqs (p :: ps)).ways r = (p.ways r).flatMap (seqs ps).ways := by
  cases ps with
  | nil => exact (List.flatMap_singleton' _).symm
  | cons q ps => rfl

theorem ways_seqs_append (ps qs : List Pattern) (r : Reach) :
    (seqs (ps ++ qs)).ways r = ((seqs ps).ways r).flatMap (seqs qs).ways := by
  induction ps generalizing r with
  | nil => exact (List.flatMap_singleton _ _).symm
  | cons p ps ih =>
    rw [List.cons_append, ways_seqs_cons, ways_seqs_cons, List.flatMap_assoc]
    exact List.flatMap_congr fun x _ => ih x

theorem ways_seqs_parts (p : Pattern) (r : Reach) : (seqs p.parts).ways r = p.ways r := by
  induction p generalizing r with
  | seq p q ihp ihq =>
    rw [parts, ways_seqs_append, ways, ihp]
    exact List.flatMap_congr fun x _ => ihq x
  | empty | one | edge | alt | group | rep | mark => rfl

/-- A sequence in normal form has the ends of its parts in a row. -/
theorem ways_sequence (ps : List Pattern) (r : Reach) :
    (sequence ps).ways r = (seqs ps).ways r := by
  induction ps generalizing r with
  | nil => rfl
  | cons p ps ih =>
    rw [sequence, List.flatMap_cons, ways_seqs_append, ways_seqs_cons, ways_seqs_parts]
    exact List.flatMap_congr fun x _ => ih x

/-! ### Patterns without marks and repetitions -/

/-- A pattern that is read as it stands: it has neither marks nor repetitions. -/
structure Plain (p : Pattern) : Prop where
  unmarked : p.unmarked
  repeats : p.repeats = false

namespace Plain

theorem one (s : CharSet) : (one s).Plain := ⟨rfl, rfl⟩

theorem edge (e : Edge) : (edge e).Plain := ⟨rfl, rfl⟩

theorem seq (hp : p.Plain) (hq : q.Plain) : (seq p q).Plain where
  unmarked := by simp [Pattern.unmarked, hp.unmarked, hq.unmarked]
  repeats := by simp [Pattern.repeats, hp.repeats, hq.repeats]

theorem alt (hp : p.Plain) (hq : q.Plain) : (alt p q).Plain where
  unmarked := by simp [Pattern.unmarked, hp.unmarked, hq.unmarked]
  repeats := by simp [Pattern.repeats, hp.repeats, hq.repeats]

theorem seqs (h : ∀ p ∈ ps, p.Plain) : (seqs ps).Plain :=
  seqs_induction ⟨rfl, rfl⟩ (fun _ _ hp hq => hp.seq hq) h

theorem parts (h : p.Plain) : ∀ q ∈ p.parts, q.Plain := by
  induction p with
  | empty => simp [Pattern.parts]
  | seq p q ihp ihq =>
    obtain ⟨hu, hr⟩ := h
    simp only [Pattern.unmarked, Pattern.repeats, Bool.and_eq_true, Bool.or_eq_false_iff] at hu hr
    exact List.forall_mem_append.2 ⟨ihp ⟨hu.1, hr.1⟩, ihq ⟨hu.2, hr.2⟩⟩
  | one | edge | alt | group | rep | mark => exact List.forall_mem_singleton.2 h

theorem sequence (h : ∀ p ∈ ps, p.Plain) : (sequence ps).Plain := by
  refine seqs fun q hq => ?_
  obtain ⟨p, hp, hq⟩ := List.mem_flatMap.1 hq
  exact (h p hp).parts q hq

theorem lit (w : String) : (lit w).Plain :=
  seqs (List.forall_mem_map.2 fun c _ => one (.char c))

theorem oneOf (ws : List String) : (oneOf ws).Plain :=
  alts_induction ⟨rfl, rfl⟩ (fun _ _ hp hq => hp.alt hq) (List.forall_mem_map.2 fun w _ => lit w)

end Plain

/-! ### Choices between texts -/

theorem sequence_chars (cs : List Char) : sequence (cs.map char) = seqs (cs.map char) := by
  rw [sequence, List.flatMap_map]
  exact congrArg seqs (List.map_eq_flatMap ..).symm

theorem isChar_char (c : Char) : (char c).isChar := by
  simp [char, isChar, CharSet.char, CharSet.only?]

/-- A text is a character, or it is not a single set at all. -/
theorem lit_cases (w : String) : (∃ c, w.toList = [c] ∧ lit w = char c) ∨
    (∀ c, w.toList ≠ [c]) ∧ (lit w).isChar = false ∧ ∀ s, lit w ≠ one s := by
  rw [lit]
  rcases w.toList with _ | ⟨c, _ | ⟨d, cs⟩⟩
  · exact .inr ⟨by simp, rfl, by simp [seqs]⟩
  · exact .inl ⟨c, rfl, rfl⟩
  · exact .inr ⟨by simp, rfl, by simp [seqs]⟩

theorem alternatives_lit (w : String) : (lit w).alternatives = [lit w] := by
  rw [lit]
  rcases w.toList with _ | ⟨c, _ | ⟨d, cs⟩⟩ <;> rfl

theorem parts_chars (cs : List Char) : (seqs (cs.map char)).parts = cs.map char := by
  induction cs with
  | nil => rfl
  | cons c cs ih =>
    cases cs with
    | nil => rfl
    | cons d cs =>
      change (char c).parts ++ (seqs ((d :: cs).map char)).parts = _
      rw [ih]
      rfl

theorem grouped_chars (c : Char) (cs : List Char) :
    grouped ((c :: cs).map char) = [(c :: cs).map char] := by
  induction cs generalizing c with
  | nil => rfl
  | cons d cs ih =>
    rw [List.map_cons, grouped, ih d, List.map_cons]
    simp [isChar_char]

/-- A text is one section, so nothing is taken out of a choice between texts. -/
theorem length_sections_lit (w : String) : (lit w).sections.length < 2 := by
  rw [sections, lit, parts_chars, List.length_map]
  cases w.toList with
  | nil => exact Nat.zero_lt_two
  | cons c cs => rw [grouped_chars]; exact Nat.one_lt_two

theorem factored?_lits (ws : List String) : factored? ((ws.map lit).map sections) = none := by
  cases ws with
  | nil => rfl
  | cons w ws =>
    rw [List.map_cons, List.map_cons, factored?, if_pos]
    exact Bool.or_eq_true_iff.2 (.inr (List.any_eq_true.2
      ⟨_, List.mem_cons_self, decide_eq_true (length_sections_lit w)⟩))

structure IsSetOf (s : CharSet) (ws : List String) : Prop where
  has_iff : ∀ c, s.has c ↔ ∃ w ∈ ws, w.toList = [c]
  single : ∀ w ∈ ws, ∃ c, w.toList = [c]

theorem merged?_lits_of_single (h : ∀ w ∈ ws, ∃ c, w.toList = [c]) :
    ∃ s, merged? (ws.map lit) = some s ∧ IsSetOf s ws := by
  have hchars : (ws.map lit).all isChar := by
    refine List.all_eq_true.2 (List.forall_mem_map.2 fun w hw => ?_)
    obtain ⟨c, hc⟩ := h w hw
    rw [lit, hc]
    exact isChar_char c
  rw [merged?, hchars, Bool.true_or, if_pos rfl]
  -- what is left is the fold alone, which any list of characters makes a set
  clear hchars
  induction ws with
  | nil => exact ⟨.nothing, rfl, by simp [CharSet.has], by simp⟩
  | cons w ws ih =>
    obtain ⟨⟨c, hc⟩, hws⟩ := List.forall_mem_cons.1 h
    obtain ⟨s, hs, hset⟩ := ih hws
    have hw : lit w = one (.char c) := by
      rw [lit, hc]
      rfl
    refine ⟨.union (.char c) s, ?_, fun d => ?_, h⟩
    · rw [List.map_cons, List.foldr_cons, hs, hw]
    · rw [CharSet.has, Bool.or_eq_true, CharSet.has_char, beq_iff_eq, hset.has_iff,
        List.exists_mem_cons_iff, hc, List.singleton_inj, eq_comm]

theorem merged?_lits_of_not_single (h : ¬ ∀ w ∈ ws, ∃ c, w.toList = [c]) :
    merged? (ws.map lit) = none := by
  rw [merged?]
  split_ifs with hall
  · rcases Bool.or_eq_true_iff.1 hall with hchars | hsets
    · refine absurd (fun w hw => ?_) h
      have hchar := List.all_eq_true.1 hchars (lit w) (List.mem_map_of_mem hw)
      rcases lit_cases w with ⟨c, hc, -⟩ | ⟨-, hno, -⟩
      · exact ⟨c, hc⟩
      · rw [hno] at hchar
        cases hchar
    · cases ws with
      | nil => exact absurd (by simp) h
      | cons w ws =>
        have hno := List.all_eq_true.1 hsets (lit w) List.mem_cons_self
        rcases lit_cases w with ⟨c, -, hc⟩ | ⟨-, -, hset⟩
        · rw [hc, isChar_char] at hno
          cases hno
        · rw [List.map_cons, List.foldr_cons]
          split
          · next hw _ => exact absurd hw (hset _)
          · rfl
  · rfl

/-- A choice between texts stays one, unless all of them are characters and make a set. -/
theorem choice_lits (ws : List String) : choice (ws.map lit) = oneOf ws ∨
    ∃ s, choice (ws.map lit) = one s ∧ IsSetOf s ws := by
  rcases ws with _ | ⟨w, _ | ⟨v, ws⟩⟩
  · exact .inr ⟨.nothing, rfl, by simp [CharSet.has], by simp⟩
  · exact .inl rfl
  · have hflat : ((w :: v :: ws).map lit).flatMap alternatives = (w :: v :: ws).map lit := by
      rw [List.flatMap_map, List.flatMap_congr fun w _ => alternatives_lit w]
      exact List.map_eq_flatMap.symm
    have hchoice : choice ((w :: v :: ws).map lit) = firstThatFits ((w :: v :: ws).map lit) := by
      change (factored? ((((w :: v :: ws).map lit).flatMap alternatives).map sections)).getD
        (firstThatFits (((w :: v :: ws).map lit).flatMap alternatives)) = _
      rw [hflat, factored?_lits]
      rfl
    rw [hchoice, firstThatFits]
    by_cases h : ∀ u ∈ w :: v :: ws, ∃ c, u.toList = [c]
    · obtain ⟨s, hs, hset⟩ := merged?_lits_of_single h
      exact .inr ⟨s, by rw [hs], hset⟩
    · exact .inl (by rw [merged?_lits_of_not_single h]; rfl)

theorem Plain.choice_lits (ws : List String) : (choice (ws.map Pattern.lit)).Plain := by
  rcases Pattern.choice_lits ws with h | ⟨s, h, -⟩
  · rw [h]
    exact oneOf ws
  · rw [h]
    exact one s

/-- Two lists of the same single end hold it wherever it is looked for. -/
theorem find?_eq_of_unique {l l' : List Reach} (hmem : ∀ m, m ∈ l ↔ m ∈ l')
    (hunique : ∀ m ∈ l, ∀ m' ∈ l, m = m') (f : Reach → Bool) : l.find? f = l'.find? f := by
  cases hl : l.find? f with
  | none =>
    rw [eq_comm, List.find?_eq_none]
    exact fun m hm => List.find?_eq_none.1 hl m ((hmem m).2 hm)
  | some m =>
    have hm := List.mem_of_find?_eq_some hl
    obtain ⟨m', hm'⟩ := Option.isSome_iff_exists.1
      (List.find?_isSome.2 ⟨m, (hmem m).1 hm, List.find?_some hl⟩)
    rw [hm', hunique m hm m' ((hmem m').2 (List.mem_of_find?_eq_some hm'))]

/-- The normal form of a choice between texts has the same first end under any condition. -/
theorem find?_ways_choice_lits (hne : ws ≠ []) (r : Reach) (f : Reach → Bool) :
    ((choice (ws.map lit)).ways r).find? f = ((oneOf ws).ways r).find? f := by
  rcases choice_lits ws with h | ⟨s, h, hset⟩
  · rw [h]
  · rw [h]
    refine find?_eq_of_unique (fun m => ?_) (fun m hm m' hm' => ?_) f
    · rw [mem_ways_one, mem_ways_oneOf hne]
      constructor
      · rintro ⟨c, hc, hm⟩
        obtain ⟨w, hw, hchar⟩ := (hset.has_iff c).1 hc
        exact ⟨w, hw, hchar ▸ hm⟩
      · rintro ⟨w, hw, hm⟩
        obtain ⟨c, hc⟩ := hset.single w hw
        exact ⟨c, (hset.has_iff c).2 ⟨w, hw, hc⟩, hc ▸ hm⟩
    · rw [ways, Option.mem_toList] at hm hm'
      exact Option.mem_unique hm hm'

end Highlighter.Pattern
