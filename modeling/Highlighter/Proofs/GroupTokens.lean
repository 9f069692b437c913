import Highlighter.Proofs.Lossless

/-! Tokens of groups. A match with groups is divided at the groups that count, one behind the
other, and what is between them is plain text. By the rule a group without text does not count,
but the scanner passes one like any other: it ends the plain text in front of it, and what
begins before it does not count any more. Proved: the tokens of a match are those of the groups
with text exactly if each plain text that ends at an empty group is one of these tokens. -/

namespace Highlighter

open Pattern

def Span.hasText (g : Span) : Bool := g.start < g.stop

namespace Reach

/-- The groups that count from number `i` and from a place on, with their categories: those
that took part, are eligible, and begin where the last one that counts ends or behind it. -/
def counted (m : Reach) (eligible : Span → Bool) : Nat → Nat → List Category →
    List (Span × Category)
  | _, _, [] => []
  | i, at', kind :: kinds =>
    match m.span? i with
    | none => counted m eligible (i + 1) at' kinds
    | some g =>
      if eligible g && at' ≤ g.start then (g, kind) :: counted m eligible (i + 1) g.stop kinds
      else counted m eligible (i + 1) at' kinds

variable {m : Reach} {eligible : Span → Bool} {i at' : Nat} {kind : Category}
  {kinds : List Category} {g : Span}

theorem counted_of_none (h : m.span? i = none) :
    m.counted eligible i at' (kind :: kinds) = m.counted eligible (i + 1) at' kinds := by
  rw [counted, h]

theorem counted_of_eligible (h : m.span? i = some g) (he : eligible g) (hat : at' ≤ g.start) :
    m.counted eligible i at' (kind :: kinds) =
      (g, kind) :: m.counted eligible (i + 1) g.stop kinds := by
  rw [counted, h]
  exact if_pos (by simp [he, hat])

theorem counted_of_not (h : m.span? i = some g) (hnot : ¬ (eligible g ∧ at' ≤ g.start)) :
    m.counted eligible i at' (kind :: kinds) = m.counted eligible (i + 1) at' kinds := by
  rw [counted, h]
  exact if_neg (by simpa using hnot)

end Reach

/-- One piece for each group that has text, and one of plain text for each gap in front of a
group and for the one behind the last. -/
def tiles (stop : Nat) : Nat → List (Span × Category) → List Piece
  | at', [] => piece .text (stop - at')
  | at', (g, kind) :: gs =>
    piece .text (g.start - at') ++ piece kind (g.stop - g.start) ++ tiles stop g.stop gs

/-- The gaps that end at a group without text. -/
def emptyEnds : Nat → List (Span × Category) → List (Nat × Nat)
  | _, [] => []
  | at', (g, _) :: gs =>
    if !g.hasText && at' < g.start then (at', g.start) :: emptyEnds g.stop gs
    else emptyEnds g.stop gs

/-- Pieces with the places where they begin. -/
def placed : Nat → List Piece → List (Nat × Piece)
  | _, [] => []
  | at', p :: ps => (at', p) :: placed (at' + p.2) ps

/-- Each group begins where the one before it ends or behind it. -/
def Ascending : Nat → List (Span × Category) → Prop
  | _, [] => True
  | at', (g, _) :: gs => at' ≤ g.start ∧ g.start ≤ g.stop ∧ Ascending g.stop gs

/-! ### Places of pieces -/

theorem placed_append (at' : Nat) (ps qs : List Piece) :
    placed at' (ps ++ qs) = placed at' ps ++ placed (at' + width ps) qs := by
  induction ps generalizing at' with
  | nil => rfl
  | cons p ps ih => simp [placed, ih, Nat.add_assoc]

theorem le_of_mem_placed {at' : Nat} {ps : List Piece} : ∀ x ∈ placed at' ps, at' ≤ x.1 := by
  induction ps generalizing at' with
  | nil => simp [placed]
  | cons p ps ih =>
    rw [placed, List.forall_mem_cons]
    exact ⟨Nat.le_refl _, fun x hx => Nat.le_trans (Nat.le_add_right _ _) (ih x hx)⟩

theorem lt_of_mem_placed {at' : Nat} {ps : List Piece} (hpos : ∀ p ∈ ps, 0 < p.2) :
    ∀ x ∈ placed at' ps, x.1 < at' + width ps := by
  induction ps generalizing at' with
  | nil => simp [placed]
  | cons p ps ih =>
    obtain ⟨hp, hps⟩ := List.forall_mem_cons.1 hpos
    rw [placed, List.forall_mem_cons, width_cons]
    refine ⟨by simp only; omega, fun x hx => ?_⟩
    have := ih hps x hx
    omega

/-- The piece at the place where pieces begin is the first one. -/
theorem exists_cons_of_mem_placed {at' : Nat} {ps : List Piece} {p : Piece}
    (hpos : ∀ p ∈ ps, 0 < p.2) (h : (at', p) ∈ placed at' ps) : ∃ qs, ps = p :: qs := by
  cases ps with
  | nil => cases h
  | cons q qs =>
    rcases List.mem_cons.1 h with h | h
    · exact ⟨qs, by rw [(Prod.mk.inj h).2]⟩
    · have hle := le_of_mem_placed _ h
      have hq := hpos q List.mem_cons_self
      simp only at hle
      omega

/-- Pieces are told by the tokens that are cut by them. -/
theorem cut_eq_cut_iff {l : Location} {cs : List Char} {ps qs : List Piece}
    (hp : width ps ≤ cs.length) (hq : width qs ≤ cs.length) :
    cut l cs ps = cut l cs qs ↔ ps = qs := by
  refine ⟨fun h => ?_, fun h => by rw [h]⟩
  induction ps generalizing l cs qs with
  | nil =>
    cases qs with
    | nil => rfl
    | cons q qs => cases h
  | cons p ps ih =>
    cases qs with
    | nil => cases h
    | cons q qs =>
      obtain ⟨kind, n⟩ := p
      obtain ⟨kind', n'⟩ := q
      rw [width_cons] at hp hq
      simp only at hp hq
      rw [cut, cut, List.cons.injEq] at h
      obtain ⟨htoken, hmore⟩ := h
      have hkind : kind = kind' := congrArg Token.kind htoken
      have htext : cs.take n = cs.take n' :=
        String.ofList_injective (congrArg Token.text htoken)
      have hn : n = n' := by
        have := congrArg List.length htext
        rw [List.length_take, List.length_take] at this
        omega
      subst hkind hn
      rw [ih (by rw [List.length_drop]; omega) (by rw [List.length_drop]; omega) hmore]

/-! ### Groups that count -/

section Groups

variable {m : Reach} {eligible : Span → Bool}

theorem ascending_counted (hm : m.Holds) (i at' : Nat) (kinds : List Category) :
    Ascending at' (m.counted eligible i at' kinds) := by
  induction kinds generalizing i at' with
  | nil => trivial
  | cons kind kinds ih =>
    cases hg : m.span? i with
    | none => rw [Reach.counted_of_none hg]; exact ih _ _
    | some g =>
      by_cases hc : eligible g ∧ at' ≤ g.start
      · rw [Reach.counted_of_eligible hg hc.1 hc.2]
        exact ⟨hc.2, (hm g (Reach.mem_of_span? hg)).1, ih _ _⟩
      · rw [Reach.counted_of_not hg hc]
        exact ih _ _

theorem stop_le_of_mem_counted (hm : m.Holds) (i at' : Nat) (kinds : List Category) :
    ∀ x ∈ m.counted eligible i at' kinds, x.1.stop ≤ m.taken := by
  induction kinds generalizing i at' with
  | nil => simp [Reach.counted]
  | cons kind kinds ih =>
    cases hg : m.span? i with
    | none => rw [Reach.counted_of_none hg]; exact ih _ _
    | some g =>
      by_cases hc : eligible g ∧ at' ≤ g.start
      · rw [Reach.counted_of_eligible hg hc.1 hc.2]
        exact List.forall_mem_cons.2 ⟨(hm g (Reach.mem_of_span? hg)).2, ih _ _⟩
      · rw [Reach.counted_of_not hg hc]
        exact ih _ _

/-- The scanner divides a match at all groups that took part, with text or without. -/
theorem groupPieces_eq_tiles (hm : m.Holds) (i at' : Nat) (kinds : List Category) :
    groupPieces m i at' kinds = tiles m.taken at' (m.counted (fun _ => true) i at' kinds) := by
  induction kinds generalizing i at' with
  | nil => rfl
  | cons kind kinds ih =>
    rw [groupPieces]
    cases hg : m.span? i with
    | none => rw [Reach.counted_of_none hg]; exact ih _ _
    | some g =>
      have hstop := (hm g (Reach.mem_of_span? hg)).2
      by_cases hstart : at' ≤ g.start
      · rw [Reach.counted_of_eligible hg rfl hstart, tiles, ← ih]
        exact if_neg (by simp [Nat.not_lt.2 hstart, Nat.not_lt.2 hstop])
      · rw [Reach.counted_of_not hg fun hc => hstart hc.2, ← ih]
        exact if_pos (by simp [Nat.not_le.1 hstart])

theorem pos_of_mem_tiles (stop at' : Nat) (gs : List (Span × Category)) :
    ∀ p ∈ tiles stop at' gs, 0 < p.2 := by
  induction gs generalizing at' with
  | nil => exact pos_of_mem_piece
  | cons x gs ih =>
    rw [tiles]
    exact List.forall_mem_append.2
      ⟨List.forall_mem_append.2 ⟨pos_of_mem_piece, pos_of_mem_piece⟩, ih _⟩

theorem width_tiles {stop at' : Nat} {gs : List (Span × Category)} (h : Ascending at' gs)
    (hat : at' ≤ stop) (hstop : ∀ x ∈ gs, x.1.stop ≤ stop) :
    width (tiles stop at' gs) = stop - at' := by
  induction gs generalizing at' with
  | nil => exact width_piece _ _
  | cons x gs ih =>
    obtain ⟨hstart, hspan, h⟩ := h
    obtain ⟨hx, hgs⟩ := List.forall_mem_cons.1 hstop
    rw [tiles, width_append, width_append, width_piece, width_piece, ih h hx hgs]
    omega

/-! ### Gaps in front of empty groups -/

theorem le_of_mem_emptyEnds {at' : Nat} {gs : List (Span × Category)} (h : Ascending at' gs) :
    ∀ x ∈ emptyEnds at' gs, at' ≤ x.1 := by
  induction gs generalizing at' with
  | nil => simp [emptyEnds]
  | cons y gs ih =>
    obtain ⟨hstart, hspan, h⟩ := h
    have hle : at' ≤ y.1.stop := Nat.le_trans hstart hspan
    have hmore : ∀ x ∈ emptyEnds y.1.stop gs, at' ≤ x.1 :=
      fun x hx => Nat.le_trans hle (ih h x hx)
    rw [emptyEnds]
    split_ifs
    · exact List.forall_mem_cons.2 ⟨Nat.le_refl _, hmore⟩
    · exact hmore

/-- Places of the pieces of a group and of what is in front of it and behind it. -/
theorem placed_tiles_cons {stop at' : Nat} {g : Span} {kind : Category}
    {gs : List (Span × Category)} (hstart : at' ≤ g.start) (hspan : g.start ≤ g.stop) :
    placed at' (tiles stop at' ((g, kind) :: gs)) =
      placed at' (piece .text (g.start - at') ++ piece kind (g.stop - g.start)) ++
        placed g.stop (tiles stop g.stop gs) := by
  rw [tiles, placed_append, width_append, width_piece, width_piece]
  congr 2
  omega

/-- A gap in front of an empty group is a piece of plain text. -/
theorem mem_placed_of_mem_emptyEnds {stop at' : Nat} {gs : List (Span × Category)}
    (h : Ascending at' gs) : ∀ x ∈ emptyEnds at' gs,
      (x.1, (Category.text, x.2 - x.1)) ∈ placed at' (tiles stop at' gs) := by
  induction gs generalizing at' with
  | nil => simp [emptyEnds]
  | cons y gs ih =>
    obtain ⟨g, kind⟩ := y
    obtain ⟨hstart, hspan, h⟩ := h
    have hmore : ∀ x ∈ emptyEnds g.stop gs,
        (x.1, (Category.text, x.2 - x.1)) ∈ placed at' (tiles stop at' ((g, kind) :: gs)) := by
      intro x hx
      rw [placed_tiles_cons hstart hspan]
      exact List.mem_append_right _ (ih h x hx)
    rw [emptyEnds]
    split_ifs with hgap
    · simp only [Bool.and_eq_true, decide_eq_true_eq] at hgap
      refine List.forall_mem_cons.2 ⟨?_, hmore⟩
      have hpiece : piece .text (g.start - at') = [(.text, g.start - at')] := if_neg (by omega)
      rw [tiles, hpiece]
      exact List.mem_cons_self
    · exact hmore

/-- Behind a first piece of plain text the groups with text make the same pieces as if they
were counted from its end on. -/
theorem tiles_counted_of_cons {i at' n stop : Nat} {kinds : List Category} {ps : List Piece}
    (hn : 0 < n)
    (h : tiles stop at' (m.counted Span.hasText i at' kinds) = (.text, n) :: ps) :
    ps = tiles stop (at' + n) (m.counted Span.hasText i (at' + n) kinds) := by
  induction kinds generalizing i with
  | nil =>
    simp only [Reach.counted, tiles, piece] at h ⊢
    split_ifs at h with hzero
    simp only [List.cons.injEq, Prod.mk.injEq, true_and] at h
    obtain ⟨rfl, rfl⟩ := h
    exact (if_pos (by omega)).symm
  | cons kind kinds ih =>
    cases hg : m.span? i with
    | none =>
      rw [Reach.counted_of_none hg] at h ⊢
      exact ih h
    | some g =>
      by_cases hcounts : g.hasText ∧ at' ≤ g.start
      · have hlt : g.start < g.stop := of_decide_eq_true hcounts.1
        have hgroup : piece kind (g.stop - g.start) = [(kind, g.stop - g.start)] :=
          if_neg (by omega)
        rw [Reach.counted_of_eligible hg hcounts.1 hcounts.2, tiles, hgroup] at h
        by_cases hgap : at' = g.start
        · -- the group is the first piece, and ends where this does
          simp only [hgap, Nat.sub_self, piece, if_true, List.nil_append, List.singleton_append,
            List.cons.injEq, Prod.mk.injEq] at h
          obtain ⟨⟨-, rfl⟩, rfl⟩ := h
          rw [Reach.counted_of_not hg (by omega), hgap, Nat.add_sub_cancel' (Nat.le_of_lt hlt)]
        · -- the group begins where the first piece ends
          have hpiece : piece .text (g.start - at') = [(.text, g.start - at')] :=
            if_neg (by omega)
          rw [hpiece] at h
          simp only [List.cons_append, List.cons.injEq, Prod.mk.injEq, true_and] at h
          obtain ⟨rfl, rfl⟩ := h
          rw [Nat.add_sub_cancel' hcounts.2,
            Reach.counted_of_eligible hg hcounts.1 (Nat.le_refl _), tiles, hgroup, Nat.sub_self]
          rfl
      · rw [Reach.counted_of_not hg hcounts] at h
        rw [Reach.counted_of_not hg fun hc => hcounts ⟨hc.1, by omega⟩]
        exact ih h

/-- Passing the groups without text leaves the pieces as they are if each gap that ends at one
is a piece anyway. -/
theorem tiles_counted_eq {i at' stop : Nat} {kinds : List Category} (hm : m.Holds)
    (h : ∀ x ∈ emptyEnds at' (m.counted (fun _ => true) i at' kinds),
      (x.1, (Category.text, x.2 - x.1)) ∈
        placed at' (tiles stop at' (m.counted Span.hasText i at' kinds))) :
    tiles stop at' (m.counted (fun _ => true) i at' kinds) =
      tiles stop at' (m.counted Span.hasText i at' kinds) := by
  induction kinds generalizing i at' with
  | nil => rfl
  | cons kind kinds ih =>
    cases hg : m.span? i with
    | none =>
      rw [Reach.counted_of_none hg, Reach.counted_of_none hg] at h ⊢
      exact ih h
    | some g =>
      by_cases hstart : at' ≤ g.start
      · have hspan := (hm g (Reach.mem_of_span? hg)).1
        have hbehind : ∀ x ∈ emptyEnds g.stop (m.counted (fun _ => true) (i + 1) g.stop kinds),
            g.stop ≤ x.1 := le_of_mem_emptyEnds (ascending_counted hm _ _ _)
        rw [Reach.counted_of_eligible hg rfl hstart] at h ⊢
        by_cases htext : g.hasText
        · rw [Reach.counted_of_eligible hg htext hstart] at h ⊢
          rw [emptyEnds, if_neg (by simp [htext])] at h
          rw [tiles, tiles, ih]
          intro x hx
          have hplaced := h x hx
          rw [placed_tiles_cons hstart hspan, List.mem_append] at hplaced
          refine hplaced.resolve_left fun hfront => ?_
          -- what is in front of the end of the group begins in front of it
          have hlt := lt_of_mem_placed
            (List.forall_mem_append.2 ⟨pos_of_mem_piece, pos_of_mem_piece⟩) _ hfront
          have hle := hbehind x hx
          rw [width_append, width_piece, width_piece] at hlt
          simp only at hlt
          omega
        · have hstop : g.stop = g.start := by
            have : ¬ g.start < g.stop := by simpa [Span.hasText] using htext
            omega
          rw [Reach.counted_of_not hg fun hc => htext hc.1] at h ⊢
          rw [hstop] at hbehind
          rw [tiles, hstop, Nat.sub_self, show piece kind 0 = [] from rfl, List.append_nil]
          by_cases hgap : at' = g.start
          · rw [emptyEnds, if_neg (by simp [hgap]), hstop, ← hgap] at h
            rw [← hgap, Nat.sub_self]
            exact ih h
          · have hpiece : piece .text (g.start - at') = [(.text, g.start - at')] :=
              if_neg (by omega)
            rw [emptyEnds, if_pos (by simp [htext]; omega), hstop, List.forall_mem_cons] at h
            obtain ⟨hfirst, hmore⟩ := h
            -- the gap is the first piece of those with text, which go on behind it alike
            obtain ⟨ps, hps⟩ := exists_cons_of_mem_placed (pos_of_mem_tiles _ _ _) hfirst
            have htail := tiles_counted_of_cons (by omega) hps
            rw [Nat.add_sub_cancel' hstart] at htail
            rw [hps, hpiece, List.singleton_append, htail, ih]
            intro x hx
            have hplaced := hmore x hx
            rw [hps, placed, Nat.add_sub_cancel' hstart, htail] at hplaced
            refine (List.mem_cons.1 hplaced).resolve_left fun he => ?_
            have hle := hbehind x hx
            simp only [Prod.mk.injEq] at he
            omega
      · rw [Reach.counted_of_not hg fun hc => hstart hc.2,
          Reach.counted_of_not hg fun hc => hstart hc.2] at h ⊢
        exact ih h

end Groups

/-- The groups of a match that count by the rule: those with text. -/
def Reach.textGroups (m : Reach) (kinds : List Category) : List (Span × Category) :=
  m.counted Span.hasText 1 0 kinds

/-- The groups that a scanner passes: also those without text. -/
def Reach.passedGroups (m : Reach) (kinds : List Category) : List (Span × Category) :=
  m.counted (fun _ => true) 1 0 kinds

/-- The tokens of a match with groups, wherever in the match these lie. They are divided at all
groups that the scanner passes. They are those of the groups with text exactly if each gap
that the scanner leaves in front of an empty group is one of the plain texts between these. -/
theorem tokens_apply_groups {r : Rule} {kinds : List Category} (hr : r.action = .groups kinds)
    (s : Scanner) {m : Reach} (hm : m.Holds) (hle : m.taken ≤ s.rest.length) :
    (s.apply r m).tokens =
        s.tokens ++ cut s.location s.rest (tiles m.taken 0 (m.passedGroups kinds)) ∧
      ((s.apply r m).tokens =
          s.tokens ++ cut s.location s.rest (tiles m.taken 0 (m.textGroups kinds)) ↔
        ∀ x ∈ emptyEnds 0 (m.passedGroups kinds), (x.1, (Category.text, x.2 - x.1)) ∈
          placed 0 (tiles m.taken 0 (m.textGroups kinds))) := by
  have hwidth (eligible : Span → Bool) :
      width (tiles m.taken 0 (m.counted eligible 1 0 kinds)) ≤ s.rest.length := by
    rw [width_tiles (ascending_counted hm _ _ _) (Nat.zero_le _) (stop_le_of_mem_counted hm _ _ _)]
    exact hle
  have htokens : (s.apply r m).tokens =
      s.tokens ++ cut s.location s.rest (tiles m.taken 0 (m.passedGroups kinds)) := by
    rw [Scanner.tokens_apply, hr, Action.pieces, groupPieces_eq_tiles hm]
    rfl
  refine ⟨htokens, ?_⟩
  rw [htokens, List.append_cancel_left_eq, Reach.passedGroups, Reach.textGroups,
    cut_eq_cut_iff (hwidth _) (hwidth _)]
  constructor
  · intro heq x hx
    rw [← heq]
    exact mem_placed_of_mem_emptyEnds (ascending_counted hm _ _ _) x hx
  · exact tiles_counted_eq hm

/-- An empty group between a gap and a group with text changes nothing. -/
theorem tokens_apply_groups_betweenFields :
    let kinds : List Category := [.name, .operator, .keyword]
    let r : Rule := .groups (seqs [group 1 (char 'a'), char 'b', group 2 .empty,
      group 3 (char 'c')]) kinds
    let m : Reach := ⟨some 'c', [], 3, [⟨3, 2, 3⟩, ⟨2, 2, 2⟩, ⟨1, 0, 1⟩]⟩
    let s := Scanner.start "abc".toList
    r.match? s.before s.rest = some m ∧ r.action = .groups kinds ∧ m.Holds ∧
      m.taken ≤ s.rest.length ∧ emptyEnds 0 (m.passedGroups kinds) = [(1, 2)] ∧
      (s.apply r m).tokens =
        s.tokens ++ cut s.location s.rest (tiles m.taken 0 (m.textGroups kinds)) := by
  intro kinds r m s
  have hm : m.Holds := by unfold Reach.Holds; decide
  have hle : m.taken ≤ s.rest.length := by decide
  exact ⟨by decide, rfl, hm, hle, by decide,
    (tokens_apply_groups (r := r) rfl s hm hle).2.2 (by decide)⟩

/-- An empty group inside of a gap cuts the plain text in two. -/
theorem scan_emptyGroup_cutsGap :
    let kinds : List Category := [.name, .operator]
    let r : Rule := .groups (seqs [group 1 (char 'a'), char 'b', group 2 .empty, char 'c']) kinds
    let m : Reach := ⟨some 'c', [], 3, [⟨2, 2, 2⟩, ⟨1, 0, 1⟩]⟩
    r.match? none "abc".toList = some m ∧
      (RuleSet.scan ⟨"letters", [⟨"root", [r]⟩]⟩ "abc").tokens =
        [⟨⟨0, 0⟩, .name, "a"⟩, ⟨⟨0, 1⟩, .text, "b"⟩, ⟨⟨0, 2⟩, .text, "c"⟩] ∧
      cut .start "abc".toList (tiles m.taken 0 (m.textGroups kinds)) =
        [⟨⟨0, 0⟩, .name, "a"⟩, ⟨⟨0, 1⟩, .text, "bc"⟩] := by
  decide +kernel

end Highlighter
