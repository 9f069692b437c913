import Highlighter.Proofs.Insertion
import Highlighter.Proofs.MacroArguments

/-! Blanks in qualified names. The pass looks past blanks where it asks for the next token or
the last one, but the parts of a qualified name have to stand close together. Proved: where
there are blanks around a `::`, the name in front of them is decided on by itself and what is
behind them begins anew; so blanks change nothing exactly if each name in front of some is a
namespace on its own, and what is behind the last ones ends in the category that it has
without them. -/

namespace Highlighter

open Token Context

/-! ### Names with blanks -/

structure SpacedPart where
  /-- The blanks in front of the `::`. -/
  gap : List Token
  joint : Token
  /-- The blanks behind the `::`. -/
  gap' : List Token
  name : Token
  blank : ∀ t ∈ gap ++ gap', t.kind = .text
  isJoint : joint.isJoint
  isName : name.kind.isA .name

namespace SpacedPart

/-- What stands in front of the name. -/
def front (p : SpacedPart) : List Token := p.gap ++ p.joint :: p.gap'

/-- Whether there are no blanks around the `::`. -/
def isClosed (p : SpacedPart) : Bool := p.gap.isEmpty && p.gap'.isEmpty

def close (p : SpacedPart) : SpacedPart :=
  { p with gap := [], gap' := [], blank := by simp }

theorem isClosed_close (p : SpacedPart) : p.close.isClosed := rfl

theorem front_of_isClosed {p : SpacedPart} (h : p.isClosed) : p.front = [p.joint] := by
  simp only [isClosed, Bool.and_eq_true, List.isEmpty_iff] at h
  rw [front, h.1, h.2]
  rfl

end SpacedPart

def partTokens (ps : List SpacedPart) : List Token := ps.flatMap fun p => p.front ++ [p.name]

@[simp] theorem partTokens_nil : partTokens [] = [] := rfl

@[simp] theorem partTokens_cons (p : SpacedPart) (ps : List SpacedPart) :
    partTokens (p :: ps) = p.front ++ p.name :: partTokens ps := by
  simp [partTokens]

/-- The category of the last of some joined names, the first of which is `n`, for a qualified
name that begins with `root`. -/
def endKind (root n : Token) (ps : List SpacedPart) (after : List Token) : Category :=
  tailKind root.text (ps.dropLast.getLast?.elim n (·.name)).text (ps.getLast?.elim n (·.name)).text
    (isCalled after)

/-- A qualified name of two parts or more, with blanks around its `::`. -/
structure SpacedName where
  head : Token
  parts : List SpacedPart
  isHead : head.isHead
  parts_ne : parts ≠ []

namespace SpacedName

def tokens (q : SpacedName) : List Token := q.head :: partTokens q.parts

def close (q : SpacedName) : SpacedName :=
  { q with parts := q.parts.map .close, parts_ne := by simpa using q.parts_ne }

end SpacedName

/-! ### Parts with and without blanks -/

theorem partTokens_of_isClosed {ps : List SpacedPart} (h : ∀ p ∈ ps, p.isClosed) :
    partTokens ps = unpaired (ps.map fun p => (p.joint, p.name)) := by
  induction ps with
  | nil => rfl
  | cons p ps ih =>
    obtain ⟨hp, hps⟩ := List.forall_mem_cons.1 h
    rw [partTokens_cons, SpacedPart.front_of_isClosed hp, ih hps]
    rfl

/-- Blanks around the `::` hide the name behind it. -/
theorem segments_front {p : SpacedPart} (h : p.isClosed = false) (rest : List Token) :
    segments (p.front ++ rest) = [] := by
  obtain ⟨hgap, hgap'⟩ := List.forall_mem_append.1 p.blank
  rw [segments_eq_nil_iff]
  intro op t us he hj
  rw [SpacedPart.front, List.append_assoc, List.cons_append] at he
  cases hg : p.gap with
  | cons u us' =>
    rw [hg] at he
    have hu : op.kind = .text := by
      rw [← (List.cons.inj he).1]
      exact hgap u (by simp [hg])
    simp [isJoint, is, hu] at hj
  | nil =>
    rw [hg] at he
    obtain ⟨-, he⟩ := List.cons.inj he
    cases hg' : p.gap' with
    | nil => simp [SpacedPart.isClosed, hg, hg'] at h
    | cons u us' =>
      rw [hg'] at he
      rw [← (List.cons.inj he).1, hgap' u (by simp [hg'])]
      rfl

theorem partTokens_append (ps qs : List SpacedPart) :
    partTokens (ps ++ qs) = partTokens ps ++ partTokens qs := List.flatMap_append

/-! ### Categories in a row -/

def visibleKinds (ks : List Category) : List Category := ks.filter (· ≠ .text)

@[simp] theorem visibleKinds_nil : visibleKinds [] = [] := rfl

@[simp] theorem visibleKinds_append (ks ls : List Category) :
    visibleKinds (ks ++ ls) = visibleKinds ks ++ visibleKinds ls := List.filter_append ..

theorem visibleKinds_cons {k : Category} (hk : k ≠ .text) (ks : List Category) :
    visibleKinds (k :: ks) = k :: visibleKinds ks := List.filter_cons_of_pos (by simpa using hk)

theorem visibleKinds_eq_self {ks : List Category} (h : ∀ k ∈ ks, k ≠ .text) :
    visibleKinds ks = ks := List.filter_eq_self.2 (by simpa using h)

namespace Context

variable {s : Symbols} {c : Context} {rest : List Token}

/-- The categories that the pass gives to some tokens, in front of the rest. -/
def given (s : Symbols) (c : Context) : List Token → List Token → List Category
  | [], _ => []
  | t :: ts, rest => (c.step s t (ts ++ rest)).1 :: given s (c.step s t (ts ++ rest)).2 ts rest

theorem given_append (s : Symbols) (c : Context) (ts us rest : List Token) :
    c.given s (ts ++ us) rest =
      c.given s ts (us ++ rest) ++ (c.through s ts (us ++ rest)).given s us rest := by
  induction ts generalizing c with
  | nil => rfl
  | cons t ts ih => simp only [List.cons_append, given, through, ih, List.append_assoc]

theorem through_append (s : Symbols) (c : Context) (ts us rest : List Token) :
    c.through s (ts ++ us) rest = (c.through s ts (us ++ rest)).through s us rest := by
  induction ts generalizing c with
  | nil => rfl
  | cons t ts ih => simp only [List.cons_append, through, ih, List.append_assoc]

theorem map_kind_take_reclassify (s : Symbols) (c : Context) (ts rest : List Token) :
    ((reclassify s c (ts ++ rest)).take ts.length).map (·.kind) = c.given s ts rest := by
  induction ts generalizing c with
  | nil => rfl
  | cons t ts ih => exact congrArg (_ :: ·) (ih _)

theorem map_kind_classify (before ts after : List Token) :
    (((classify (before ++ ts ++ after)).drop before.length).take ts.length).map (·.kind) =
      (Context.start.through (.collect (before ++ ts ++ after)) before (ts ++ after)).given
        (.collect (before ++ ts ++ after)) ts after := by
  rw [← map_kind_take_reclassify, ← drop_reclassify, classify, List.append_assoc]

theorem step_blank {t : Token} (hd : c.decided = []) (ht : t.kind = .text) (s : Symbols)
    (rest : List Token) :
    c.step s t rest = (.text, c) := by
  simp only [step, hd, if_pos ht]

/-- Plain text leaves the pass as it is. -/
theorem given_blanks {ts : List Token} (hd : c.decided = []) (ht : ∀ t ∈ ts, t.kind = .text)
    (s : Symbols) (rest : List Token) :
    visibleKinds (c.given s ts rest) = [] ∧ c.through s ts rest = c := by
  induction ts with
  | nil => exact ⟨rfl, rfl⟩
  | cons t ts ih =>
    obtain ⟨ht, hts⟩ := List.forall_mem_cons.1 ht
    rw [given, through, step_blank hd ht s]
    exact ⟨(ih hts).1, (ih hts).2⟩

theorem decided_step (s : Symbols) (c : Context) (t : Token) (rest : List Token) :
    (c.step s t rest).2.decided = (c.cursor.next t rest).decided :=
  congrArg Cursor.decided (cursor_step c s t rest)

/-- What is decided ahead of some tokens is what the pass gives to them. -/
theorem given_decided {ts : List Token} (h : ts.length = c.decided.length) (s : Symbols)
    (rest : List Token) :
    c.given s ts rest = c.decided ∧ (c.through s ts rest).decided = [] := by
  induction ts generalizing c with
  | nil =>
    have hd : c.decided = [] := List.length_eq_zero_iff.1 h.symm
    exact ⟨hd.symm, hd⟩
  | cons t ts ih =>
    cases hd : c.decided with
    | nil => rw [hd] at h; cases h
    | cons k ks =>
      have hks : (c.step s t (ts ++ rest)).2.decided = ks := by
        rw [decided_step]
        exact Cursor.decided_next hd t _
      have hk : (c.step s t (ts ++ rest)).1 = k := by
        rw [step_fst]
        exact congrArg (Site.kind s c.last t) (Cursor.site_of_decided hd t _)
      have hts := ih (c := (c.step s t (ts ++ rest)).2) (by
        rw [hd] at h; rw [hks]; exact Nat.succ.inj h)
      rw [given, through, hk, hts.1, hks]
      exact ⟨rfl, hts.2⟩

/-- A `::` outside of a qualified name keeps its category. -/
theorem step_joint {t : Token} (hd : c.decided = []) (hj : t.isJoint) (s : Symbols)
    (rest : List Token) :
    (c.step s t rest).1 = .operator ∧ (c.step s t rest).2.decided = [] := by
  have hkind : t.kind = .operator := by
    simp only [isJoint, is, Bool.and_eq_true, decide_eq_true_eq] at hj
    exact hj.1
  have hwalk : c.cursor.Walks t rest (.other t.kind) _ :=
    .other hd (by rw [hkind]; decide) (by rw [hkind]; rfl) (by rw [keyword?, hkind]; rfl)
  rw [step_fst, decided_step, hwalk.eq.1, hwalk.eq.2]
  exact ⟨hkind, rfl⟩

/-- The pass begins anew behind a name that no part is joined to. -/
theorem decided_step_of_segments (hd : c.decided = []) (hs : segments rest = []) (s : Symbols)
    (t : Token) :
    (c.step s t rest).2.decided = [] := by
  rw [decided_step]
  generalize c.cursor.site t rest = site, c.cursor.next t rest = p', c.cursor.walks t rest = hw
  cases hw with
  | ahead h => rw [show c.decided = _ from h] at hd; cases hd
  | blank h => exact h
  | restored | single | other => rfl
  | head _ _ _ hc =>
    rw [chainTail?_eq_none_iff.2 hs] at hc
    cases hc

/-- A name stays a name or becomes a keyword. -/
theorem step_name {t : Token} (hd : c.decided = []) (ht : t.kind.isA .name) (s : Symbols)
    (rest : List Token) :
    (c.step s t rest).1.isA .name ∨ (c.step s t rest).1.isA .keyword := by
  rw [step_fst]
  generalize c.cursor.site t rest = site, c.cursor.next t rest = p', c.cursor.walks t rest = hw
  cases hw with
  | ahead h => rw [show c.decided = _ from h] at hd; cases hd
  | blank _ h => rw [h] at ht; cases ht
  | restored _ _ hk => exact .inr (keyword?_isA hk)
  | head => exact .inl rfl
  | single _ ho => exact .inl (nameKind_isA_name _ s c.last ho)
  | other => exact .inl ht

theorem step_name_ne_text {t : Token} (hd : c.decided = []) (ht : t.kind.isA .name) :
    (c.step s t rest).1 ≠ .text := by
  intro htext
  rcases step_name hd ht s rest with h | h <;> rw [htext] at h <;> cases h

/-- A name that begins no qualified name does not become a namespace. -/
theorem step_ne_nameNamespace {t : Token} (hd : c.decided = []) (ht : t.isHead = false) :
    (c.step s t rest).1 ≠ .nameNamespace := by
  rw [step_fst]
  generalize c.cursor.site t rest = site, c.cursor.next t rest = p', c.cursor.walks t rest = hw
  intro hn
  cases hw with
  | ahead h => rw [show c.decided = _ from h] at hd; cases hd
  | blank => cases hn
  | @restored k _ _ hk =>
    have hkeyword := keyword?_isA hk
    rw [show k = _ from hn] at hkeyword
    cases hkeyword
  | head _ ho hk | single _ ho hk => simp [isHead_iff.2 ⟨ho, hk⟩] at ht
  | other _ _ ho => rw [show t.kind = _ from hn] at ho; cases ho

/-- The pass makes a namespace of a name that no part is joined to: the name stands behind
`namespace`, or it is one already and nothing speaks against that. -/
def NamespaceAlone (s : Symbols) (c : Context) (t : Token) (rest : List Token) : Prop :=
  t.isHead ∧ (c.afterNamespace ∨ t.kind = .nameNamespace ∧ ¬ s.declaresType t.text ∧
    (c.standingAt t rest).convention? s c.last t.text = none)

instance (s : Symbols) (c : Context) (t : Token) (rest : List Token) :
    Decidable (c.NamespaceAlone s t rest) := inferInstanceAs (Decidable (_ ∧ _))

theorem nameKind_eq_nameNamespace_iff (n : Standing) (s : Symbols)
    (last : Option (Category × String)) (t : Token) : n.nameKind s last t = .nameNamespace ↔
      n.behindNamespace ∨ t.kind = .nameNamespace ∧ ¬ s.declaresType t.text ∧
        n.convention? s last t.text = none := by
  unfold Standing.nameKind
  cases n.behindNamespace with
  | true => simp
  | false =>
    cases s.declaresType t.text with
    | true => simp
    | false =>
      cases hc : n.convention? s last t.text with
      | none => simp
      | some k =>
        have hk : k ≠ .nameNamespace := by
          rintro rfl
          revert hc
          unfold Standing.convention?
          split_ifs <;> simp
        simp [hk]

theorem step_eq_nameNamespace_iff {t : Token} (hd : c.decided = []) (hs : segments rest = []) :
    (c.step s t rest).1 = .nameNamespace ↔ c.NamespaceAlone s t rest := by
  cases ht : t.isHead with
  | false => exact iff_of_false (step_ne_nameNamespace hd ht) fun h => by simp [h.1] at ht
  | true =>
    obtain ⟨ho, hk⟩ := isHead_iff.1 ht
    have hsingle : c.AtSingle t rest := ⟨hd, ho, hk, chainTail?_eq_none_iff.2 hs⟩
    rw [hsingle.step_fst, nameKind_eq_nameNamespace_iff, NamespaceAlone]
    exact (and_iff_right ht).symm

/-! ### Names and their gaps -/

/-- Around a `::` with blanks, only the `::` is seen. -/
theorem given_front (p : SpacedPart) (hd : c.decided = []) (s : Symbols) (rest : List Token) :
    visibleKinds (c.given s p.front rest) = [.operator] ∧
      (c.through s p.front rest).decided = [] := by
  obtain ⟨hgap, hgap'⟩ := List.forall_mem_append.1 p.blank
  obtain ⟨hk, hthrough⟩ := given_blanks hd hgap s ((p.joint :: p.gap') ++ rest)
  obtain ⟨hjoint, hd'⟩ := step_joint hd p.isJoint s (p.gap' ++ rest)
  obtain ⟨hk', hthrough'⟩ := given_blanks hd' hgap' s rest
  rw [SpacedPart.front, given_append, through_append, visibleKinds_append, hk, hthrough, given,
    through, hjoint, visibleKinds_cons (by decide), hk', hthrough']
  exact ⟨rfl, hd'⟩

theorem step_head {t : Token} {k : Category} {tail : Token} (hd : c.decided = []) (ht : t.isHead)
    (hc : chainTail? t rest = some (tail, k)) : (c.step s t rest).1 = .nameNamespace ∧
      (c.step s t rest).2.decided = chainKinds (segments rest) k := by
  obtain ⟨ho, hk⟩ := isHead_iff.1 ht
  have hwalk : c.cursor.Walks t rest (.linked .nameNamespace) _ := .head hd ho hk hc
  rw [step_fst, decided_step, hwalk.eq.1, hwalk.eq.2]
  exact ⟨rfl, rfl⟩

end Context

/-! ### The categories of a name with blanks -/

/-- The categories of a qualified name, the last of which is `k`, and of its `::`. -/
def wholeKinds (ps : List SpacedPart) (k : Category) : List Category :=
  (ps.flatMap fun _ => [.nameNamespace, .operator]) ++ [k]

theorem wholeKinds_cons (p : SpacedPart) (ps : List SpacedPart) (k : Category) :
    wholeKinds (p :: ps) k = .nameNamespace :: .operator :: wholeKinds ps k := rfl

/-- Blanks do no harm to a qualified name from its part `n` on, whose last part is of category
`k` without them. A part that the next one is joined to has to begin a qualified name that has
no more blanks in it and ends in the same category; a part with blanks behind it has to be a
namespace on its own. -/
def Keeps (s : Symbols) (k : Category) (after : List Token) :
    Context → Token → List SpacedPart → Prop
  | c, n, [] => (c.step s n after).1 = k
  | c, n, p :: ps =>
    if p.isClosed then n.isHead ∧ (∀ p' ∈ ps, p'.isClosed) ∧ endKind n n (p :: ps) after = k
    else c.NamespaceAlone s n (p.front ++ p.name :: partTokens ps ++ after) ∧
      Keeps s k after (c.through s (n :: p.front) (p.name :: partTokens ps ++ after)) p.name ps

instance decidableKeeps (s : Symbols) (k : Category) (after : List Token) :
    ∀ c n ps, Decidable (Keeps s k after c n ps)
  | c, n, [] => inferInstanceAs (Decidable ((c.step s n after).1 = k))
  | c, n, p :: ps =>
    have := decidableKeeps s k after (c.through s (n :: p.front)
      (p.name :: partTokens ps ++ after)) p.name ps
    inferInstanceAs (Decidable (if p.isClosed then n.isHead ∧ (∀ p' ∈ ps, p'.isClosed) ∧
        endKind n n (p :: ps) after = k
      else c.NamespaceAlone s n (p.front ++ p.name :: partTokens ps ++ after) ∧
        Keeps s k after (c.through s (n :: p.front) (p.name :: partTokens ps ++ after)) p.name ps))

section

variable {s : Symbols} {c : Context} {k : Category} {n : Token} {after : List Token}

theorem keeps_of_isClosed {ps : List SpacedPart} (hne : ps ≠ []) (hn : n.isHead)
    (hps : ∀ p ∈ ps, p.isClosed) : Keeps s (endKind n n ps after) after c n ps := by
  cases ps with
  | nil => exact absurd rfl hne
  | cons p ps =>
    obtain ⟨hp, hps⟩ := List.forall_mem_cons.1 hps
    rw [Keeps, if_pos hp]
    exact ⟨hn, hps, rfl⟩

theorem wholeKinds_eq {ps : List SpacedPart} (h : ps ≠ []) (k : Category) :
    wholeKinds ps k = .nameNamespace :: chainKinds (ps.map (·.name)) k := by
  induction ps with
  | nil => exact absurd rfl h
  | cons p ps ih =>
    rw [wholeKinds_cons, List.map_cons, chainKinds_cons]
    cases ps with
    | nil => rfl
    | cons p' ps => rw [ih (by simp), if_neg (by simp)]

theorem wholeKinds_append (ps qs : List SpacedPart) (k : Category) : wholeKinds (ps ++ qs) k =
    (ps.flatMap fun _ => [.nameNamespace, .operator]) ++ wholeKinds qs k := by
  rw [wholeKinds, wholeKinds, List.flatMap_append, List.append_assoc]

theorem endKind_ne (root n : Token) (ps : List SpacedPart) (after : List Token) :
    endKind root n ps after ≠ .nameNamespace ∧ endKind root n ps after ≠ .text := by
  unfold endKind tailKind
  split_ifs <;> decide

theorem segments_joined {ps : List SpacedPart} (hps : ∀ p ∈ ps, p.isClosed) {rest : List Token}
    (hs : segments rest = []) : segments (partTokens ps ++ rest) = ps.map (·.name) := by
  rw [partTokens_of_isClosed hps, JoinedNames.segments_unpaired _ hs]
  · simp
  · simpa using fun p _ => ⟨p.isJoint, p.isName⟩

theorem length_partTokens {ps : List SpacedPart} (hps : ∀ p ∈ ps, p.isClosed) :
    (partTokens ps).length = 2 * ps.length := by
  rw [partTokens_of_isClosed hps, length_unpaired, List.length_map]

theorem chainTail?_joined {ps : List SpacedPart} (hne : ps ≠ []) (hps : ∀ p ∈ ps, p.isClosed)
    {rest : List Token} (hs : segments rest = []) :
    ∃ tail, chainTail? n (partTokens ps ++ rest) = some (tail, endKind n n ps rest) := by
  refine ⟨(ps.getLast hne).name, ?_⟩
  simp only [chainTail?, segments_joined hps hs, List.getLast?_map, ← List.map_dropLast,
    List.getLast?_eq_some_getLast hne, Option.map_some, List.length_map,
    List.drop_left' (length_partTokens hps), endKind]
  cases ps.dropLast.getLast? <;> rfl

theorem visibleKinds_wholeKinds (ps : List SpacedPart) (hk : k ≠ .text) :
    visibleKinds (wholeKinds ps k) = wholeKinds ps k := by
  refine visibleKinds_eq_self fun k' hk' => ?_
  simp only [wholeKinds, List.mem_append, List.mem_flatMap, List.mem_cons, List.not_mem_nil,
    or_false] at hk'
  rcases hk' with ⟨-, -, rfl | rfl⟩ | rfl
  · decide
  · decide
  · exact hk

/-- Parts without blanks are decided on ahead. -/
theorem given_joined (s : Symbols) (hd : c.decided = []) (hn : n.isHead) {ps : List SpacedPart}
    (hne : ps ≠ []) (hps : ∀ p ∈ ps, p.isClosed) (qs : List SpacedPart)
    (hs : segments (partTokens qs ++ after) = []) :
    ∃ c', visibleKinds (c.given s (n :: partTokens (ps ++ qs)) after) =
      wholeKinds ps (endKind n n ps (partTokens qs ++ after)) ++
        visibleKinds (given s c' (partTokens qs) after) := by
  obtain ⟨tail, hc⟩ := chainTail?_joined (n := n) hne hps hs
  obtain ⟨hk, hahead⟩ := step_head (s := s) hd hn hc
  rw [segments_joined hps hs] at hahead
  have hlen : (partTokens ps).length =
      (c.step s n (partTokens ps ++ (partTokens qs ++ after))).2.decided.length := by
    rw [hahead, length_chainKinds, length_partTokens hps, List.length_map]
  obtain ⟨hgiven, -⟩ := given_decided hlen s (partTokens qs ++ after)
  refine ⟨(c.step s n (partTokens ps ++ (partTokens qs ++ after))).2.through s (partTokens ps)
    (partTokens qs ++ after), ?_⟩
  rw [partTokens_append, given, List.append_assoc, given_append, hk, hgiven, hahead,
    ← List.cons_append, ← wholeKinds_eq hne, visibleKinds_append,
    visibleKinds_wholeKinds _ (endKind_ne ..).2]

/-- A name with blanks behind it is decided on by itself, and what follows begins anew. -/
theorem given_spaced (s : Symbols) (hd : c.decided = []) (hn : n.kind.isA .name) {p : SpacedPart}
    (hp : p.isClosed = false) (ps : List SpacedPart) (after : List Token) :
    visibleKinds (c.given s (n :: partTokens (p :: ps)) after) =
        (c.step s n (p.front ++ p.name :: partTokens ps ++ after)).1 :: .operator ::
          visibleKinds (given s (c.through s (n :: p.front) (p.name :: partTokens ps ++ after))
            (p.name :: partTokens ps) after) ∧
      (c.through s (n :: p.front) (p.name :: partTokens ps ++ after)).decided = [] := by
  have hs : segments (p.front ++ p.name :: partTokens ps ++ after) = [] := by
    rw [List.append_assoc]
    exact segments_front hp _
  have hd' := decided_step_of_segments hd hs s n
  rw [List.append_assoc] at hd'
  obtain ⟨hfront, hthrough⟩ :=
    given_front p hd' s (p.name :: partTokens ps ++ after)
  rw [partTokens_cons, given, visibleKinds_cons (step_name_ne_text hd hn), given_append,
    visibleKinds_append, List.append_assoc, hfront]
  exact ⟨rfl, hthrough⟩

/-- Where a part without blanks is joined to the first name, there may be no blanks at all. -/
theorem given_closed_iff (ha : segments after = []) (hd : c.decided = []) (hn : n.isHead)
    {p : SpacedPart} (hp : p.isClosed) {ps : List SpacedPart} :
    visibleKinds (c.given s (n :: partTokens (p :: ps)) after) = wholeKinds (p :: ps) k ↔
      (∀ p' ∈ ps, p'.isClosed) ∧ endKind n n (p :: ps) after = k := by
  have hjoin : p :: ps = (p :: ps.takeWhile (·.isClosed)) ++ ps.dropWhile (·.isClosed) := by
    rw [List.cons_append, List.takeWhile_append_dropWhile]
  have hclosed : ∀ p' ∈ p :: ps.takeWhile (·.isClosed), p'.isClosed :=
    List.forall_mem_cons.2 ⟨hp, fun _ h => List.mem_takeWhile_imp h⟩
  cases hqs : ps.dropWhile (·.isClosed) with
  | nil =>
    have hall : ∀ p' ∈ ps, p'.isClosed := List.dropWhile_eq_nil_iff.1 hqs
    rw [hqs, List.append_nil] at hjoin
    rw [← hjoin] at hclosed
    obtain ⟨c', hgiven⟩ := given_joined s hd hn (List.cons_ne_nil p ps) hclosed [] ha
    rw [List.append_nil, partTokens_nil, given, visibleKinds_nil, List.append_nil,
      List.nil_append] at hgiven
    rw [hgiven, wholeKinds, wholeKinds, List.append_cancel_left_eq, List.singleton_inj]
    tauto
  | cons q qs =>
    have hq : q.isClosed = false := by
      have h := List.head?_dropWhile_not (fun p : SpacedPart => p.isClosed) ps
      rw [hqs] at h
      simpa using h
    have hmem : q ∈ ps := (List.dropWhile_suffix _).subset (hqs ▸ List.mem_cons_self)
    refine iff_of_false ?_ fun h => by simp [h.1 q hmem] at hq
    -- the last part in front of the blanks is no namespace
    have hs : segments (partTokens (q :: qs) ++ after) = [] := by
      rw [partTokens_cons, List.append_assoc]
      exact segments_front hq _
    obtain ⟨c', hgiven⟩ := given_joined s hd hn (List.cons_ne_nil _ _) hclosed _ hs
    rw [hqs] at hjoin
    rw [hjoin, hgiven, wholeKinds_append, wholeKinds, List.append_assoc,
      List.append_cancel_left_eq, wholeKinds_cons]
    exact fun h => (endKind_ne ..).1 (List.cons.inj h).1

/-- The qualified name comes out as a whole exactly if blanks do no harm. -/
theorem given_eq_wholeKinds_iff (ha : segments after = []) {ps : List SpacedPart}
    (hd : c.decided = []) (hn : n.kind.isA .name) :
    visibleKinds (c.given s (n :: partTokens ps) after) = wholeKinds ps k ↔
      Keeps s k after c n ps := by
  induction ps generalizing c n with
  | nil =>
    rw [partTokens_nil, given, visibleKinds_cons (step_name_ne_text hd hn)]
    simp [given, wholeKinds, Keeps]
  | cons p ps ih =>
    cases hp : p.isClosed with
    | false =>
      obtain ⟨hgiven, hd'⟩ := given_spaced s hd hn hp ps after
      have hs : segments (p.front ++ p.name :: partTokens ps ++ after) = [] := by
        rw [List.append_assoc]
        exact segments_front hp _
      rw [hgiven, wholeKinds_cons, List.cons.injEq, List.cons.injEq,
        step_eq_nameNamespace_iff hd hs, ih hd' p.isName, Keeps, if_neg (by simp [hp])]
      simp
    | true =>
      rw [Keeps, if_pos hp]
      by_cases hhead : n.isHead
      · rw [and_iff_right hhead]
        exact given_closed_iff ha hd hhead hp
      · refine iff_of_false ?_ fun h => hhead h.1
        rw [given, visibleKinds_cons (step_name_ne_text hd hn), wholeKinds_cons]
        exact fun h => step_ne_nameNamespace hd (by simpa using hhead) (List.cons.inj h).1

end

namespace SpacedName

/-- The categories that the pass gives to the parts of the name and its `::`. -/
def kindsIn (q : SpacedName) (before after : List Token) : List Category :=
  visibleKinds ((((classify (before ++ q.tokens ++ after)).drop before.length).take
    q.tokens.length).map (·.kind))

/-- The category of the last part, if there are no blanks. -/
def lastKind (q : SpacedName) (after : List Token) : Category :=
  endKind q.head q.head q.parts after

theorem lastKind_close (q : SpacedName) (after : List Token) :
    q.close.lastKind after = q.lastKind after := by
  simp only [lastKind, endKind, close, ← List.map_dropLast, List.getLast?_map]
  cases q.parts.dropLast.getLast? <;> cases q.parts.getLast? <;> rfl

variable {before after : List Token}

theorem kindsIn_eq_iff (q : SpacedName) (hb : endsInJoint before.reverse = false)
    (ha : segments after = []) (k : Category) : q.kindsIn before after = wholeKinds q.parts k ↔
      Keeps (.collect (before ++ q.tokens ++ after)) k after
        (Context.start.through (.collect (before ++ q.tokens ++ after)) before (q.tokens ++ after))
        q.head q.parts := by
  have hname := isA_name_of_isHead q.isHead
  rw [kindsIn, map_kind_classify]
  exact given_eq_wholeKinds_iff ha ((decided_through_iff _ before hname _).2 hb) hname

/-- Without blanks the name comes out as a whole. -/
theorem kindsIn_close (q : SpacedName) (hb : endsInJoint before.reverse = false)
    (ha : segments after = []) :
    q.close.kindsIn before after = wholeKinds q.parts (q.lastKind after) := by
  have hwhole : wholeKinds q.parts (q.lastKind after) =
      wholeKinds q.close.parts (q.close.lastKind after) := by
    rw [lastKind_close, wholeKinds, wholeKinds, close, List.flatMap_map]
  have hclosed : ∀ p ∈ q.close.parts, p.isClosed :=
    List.forall_mem_map.2 fun p _ => p.isClosed_close
  rw [hwhole, kindsIn_eq_iff _ hb ha]
  exact keeps_of_isClosed q.close.parts_ne q.isHead hclosed

end SpacedName

/-- Blanks around the `::` of a qualified name leave the categories of its parts as they are
without the blanks exactly if each part with blanks behind it is a namespace on its own and
what is behind the last blanks ends in the same category. -/
theorem classify_spacedName_iff (q : SpacedName) {before after : List Token}
    (hb : endsInJoint before.reverse = false) (ha : segments after = []) :
    q.kindsIn before after = q.close.kindsIn before after ↔
      Keeps (.collect (before ++ q.tokens ++ after)) (q.lastKind after) after
        (Context.start.through (.collect (before ++ q.tokens ++ after)) before (q.tokens ++ after))
        q.head q.parts := by
  rw [q.kindsIn_close hb ha]
  exact q.kindsIn_eq_iff hb ha _

/-- A namespace that is declared within another one, with blanks behind the outer one. -/
def declaredNamespace : SpacedName where
  head := ⟨.start, .name, "Engine"⟩
  parts := [
    ⟨[⟨.start, .text, " "⟩], ⟨.start, .operator, "::"⟩, [⟨.start, .text, " "⟩],
      ⟨.start, .name, "Detail"⟩, by decide +kernel, rfl, rfl⟩,
    ⟨[], ⟨.start, .operator, "::"⟩, [], ⟨.start, .name, "Impl"⟩, by decide +kernel, rfl, rfl⟩]
  isHead := by decide +kernel
  parts_ne := List.cons_ne_nil _ _

/-- Behind `namespace` the blanks do no harm. -/
theorem classify_spacedName_declaredNamespace :
    let before : List Token := [⟨.start, .keyword, "namespace"⟩, ⟨.start, .text, " "⟩]
    let after : List Token := [⟨.start, .text, " "⟩, ⟨.start, .punctuation, "\x7b"⟩]
    endsInJoint before.reverse = false ∧ segments after = [] ∧
      declaredNamespace.kindsIn before after = declaredNamespace.close.kindsIn before after := by
  intro before after
  have hb : endsInJoint before.reverse = false := by decide +kernel
  have ha : segments after = [] := by decide +kernel
  exact ⟨hb, ha, (classify_spacedName_iff declaredNamespace hb ha).2 (by decide +kernel)⟩

/-- With blanks around the `::`, neither of two names is a part of a qualified name. -/
theorem classify_spacedName_split :
    let a : Token := ⟨.start, .name, "A"⟩
    let b : Token := ⟨.start, .name, "B"⟩
    let joint : Token := ⟨.start, .operator, "::"⟩
    let blank : Token := ⟨.start, .text, " "⟩
    (classify [a, blank, joint, blank, b]).map (·.kind) =
        [.name, .text, .operator, .text, .name] ∧
      (classify [a, joint, b]).map (·.kind) = [.nameNamespace, .operator, .nameClass] := by
  decide +kernel

end Highlighter
