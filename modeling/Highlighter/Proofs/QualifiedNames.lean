import Mathlib.Data.List.TakeWhile
import Highlighter.Proofs.Passes

/-! Qualified names. A name that may be the first part of one, and each name behind it that
a `::` joins to a part, make up one qualified name, and the walk over tokens has categories
decided ahead exactly inside of it. Proved: a run of joined names is taken as a whole from
its first possible head on, with categories that depend on the texts of its parts and on
the token behind it alone. -/

namespace Highlighter

open Token Context

namespace Token

/-- Whether a token can be the first part of a qualified name: an open name that is no word
of the language. -/
def isHead (t : Token) : Bool := t.kind.isOpenName && !Names.isKeyword t.text

def isJoint (t : Token) : Bool := t.is .operator "::"

theorem isA_name_of_isHead {t : Token} (h : t.isHead) : t.kind.isA .name := by
  simp only [isHead, Bool.and_eq_true] at h
  exact Category.isA_name_of_isOpenName h.1

theorem isHead_iff {t : Token} : t.isHead ↔ t.kind.isOpenName ∧ keyword? t = none := by
  have hname : t.kind.isOpenName → t.kind.isA .name := Category.isA_name_of_isOpenName
  simp only [isHead, keyword?, Bool.and_eq_true, Bool.not_eq_true']
  constructor
  · rintro ⟨ho, hk⟩
    exact ⟨ho, if_neg (by simp [hk])⟩
  · rintro ⟨ho, hk⟩
    refine ⟨ho, ?_⟩
    by_contra h
    simp [hname ho, h] at hk

theorem not_isJoint_of_name {t : Token} (h : t.kind.isA .name) : t.isJoint = false := by
  have hkind : t.kind ≠ .operator := by rintro he; rw [he] at h; cases h
  simp [isJoint, is, hkind]

end Token

/-! ### Where qualified names are -/

/-- Whether tokens, the last one first, end with a part of a qualified name: its first one,
or a name that is joined to a part. -/
def endsInPart : List Token → Bool
  | [] => false
  | [t] => t.isHead
  | t :: op :: before => t.isHead || (t.kind.isA .name && (op.isJoint && endsInPart before))

/-- Whether tokens, the last one first, end with a joint behind a part of a qualified name. -/
def endsInJoint : List Token → Bool
  | [] => false
  | op :: before => op.isJoint && endsInPart before

theorem endsInPart_cons (t : Token) (before : List Token) :
    endsInPart (t :: before) = (t.isHead || (t.kind.isA .name && endsInJoint before)) := by
  cases before with
  | nil => simp [endsInPart, endsInJoint]
  | cons op before => rfl

theorem isA_name_of_endsInPart {t : Token} {before : List Token} (h : endsInPart (t :: before)) :
    t.kind.isA .name := by
  rw [endsInPart_cons, Bool.or_eq_true, Bool.and_eq_true] at h
  rcases h with h | h
  · exact isA_name_of_isHead h
  · exact h.1

theorem not_endsInJoint_of_endsInPart {before : List Token} (h : endsInPart before) :
    endsInJoint before = false := by
  cases before with
  | nil => rfl
  | cons t before => simp [endsInJoint, not_isJoint_of_name (isA_name_of_endsInPart h)]

theorem segments_cons_cons (op t : Token) (rest : List Token) : segments (op :: t :: rest) =
    if op.isJoint && t.kind.isA .name then t :: segments rest else [] := rfl

theorem segments_of_name {t : Token} (h : t.kind.isA .name) (rest : List Token) :
    segments (t :: rest) = [] := by
  cases rest with
  | nil => rfl
  | cons u rest => rw [segments_cons_cons, not_isJoint_of_name h]; rfl

/-- What is decided ahead behind some tokens, the last one first: the categories of what is
left of the qualified name that they end in. -/
inductive Decides : List Token → List Category → List Token → Prop
  | part {before : List Token} (h : endsInPart before) (k : Category) (rest : List Token) :
      Decides before (chainKinds (segments rest) k) rest
  | joint {before : List Token} {t : Token} (h : endsInJoint before) (ht : t.kind.isA .name)
      (k' k : Category) (rest : List Token) :
      Decides before (k' :: chainKinds (segments rest) k) (t :: rest)
  | idle {before rest : List Token} (hp : endsInPart before = false)
      (hj : endsInJoint before → ∀ t us, rest = t :: us → t.kind.isA .name = false) :
      Decides before [] rest

/-- In front of a name, nothing is decided ahead exactly if the name begins anew. -/
theorem Decides.eq_nil_iff {before rest : List Token} {ks : List Category} {t : Token}
    (h : Decides before ks (t :: rest)) (ht : t.kind.isA .name) :
    ks = [] ↔ endsInJoint before = false := by
  cases h with
  | part h k =>
    rw [segments_of_name ht]
    exact iff_of_true rfl (not_endsInJoint_of_endsInPart h)
  | joint h => exact iff_of_false (by simp) (by simp [h])
  | idle _ hj =>
    refine iff_of_true rfl ?_
    by_contra h
    simp [hj (by simpa using h) t rest rfl] at ht

theorem segments_ne_nil {t : Token} {rest : List Token} (h : segments (t :: rest) ≠ []) :
    ∃ u us, rest = u :: us ∧ t.isJoint ∧ u.kind.isA .name ∧
      segments (t :: rest) = u :: segments us := by
  cases rest with
  | nil => exact absurd rfl h
  | cons u us =>
    rw [segments_cons_cons] at h ⊢
    split_ifs at h ⊢ with hc
    · rw [Bool.and_eq_true] at hc
      exact ⟨u, us, rfl, hc.1, hc.2, rfl⟩
    · exact absurd rfl h

theorem segments_eq_nil_iff {rest : List Token} : segments rest = [] ↔
    ∀ op t us, rest = op :: t :: us → op.isJoint → t.kind.isA .name = false := by
  constructor
  · rintro h op t us rfl hj
    rw [segments_cons_cons, hj, Bool.true_and] at h
    by_contra hn
    simp [hn] at h
  · intro h
    by_contra hne
    cases rest with
    | nil => exact hne rfl
    | cons op us =>
      obtain ⟨t, us, rfl, hj, hn, -⟩ := segments_ne_nil hne
      simp [h op t us rfl hj] at hn

/-- A step of the walk knows as much behind its token. -/
theorem decides_next {before : List Token} {p : Cursor} {t : Token} {rest : List Token}
    (h : Decides before p.decided (t :: rest)) :
    Decides (t :: before) (p.next t rest).decided rest := by
  -- the category that is decided ahead of a token, if there is one, is that of the next part
  have hahead {k : Category} {ks : List Category} (hd : p.decided = k :: ks) :
      Decides (t :: before) ks rest := by
    rw [hd] at h
    generalize hks : k :: ks = ds, hts : t :: rest = ts at h
    cases h with
    | part hp k₀ =>
      subst hts
      have hne : segments (t :: rest) ≠ [] := by rintro he; rw [he] at hks; cases hks
      obtain ⟨u, us, rfl, hop, hu, hs⟩ := segments_ne_nil hne
      rw [hs, chainKinds_cons] at hks
      cases hks
      exact .joint (by rw [endsInJoint, hop, hp]; rfl) hu _ _ _
    | joint hj ht =>
      cases hks
      cases hts
      exact .part (by rw [endsInPart_cons, ht, hj]; simp) _ _
    | idle => cases hks
  -- otherwise the token begins anew
  have hname (hd : p.decided = []) (ht : t.kind.isA .name) : endsInJoint before = false :=
    (h.eq_nil_iff ht).1 hd
  have hjoint (hd : p.decided = []) (hj : endsInJoint (t :: before)) :
      ∀ u us, rest = u :: us → u.kind.isA .name = false := by
    rintro u us rfl
    simp only [endsInJoint, Bool.and_eq_true] at hj
    rw [hd] at h
    generalize hks : [] = ds, hts : t :: u :: us = ts at h
    cases h with
    | part _ k₀ =>
      subst hts
      by_contra hu
      rw [segments_cons_cons, hj.1, if_pos (by simpa using hu), chainKinds_cons] at hks
      cases hks
    | joint => cases hks
    | idle hp _ => simp [hj.2] at hp
  have hpart (ht : t.isHead = false) (hd : p.decided = []) : endsInPart (t :: before) = false := by
    rw [endsInPart_cons, ht, Bool.false_or]
    cases hn : t.kind.isA .name with
    | false => rfl
    | true => rw [hname hd hn]; rfl
  generalize p.site t rest = site, p.next t rest = p', p.walks t rest = hw
  cases hw with
  | ahead hd => exact hahead hd
  | blank hd ht =>
    rw [hd]
    exact .idle (hpart (by simp [isHead, ht, Category.isOpenName]) hd) (hjoint hd)
  | restored hd _ hk =>
    refine .idle (hpart ?_ hd) (hjoint hd)
    rw [← Bool.not_eq_true, isHead_iff]
    simp [hk]
  | @head tail k hd ho hk hc =>
    exact .part (by rw [endsInPart_cons, isHead_iff.2 ⟨ho, hk⟩]; rfl) _ _
  | single hd ho hk hc =>
    have hs : segments rest = [] := by
      rw [chainTail?_eq_none_iff] at hc
      exact hc
    have hnil : chainKinds (segments rest) .name = [] := by rw [hs]; rfl
    rw [← hnil]
    exact .part (by rw [endsInPart_cons, isHead_iff.2 ⟨ho, hk⟩]; rfl) _ _
  | other hd _ ho _ => exact .idle (hpart (by simp [isHead, ho]) hd) (hjoint hd)

/-! ### Walks up to a token -/

namespace Cursor

/-- The cursor behind some tokens, in front of the rest. -/
def through (p : Cursor) : List Token → List Token → Cursor
  | [], _ => p
  | t :: ts, rest => (p.next t (ts ++ rest)).through ts rest

@[simp] theorem through_nil (p : Cursor) (rest : List Token) : p.through [] rest = p := rfl

@[simp] theorem through_cons (p : Cursor) (t : Token) (ts rest : List Token) :
    p.through (t :: ts) rest = (p.next t (ts ++ rest)).through ts rest := rfl

theorem through_append (p : Cursor) (ts us rest : List Token) :
    p.through (ts ++ us) rest = (p.through ts (us ++ rest)).through us rest := by
  induction ts generalizing p with
  | nil => rfl
  | cons t ts ih => rw [List.cons_append, through_cons, through_cons, ih, List.append_assoc]

theorem drop_sites (p : Cursor) (ts rest : List Token) :
    (p.sites (ts ++ rest)).drop ts.length = (p.through ts rest).sites rest := by
  induction ts generalizing p with
  | nil => rfl
  | cons t ts ih => exact ih _

/-- Categories that are decided ahead are given one by one. -/
theorem take_sites {p : Cursor} {ts : List Token} (h : p.decided.length ≤ ts.length) :
    (p.sites ts).take p.decided.length = p.decided.map .linked := by
  induction ts generalizing p with
  | nil =>
    rw [List.length_nil, Nat.le_zero, List.length_eq_zero_iff] at h
    rw [h]; rfl
  | cons t ts ih =>
    cases hd : p.decided with
    | nil => rfl
    | cons k ks =>
      have hnext := decided_next hd t ts
      rw [hd, List.length_cons, List.length_cons, Nat.succ_le_succ_iff, ← hnext] at h
      rw [sites_cons, List.length_cons, List.take_succ_cons, site_of_decided hd, ← hnext, ih h]
      rfl

end Cursor

theorem decides_through {before : List Token} {p : Cursor} {ts rest : List Token}
    (h : Decides before p.decided (ts ++ rest)) :
    Decides (ts.reverse ++ before) (p.through ts rest).decided rest := by
  induction ts generalizing before p with
  | nil => exact h
  | cons t ts ih =>
    rw [List.reverse_cons, List.append_assoc]
    exact ih (decides_next h)

/-- In front of a name, the walk has something decided ahead exactly if the name is joined to
a part of a qualified name. -/
theorem decided_through (before : List Token) {t : Token} (ht : t.kind.isA .name)
    (rest : List Token) : (Cursor.start.through before (t :: rest)).decided = [] ↔
      endsInJoint before.reverse = false := by
  have hstart : Decides [] Cursor.start.decided (before ++ t :: rest) :=
    .idle rfl (by simp [endsInJoint])
  have h := decides_through hstart
  rw [List.append_nil] at h
  exact h.eq_nil_iff ht

/-- What the walk decides ahead is what the pass gives. -/
theorem kinds_of_linked {ts : List Token} {n : Nat} {ks : List Category}
    (h : ((sites ts).drop n).take ks.length = ks.map .linked) :
    (((classify ts).map (·.kind)).drop n).take ks.length = ks := by
  refine List.ext_getElem? fun i => ?_
  by_cases hi : i < ks.length
  · have hsite : (sites ts)[n + i]? = some (.linked ks[i]) := by
      have := congrArg (·[i]?) h
      simpa [List.getElem?_take, hi] using this
    obtain ⟨t, ht⟩ : ∃ t, ts[n + i]? = some t := by
      have hlen := (List.getElem?_eq_some_iff.1 hsite).1
      rw [length_sites] at hlen
      exact ⟨_, List.getElem?_eq_getElem hlen⟩
    obtain ⟨s, last, hc⟩ := getElem?_classify ht hsite
    simp [hi, hc, Site.kind]
  · simp [hi]

/-! ### Joined names -/

structure Apart (before after : List Token) : Prop where
  before : ∀ us t op, before = us ++ [t, op] → op.isJoint → t.kind.isA .name = false
  after : ∀ op t us, after = op :: t :: us → op.isJoint → t.kind.isA .name = false

namespace Apart

variable {before after : List Token}

theorem segments_eq_nil (h : Apart before after) : segments after = [] :=
  segments_eq_nil_iff.2 h.after

theorem endsInJoint_eq (h : Apart before after) : endsInJoint before.reverse = false := by
  by_contra hj
  cases hb : before.reverse with
  | nil => exact hj (by rw [hb]; rfl)
  | cons op us =>
    rw [hb, Bool.not_eq_false, endsInJoint, Bool.and_eq_true] at hj
    cases us with
    | nil => cases hj.2
    | cons t us =>
      have hbefore : before = us.reverse ++ [t, op] := by
        rw [← List.reverse_reverse before, hb]
        simp
      have hname := isA_name_of_endsInPart hj.2
      rw [h.before _ t op hbefore hj.1] at hname
      cases hname

end Apart

def unpaired (l : List (Token × Token)) : List Token := l.flatMap fun p => [p.1, p.2]

@[simp] theorem unpaired_nil : unpaired [] = [] := rfl

@[simp] theorem unpaired_cons (p : Token × Token) (l : List (Token × Token)) :
    unpaired (p :: l) = p.1 :: p.2 :: unpaired l := rfl

@[simp] theorem length_unpaired (l : List (Token × Token)) :
    (unpaired l).length = 2 * l.length := by
  induction l with
  | nil => rfl
  | cons p l ih =>
    rw [unpaired_cons, List.length_cons, List.length_cons, List.length_cons, ih]
    omega

/-- Names that are joined one to the next, of which one can be the first part of a qualified
name and has parts behind it. -/
structure JoinedNames where
  /-- The names in front of the first part, each with the joint behind it. -/
  skipped : List (Token × Token)
  head : Token
  /-- The parts behind the first one, each behind its joint. -/
  parts : List (Token × Token)
  skipped_names : ∀ p ∈ skipped, p.1.kind.isA .name ∧ p.1.isHead = false ∧ p.2.isJoint
  head_isHead : head.isHead
  parts_names : ∀ p ∈ parts, p.1.isJoint ∧ p.2.kind.isA .name
  parts_ne : parts ≠ []

namespace JoinedNames

variable (q : JoinedNames)

def tokens : List Token := unpaired q.skipped ++ q.head :: unpaired q.parts

def last : Token := (q.parts.getLast q.parts_ne).2

/-- The part in front of the last one. -/
def parent : Token := (q.parts.dropLast.getLast?.map (·.2)).getD q.head

/-- The category of the last part, in front of some tokens. -/
def lastKind (after : List Token) : Category :=
  if Names.hasEnumForm q.parent.text then .nameConstant
  else if q.head.text = "std" ∧ Names.isStream q.last.text then .nameVariableGlobal
  else if q.head.text = "std" ∧ Names.isLibraryFunction q.last.text then .nameFunction
  else if q.head.text = "std" ∧ Names.isLibraryType q.last.text then .nameClass
  else if (after.find? (·.kind ≠ .text)).any fun t =>
    t.is .punctuation "(" || t.is .operator "<" then .nameFunction
  else .nameClass

def kinds (after : List Token) : List Category :=
  .nameNamespace ::
    ((q.parts.dropLast.flatMap fun _ => [.operator, .nameNamespace]) ++
      [.operator, q.lastKind after])

theorem length_kinds (after : List Token) : (q.kinds after).length = 2 * q.parts.length + 1 := by
  have hpos : 0 < q.parts.length := List.length_pos_iff.2 q.parts_ne
  have hlen : (q.parts.dropLast.flatMap fun _ => [Category.operator, .nameNamespace]).length =
      2 * (q.parts.length - 1) := by
    rw [List.length_flatMap, ← List.length_dropLast]
    simp [Nat.mul_comm]
  rw [kinds, List.length_cons, List.length_append, hlen]
  simp only [List.length_cons, List.length_nil]
  omega

theorem segments_unpaired {parts : List (Token × Token)}
    (h : ∀ p ∈ parts, p.1.isJoint ∧ p.2.kind.isA .name) {after : List Token}
    (ha : segments after = []) : segments (unpaired parts ++ after) = parts.map (·.2) := by
  induction parts with
  | nil => exact ha
  | cons p parts ih =>
    obtain ⟨⟨hj, hn⟩, hparts⟩ := List.forall_mem_cons.1 h
    rw [unpaired_cons, List.cons_append, List.cons_append, segments_cons_cons, hj, hn, ih hparts]
    rfl

theorem chainKinds_map {parts : List (Token × Token)} (h : parts ≠ []) (k : Category) :
    chainKinds (parts.map (·.2)) k =
      (parts.dropLast.flatMap fun _ => [.operator, .nameNamespace]) ++ [.operator, k] := by
  induction parts with
  | nil => exact absurd rfl h
  | cons p parts ih =>
    rw [List.map_cons, chainKinds_cons]
    cases parts with
    | nil => rfl
    | cons p' parts => rw [ih (by simp), if_neg (by simp)]; rfl

/-- Behind names that no qualified name can begin with, the next one is joined to no part. -/
theorem endsInJoint_unpaired {skipped : List (Token × Token)}
    (h : ∀ p ∈ skipped, p.1.kind.isA .name ∧ p.1.isHead = false ∧ p.2.isJoint)
    {before : List Token} (hb : endsInJoint before = false) :
    endsInJoint ((unpaired skipped).reverse ++ before) = false := by
  induction skipped generalizing before with
  | nil => exact hb
  | cons p skipped ih =>
    obtain ⟨⟨-, hhead, -⟩, hskipped⟩ := List.forall_mem_cons.1 h
    rw [unpaired_cons, List.reverse_cons, List.reverse_cons, List.append_assoc, List.append_assoc]
    refine ih hskipped ?_
    change (p.2.isJoint && endsInPart (p.1 :: before)) = false
    rw [endsInPart_cons, hhead, hb]
    simp

variable {before after : List Token}

theorem chainTail?_head (q : JoinedNames) (h : Apart before after) :
    chainTail? q.head (unpaired q.parts ++ after) = some (q.last, q.lastKind after) := by
  have hsegments := segments_unpaired q.parts_names h.segments_eq_nil
  have hlast : (q.parts.map (·.2)).getLast? = some q.last := by
    rw [List.getLast?_map, List.getLast?_eq_some_getLast q.parts_ne]
    rfl
  have hparent : (q.parts.map (·.2)).dropLast.getLast?.getD q.head = q.parent := by
    rw [← List.map_dropLast, List.getLast?_map]
    rfl
  have hcalled : isCalled ((unpaired q.parts ++ after).drop (2 * q.parts.length)) =
      (after.find? (·.kind ≠ .text)).any fun t =>
        t.is .punctuation "(" || t.is .operator "<" := by
    rw [List.drop_left' (length_unpaired _), List.find?_eq_head?_dropWhile_not, isCalled, next?,
      skipText]
    simp only [decide_not, Bool.not_not]
    rfl
  simp only [chainTail?, hsegments, hlast, hparent, List.length_map, hcalled]
  simp only [tailKind, lastKind, Bool.and_eq_true, decide_eq_true_eq]

end JoinedNames

/-- A run of joined names is one qualified name from the first possible head on: each part
but the last is a namespace, and the last one has its category from its own text, the texts
of the first part and of the part before it, and the token behind it. -/
theorem classify_joinedNames (q : JoinedNames) (before after : List Token)
    (h : Apart before after) :
    (((classify (before ++ q.tokens ++ after)).map (·.kind)).drop
      (before.length + 2 * q.skipped.length)).take (2 * q.parts.length + 1) = q.kinds after := by
  have hts : before ++ q.tokens ++ after =
      (before ++ unpaired q.skipped) ++ q.head :: (unpaired q.parts ++ after) := by
    simp [JoinedNames.tokens]
  have hlen : (before ++ unpaired q.skipped).length = before.length + 2 * q.skipped.length := by
    simp
  obtain ⟨ho, hk⟩ := isHead_iff.1 q.head_isHead
  have hd : (Cursor.start.through (before ++ unpaired q.skipped)
      (q.head :: (unpaired q.parts ++ after))).decided = [] := by
    rw [decided_through _ (isA_name_of_isHead q.head_isHead), List.reverse_append]
    exact JoinedNames.endsInJoint_unpaired q.skipped_names h.endsInJoint_eq
  have hwalk := (Cursor.Walks.head hd ho hk (q.chainTail?_head h)).eq
  have hnext : ((Cursor.start.through (before ++ unpaired q.skipped)
      (q.head :: (unpaired q.parts ++ after))).next q.head (unpaired q.parts ++ after)).decided =
      (q.kinds after).tail := by
    rw [hwalk.2, JoinedNames.segments_unpaired q.parts_names h.segments_eq_nil,
      JoinedNames.chainKinds_map q.parts_ne]
    rfl
  have hfits : ((q.kinds after).tail).length ≤ (unpaired q.parts ++ after).length := by
    rw [List.length_tail, q.length_kinds, List.length_append, length_unpaired]
    omega
  have hsites := Cursor.take_sites (hnext ▸ hfits)
  rw [hnext] at hsites
  rw [← q.length_kinds after]
  refine kinds_of_linked ?_
  rw [hts, ← hlen, sites, Cursor.drop_sites, Cursor.sites_cons, hwalk.1]
  exact congrArg (.linked .nameNamespace :: ·) hsites

/-- A member of an enumeration behind a word that the scanner knows. -/
def enumMember : JoinedNames where
  skipped := [(⟨.start, .nameBuiltin, "true"⟩, ⟨.start, .operator, "::"⟩)]
  head := ⟨.start, .name, "Game"⟩
  parts := [(⟨.start, .operator, "::"⟩, ⟨.start, .name, "EState"⟩),
    (⟨.start, .operator, "::"⟩, ⟨.start, .nameClass, "Idle"⟩)]
  skipped_names := by decide +kernel
  head_isHead := by decide +kernel
  parts_names := by decide +kernel
  parts_ne := by simp

/-- The member stays a constant in the arguments of a macro, with an argument list behind it. -/
theorem classify_joinedNames_enumMember :
    let before : List Token := [⟨.start, .name, "UPROPERTY"⟩, ⟨.start, .punctuation, "("⟩]
    let after : List Token := [⟨.start, .text, " "⟩, ⟨.start, .punctuation, "("⟩]
    Apart before after ∧
      (((classify (before ++ enumMember.tokens ++ after)).map (·.kind)).drop 4).take 5 =
        [.nameNamespace, .operator, .nameNamespace, .operator, .nameConstant] := by
  intro before after
  have hapart : Apart before after := by
    constructor
    · intro us t op h hj
      have hop : op = ⟨.start, .punctuation, "("⟩ := by
        simpa [before] using (congrArg List.getLast? h).symm
      rw [hop] at hj
      cases hj
    · intro op t us h hj
      have hop : op = ⟨.start, .text, " "⟩ := by
        simpa [after] using (congrArg List.head? h).symm
      rw [hop] at hj
      cases hj
  exact ⟨hapart, (classify_joinedNames enumMember before after hapart).trans (by decide +kernel)⟩

end Highlighter
