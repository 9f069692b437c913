import Mathlib.Tactic.SplitIfs
import Mathlib.Tactic.Tauto
import Highlighter.Classify.Kinds

/-! What a pass over C++ tokens settles before it looks up any declared name. The
walk over the tokens gives each of them a site: its category is fixed by the tokens
alone, or it is a single name with its standing. Proved: a pass is the walk followed
by one decision at each site. -/

namespace Highlighter

open Token Context

namespace Category

theorem ne_text_of_isOpenName {c : Category} (h : c.isOpenName) : c ≠ .text := by
  rintro rfl; simp [isOpenName] at h

theorem isA_name_of_isOpenName {c : Category} (h : c.isOpenName) : c.isA .name := by
  revert h; cases c <;> decide

theorem not_keyword_of_name {c : Category} (h : c.isA .name) : c.isA .keyword = false := by
  revert h; cases c <;> decide

end Category

inductive Site where
  /-- Plain text. -/
  | blank
  /-- A word that is a keyword whatever the scanner made of it. -/
  | restored (kind : Category)
  /-- A part of a qualified name, a `::` included. -/
  | linked (kind : Category)
  /-- A name that stands alone. -/
  | single (n : Standing)
  /-- A token that keeps its category. -/
  | other (kind : Category)
  deriving DecidableEq, Repr

namespace Site

def kind (s : Symbols) (last : Option (Category × String)) (t : Token) : Site → Category
  | blank => .text
  | restored k | linked k | other k => k
  | single n => n.nameKind s last t

/-- The category that a pass gives, where the declared names have no say. -/
def fixed? : Site → Option Category
  | blank => some .text
  | restored k | linked k | other k => some k
  | single n => if n.behindNamespace then some .nameNamespace else none

theorem kind_of_fixed (site : Site) {k : Category} (h : site.fixed? = some k) (s : Symbols)
    (last : Option (Category × String)) (t : Token) : site.kind s last t = k := by
  cases site with
  | blank | restored | linked | other => cases h; rfl
  | single n =>
    simp only [fixed?] at h
    split_ifs at h with hn
    cases h
    exact if_pos hn

end Site

structure Cursor where
  behindNamespace : Bool
  behindAccess : Bool
  scope : MacroScope
  /-- Categories that are already decided for the next tokens. -/
  decided : List Category
  deriving DecidableEq, Repr

namespace Cursor

def start : Cursor := ⟨false, false, none, []⟩

def site (p : Cursor) (t : Token) (rest : List Token) : Site :=
  match p.decided with
  | kind :: _ => .linked kind
  | [] =>
    if t.kind = .text then .blank
    else match keyword? t with
      | some kind => .restored kind
      | none =>
        if t.kind.isOpenName then
          match chainTail? t rest with
          | some _ => .linked .nameNamespace
          | none => .single ⟨p.behindNamespace, (scopeAt p.scope t rest).insideArguments,
              isKey rest, isCalled rest, p.behindAccess⟩
        else .other t.kind

def next (p : Cursor) (t : Token) (rest : List Token) : Cursor :=
  match p.decided with
  | _ :: kinds => { p with behindAccess := opensMember t, decided := kinds }
  | [] =>
    if t.kind = .text then p
    else
      let p := { p with behindAccess := opensMember t, scope := scopeAt p.scope t rest }
      match keyword? t with
      | some _ => { p with behindNamespace := t.text = "namespace" }
      | none =>
        if t.kind.isOpenName then
          match chainTail? t rest with
          | some (_, kind) =>
            { p with behindNamespace := false, decided := chainKinds (segments rest) kind }
          | none => { p with behindNamespace := false }
        else { p with behindNamespace := t.kind.isA .keyword && t.text = "namespace" }

/-- What a token can be to the walk: its site and the cursor behind it. -/
inductive Walks (p : Cursor) (t : Token) (rest : List Token) : Site → Cursor → Prop
  | ahead {k : Category} {ks : List Category} (hd : p.decided = k :: ks) :
      Walks p t rest (.linked k) { p with behindAccess := opensMember t, decided := ks }
  | blank (hd : p.decided = []) (ht : t.kind = .text) : Walks p t rest .blank p
  | restored {k : Category} (hd : p.decided = []) (ht : t.kind ≠ .text)
      (hk : keyword? t = some k) :
      Walks p t rest (.restored k)
        ⟨t.text = "namespace", opensMember t, scopeAt p.scope t rest, []⟩
  | head {tail : Token} {k : Category} (hd : p.decided = []) (ho : t.kind.isOpenName)
      (hk : keyword? t = none) (hc : chainTail? t rest = some (tail, k)) :
      Walks p t rest (.linked .nameNamespace)
        ⟨false, opensMember t, scopeAt p.scope t rest, chainKinds (segments rest) k⟩
  | single (hd : p.decided = []) (ho : t.kind.isOpenName) (hk : keyword? t = none)
      (hc : chainTail? t rest = none) :
      Walks p t rest (.single ⟨p.behindNamespace, (scopeAt p.scope t rest).insideArguments,
          isKey rest, isCalled rest, p.behindAccess⟩)
        ⟨false, opensMember t, scopeAt p.scope t rest, []⟩
  | other (hd : p.decided = []) (ht : t.kind ≠ .text) (ho : t.kind.isOpenName = false)
      (hk : keyword? t = none) :
      Walks p t rest (.other t.kind)
        ⟨t.kind.isA .keyword && t.text = "namespace", opensMember t, scopeAt p.scope t rest, []⟩

theorem walks (p : Cursor) (t : Token) (rest : List Token) :
    Walks p t rest (p.site t rest) (p.next t rest) := by
  obtain ⟨bn, ba, scope, _ | ⟨k, ks⟩⟩ := p
  case cons => exact .ahead rfl
  simp only [site, next]
  split_ifs with ht ho
  · exact .blank rfl ht
  · cases hk : keyword? t with
    | some k => exact .restored rfl ht hk
    | none =>
      cases hc : chainTail? t rest with
      | some tk => exact .head rfl ho hk hc
      | none => exact .single rfl ho hk hc
  · cases hk : keyword? t with
    | some k => exact .restored rfl ht hk
    | none => exact .other rfl ht (by simpa using ho) hk

/-- The walk is a function of the cursor and the tokens. -/
theorem Walks.eq {p p' : Cursor} {t : Token} {rest : List Token} {site : Site}
    (h : Walks p t rest site p') : p.site t rest = site ∧ p.next t rest = p' := by
  have ht := @Category.ne_text_of_isOpenName
  cases h <;> simp_all [Cursor.site, next]

theorem Walks.isOpenName {p p' : Cursor} {t : Token} {rest : List Token} {n : Standing}
    (h : Walks p t rest (.single n) p') : t.kind.isOpenName := by
  cases h with
  | single _ ho _ _ => exact ho

theorem site_of_decided {p : Cursor} {k : Category} {ks : List Category} (h : p.decided = k :: ks)
    (t : Token) (rest : List Token) : p.site t rest = .linked k := (Walks.ahead h).eq.1

theorem decided_next {p : Cursor} {k : Category} {ks : List Category} (h : p.decided = k :: ks)
    (t : Token) (rest : List Token) : (p.next t rest).decided = ks := by
  rw [(Walks.ahead h).eq.2]

def sites (p : Cursor) : List Token → List Site
  | [] => []
  | t :: rest => p.site t rest :: (p.next t rest).sites rest

@[simp] theorem sites_nil (p : Cursor) : p.sites [] = [] := rfl

@[simp] theorem sites_cons (p : Cursor) (t : Token) (rest : List Token) :
    p.sites (t :: rest) = p.site t rest :: (p.next t rest).sites rest := rfl

end Cursor

def sites (ts : List Token) : List Site := Cursor.start.sites ts

/-- What a later name sees of a token. -/
def lastOf (last : Option (Category × String)) (t : Token) : Option (Category × String) :=
  if t.kind = .text then last else some (t.kind, t.text)

/-- One decision at each site, from left to right. -/
def settle (s : Symbols) (last : Option (Category × String)) : List Token → List Site → List Token
  | t :: ts, site :: sites =>
    let t' := { t with kind := site.kind s last t }
    t' :: settle s (lastOf last t') ts sites
  | _, _ => []

/-! ### The categories that a pass gives -/

namespace Context

theorem keyword?_isA {t : Token} {k : Category} (h : keyword? t = some k) : k.isA .keyword := by
  unfold keyword? at h
  split at h
  · split at h <;> cases h <;> rfl
  · cases h

theorem tailKind_isA_name (root parent name : String) (called : Bool) :
    (tailKind root parent name called).isA .name := by
  unfold tailKind; split_ifs <;> rfl

theorem tailKind_ne_name (root parent name : String) (called : Bool) :
    tailKind root parent name called ≠ .name := by
  unfold tailKind; split_ifs <;> decide

theorem chainTail?_eq_some {t tail : Token} {rest : List Token} {k : Category}
    (h : chainTail? t rest = some (tail, k)) : (segments rest).getLast? = some tail ∧
      ∃ parent called, k = tailKind t.text parent tail.text called := by
  simp only [chainTail?] at h
  split at h
  · cases h
  · next heq => cases h; exact ⟨heq, _, _, rfl⟩

theorem chainTail?_isA_name {t tail : Token} {rest : List Token} {k : Category}
    (h : chainTail? t rest = some (tail, k)) : k.isA .name := by
  obtain ⟨-, parent, called, rfl⟩ := chainTail?_eq_some h
  exact tailKind_isA_name ..

theorem chainTail?_ne_name {t tail : Token} {rest : List Token} {k : Category}
    (h : chainTail? t rest = some (tail, k)) : k ≠ .name := by
  obtain ⟨-, parent, called, rfl⟩ := chainTail?_eq_some h
  exact tailKind_ne_name _ _ _ _

theorem convention?_isA_name {n : Standing} {s : Symbols} {last : Option (Category × String)}
    {name : String} {k : Category} (h : n.convention? s last name = some k) : k.isA .name := by
  revert h; unfold Standing.convention?
  split_ifs <;> (intro h; cases h) <;> rfl

theorem nameKind_isA_name (n : Standing) (s : Symbols) (last : Option (Category × String))
    {t : Token} (ht : t.kind.isOpenName) : (n.nameKind s last t).isA .name := by
  unfold Standing.nameKind
  split_ifs
  · rfl
  · rfl
  · cases h : n.convention? s last t.text with
    | none => exact Category.isA_name_of_isOpenName ht
    | some k => exact convention?_isA_name h

/-- What the walk knows in the state of a pass. -/
def cursor (c : Context) : Cursor := ⟨c.afterNamespace, c.afterMemberAccess, c.scope, c.decided⟩

/-- The category that a step gives is the decision at the site. -/
theorem step_fst (c : Context) (s : Symbols) (t : Token) (rest : List Token) :
    (c.step s t rest).1 = (c.cursor.site t rest).kind s c.last t := by
  obtain ⟨before, last, scope, _ | ⟨k, ks⟩⟩ := c
  case cons => rfl
  simp only [step, cursor, Cursor.site]
  split_ifs with ht ho
  · rfl
  · cases keyword? t with
    | some k => rfl
    | none => simp only; cases chainTail? t rest <;> rfl
  · cases keyword? t <;> rfl

/-- A step of the pass is a step of the walk. -/
theorem cursor_step (c : Context) (s : Symbols) (t : Token) (rest : List Token) :
    (c.step s t rest).2.cursor = c.cursor.next t rest := by
  obtain ⟨before, last, scope, _ | ⟨k, ks⟩⟩ := c
  case cons => rfl
  simp only [step, cursor, Cursor.next]
  split_ifs with ht ho
  · rfl
  · cases hk : keyword? t with
    | some k => simp [pass, afterNamespace, afterMemberAccess, keyword?_isA hk]
    | none =>
      cases hc : chainTail? t rest with
      | some tk =>
        have := Category.not_keyword_of_name (chainTail?_isA_name hc)
        simp [afterNamespace, afterMemberAccess, this]
      | none =>
        have := Category.not_keyword_of_name (nameKind_isA_name
          ((⟨before, last, scopeAt scope t rest, []⟩ : Context).standing rest) s last ho)
        simp [pass, afterNamespace, afterMemberAccess, this]
  · cases hk : keyword? t with
    | some k => simp [pass, afterNamespace, afterMemberAccess, keyword?_isA hk]
    | none => simp [pass, afterNamespace, afterMemberAccess]

/-! ### A pass as a walk -/

/-- What is seen behind tokens whose categories are decided. -/
def carry (last : Option (Category × String)) :
    List Category → List Token → Option (Category × String)
  | k :: ks, t :: ts => carry (some (k, t.text)) ks ts
  | _, _ => last

theorem carry_chainKinds (last : Option (Category × String)) (k : Category) (rest : List Token)
    {tail : Token} (h : (segments rest).getLast? = some tail) :
    carry last (chainKinds (segments rest) k) rest = some (k, tail.text) := by
  fun_induction segments rest generalizing last with
  | case1 op t rest hop ih =>
    cases hs : segments rest with
    | nil => simp_all [chainKinds, carry]
    | cons u us =>
      rw [hs] at ih h
      rw [List.getLast?_cons_cons] at h
      exact ih _ h
  | case2 op t rest hop => simp at h
  | case3 rest _ => simp at h

theorem mem_chainKinds {k k' : Category} {ts : List Token} (h : k' ∈ chainKinds ts k) :
    k' = .operator ∨ k' = .nameNamespace ∨ k' = k := by
  fun_induction chainKinds ts k with
  | case1 => simp at h
  | case2 => simp only [List.mem_cons, List.not_mem_nil, or_false] at h; tauto
  | case3 _ _ _ _ ih =>
    simp only [List.mem_cons] at h
    rcases h with rfl | rfl | h
    · exact .inl rfl
    · exact .inr (.inl rfl)
    · exact ih h

theorem chainKinds_ne {c k : Category} (ho : c ≠ .operator) (hn : c ≠ .nameNamespace)
    (hk : k ≠ c) (ts : List Token) : ∀ k' ∈ chainKinds ts k, k' ≠ c := by
  rintro k' h rfl
  rcases mem_chainKinds h with h | h | h
  · exact ho h
  · exact hn h
  · exact hk h.symm

/-- The pass runs ahead over a qualified name: what it holds as decided on last is
what the walk sees behind the decided tokens. -/
structure Sees (c : Context) (last : Option (Category × String)) (ts : List Token) : Prop where
  last_eq : c.last = carry last c.decided ts
  ne_text : ∀ k ∈ c.decided, k ≠ .text

theorem lastOf_of_ne_text (last : Option (Category × String)) {t : Token} (h : t.kind ≠ .text) :
    lastOf last t = some (t.kind, t.text) := if_neg h

theorem Sees.step {c : Context} {last : Option (Category × String)} {t : Token}
    {rest : List Token} (h : c.Sees last (t :: rest)) (s : Symbols) :
    (c.step s t rest).2.Sees (lastOf last { t with kind := (c.step s t rest).1 }) rest := by
  have hname : ∀ {k : Category}, k.isA .name → k ≠ .text := by rintro _ h rfl; cases h
  obtain ⟨before, last', scope, _ | ⟨k, ks⟩⟩ := c
  case cons =>
    have hk : k ≠ .text := h.ne_text k (by simp)
    refine ⟨?_, fun k' hk' => h.ne_text k' (by simp [Context.step] at hk'; simp [hk'])⟩
    rw [lastOf_of_ne_text _ (by exact hk)]
    exact h.last_eq
  have hlast : last' = last := h.last_eq
  subst hlast
  simp only [Context.step]
  split_ifs with ht ho
  · exact ⟨by simp [lastOf, carry], by simp⟩
  · cases hk : keyword? t with
    | some k =>
      have : k ≠ .text := by rintro rfl; exact absurd (keyword?_isA hk) (by decide)
      exact ⟨by simp [lastOf_of_ne_text, this, pass, carry], by simp [pass]⟩
    | none =>
      cases hc : chainTail? t rest with
      | some tk =>
        obtain ⟨tail, k⟩ := tk
        refine ⟨?_, chainKinds_ne (by decide) (by decide) (hname (chainTail?_isA_name hc)) _⟩
        exact (carry_chainKinds _ k rest (chainTail?_eq_some hc).1).symm
      | none =>
        have := hname (nameKind_isA_name
          ((⟨before, last', scopeAt scope t rest, []⟩ : Context).standing rest) s last' ho)
        exact ⟨by simp [lastOf_of_ne_text, this, pass, carry], by simp [pass]⟩
  · cases hk : keyword? t with
    | some k =>
      have : k ≠ .text := by rintro rfl; exact absurd (keyword?_isA hk) (by decide)
      exact ⟨by simp [lastOf_of_ne_text, this, pass, carry], by simp [pass]⟩
    | none => exact ⟨by simp [lastOf_of_ne_text, ht, pass, carry], by simp [pass]⟩

/-- The decision at a site that the walk fixes needs no table and nothing before it. -/
theorem kind_of_sees {c : Context} {last : Option (Category × String)} {t : Token}
    {rest : List Token} (h : c.Sees last (t :: rest)) (s : Symbols) :
    (c.cursor.site t rest).kind s c.last t = (c.cursor.site t rest).kind s last t := by
  obtain ⟨before, last', scope, _ | ⟨k, ks⟩⟩ := c
  · rw [show last' = last from h.last_eq]
  · rfl

theorem reclassify_eq_settle (s : Symbols) (c : Context) (last : Option (Category × String))
    (ts : List Token) (h : c.Sees last ts) :
    reclassify s c ts = settle s last ts (c.cursor.sites ts) := by
  induction ts generalizing c last with
  | nil => rfl
  | cons t rest ih =>
    simp only [reclassify, Cursor.sites_cons, settle]
    rw [ih _ _ (h.step s), cursor_step, step_fst, kind_of_sees h]

end Context

/-- A pass collects the declared names and then decides at each site. -/
theorem classify_eq_settle (ts : List Token) :
    classify ts = settle (Symbols.collect ts) none ts (sites ts) :=
  reclassify_eq_settle _ _ _ _ ⟨rfl, by simp [Context.start]⟩

end Highlighter
