import Highlighter.Proofs.Passes

/-! What a pass over C++ tokens may change. A category that is decided ahead of its token
belongs to a `::` or to a name directly behind one, however long the qualified name is.
Proved: a pass keeps all tokens and their places, and of their categories it changes those
of names and keywords alone, in a few ways. -/

namespace Highlighter

open Token Context

/-- How a pass may change the category of a token, given the token in front of it. -/
structure Changes (before : Option Token) (t : Token) (k : Category) : Prop where
  /-- What is neither a name nor a keyword stays what it is. -/
  other : ¬ t.kind.isA .name → ¬ t.kind.isA .keyword → k = t.kind
  /-- Nothing becomes what is neither a name nor a keyword. -/
  closed : t.kind.isA .name ∨ t.kind.isA .keyword → k.isA .name ∨ k.isA .keyword
  /-- Only the words of the language are restored, and to two categories. -/
  keyword : t.kind.isA .keyword → k ≠ t.kind →
    Names.isKeyword t.text ∧ (k = .keyword ∨ k = .keywordDeclaration)
  /-- Any other name stays a name. -/
  name : t.kind.isA .name → ¬ Names.isKeyword t.text → k.isA .name
  /-- A name that says more than that it is one changes only behind a `::`. -/
  decided : t.kind.isA .name → ¬ t.kind.isOpenName → ¬ Names.isKeyword t.text →
    k ≠ t.kind → ∃ u, before = some u ∧ u.is .operator "::"

namespace Changes

variable {before : Option Token} {t : Token} {k : Category}

theorem refl (before : Option Token) (t : Token) : Changes before t t.kind where
  other _ _ := rfl
  closed h := h
  keyword _ h := absurd rfl h
  name h _ := h
  decided _ _ _ h := absurd rfl h

theorem of_keyword? (h : keyword? t = some k) : Changes before t k := by
  have hkeyword := isKeyword_of_keyword? h
  have hkind : k = .keyword ∨ k = .keywordDeclaration := by
    unfold keyword? at h
    split at h
    · split at h <;> cases h
      · exact .inr rfl
      · exact .inl rfl
    · cases h
  have hisA := isA_of_keyword? h
  simp only [Bool.or_eq_true] at hisA
  exact ⟨fun hn hk => absurd hisA (by simp [hn, hk]), fun _ => .inr (keyword?_isA h),
    fun _ _ => ⟨hkeyword, hkind⟩, fun _ hno => absurd hkeyword hno,
    fun _ _ hno => absurd hkeyword hno⟩

/-- A name that becomes another kind of name. -/
theorem of_name (ht : t.kind.isA .name) (hk : k.isA .name)
    (h : t.kind.isOpenName ∨ ∃ u, before = some u ∧ u.is .operator "::") :
    Changes before t k where
  other hn _ := absurd ht hn
  closed _ := .inl hk
  keyword hkw _ := by simp [Category.not_keyword_of_name ht] at hkw
  name _ _ := hk
  decided _ ho _ _ := h.resolve_left ho

end Changes

/-! ### Decided categories -/

/-- Categories decided ahead belong to a qualified name: each is that of a `::`, or of a
name directly behind one. -/
def Threaded : Option Token → List Category → List Token → Prop
  | _, [], _ => True
  | before, k :: ks, t :: ts =>
    ((k = .operator ∧ t.kind = .operator) ∨
      (k.isA .name ∧ t.kind.isA .name ∧ ∃ u, before = some u ∧ u.is .operator "::")) ∧
      Threaded (some t) ks ts
  | _, _ :: _, [] => False

theorem threaded_chainKinds {k : Category} (hk : k.isA .name) (before : Option Token)
    (rest : List Token) : Threaded before (chainKinds (segments rest) k) rest := by
  fun_induction segments rest generalizing before with
  | case1 op t rest hc ih =>
    simp only [Bool.and_eq_true] at hc
    have hop : op.kind = .operator := by
      have := hc.1
      simp only [Token.is, Bool.and_eq_true, decide_eq_true_eq] at this
      exact this.1
    rw [chainKinds_cons]
    refine ⟨.inl ⟨rfl, hop⟩, .inr ⟨?_, hc.2, op, rfl, hc.1⟩, ih _⟩
    split_ifs
    · exact hk
    · rfl
  | case2 => trivial
  | case3 => trivial

theorem threaded_next {p : Cursor} {before : Option Token} {t : Token} {rest : List Token}
    (h : Threaded before p.decided (t :: rest)) :
    Threaded (some t) (p.next t rest).decided rest := by
  generalize p.site t rest = site, p.next t rest = p', p.walks t rest = hw
  cases hw with
  | ahead hd => rw [hd] at h; exact h.2
  | blank hd => rw [hd]; trivial
  | head _ _ _ hc => exact threaded_chainKinds (chainTail?_isA_name hc) _ _
  | restored | single | other => trivial

/-! ### The decision at a site -/

theorem changes_site {p : Cursor} {before : Option Token} {t : Token} {rest : List Token}
    (h : Threaded before p.decided (t :: rest)) (s : Symbols)
    (last : Option (Category × String)) :
    Changes before t ((p.site t rest).kind s last t) := by
  generalize p.site t rest = site, p.next t rest = p', p.walks t rest = hw
  cases hw with
  | ahead hd =>
    rw [hd] at h
    rcases h.1 with ⟨hk, ht⟩ | ⟨hk, ht, hu⟩
    · rw [Site.kind, hk, ← ht]
      exact .refl _ _
    · exact .of_name ht hk (.inr hu)
  | blank _ ht => rw [Site.kind, ← ht]; exact .refl _ _
  | restored _ _ hk => exact .of_keyword? hk
  | head _ ho _ _ => exact .of_name (Category.isA_name_of_isOpenName ho) rfl (.inl ho)
  | single _ ho _ _ =>
    exact .of_name (Category.isA_name_of_isOpenName ho) (nameKind_isA_name _ _ _ ho) (.inl ho)
  | other => exact .refl _ _

/-- The token in front of an index; `before` stands in front of all of them. -/
def tokenBefore (before : Option Token) (ts : List Token) : Nat → Option Token
  | 0 => before
  | i + 1 => ts[i]?

theorem tokenBefore_cons (before : Option Token) (t : Token) (ts : List Token) (i : Nat) :
    tokenBefore before (t :: ts) (i + 1) = tokenBefore (some t) ts i := by
  cases i <;> rfl

theorem changes_getElem? {p : Cursor} {before : Option Token} {ts : List Token}
    (h : Threaded before p.decided ts) {i : Nat} {t : Token} {site : Site}
    (ht : ts[i]? = some t) (hs : (p.sites ts)[i]? = some site) (s : Symbols)
    (last : Option (Category × String)) :
    Changes (tokenBefore before ts i) t (site.kind s last t) := by
  induction ts generalizing p before i with
  | nil => simp at ht
  | cons u rest ih =>
    cases i with
    | zero =>
      simp only [Cursor.sites_cons, List.getElem?_cons_zero, Option.some.injEq] at ht hs
      subst ht hs
      exact changes_site h s last
    | succ i =>
      rw [Cursor.sites_cons, List.getElem?_cons_succ] at hs
      rw [List.getElem?_cons_succ] at ht
      rw [tokenBefore_cons]
      exact ih (threaded_next h) ht hs

/-- A pass leaves the number of tokens, their texts and their locations as they are, and
changes categories in the allowed ways alone. -/
theorem classify_changes (ts : List Token) : (classify ts).length = ts.length ∧
    ∀ i t, ts[i]? = some t → ∃ k, (classify ts)[i]? = some { t with kind := k } ∧
      Changes (tokenBefore none ts i) t k := by
  refine ⟨length_classify ts, fun i t ht => ?_⟩
  obtain ⟨site, hs⟩ : ∃ site, (sites ts)[i]? = some site := by
    have hi := (List.getElem?_eq_some_iff.1 ht).1
    exact ⟨_, List.getElem?_eq_getElem (by rwa [length_sites])⟩
  obtain ⟨s, last, hk⟩ := getElem?_classify ht hs
  exact ⟨_, hk, changes_getElem? (p := Cursor.start) trivial ht hs s last⟩

end Highlighter
