import Mathlib.Data.List.Forall2
import Highlighter.Proofs.Sites

/-! What a later pass sees of tokens that a pass has recast. A recast token keeps its
text, and its category only where the walk fixed it; a single name becomes some kind of
name. Proved: the walk over recast tokens is the walk over the tokens themselves, but
for the single names that are closed, which keep the category they got. -/

namespace Highlighter

open Token Context

/-! ### Tokens that look alike from a distance -/

namespace Token

/-- The tokens differ at most in their kinds of name or keyword, and no keyword is a
name in the second one. -/
structure Alike (t t' : Token) : Prop where
  text_eq : t'.text = t.text
  kind_eq : t'.kind = t.kind ∨ ((t.kind.isA .name ∨ t.kind.isA .keyword) ∧
    (t'.kind.isA .name ∨ t'.kind.isA .keyword) ∧ (t'.kind.isA .name → t.kind.isA .name))

theorem Alike.isA_name {t t' : Token} (h : Alike t t') (hn : t'.kind.isA .name) :
    t.kind.isA .name := by
  rcases h.kind_eq with he | ⟨-, -, himp⟩
  · rwa [← he]
  · exact himp hn

/-- A category outside of names and keywords is seen in both or in neither. -/
theorem Alike.kind_eq_iff {t t' : Token} (h : Alike t t') {c : Category}
    (hn : ¬ c.isA .name) (hk : ¬ c.isA .keyword) : t'.kind = c ↔ t.kind = c := by
  rcases h.kind_eq with he | ⟨hl, hr, -⟩
  · rw [he]
  · constructor
    · rintro rfl; exact absurd hr (by simp [hn, hk])
    · rintro rfl; exact absurd hl (by simp [hn, hk])

theorem Alike.is_eq {t t' : Token} (h : Alike t t') {c : Category} (hn : ¬ c.isA .name)
    (hk : ¬ c.isA .keyword) (text : String) : t'.is c text = t.is c text := by
  simp [is, h.kind_eq_iff hn hk, h.text_eq]

theorem Alike.isString_eq {t t' : Token} (h : Alike t t') :
    t'.kind.isA .literalString = t.kind.isA .literalString := by
  have hno : ∀ c : Category, (c.isA .name ∨ c.isA .keyword) → c.isA .literalString = false := by
    intro c; cases c <;> decide
  rcases h.kind_eq with he | ⟨hl, hr, -⟩
  · rw [he]
  · rw [hno _ hl, hno _ hr]

theorem Alike.opensArguments_eq {t t' : Token} (h : Alike t t') :
    t'.opensArguments = t.opensArguments := by
  simp only [opensArguments, h.is_eq (c := .punctuation) (by decide) (by decide),
    h.is_eq (c := .operator) (by decide) (by decide)]

end Token

theorem opensMember_alike {t t' : Token} (h : Alike t t') : opensMember t' = opensMember t := by
  simp only [opensMember, h.is_eq (c := .punctuation) (by decide) (by decide),
    h.is_eq (c := .operator) (by decide) (by decide)]

section Ahead

variable {ts ts' : List Token}

theorem skipText_alike (h : List.Forall₂ Alike ts ts') :
    List.Forall₂ Alike (skipText ts) (skipText ts') := by
  induction h with
  | nil => exact .nil
  | @cons t t' ts ts' ht hts ih =>
    have hiff := ht.kind_eq_iff (c := .text) (by decide) (by decide)
    by_cases hk : t.kind = .text
    · simpa [skipText, hk, hiff.mpr hk] using ih
    · simpa [skipText, hk, mt hiff.mp hk] using ⟨ht, hts⟩

theorem any_next?_alike {f : Token → Bool} (hf : ∀ t t', Alike t t' → f t' = f t)
    (h : List.Forall₂ Alike ts ts') : (next? ts').any f = (next? ts).any f := by
  have hskip := skipText_alike h
  unfold next?
  generalize skipText ts = us, skipText ts' = us' at hskip
  cases hskip with
  | nil => rfl
  | cons ht _ => exact hf _ _ ht

theorem isCalled_alike (h : List.Forall₂ Alike ts ts') : isCalled ts' = isCalled ts :=
  any_next?_alike (fun _ _ ht => ht.opensArguments_eq) h

theorem isKey_alike (h : List.Forall₂ Alike ts ts') : isKey ts' = isKey ts := by
  have hskip := skipText_alike h
  unfold isKey
  generalize skipText ts = us, skipText ts' = us' at hskip
  cases hskip with
  | nil => rfl
  | cons ht hts =>
    simp only [ht.is_eq (c := .operator) (by decide) (by decide),
      any_next?_alike (fun _ _ h => h.isString_eq) hts]

theorem drop_alike (h : List.Forall₂ Alike ts ts') (n : Nat) :
    List.Forall₂ Alike (ts.drop n) (ts'.drop n) := by
  induction n generalizing ts ts' with
  | zero => exact h
  | succ n ih => cases h with
    | nil => exact .nil
    | cons _ hts => exact ih hts

/-- Names that follow no `::` are not seen as parts of a qualified name. -/
theorem segments_eq_nil (h : List.Forall₂ Alike ts ts') (hs : segments ts = []) :
    segments ts' = [] := by
  cases h with
  | nil => rfl
  | @cons op op' us us' hop hus =>
    cases hus with
    | nil => rfl
    | @cons t t' vs vs' ht hvs =>
      simp only [segments, hop.is_eq (c := .operator) (by decide) (by decide)] at hs ⊢
      split_ifs at hs with hc
      rw [if_neg]
      intro hc'
      simp only [Bool.and_eq_true] at hc hc'
      exact hc ⟨hc'.1, ht.isA_name hc'.2⟩

end Ahead

/-! ### Recast tokens -/

namespace Site

/-- What may become of a token at a site. A reflection macro stays recognizable. -/
def Allows (site : Site) (t t' : Token) : Prop :=
  t'.text = t.text ∧ match site with
    | blank => t'.kind = .text
    | restored k | linked k | other k => t'.kind = k
    | single _ => t'.kind.isA .name ∧
        (Names.isCoreMacro t.text → t'.kind.isOpenName ∨ t'.kind = .nameDecorator)

/-- The site of a recast token: a name that is closed keeps its category. -/
def after (site : Site) (t' : Token) : Site :=
  match site with
  | single n => if t'.kind.isOpenName then single n else other t'.kind
  | site => site

end Site

inductive Recast : List Site → List Token → List Token → Prop
  | nil : Recast [] [] []
  | cons {site : Site} {sites : List Site} {t t' : Token} {ts ts' : List Token} :
      site.Allows t t' → Recast sites ts ts' → Recast (site :: sites) (t :: ts) (t' :: ts')

/-- Categories decided ahead belong to a qualified name: each is that of a `::` or of a
part between them. -/
def Linked : List Category → List Token → Prop
  | [], _ => True
  | k :: ks, t :: ts =>
    ((k = .operator ∧ t.kind = .operator) ∨ (k.isA .name ∧ t.kind.isA .name)) ∧ Linked ks ts
  | _ :: _, [] => False

theorem chainKinds_cons (t : Token) (ts : List Token) (k : Category) :
    chainKinds (t :: ts) k =
      .operator :: (if ts = [] then k else .nameNamespace) :: chainKinds ts k := by
  cases ts <;> rfl

theorem linked_chainKinds {k : Category} (hk : k.isA .name) (rest : List Token) :
    Linked (chainKinds (segments rest) k) rest := by
  fun_induction segments rest with
  | case1 op t rest hc ih =>
    simp only [Bool.and_eq_true, is, decide_eq_true_eq] at hc
    rw [chainKinds_cons]
    refine ⟨.inl ⟨rfl, hc.1.1⟩, .inr ⟨?_, hc.2⟩, ih⟩
    split_ifs
    · exact hk
    · rfl
  | case2 => trivial
  | case3 => trivial

theorem linked_next {p : Cursor} {t : Token} {rest : List Token}
    (h : Linked p.decided (t :: rest)) : Linked (p.next t rest).decided rest := by
  generalize p.site t rest = site, p.next t rest = p', p.walks t rest = hw
  cases hw with
  | ahead hd => rw [hd] at h; exact h.2
  | blank hd => rw [hd]; trivial
  | head _ _ _ hc => exact linked_chainKinds (chainTail?_isA_name hc) rest
  | restored | single | other => trivial

theorem keyword?_congr {t t' : Token} (htext : t'.text = t.text)
    (h : (t'.kind.isA .name || t'.kind.isA .keyword) = (t.kind.isA .name || t.kind.isA .keyword)) :
    keyword? t' = keyword? t := by
  simp only [keyword?, h, htext]

theorem keyword?_of_names {t t' : Token} (htext : t'.text = t.text) (h : t.kind.isA .name)
    (h' : t'.kind.isA .name) : keyword? t' = keyword? t :=
  keyword?_congr htext (by rw [h, h']; rfl)

theorem isA_of_keyword? {t : Token} {k : Category} (h : keyword? t = some k) :
    t.kind.isA .name || t.kind.isA .keyword := by
  unfold keyword? at h
  split at h
  · next hc => simp only [Bool.and_eq_true] at hc; exact hc.1
  · cases h

theorem allows_alike {p : Cursor} {t t' : Token} {rest : List Token}
    (hp : Linked p.decided (t :: rest)) (h : (p.site t rest).Allows t t') : Alike t t' := by
  obtain ⟨htext, hkind⟩ := h
  refine ⟨htext, ?_⟩
  generalize p.site t rest = site, p.next t rest = p', p.walks t rest = hw at hkind
  cases hw with
  | ahead hd =>
    rw [hd] at hp
    rcases hp.1 with ⟨h1, h2⟩ | ⟨h1, h2⟩
    · exact .inl (hkind.trans (h1.trans h2.symm))
    · exact .inr ⟨.inl h2, .inl (by rw [hkind]; exact h1), fun _ => h2⟩
  | blank _ ht => exact .inl (hkind.trans ht.symm)
  | restored _ _ hk =>
    have hkw := keyword?_isA hk
    refine .inr ⟨by simpa using isA_of_keyword? hk, .inr (by rwa [hkind]), fun hn => ?_⟩
    rw [hkind] at hn
    simp [Category.not_keyword_of_name hn] at hkw
  | head _ ho _ _ =>
    have hname := Category.isA_name_of_isOpenName ho
    exact .inr ⟨.inl hname, .inl (by rw [hkind]; rfl), fun _ => hname⟩
  | single _ ho _ _ =>
    have hname := Category.isA_name_of_isOpenName ho
    exact .inr ⟨.inl hname, .inl hkind.1, fun _ => hname⟩
  | other => exact .inl hkind

theorem Recast.alike {p : Cursor} {ts ts' : List Token} (h : Recast (p.sites ts) ts ts')
    (hp : Linked p.decided ts) : List.Forall₂ Alike ts ts' := by
  induction ts generalizing p ts' with
  | nil => cases h; exact .nil
  | cons t rest ih =>
    cases h with
    | cons ht hrest => exact .cons (allows_alike hp ht) (ih hrest (linked_next hp))

/-- A qualified name is seen again, part by part. -/
theorem segments_recast {p : Cursor} {rest rest' : List Token} {k : Category} (hk : k.isA .name)
    (h : Recast (p.sites rest) rest rest') (hp : p.decided = chainKinds (segments rest) k) :
    (segments rest').map (·.text) = (segments rest).map (·.text) := by
  fun_induction segments rest generalizing p rest' with
  | case1 op t rest hc ih =>
    rw [chainKinds_cons] at hp
    cases h with
    | @cons _ _ _ op' _ _ hop hrest =>
      cases hrest with
      | @cons _ _ _ t' _ rest' ht hrest =>
        have hp' := Cursor.decided_next hp op (t :: rest)
        rw [Cursor.site_of_decided hp] at hop
        rw [Cursor.site_of_decided hp'] at ht
        -- both the `::` and the part behind it are seen as such
        have hop' : op'.is .operator "::" := by
          simp only [Bool.and_eq_true, is, decide_eq_true_eq] at hc ⊢
          exact ⟨hop.2, hop.1.trans hc.1.2⟩
        have ht' : t'.kind.isA .name := by
          rw [show t'.kind = _ from ht.2]
          split_ifs
          · exact hk
          · rfl
        simp only [segments, hop', ht', Bool.and_self, if_true, List.map_cons, ht.1,
          ih hrest (Cursor.decided_next hp' t rest)]
  | case2 op t rest hc =>
    have hs : segments (op :: t :: rest) = [] := by simp only [segments, hc]; rfl
    rw [segments_eq_nil (h.alike (by rw [hp]; trivial)) hs]
  | case3 rest hrest =>
    have hs : segments rest = [] := by
      unfold segments
      split
      · exact absurd rfl (hrest _ _ _)
      · rfl
    rw [segments_eq_nil (h.alike (by rw [hp]; trivial)) hs]

theorem isCoreMacro_of_keyword {text : String} (h : Names.isKeyword text) :
    Names.isCoreMacro text = false := by
  have hall : ∀ w ∈ Lexicon.Cpp.keywords, Lexicon.Engine.coreMacros.contains w = false := by
    decide +kernel
  exact hall text (by simpa [Names.isKeyword] using h)

theorem isKeyword_of_keyword? {t : Token} {k : Category} (h : keyword? t = some k) :
    Names.isKeyword t.text := by
  unfold keyword? at h
  split at h
  · next hc => simp only [Bool.and_eq_true] at hc; exact hc.2
  · cases h

/-- A core macro opens its argument list for every later pass too. -/
theorem scopeAt_recast {p : Cursor} {t t' : Token} {rest rest' : List Token}
    (hd : p.decided = []) (h : (p.site t rest).Allows t t') (hrest : List.Forall₂ Alike rest rest')
    (scope : MacroScope) : scopeAt scope t' rest' = scopeAt scope t rest := by
  have ha : Alike t t' := allows_alike (by rw [hd]; trivial) h
  have hpunct : t'.kind = .punctuation ↔ t.kind = .punctuation :=
    ha.kind_eq_iff (by decide) (by decide)
  have hnext : (next? rest').any (·.is .punctuation "(") =
      (next? rest).any (·.is .punctuation "(") :=
    any_next?_alike (fun _ _ h => h.is_eq (by decide) (by decide) _) hrest
  have hmacro : ((t'.kind.isOpenName || t'.kind = .nameDecorator) && Names.isCoreMacro t.text) =
      ((t.kind.isOpenName || t.kind = .nameDecorator) && Names.isCoreMacro t.text) := by
    cases hm : Names.isCoreMacro t.text with
    | false => simp
    | true =>
      have hkind := h.2
      generalize p.site t rest = site, p.next t rest = p', p.walks t rest = hw at hkind
      cases hw with
      | ahead hd' => simp [hd] at hd'
      | blank _ ht => rw [hkind, ht]
      | restored _ _ hk => simp [isCoreMacro_of_keyword (isKeyword_of_keyword? hk)] at hm
      | head _ ho _ _ => rw [hkind, ho]; rfl
      | single _ ho _ _ =>
        rcases hkind.2 hm with h' | h'
        · rw [h', ho]; rfl
        · rw [h', ho]; rfl
      | other => rw [hkind]
  simp only [scopeAt, ha.text_eq, hmacro, hnext, hpunct]

theorem chainKinds_congr {ts us : List Token} (k : Category) (h : ts.length = us.length) :
    chainKinds ts k = chainKinds us k := by
  induction ts generalizing us with
  | nil =>
    cases us with
    | nil => rfl
    | cons u us => simp at h
  | cons t ts ih =>
    cases us with
    | nil => simp at h
    | cons u us =>
      have hlen : ts.length = us.length := by simpa using h
      have hnil : ts = [] ↔ us = [] := by
        rw [← List.length_eq_zero_iff, hlen, List.length_eq_zero_iff]
      rw [chainKinds_cons, chainKinds_cons, ih hlen]
      simp only [hnil]

/-- The category of a qualified name depends on the texts of its parts alone. -/
theorem chainTail?_congr {t t' tail : Token} {rest rest' : List Token} {k : Category}
    (h : chainTail? t rest = some (tail, k)) (ht : t'.text = t.text)
    (hs : (segments rest').map (·.text) = (segments rest).map (·.text))
    (hcall : ∀ n, isCalled (rest'.drop n) = isCalled (rest.drop n)) :
    ∃ tail', chainTail? t' rest' = some (tail', k) := by
  have hlen : (segments rest').length = (segments rest).length := by
    simpa using congrArg List.length hs
  have hlast : (segments rest').getLast?.map (·.text) = some tail.text := by
    rw [← List.getLast?_map, hs, List.getLast?_map, (chainTail?_eq_some h).1, Option.map_some]
  have hparent : ((segments rest').dropLast.getLast?.getD t').text =
      ((segments rest).dropLast.getLast?.getD t).text := by
    have hgetD (o : Option Token) (u : Token) : (o.getD u).text = (o.map (·.text)).getD u.text := by
      cases o <;> rfl
    rw [hgetD, hgetD, ← List.getLast?_map, ← List.getLast?_map, List.map_dropLast,
      List.map_dropLast, hs, ht]
  obtain ⟨tail', htail', htext⟩ := Option.map_eq_some_iff.1 hlast
  refine ⟨tail', ?_⟩
  simp only [chainTail?, (chainTail?_eq_some h).1, Option.some.injEq, Prod.mk.injEq, true_and] at h
  simp only [chainTail?, htail', ht, htext, hlen, hparent, hcall, h]

theorem chainTail?_eq_none_iff {t : Token} {rest : List Token} :
    chainTail? t rest = none ↔ segments rest = [] := by
  simp only [chainTail?]
  constructor
  · intro h
    split at h
    · next hn => exact List.getLast?_eq_none_iff.1 hn
    · cases h
  · intro h; simp [h]

/-- A step of the walk over a recast token. -/
theorem walks_recast {p p' : Cursor} {site : Site} {t t' : Token} {rest rest' : List Token}
    (hw : p.Walks t rest site p') (hp : Linked p.decided (t :: rest)) (ht : site.Allows t t')
    (hrest : Recast (p'.sites rest) rest rest') : p.Walks t' rest' (site.after t') p' := by
  obtain ⟨hsite, hnext⟩ := hw.eq
  have ha : Alike t t' := allows_alike hp (by rwa [hsite])
  have hahead : List.Forall₂ Alike rest rest' :=
    hrest.alike (by rw [← hnext]; exact linked_next hp)
  have hscope (hd : p.decided = []) : scopeAt p.scope t' rest' = scopeAt p.scope t rest :=
    scopeAt_recast hd (by rwa [hsite]) hahead _
  have haccess := opensMember_alike ha
  have htext := ha.text_eq
  obtain ⟨-, hkind⟩ := ht
  cases hw with
  | ahead hd => exact haccess ▸ .ahead hd
  | blank hd ht => exact .blank hd hkind
  | @restored k hd ht hk =>
    have hk' : keyword? t' = some k := by
      rw [keyword?_congr htext, hk]
      rw [hkind, keyword?_isA hk, isA_of_keyword? hk]
      simp
    rw [← hscope hd, ← haccess, ← htext]
    exact .restored hd (by rw [hkind]; rintro rfl; exact absurd (keyword?_isA hk) (by decide)) hk'
  | @head tail k hd ho hk hc =>
    have hname := Category.isA_name_of_isOpenName ho
    have hs := segments_recast (chainTail?_isA_name hc) hrest rfl
    obtain ⟨tail', hc'⟩ := chainTail?_congr hc htext hs
      fun n => isCalled_alike (drop_alike hahead n)
    have hlen : (segments rest).length = (segments rest').length := by
      simpa using congrArg List.length hs.symm
    rw [← hscope hd, ← haccess, chainKinds_congr k hlen]
    have hname' : t'.kind.isA .name := by rw [hkind]; rfl
    exact .head hd (by rw [hkind]; rfl) (by rw [keyword?_of_names htext hname hname', hk]) hc'
  | single hd ho hk hc =>
    have hk' : keyword? t' = none := by
      rw [keyword?_of_names htext (Category.isA_name_of_isOpenName ho) hkind.1, hk]
    rw [← hscope hd, ← haccess]
    simp only [Site.after]
    split_ifs with ho'
    · rw [← isKey_alike hahead, ← isCalled_alike hahead]
      exact .single hd ho' hk' (chainTail?_eq_none_iff.2
        (segments_eq_nil hahead (chainTail?_eq_none_iff.1 hc)))
    · have ht' : t'.kind ≠ .text := by
        intro h; rw [h] at hkind; exact absurd hkind.1 (by decide)
      have hother : p.Walks t' rest' (.other t'.kind)
          ⟨t'.kind.isA .keyword && t'.text = "namespace", opensMember t',
            scopeAt p.scope t' rest', []⟩ := .other hd ht' (by simpa using ho') hk'
      rwa [Category.not_keyword_of_name hkind.1, Bool.false_and] at hother
  | other hd ht ho hk =>
    rw [← hscope hd, ← haccess, ← htext, ← hkind]
    exact .other hd (by rwa [hkind]) (by rwa [hkind]) (by rw [keyword?_congr htext, hk]; rw [hkind])

/-- The walk over recast tokens is the walk over the tokens themselves, but for the
names that are closed. -/
theorem sites_recast {p : Cursor} {ts ts' : List Token} (h : Recast (p.sites ts) ts ts')
    (hp : Linked p.decided ts) : p.sites ts' = List.zipWith Site.after (p.sites ts) ts' := by
  induction ts generalizing p ts' with
  | nil => cases h; rfl
  | cons t rest ih =>
    cases h with
    | cons ht hrest =>
      obtain ⟨hsite, hnext⟩ := (walks_recast (p.walks t rest) hp ht hrest).eq
      rw [Cursor.sites_cons, hsite, hnext, ih hrest (linked_next hp)]
      rfl

/-! ### What a pass makes of its tokens -/

/-- A reflection macro is a class, a namespace or a decorator. -/
theorem nameKind_of_isCoreMacro (n : Standing) (s : Symbols) (last : Option (Category × String))
    {t : Token} (h : Names.isCoreMacro t.text) :
    (n.nameKind s last t).isOpenName ∨ n.nameKind s last t = .nameDecorator := by
  simp only [Standing.nameKind, Standing.convention?, h, if_true, Option.getD_some]
  split_ifs
  · exact .inl rfl
  · exact .inl rfl
  · exact .inr rfl

theorem allows_kind (p : Cursor) (t : Token) (rest : List Token) (s : Symbols)
    (last : Option (Category × String)) :
    (p.site t rest).Allows t { t with kind := (p.site t rest).kind s last t } := by
  refine ⟨rfl, ?_⟩
  generalize p.site t rest = site, p.next t rest = p', p.walks t rest = hw
  cases hw with
  | ahead | blank | restored | head | other => rfl
  | single _ ho _ _ => exact ⟨nameKind_isA_name _ _ _ ho, nameKind_of_isCoreMacro _ _ _⟩

theorem recast_settle (p : Cursor) (ts : List Token) (s : Symbols)
    (last : Option (Category × String)) :
    Recast (p.sites ts) ts (settle s last ts (p.sites ts)) := by
  induction ts generalizing p last with
  | nil => exact .nil
  | cons t rest ih => exact .cons (allows_kind p t rest s last) (ih _ _)

theorem recast_classify (ts : List Token) : Recast (sites ts) ts (classify ts) := by
  rw [classify_eq_settle]
  exact recast_settle _ _ _ _

/-- The sites of classified tokens are those of the tokens that came in, but for the
names that were closed. -/
theorem sites_classify (ts : List Token) :
    sites (classify ts) = List.zipWith Site.after (sites ts) (classify ts) :=
  sites_recast (recast_classify ts) trivial

end Highlighter
