import Highlighter.Language
import Highlighter.Proofs.Recast

/-! Highlighted tokens that are classified once more. The second run collects the
declared names again, from categories that the first run has written, and these can be
other names: a macro that became a constant no longer stands between `class` and the
name behind it. Proved: with the names of the first run the second run changes nothing,
and with its own names it changes nothing exactly if each name that is still open fits
them. It does not always. -/

namespace Highlighter

open Token Context

/-! ### The open names of a list of tokens -/

/-- A single name that the first run leaves open, in front of the second run. -/
structure OpenName where
  token : Token
  standing : Standing
  /-- The category and the text that were decided on last. -/
  last : Option (Category × String)
  deriving DecidableEq, Repr

namespace OpenName

/-- What a run with the given symbols makes of the name. -/
def kind (o : OpenName) (s : Symbols) : Category := o.standing.nameKind s o.last o.token

theorem kind_of_behindNamespace {o : OpenName} (h : o.standing.behindNamespace = true)
    (s : Symbols) : o.kind s = .nameNamespace := if_pos h

/-- Whether the names of a later run leave the name what the names of an earlier run
made it. -/
structure Fits (o : OpenName) (old new : Symbols) : Prop where
  /-- Only a class is declared by the later run alone. -/
  found : new.declaresType o.token.text → ¬ old.declaresType o.token.text →
    o.token.kind = .nameClass
  /-- A name that the later run does not declare any more is a class all the same. -/
  lost : old.declaresType o.token.text → ¬ new.declaresType o.token.text →
    ∀ k, o.standing.convention? new o.last o.token.text = some k → k = .nameClass
  /-- Only an engine type is a variable of the later run. -/
  typed : ¬ old.declaresType o.token.text → ¬ new.declaresType o.token.text →
    new.hasVariable o.token.text → Names.isEngineType o.token.text

end OpenName

def openNamesFrom (last : Option (Category × String)) :
    List Token → List Site → List OpenName
  | t :: ts, .single n :: sites => ⟨t, n, last⟩ :: openNamesFrom (lastOf last t) ts sites
  | t :: ts, _ :: sites => openNamesFrom (lastOf last t) ts sites
  | _, _ => []

/-- The single names that a run over the tokens comes to. -/
def openNames (ts : List Token) : List OpenName := openNamesFrom none ts (sites ts)

/-! ### Runs that change nothing -/

theorem settle_cons_eq_iff (s : Symbols) (last : Option (Category × String)) (t : Token)
    (ts : List Token) (site : Site) (sites : List Site) :
    settle s last (t :: ts) (site :: sites) = t :: ts ↔
      site.kind s last t = t.kind ∧ settle s (lastOf last t) ts sites = ts := by
  simp only [settle, List.cons_eq_cons]
  constructor
  · rintro ⟨ht, hts⟩
    rw [ht] at hts
    exact ⟨congrArg Token.kind ht, hts⟩
  · rintro ⟨hk, hts⟩
    have ht : { t with kind := site.kind s last t } = t := by rw [hk]
    exact ⟨ht, by rw [ht]; exact hts⟩

/-- Other symbols leave settled tokens alone exactly if they leave the open names alone. -/
theorem settle_eq_self_iff {s : Symbols} {last : Option (Category × String)} {ts : List Token}
    {sites : List Site} (h : settle s last ts sites = ts) (s' : Symbols) :
    settle s' last ts sites = ts ↔
      ∀ o ∈ openNamesFrom last ts sites, o.kind s' = o.token.kind := by
  induction ts generalizing last sites with
  | nil => simp [settle, openNamesFrom]
  | cons t ts ih =>
    cases sites with
    | nil => simp [settle] at h
    | cons site sites =>
      obtain ⟨hk, hts⟩ := (settle_cons_eq_iff ..).1 h
      rw [settle_cons_eq_iff, ih hts]
      cases site with
      | single n => rw [openNamesFrom, List.forall_mem_cons]; rfl
      | blank | restored | linked | other => exact and_iff_right hk

/-- A run with the same symbols over settled tokens changes nothing. -/
theorem settle_settle (s : Symbols) (last : Option (Category × String)) (ts : List Token)
    (sites : List Site) :
    settle s last (settle s last ts sites)
        (List.zipWith Site.after sites (settle s last ts sites)) =
      settle s last ts sites := by
  induction ts generalizing last sites with
  | nil => rfl
  | cons t ts ih =>
    cases sites with
    | nil => rfl
    | cons site sites =>
      have hkind : (site.after { t with kind := site.kind s last t }).kind s last
          { t with kind := site.kind s last t } = site.kind s last t := by
        cases site with
        | blank | restored | linked | other => rfl
        | single n =>
          simp only [Site.after]
          split_ifs
          · simp only [Site.kind, Standing.nameKind]
            split_ifs
            · rfl
            · rfl
            · cases n.convention? s last t.text <;> rfl
          · rfl
      simp only [settle, List.zipWith_cons_cons, hkind, ih]

theorem settle_classify (ts : List Token) :
    settle (Symbols.collect ts) none (classify ts) (sites (classify ts)) = classify ts := by
  rw [sites_classify, classify_eq_settle]
  exact settle_settle _ _ _ _

/-- The second run keeps a list exactly if it keeps the open names. -/
theorem classify_classify_iff (ts : List Token) :
    classify (classify ts) = classify ts ↔
      ∀ o ∈ openNames (classify ts), o.kind (Symbols.collect (classify ts)) = o.token.kind := by
  rw [classify_eq_settle (classify ts)]
  exact settle_eq_self_iff (settle_classify ts) _

/-- The first run has made each open name what its own names make it. -/
theorem kind_of_mem_openNames {ts : List Token} {o : OpenName}
    (h : o ∈ openNames (classify ts)) : o.kind (Symbols.collect ts) = o.token.kind :=
  (settle_eq_self_iff (settle_classify ts) _).1 (settle_classify ts) o h

theorem isOpenName_of_mem {ts : List Token} {o : OpenName} (h : o ∈ openNames ts) :
    o.token.kind.isOpenName := by
  have hall (p : Cursor) (last : Option (Category × String)) :
      ∀ o ∈ openNamesFrom last ts (p.sites ts), o.token.kind.isOpenName := by
    clear h
    induction ts generalizing p last with
    | nil => simp [openNamesFrom]
    | cons t rest ih =>
      rw [Cursor.sites_cons]
      have hw := p.walks t rest
      cases hs : p.site t rest with
      | single n =>
        rw [hs] at hw
        exact List.forall_mem_cons.2 ⟨hw.isOpenName, ih _ _⟩
      | blank | restored | linked | other => exact ih _ _
  exact hall _ _ o h

/-! ### What the symbols decide -/

namespace Standing

/-- The convention for an engine type does not look at the symbols. -/
theorem convention?_of_isEngineType {name : String} (h : Names.isEngineType name) (n : Standing)
    (s s' : Symbols) (last : Option (Category × String)) :
    n.convention? s last name = n.convention? s' last name := by
  simp only [convention?, h, if_true]

/-- A name is open by convention only as an engine type. -/
theorem isEngineType_of_convention? {n : Standing} {s : Symbols}
    {last : Option (Category × String)} {name : String} {k : Category}
    (h : n.convention? s last name = some k) (ho : k.isOpenName) : Names.isEngineType name := by
  by_contra he
  simp only [convention?, he, if_false] at h
  revert h
  split_ifs <;> (intro h; cases h) <;> revert ho <;> decide

theorem convention?_ne_none_of_hasVariable {s : Symbols} {name : String}
    (h : s.hasVariable name) (n : Standing) (last : Option (Category × String)) :
    n.convention? s last name ≠ none := by
  simp only [convention?, h, if_true]
  split_ifs <;> simp

/-- No convention applies to a name with other symbols either, if it is no variable
there and does not follow a type there. -/
theorem convention?_eq_none {n : Standing} {s s' : Symbols} {last : Option (Category × String)}
    {name : String} (h : n.convention? s last name = none) (hv : ¬ s'.hasVariable name)
    (ht : afterType last s' → afterType last s) : n.convention? s' last name = none := by
  revert h
  simp only [convention?]
  split_ifs <;> simp_all

theorem afterType_imp {last : Option (Category × String)} {s s' : Symbols}
    (h : ∀ text, last = some (.name, text) → s'.hasType text = false) :
    afterType last s' → afterType last s := by
  unfold afterType
  split
  · simp
  · simp
  · rw [h _ rfl]; simp
  · exact id
  · exact id
  · simp

end Standing

/-- Where the declared names have no say, a walk gives no plain name. -/
theorem Cursor.fixed?_ne_name {p : Cursor} {ts : List Token} (hp : ∀ k ∈ p.decided, k ≠ .name)
    {site : Site} (hs : site ∈ p.sites ts) {k : Category} (hk : site.fixed? = some k) :
    k ≠ .name := by
  induction ts generalizing p with
  | nil => simp at hs
  | cons t rest ih =>
    rw [sites_cons, List.mem_cons] at hs
    generalize p.site t rest = site', p.next t rest = p', p.walks t rest = hw at hs
    rcases hs with rfl | hs
    · cases hw with
      | ahead hd => cases hk; exact hp _ (by simp [hd])
      | blank => cases hk; decide
      | restored _ _ hkw => cases hk; rintro rfl; exact absurd (keyword?_isA hkw) (by decide)
      | head => cases hk; decide
      | single =>
        simp only [Site.fixed?] at hk
        split_ifs at hk
        cases hk; decide
      | other _ _ ho _ => cases hk; rintro h; rw [h] at ho; cases ho
    · refine ih ?_ hs
      cases hw with
      | ahead hd => intro k' hk'; exact hp k' (by simp [hd, hk'])
      | blank hd => exact hp
      | head _ _ _ hc =>
        exact chainKinds_ne (by decide) (by decide) (chainTail?_ne_name hc) _
      | restored | single | other => simp

/-- A plain name behind which an open name stands is an open name itself. -/
theorem mem_openNamesFrom_of_last {s : Symbols} {last : Option (Category × String)}
    {ts : List Token} {sites : List Site} (h : settle s last ts sites = ts)
    (hs : ∀ site ∈ sites, ∀ k, site.fixed? = some k → k ≠ .name) {o : OpenName}
    (ho : o ∈ openNamesFrom last ts sites) {text : String} (hl : o.last = some (.name, text)) :
    last = some (.name, text) ∨
      ∃ o' ∈ openNamesFrom last ts sites, o'.token.kind = .name ∧ o'.token.text = text := by
  induction ts generalizing last sites with
  | nil => simp [openNamesFrom] at ho
  | cons t ts ih =>
    cases sites with
    | nil => simp [openNamesFrom] at ho
    | cons site sites =>
      obtain ⟨hk, hts⟩ := (settle_cons_eq_iff ..).1 h
      obtain ⟨hsite, hsites⟩ := List.forall_mem_cons.1 hs
      -- a plain name that is seen behind this token is this token or was seen before it
      have hseen : lastOf last t = some (.name, text) →
          last = some (.name, text) ∨ t.kind = .name ∧ t.text = text := by
        unfold lastOf
        split_ifs
        · exact .inl
        · intro he; simp only [Option.some.injEq, Prod.mk.injEq] at he; exact .inr he
      cases site with
      | single n =>
        rw [openNamesFrom, List.mem_cons] at ho
        rcases ho with rfl | ho
        · exact .inl hl
        · rcases ih hts hsites ho with h' | ⟨o', ho', hkt⟩
          · rcases hseen h' with h' | hkt
            · exact .inl h'
            · exact .inr ⟨_, List.mem_cons_self, hkt⟩
          · exact .inr ⟨o', List.mem_cons_of_mem _ ho', hkt⟩
      | blank | restored | linked | other =>
        rcases ih hts hsites ho with h' | h'
        · exact (hseen h').imp_right fun hkt => absurd hkt.1 (hk ▸ hsite _ rfl)
        · exact .inr h'

theorem OpenName.fits_of_kind {o : OpenName} {s s' : Symbols}
    (hn : o.standing.behindNamespace = false) (h : o.kind s = o.token.kind)
    (ho : o.token.kind.isOpenName) (h' : o.kind s' = o.token.kind) : o.Fits s s' := by
  simp only [OpenName.kind, Standing.nameKind, hn, Bool.false_eq_true, if_false] at h h'
  refine ⟨fun hnew _ => ?_, fun hold hnew k hk => ?_, fun hold hnew hv => ?_⟩
  · rw [if_pos hnew] at h'
    exact h'.symm
  · rw [if_pos hold] at h
    rw [if_neg hnew, hk, ← h] at h'
    exact h'
  · rw [if_neg hnew] at h'
    obtain ⟨k, hk⟩ := Option.ne_none_iff_exists'.1
      (Standing.convention?_ne_none_of_hasVariable hv o.standing o.last)
    rw [hk, Option.getD_some] at h'
    exact Standing.isEngineType_of_convention? hk (by rw [h']; exact ho)

theorem OpenName.kind_of_fits {o : OpenName} {s s' : Symbols}
    (hn : o.standing.behindNamespace = false) (h : o.kind s = o.token.kind)
    (ho : o.token.kind.isOpenName) (hf : o.Fits s s')
    (hl : ∀ text, o.last = some (.name, text) → s'.hasType text = false) :
    o.kind s' = o.token.kind := by
  simp only [OpenName.kind, Standing.nameKind, hn, Bool.false_eq_true, if_false] at h ⊢
  by_cases hold : s.declaresType o.token.text
  · rw [if_pos hold] at h
    split_ifs with hnew
    · exact h
    · cases hk : o.standing.convention? s' o.last o.token.text with
      | none => rfl
      | some k => exact (hf.lost hold hnew k hk).trans h
  · rw [if_neg hold] at h
    split_ifs with hnew
    · exact (hf.found hnew hold).symm
    · by_cases he : Names.isEngineType o.token.text
      · rw [Standing.convention?_of_isEngineType he _ s' s]
        exact h
      · -- an open name that is no engine type is there because no convention applies to it
        have hnone : o.standing.convention? s o.last o.token.text = none := by
          cases hk : o.standing.convention? s o.last o.token.text with
          | none => rfl
          | some k =>
            rw [hk, Option.getD_some] at h
            exact absurd (Standing.isEngineType_of_convention? hk (by rw [h]; exact ho)) he
        rw [Standing.convention?_eq_none hnone (mt (hf.typed hold hnew) he)
          (Standing.afterType_imp hl)]
        rfl

/-- A plain name that fits the new symbols is no type of theirs. -/
theorem OpenName.hasType_of_fits {o : OpenName} {s s' : Symbols} (h : o.kind s = o.token.kind)
    (hk : o.token.kind = .name) (hf : o.standing.behindNamespace ∨ o.Fits s s') :
    s'.hasType o.token.text = false := by
  rw [hk, OpenName.kind, Standing.nameKind] at h
  split_ifs at h with hn hold
  have hfits := hf.resolve_left hn
  by_contra ht
  have hnew : s'.declaresType o.token.text := by
    simp only [Symbols.declaresType, Bool.or_eq_true]
    exact .inl (by simpa using ht)
  have hclass := hfits.found hnew hold
  rw [hk] at hclass
  cases hclass

/-- Highlighted source text is left alone by a second run exactly if each single name that
is still open, unless it names a namespace, fits the names that the second run collects. -/
theorem classify_highlight_eq_iff (source : String) :
    classify (Language.engineCpp.highlight source) = Language.engineCpp.highlight source ↔
      ∀ o ∈ openNames (Language.engineCpp.highlight source), o.standing.behindNamespace ∨
        o.Fits (Symbols.collect (Language.engineCpp.scan source).tokens)
          (Symbols.collect (Language.engineCpp.highlight source)) := by
  rw [show Language.engineCpp.highlight source = classify (Language.engineCpp.scan source).tokens
    from rfl]
  generalize (Language.engineCpp.scan source).tokens = ts
  rw [classify_classify_iff]
  constructor
  · intro h o ho
    cases hn : o.standing.behindNamespace with
    | true => exact .inl rfl
    | false =>
      have hkind := kind_of_mem_openNames ho
      exact .inr (OpenName.fits_of_kind hn hkind (isOpenName_of_mem ho) (h o ho))
  · intro h o ho
    have hkind := kind_of_mem_openNames ho
    cases hn : o.standing.behindNamespace with
    | true => rw [← hkind, OpenName.kind_of_behindNamespace hn, OpenName.kind_of_behindNamespace hn]
    | false =>
      have hf := (h o ho).resolve_left (by simp [hn])
      refine OpenName.kind_of_fits hn hkind (isOpenName_of_mem ho) hf fun text hl => ?_
      rcases mem_openNamesFrom_of_last (settle_classify ts)
        (fun site hs k => Cursor.fixed?_ne_name (by simp [Cursor.start]) hs) ho hl with h' | h'
      · cases h'
      · obtain ⟨o', ho', hk, rfl⟩ := h'
        exact OpenName.hasType_of_fits (kind_of_mem_openNames ho') hk (h o' ho')

/-- The first run takes `MYGAME_API` for a constant, as it stands in the argument list of a
macro; the second run does not find the class behind it any more. -/
theorem classify_highlight_ne :
    classify (Language.engineCpp.highlight "UPROPERTY( class MYGAME_API Box") ≠
      Language.engineCpp.highlight "UPROPERTY( class MYGAME_API Box" := by
  decide +kernel

end Highlighter
