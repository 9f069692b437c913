import Mathlib.Tactic.SplitIfs
import Highlighter.Proofs.Recast

/-! Plain text among the tokens. A pass looks around at many places, and skips plain text
at all of them but one: it follows a qualified name from part to part without a gap.
Proved: plain text that is put in at a place with no `::` next to it declares nothing, is
not seen from any other token, and changes no category. -/

namespace Highlighter

open Token Context

section Insertion

variable {t : Token} (ht : t.kind = .text) (ts us : List Token)
include ht

/-! ### Looking ahead over the text -/

/-- The text that is put in is skipped with the text before it, or stands behind the
first token that is not skipped. -/
theorem skipText_insert : skipText (ts ++ t :: us) = skipText (ts ++ us) ∨
    ∃ u vs, skipText (ts ++ us) = u :: (vs ++ us) ∧
      skipText (ts ++ t :: us) = u :: (vs ++ t :: us) := by
  induction ts with
  | nil => exact .inl (by simp [skipText, ht])
  | cons u ts ih =>
    by_cases hu : u.kind = .text
    · simpa [skipText, hu] using ih
    · exact .inr ⟨u, ts, by simp [skipText, hu], by simp [skipText, hu]⟩

theorem next?_insert : next? (ts ++ t :: us) = next? (ts ++ us) := by
  unfold next?
  rcases skipText_insert ht ts us with h | ⟨u, vs, h, h'⟩
  · rw [h]
  · rw [h, h']; rfl

theorem isCalled_insert : isCalled (ts ++ t :: us) = isCalled (ts ++ us) := by
  rw [isCalled, isCalled, next?_insert ht]

theorem isKey_insert : isKey (ts ++ t :: us) = isKey (ts ++ us) := by
  unfold isKey
  rcases skipText_insert ht ts us with h | ⟨u, vs, h, h'⟩
  · rw [h]
  · simp only [h, h', next?_insert ht]

theorem scopeAt_insert (scope : MacroScope) (u : Token) :
    scopeAt scope u (ts ++ t :: us) = scopeAt scope u (ts ++ us) := by
  simp only [scopeAt, next?_insert ht]

/-! ### Declared names -/

namespace Symbols

theorem parameterName_insert : parameterName (ts ++ t :: us) = parameterName (ts ++ us) := by
  unfold parameterName
  rcases skipText_insert ht ts us with h | ⟨u, vs, h, h'⟩
  · rw [h]
  · simp only [h, h', next?_insert ht]

theorem aliasName_insert : aliasName (ts ++ t :: us) = aliasName (ts ++ us) := by
  unfold aliasName
  rcases skipText_insert ht ts us with h | ⟨u, vs, h, h'⟩
  · rw [h]
  · simp only [h, h', next?_insert ht]

theorem className_insert : className (ts ++ t :: us) = className (ts ++ us) := by
  induction ts with
  | nil => simp [className, ht]
  | cons u ts ih => simp only [List.cons_append, className, ih]

theorem declared?_insert : declared? (ts ++ t :: us) = declared? (ts ++ us) := by
  induction ts with
  | nil => simp [declared?, ht]
  | cons u ts ih => simp only [List.cons_append, declared?, ih]

theorem variableName_insert (s : Symbols) :
    s.variableName (ts ++ t :: us) = s.variableName (ts ++ us) := by
  rw [variableName, variableName, declared?_insert ht]

theorem note_insert (s : Symbols) (before : Option Token) (u : Token) :
    s.note before u (ts ++ t :: us) = s.note before u (ts ++ us) := by
  have hparameter (s : Symbols) :
      s.noteParameter before u (ts ++ t :: us) = s.noteParameter before u (ts ++ us) := by
    rw [noteParameter, noteParameter, parameterName_insert ht]
  have hclass (s : Symbols) : s.noteClass u (ts ++ t :: us) = s.noteClass u (ts ++ us) := by
    rw [noteClass, noteClass, className_insert ht]
  have halias (s : Symbols) : s.noteAlias u (ts ++ t :: us) = s.noteAlias u (ts ++ us) := by
    rw [noteAlias, noteAlias, aliasName_insert ht]
  have hvariable (s : Symbols) :
      s.noteVariable u (ts ++ t :: us) = s.noteVariable u (ts ++ us) := by
    rw [noteVariable, noteVariable, variableName_insert ht]
  rw [note, hparameter, hclass, halias, hvariable, note]

omit ts in
/-- Plain text declares nothing. -/
theorem note_text (s : Symbols) (before : Option Token) : s.note before t us = s := by
  have hkeyword : Category.isA .text .keyword = false := rfl
  have hopen : Category.isOpenName .text = false := rfl
  simp [note, noteParameter, noteClass, noteAlias, noteVariable, opensParameter, opensClass,
    isType, Token.is, ht, hkeyword, hopen]

theorem collectFrom_insert (s : Symbols) (before : Option Token) :
    collectFrom s before (ts ++ t :: us) = collectFrom s before (ts ++ us) := by
  induction ts generalizing s before with
  | nil => simp only [List.nil_append, collectFrom, note_text ht, if_pos ht]
  | cons u ts ih => simp only [List.cons_append, collectFrom, note_insert ht, ih]

theorem collect_insert : collect (ts ++ t :: us) = collect (ts ++ us) :=
  collectFrom_insert ht ts us empty none

end Symbols

end Insertion

/-! ### Qualified names -/

structure Unlinked (ts us : List Token) : Prop where
  behind : ∀ u ∈ ts.getLast?, ¬ u.is .operator "::"
  ahead : ∀ u ∈ us.head?, ¬ u.is .operator "::"

theorem Unlinked.tail {u : Token} {ts us : List Token} (h : Unlinked (u :: ts) us) :
    Unlinked ts us := by
  refine ⟨fun v hv => h.behind v ?_, h.ahead⟩
  rw [Option.mem_def] at hv
  rw [List.getLast?_cons, hv]
  rfl

theorem segments_eq_nil_of_head {us : List Token} (h : ∀ u ∈ us.head?, ¬ u.is .operator "::") :
    segments us = [] := by
  match us with
  | [] | [_] => rfl
  | op :: v :: us =>
    have hop : op.is .operator "::" = false := by simpa using h op rfl
    simp [segments, hop]

/-- A qualified name ends in front of the text that is put in, or begins behind it. -/
theorem segments_insert {t : Token} (ht : t.kind = .text) {us : List Token} :
    ∀ ts : List Token, Unlinked ts us → segments (ts ++ t :: us) = segments (ts ++ us) ∧
      2 * (segments (ts ++ us)).length ≤ ts.length
  | [], h => by
    have hhead : ∀ u ∈ (t :: us).head?, ¬ u.is .operator "::" := by simp [Token.is, ht]
    have hus : segments us = [] := segments_eq_nil_of_head h.ahead
    simp [segments_eq_nil_of_head hhead, hus]
  | [u], h => by
    have hu : ∀ v ∈ (u :: us).head?, ¬ v.is .operator "::" := by simpa using h.behind
    have hu' : ∀ v ∈ (u :: t :: us).head?, ¬ v.is .operator "::" := by simpa using h.behind
    simp [segments_eq_nil_of_head hu, segments_eq_nil_of_head hu']
  | op :: v :: ts, h => by
    obtain ⟨hs, hlen⟩ := segments_insert ht ts h.tail.tail
    simp only [List.cons_append, segments, hs]
    split_ifs
    · simp only [List.length_cons, true_and]; omega
    · simp

theorem chainTail?_insert {t : Token} (ht : t.kind = .text) {ts us : List Token}
    (h : Unlinked ts us) (u : Token) :
    chainTail? u (ts ++ t :: us) = chainTail? u (ts ++ us) := by
  obtain ⟨hs, hlen⟩ := segments_insert ht ts h
  simp only [chainTail?, hs, List.drop_append_of_le_length hlen, isCalled_insert ht]

theorem length_chainKinds (ts : List Token) (k : Category) :
    (chainKinds ts k).length = 2 * ts.length := by
  induction ts with
  | nil => rfl
  | cons t ts ih =>
    rw [chainKinds_cons, List.length_cons, List.length_cons, ih, List.length_cons]
    omega

/-! ### The pass -/

namespace Context

variable {t : Token} (ht : t.kind = .text) {ts us : List Token} (c : Context) (s : Symbols)
include ht

theorem step_insert (h : Unlinked ts us) (u : Token) :
    c.step s u (ts ++ t :: us) = c.step s u (ts ++ us) := by
  simp only [step, standing, scopeAt_insert ht, chainTail?_insert ht h, (segments_insert ht ts h).1,
    isKey_insert ht, isCalled_insert ht]

omit ht in
/-- What is decided ahead of a token does not reach the place where text may be put in. -/
theorem length_decided_step (h : Unlinked ts us) (u : Token)
    (hc : c.decided.length ≤ ts.length + 1) :
    (c.step s u (ts ++ us)).2.decided.length ≤ ts.length := by
  have hlen := (segments_insert (t := ⟨.start, .text, ""⟩) rfl ts h).2
  obtain ⟨before, last, scope, _ | ⟨k, ks⟩⟩ := c
  case cons => simpa [step] using hc
  simp only [step]
  split_ifs
  · simp
  · cases keyword? u with
    | some k => simp [pass]
    | none =>
      cases chainTail? u (ts ++ us) with
      | some tail => simpa [length_chainKinds] using hlen
      | none => simp [pass]
  · cases keyword? u <;> simp [pass]

theorem reclassify_insert (h : Unlinked ts us) (hc : c.decided.length ≤ ts.length) :
    reclassify s c (ts ++ t :: us) = (reclassify s c (ts ++ us)).take ts.length ++
      t :: (reclassify s c (ts ++ us)).drop ts.length := by
  induction ts generalizing c with
  | nil =>
    have hd : c.decided = [] := by simpa using hc
    have hstep : c.step s t us = (.text, c) := by simp [step, hd, ht]
    have htoken : { t with kind := .text } = t := by rw [← ht]
    simp only [List.nil_append, reclassify, hstep, htoken, List.length_nil, List.take_zero,
      List.drop_zero]
  | cons u ts ih =>
    have hlen := c.length_decided_step s h.tail u hc
    simp only [List.cons_append, reclassify, step_insert ht c s h.tail, ih _ h.tail hlen,
      List.length_cons, List.take_succ_cons, List.drop_succ_cons]

end Context

/-- Plain text with no `::` next to it comes out as it is put in, and all other tokens as if
it were not there. -/
theorem classify_insert {t : Token} (ht : t.kind = .text) {ts us : List Token}
    (h : Unlinked ts us) : classify (ts ++ t :: us) =
      (classify (ts ++ us)).take ts.length ++ t :: (classify (ts ++ us)).drop ts.length := by
  rw [classify, Symbols.collect_insert ht]
  exact reclassify_insert ht _ _ h (Nat.zero_le _)

/-- A blank between a reflection macro and its argument list. -/
theorem classify_insert_behind_macro :
    let blank : Token := ⟨.start, .text, " "⟩
    let ts : List Token := [⟨.start, .name, "UPROPERTY"⟩]
    let us : List Token := [⟨.start, .punctuation, "("⟩, ⟨.start, .name, "EditAnywhere"⟩,
      ⟨.start, .punctuation, ")"⟩]
    Unlinked ts us ∧ (classify (ts ++ us)).map (·.kind) =
        [.nameDecorator, .punctuation, .nameConstant, .punctuation] ∧
      classify (ts ++ blank :: us) =
        (classify (ts ++ us)).take 1 ++ blank :: (classify (ts ++ us)).drop 1 := by
  have h : Unlinked [⟨.start, .name, "UPROPERTY"⟩] [⟨.start, .punctuation, "("⟩,
      ⟨.start, .name, "EditAnywhere"⟩, ⟨.start, .punctuation, ")"⟩] :=
    ⟨by simp [Token.is], by simp [Token.is]⟩
  exact ⟨h, by decide +kernel, classify_insert rfl h⟩

end Highlighter
