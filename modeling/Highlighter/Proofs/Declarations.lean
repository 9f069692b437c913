import Highlighter.Proofs.MacroArguments

/-! Declared names. The symbols of a list are collected in one pass, and where a name stands
does not matter: what any token of the list declares is declared for all of them. Proved: the
collected types and parameters are the names that some token declares, and a plain name that
stands alone becomes a class exactly if its text is such a name or the form of an engine type
decides, unless it names a namespace. -/

namespace Highlighter

open Token Context

/-- The last token that is not plain text. -/
def lastSign? (ts : List Token) : Option Token := next? ts.reverse

@[simp] theorem lastSign?_nil : lastSign? [] = none := rfl

theorem lastSign?_append_singleton (ts : List Token) (t : Token) :
    lastSign? (ts ++ [t]) = if t.kind = .text then lastSign? ts else some t := by
  simp only [lastSign?, next?, skipText, List.reverse_append, List.reverse_singleton,
    List.singleton_append, List.dropWhile_cons, decide_eq_true_eq]
  split_ifs <;> rfl

/-! ### What a token declares -/

/-- The token declares a type or a template parameter with the name, given the tokens before
it and behind it. -/
inductive Declares (before : List Token) (t : Token) (rest : List Token) (name : String) : Prop
  /-- A class, with export macros and reflection macros in front of its name. -/
  | ofClass (hk : t.kind = .keyword) (ht : t.text = "class" ∨ t.text = "struct" ∨ t.text = "union")
      (hn : Symbols.className rest = some name)
  /-- An alias, with an equals sign behind it. -/
  | ofAlias {n : Token} {more : List Token} (hk : t.kind = .keyword) (ht : t.text = "using")
      (hr : skipText rest = n :: more) (ho : n.kind.isOpenName) (hn : n.text = name)
      (he : (next? more).any (·.is .operator "="))
  /-- A template parameter, which does not qualify another name. -/
  | ofParameter {n : Token} {more : List Token}
      (ht : (t.kind.isA .keyword ∧ t.text = "typename") ∨ (t.kind = .keyword ∧ t.text = "class" ∧
        (lastSign? before).any fun p => p.text = "<" || p.text = ","))
      (hr : skipText rest = n :: more) (ho : n.kind.isOpenName) (hn : n.text = name)
      (hs : ¬ (next? more).any (·.is .operator "::"))

def DeclaredIn (ts : List Token) (name : String) : Prop :=
  ∃ before t rest, ts = before ++ t :: rest ∧ Declares before t rest name

namespace Symbols

variable {s : Symbols} {name : String}

theorem aliasName_eq_some_iff {rest : List Token} : aliasName rest = some name ↔
    ∃ n more, skipText rest = n :: more ∧ n.kind.isOpenName ∧ n.text = name ∧
      (next? more).any (·.is .operator "=") := by
  unfold aliasName
  cases skipText rest with
  | nil => simp
  | cons n more =>
    simp only [Option.ite_none_right_eq_some, Bool.and_eq_true, Option.some.injEq,
      List.cons.injEq, ↓existsAndEq, true_and]
    tauto

theorem parameterName_eq_some_iff {rest : List Token} : parameterName rest = some name ↔
    ∃ n more, skipText rest = n :: more ∧ n.kind.isOpenName ∧ n.text = name ∧
      ¬ (next? more).any (·.is .operator "::") := by
  unfold parameterName
  cases skipText rest with
  | nil => simp
  | cons n more =>
    simp only [Option.ite_none_right_eq_some, Bool.and_eq_true, Bool.not_eq_true',
      Option.some.injEq, List.cons.injEq, ↓existsAndEq, true_and, Bool.not_eq_true]
    tauto

/-- What a token declares is told by the words that open a declaration. -/
theorem declares_iff {before : List Token} {t : Token} {rest : List Token} :
    Declares before t rest name ↔
      (opensParameter (lastSign? before) t ∧ parameterName rest = some name) ∨
      (opensClass t ∧ className rest = some name) ∨
      (t.is .keyword "using" ∧ aliasName rest = some name) := by
  simp only [opensParameter, opensClass, Token.is, parameterName_eq_some_iff,
    aliasName_eq_some_iff, Bool.or_eq_true, Bool.and_eq_true, decide_eq_true_eq]
  constructor
  · rintro (⟨hk, ht, hn⟩ | ⟨hk, ht, hr, ho, hn, he⟩ | ⟨ht, hr, ho, hn, hs⟩)
    · exact .inr (.inl ⟨⟨hk, by tauto⟩, hn⟩)
    · exact .inr (.inr ⟨⟨hk, ht⟩, _, _, hr, ho, hn, he⟩)
    · exact .inl ⟨by tauto, _, _, hr, ho, hn, hs⟩
  · rintro (⟨ht, n, more, hr, ho, hn, hs⟩ | ⟨⟨hk, ht⟩, hn⟩ | ⟨⟨hk, ht⟩, n, more, hr, ho, hn, he⟩)
    · exact .ofParameter (by tauto) hr ho hn hs
    · exact .ofClass hk (by tauto) hn
    · exact .ofAlias hk ht hr ho hn he

/-! ### What is collected -/

theorem declaresType_addType (n : String) :
    (s.addType n).declaresType name ↔ s.declaresType name ∨ n = name := by
  simp only [declaresType, hasType, hasParameter, addType, Bool.or_eq_true,
    List.contains_iff_mem, List.mem_insert_iff]
  tauto

theorem declaresType_addParameter (n : String) :
    (s.addParameter n).declaresType name ↔ s.declaresType name ∨ n = name := by
  simp only [declaresType, hasType, hasParameter, addParameter, Bool.or_eq_true,
    List.contains_iff_mem, List.mem_insert_iff]
  tauto

theorem declaresType_elim {add : Symbols → String → Symbols}
    (hadd : ∀ n, (add s n).declaresType name ↔ s.declaresType name ∨ n = name) (c : Bool)
    (o : Option String) : (if c then o.elim s (add s) else s).declaresType name ↔
      s.declaresType name ∨ (c ∧ o = some name) := by
  cases c <;> cases o <;> simp [hadd]

/-- Variables are no types. -/
theorem declaresType_noteVariable (s : Symbols) (t : Token) (rest : List Token) :
    (s.noteVariable t rest).declaresType name = s.declaresType name := by
  unfold noteVariable
  split_ifs
  · cases s.variableName rest <;> rfl
  · rfl

theorem declaresType_note (s : Symbols) (before : List Token) (t : Token) (rest : List Token) :
    (s.note (lastSign? before) t rest).declaresType name ↔
      s.declaresType name ∨ Declares before t rest name := by
  rw [note, declaresType_noteVariable, noteAlias,
    declaresType_elim fun n => declaresType_addType n, noteClass,
    declaresType_elim fun n => declaresType_addType n, noteParameter,
    declaresType_elim fun n => declaresType_addParameter n, declares_iff]
  tauto

theorem declaresType_collectFrom (s : Symbols) (before ts : List Token) :
    (collectFrom s (lastSign? before) ts).declaresType name ↔ s.declaresType name ∨
      ∃ front t rest, ts = front ++ t :: rest ∧ Declares (before ++ front) t rest name := by
  induction ts generalizing s before with
  | nil => simp [collectFrom]
  | cons t ts ih =>
    have hlast : (if t.kind = .text then lastSign? before else some t) = lastSign? (before ++ [t]) :=
      (lastSign?_append_singleton before t).symm
    rw [collectFrom, hlast, ih, declaresType_note, or_assoc]
    refine or_congr_right ⟨?_, ?_⟩
    · rintro (h | ⟨front, u, rest, rfl, h⟩)
      · exact ⟨[], t, ts, rfl, by simpa using h⟩
      · exact ⟨t :: front, u, rest, rfl, by simpa using h⟩
    · rintro ⟨front, u, rest, hts, h⟩
      cases front with
      | nil =>
        cases hts
        exact .inl (by simpa using h)
      | cons v front =>
        cases hts
        exact .inr ⟨front, u, rest, rfl, by simpa using h⟩

/-- The types and parameters that are collected are those that some token declares. -/
theorem declaresType_collect (ts : List Token) (name : String) :
    (collect ts).declaresType name ↔ DeclaredIn ts name := by
  have h : (collect ts).declaresType name ↔ empty.declaresType name ∨ DeclaredIn ts name :=
    declaresType_collectFrom empty [] ts
  rwa [show empty.declaresType name = false from rfl, Bool.false_eq_true, false_or] at h

end Symbols

/-! ### What was decided on last -/

/-- What a later name sees is the last token that is not plain text. -/
theorem foldl_lastOf (ts : List Token) :
    ts.foldl lastOf none = (lastSign? ts).map fun t => (t.kind, t.text) := by
  induction ts using List.reverseRecOn with
  | nil => rfl
  | append_singleton ts t ih =>
    rw [List.foldl_append, ih, lastSign?_append_singleton]
    simp only [List.foldl_cons, List.foldl_nil, lastOf]
    split_ifs <;> rfl

namespace Context

/-- What the pass sees behind some tokens is what they came out as. -/
theorem sees_through {s : Symbols} {c : Context} {last : Option (Category × String)}
    {ts rest : List Token} (h : c.Sees last (ts ++ rest)) :
    (c.through s ts rest).Sees (((reclassify s c (ts ++ rest)).take ts.length).foldl lastOf last)
      rest := by
  induction ts generalizing c last with
  | nil => exact h
  | cons t ts ih => exact ih (h.step s)

theorem last_through {s : Symbols} {ts rest : List Token}
    (hd : (Context.start.through s ts rest).decided = []) :
    (Context.start.through s ts rest).last =
      (lastSign? ((reclassify s .start (ts ++ rest)).take ts.length)).map
        fun t => (t.kind, t.text) := by
  have hstart : Context.start.Sees none (ts ++ rest) := ⟨rfl, by simp [Context.start]⟩
  have h := (sees_through (s := s) hstart).last_eq
  rw [hd, foldl_lastOf] at h
  exact h

end Context

/-! ### Names that stand alone -/

/-- The token is a plain name that is no word of the language and no part of a qualified name:
no `::` joins it to a part in front of it or to a name behind it. -/
structure StandsAlone (before : List Token) (t : Token) (rest : List Token) : Prop where
  kind_eq : t.kind = .name
  no_keyword : ¬ Names.isKeyword t.text
  no_joint : endsInJoint before.reverse = false
  no_part : ∀ op u us, rest = op :: u :: us → op.isJoint → u.kind.isA .name = false

/-- These are the plain names that the pass comes to outside of qualified names. -/
theorem standsAlone_iff {before rest : List Token} {t : Token} (ht : t.kind = .name)
    (s : Symbols) : StandsAlone before t rest ↔
      (Context.start.through s before (t :: rest)).AtSingle t rest := by
  have hname : t.kind.isA .name := by rw [ht]; rfl
  have hopen : t.kind.isOpenName := by rw [ht]; rfl
  have hdecided := decided_through_iff s before hname rest
  have hkeyword : keyword? t = none ↔ ¬ Names.isKeyword t.text := by
    simp [keyword?, hname]
  constructor
  · rintro ⟨-, hk, hj, hp⟩
    exact ⟨hdecided.2 hj, hopen, hkeyword.2 hk, chainTail?_eq_none_iff.2 (segments_eq_nil_iff.2 hp)⟩
  · rintro ⟨hd, -, hk, hc⟩
    exact ⟨ht, hkeyword.1 hk, hdecided.1 hd, segments_eq_nil_iff.1 (chainTail?_eq_none_iff.1 hc)⟩

/-- The form of an engine type is the only convention that makes a class of a name, and it
gives way to the names of macros. -/
theorem convention?_eq_nameClass_iff (n : Standing) (s : Symbols)
    (last : Option (Category × String)) (name : String) :
    n.convention? s last name = some .nameClass ↔
      ¬ Names.isCoreMacro name ∧ ¬ Names.isUtilityMacro name ∧ Names.isEngineType name := by
  unfold Standing.convention?
  cases Names.isCoreMacro name with
  | true => simp
  | false =>
    cases Names.isUtilityMacro name with
    | true => simp
    | false =>
      cases Names.isEngineType name with
      | true => simp
      | false =>
        simp only [Bool.false_eq_true, if_false, and_false, iff_false]
        split_ifs <;> simp

/-- A plain name becomes a class if it is declared as one, or by the form of an engine type. -/
theorem nameKind_eq_nameClass_iff (n : Standing) (s : Symbols) (last : Option (Category × String))
    {t : Token} (ht : t.kind = .name) : n.nameKind s last t = .nameClass ↔
      n.behindNamespace = false ∧ (s.declaresType t.text ∨
        (¬ Names.isCoreMacro t.text ∧ ¬ Names.isUtilityMacro t.text ∧
          Names.isEngineType t.text)) := by
  rw [← convention?_eq_nameClass_iff n s last, Standing.nameKind, ht]
  cases n.behindNamespace with
  | true => simp
  | false =>
    cases s.declaresType t.text with
    | true => simp
    | false => cases n.convention? s last t.text <;> simp

/-- A name outside of qualified names comes out by what stands around it. -/
theorem getElem?_classify_single {before rest : List Token} {t : Token} {s : Symbols}
    (hs : Symbols.collect (before ++ t :: rest) = s)
    (h : (Context.start.through s before (t :: rest)).AtSingle t rest) :
    (classify (before ++ t :: rest))[before.length]? = some { t with
      kind := ((Context.start.through s before (t :: rest)).standingAt t rest).nameKind s
        (Context.start.through s before (t :: rest)).last t } := by
  rw [classify, hs, ← Nat.add_zero before.length, ← List.getElem?_drop, drop_reclassify,
    ← h.step_fst]
  rfl

/-- A plain name that stands alone comes out as a class exactly if the last token before it
that is not plain text does not come out as the keyword `namespace`, and its text is declared
somewhere in the list, or is no macro and has the form of an engine type. -/
theorem classify_nameClass_iff {before rest : List Token} {t : Token}
    (h : StandsAlone before t rest) :
    (classify (before ++ t :: rest))[before.length]? = some { t with kind := .nameClass } ↔
      ¬ ((lastSign? ((classify (before ++ t :: rest)).take before.length)).any fun u =>
          u.kind.isA .keyword && u.text = "namespace") ∧
        (DeclaredIn (before ++ t :: rest) t.text ∨
          (¬ Names.isCoreMacro t.text ∧ ¬ Names.isUtilityMacro t.text ∧
            Names.isEngineType t.text)) := by
  generalize hs : Symbols.collect (before ++ t :: rest) = s
  have hsingle := (standsAlone_iff h.kind_eq s).1 h
  have hlast := last_through hsingle.decided
  have hclassify : classify (before ++ t :: rest) = reclassify s .start (before ++ t :: rest) := by
    rw [classify, hs]
  have hkind := getElem?_classify_single hs hsingle
  have hbehind : ((Context.start.through s before (t :: rest)).standingAt t rest).behindNamespace =
      (lastSign? ((classify (before ++ t :: rest)).take before.length)).any fun u =>
        u.kind.isA .keyword && u.text = "namespace" := by
    change (Context.start.through s before (t :: rest)).last.any _ = _
    rw [hlast, Option.any_map, hclassify]
  rw [hkind, Option.some_inj, ← Symbols.declaresType_collect, hs, Bool.not_eq_true, ← hbehind,
    ← nameKind_eq_nameClass_iff _ s (Context.start.through s before (t :: rest)).last h.kind_eq]
  exact ⟨fun he => congrArg Token.kind he, fun he => by rw [he]⟩

/-- A class that is declared behind the place where its name stands, with an export macro in
front of the name. -/
theorem classify_nameClass_declaredLater :
    let box : Token := ⟨.start, .name, "Box"⟩
    let rest : List Token := [⟨.start, .punctuation, ";"⟩, ⟨.start, .keyword, "class"⟩,
      ⟨.start, .name, "GAME_API"⟩, ⟨.start, .text, " "⟩, ⟨.start, .nameClass, "Box"⟩]
    StandsAlone [] box rest ∧ (classify (box :: rest))[0]? = some { box with kind := .nameClass } := by
  intro box rest
  have halone : StandsAlone [] box rest := by
    refine ⟨rfl, by decide +kernel, rfl, ?_⟩
    intro op u us h hj
    rw [← (List.cons.inj h).1] at hj
    cases hj
  have hdeclared : DeclaredIn (box :: rest) "Box" :=
    ⟨box :: rest.take 1, ⟨.start, .keyword, "class"⟩, rest.drop 2, rfl,
      .ofClass rfl (.inl rfl) (by decide +kernel)⟩
  exact ⟨halone, (classify_nameClass_iff halone).2 ⟨by decide +kernel, .inl hdeclared⟩⟩

end Highlighter
