import Mathlib.Logic.Embedding.Basic
import Highlighter.Proofs.Recast

/-! Other names for the same things. A pass over C++ tokens compares texts with word lists,
with naming conventions, with a few words of the language and with the names that are
declared among the tokens. A plain name is an identifier that none of the lists and
conventions knows. Proved: where plain names are replaced by others, different ones by
different ones, a pass gives the categories that it gives for the old names. -/

namespace Highlighter

open Token Context

/-! ### Plain names -/

namespace Names

/-- ASCII letters, digits and underscores, with no digit in front. -/
def isIdentifier (s : String) : Bool :=
  match s.toList with
  | c :: cs => (c.isAlpha || c == '_') && cs.all isIdentTail
  | [] => false

/-- Whether some word list or naming convention knows the text. -/
def isKnown (s : String) : Bool :=
  s == "std" || isKeyword s || isControlKeyword s || isNeverCalled s || isSpecifier s ||
    isCoreMacro s || isUtilityMacro s || isEngineType s || isLibraryType s || isStream s ||
    isLibraryFunction s || hasEnumForm s || hasLogForm s || hasExportForm s

theorem isKnown_iff (s : String) : isKnown s ↔
    s = "std" ∨ isKeyword s ∨ isControlKeyword s ∨ isNeverCalled s ∨ isSpecifier s ∨
      isCoreMacro s ∨ isUtilityMacro s ∨ isEngineType s ∨ isLibraryType s ∨ isStream s ∨
      isLibraryFunction s ∨ hasEnumForm s ∨ hasLogForm s ∨ hasExportForm s := by
  simp [isKnown, or_assoc]

def isPlain (s : String) : Bool := isIdentifier s && !isKnown s

theorem isIdentTail_of_mem {s : String} (h : isPlain s) {c : Char} (hc : c ∈ s.toList) :
    isIdentTail c := by
  simp only [isPlain, Bool.and_eq_true, isIdentifier] at h
  replace h := h.1
  split at h
  · next d ds hs =>
    rw [hs, List.mem_cons] at hc
    simp only [Bool.and_eq_true, Bool.or_eq_true, List.all_eq_true] at h
    rcases hc with rfl | hc
    · rcases h.1 with h | h
      · simp [isIdentTail, Char.isAlphanum, h]
      · simp [isIdentTail, h]
    · exact h.2 c hc
  · cases h

end Names

abbrev PlainName := { s : String // Names.isPlain s }

namespace Names

variable (f : PlainName ↪ PlainName)

/-- The text in which a plain name is replaced. -/
def rename (s : String) : String := if h : isPlain s then (f ⟨s, h⟩).1 else s

theorem isPlain_rename (s : String) : isPlain (rename f s) = isPlain s := by
  unfold rename
  split_ifs with h
  · rw [h, (f ⟨s, h⟩).2]
  · rfl

theorem rename_injective : Function.Injective (rename f) := by
  intro s t h
  have hplain : isPlain s = isPlain t := by rw [← isPlain_rename f, h, isPlain_rename]
  by_cases hs : isPlain s
  · have ht : isPlain t := hplain ▸ hs
    simp only [rename, hs, ht, dif_pos] at h
    exact Subtype.mk.inj (f.injective (Subtype.ext h))
  · have ht : ¬ isPlain t := hplain ▸ hs
    rwa [rename, dif_neg hs, rename, dif_neg ht] at h

/-- A test that does not tell plain names apart gives the same for both names. -/
theorem test_rename {α : Type} {test : String → α}
    (h : ∀ s t, isPlain s → isPlain t → test s = test t) (s : String) :
    test (rename f s) = test s := by
  unfold rename
  split_ifs with hs
  · exact h _ _ (f ⟨s, hs⟩).2 hs
  · rfl

theorem known_rename {test : String → Bool} (h : ∀ s, test s → isKnown s) (s : String) :
    test (rename f s) = test s := by
  have hplain (s : String) (hs : isPlain s) : test s = false := by
    simp only [isPlain, Bool.and_eq_true, Bool.not_eq_true'] at hs
    refine Bool.eq_false_iff.2 fun ht => ?_
    rw [h s ht] at hs
    cases hs.2
  exact test_rename f (fun s t hs ht => by rw [hplain s hs, hplain t ht]) s

@[simp] theorem isCoreMacro_rename (s : String) : isCoreMacro (rename f s) = isCoreMacro s :=
  known_rename f (by simp +contextual [isKnown_iff]) s

@[simp] theorem isUtilityMacro_rename (s : String) :
    isUtilityMacro (rename f s) = isUtilityMacro s :=
  known_rename f (by simp +contextual [isKnown_iff]) s

@[simp] theorem isEngineType_rename (s : String) : isEngineType (rename f s) = isEngineType s :=
  known_rename f (by simp +contextual [isKnown_iff]) s

@[simp] theorem isLibraryType_rename (s : String) : isLibraryType (rename f s) = isLibraryType s :=
  known_rename f (by simp +contextual [isKnown_iff]) s

@[simp] theorem isStream_rename (s : String) : isStream (rename f s) = isStream s :=
  known_rename f (by simp +contextual [isKnown_iff]) s

@[simp] theorem isLibraryFunction_rename (s : String) :
    isLibraryFunction (rename f s) = isLibraryFunction s :=
  known_rename f (by simp +contextual [isKnown_iff]) s

@[simp] theorem isKeyword_rename (s : String) : isKeyword (rename f s) = isKeyword s :=
  known_rename f (by simp +contextual [isKnown_iff]) s

@[simp] theorem isControlKeyword_rename (s : String) :
    isControlKeyword (rename f s) = isControlKeyword s :=
  known_rename f (by simp +contextual [isKnown_iff]) s

@[simp] theorem isNeverCalled_rename (s : String) : isNeverCalled (rename f s) = isNeverCalled s :=
  known_rename f (by simp +contextual [isKnown_iff]) s

@[simp] theorem isSpecifier_rename (s : String) : isSpecifier (rename f s) = isSpecifier s :=
  known_rename f (by simp +contextual [isKnown_iff]) s

@[simp] theorem hasEnumForm_rename (s : String) : hasEnumForm (rename f s) = hasEnumForm s :=
  known_rename f (by simp +contextual [isKnown_iff]) s

@[simp] theorem hasLogForm_rename (s : String) : hasLogForm (rename f s) = hasLogForm s :=
  known_rename f (by simp +contextual [isKnown_iff]) s

@[simp] theorem hasExportForm_rename (s : String) : hasExportForm (rename f s) = hasExportForm s :=
  known_rename f (by simp +contextual [isKnown_iff]) s

/-- The words and signs that a pass looks for one by one. -/
def fixedWords : List String :=
  ["(", "<", ",", "=", "::", "->", ".", "std", "namespace", "typename", "class", "struct", "union",
   "using"]

theorem isPlain_of_mem_fixedWords : ∀ w ∈ fixedWords, isPlain w = false := by decide +kernel

/-- A fixed word is met where it was. -/
theorem decide_rename {w : String} (hw : w ∈ fixedWords) (s : String) :
    decide (rename f s = w) = decide (s = w) := by
  have hplain (s : String) (hs : isPlain s) : s ≠ w := by
    rintro rfl; rw [isPlain_of_mem_fixedWords s hw] at hs; cases hs
  have hsame (s t : String) (hs : isPlain s) (ht : isPlain t) :
      decide (s = w) = decide (t = w) := by
    simp only [hplain s hs, hplain t ht]
  exact test_rename f hsame s

end Names

open Names

/-- Only signs are declarators. -/
theorem isDeclarator_rename (f : PlainName ↪ PlainName) (s : String) :
    isDeclarator (rename f s) = isDeclarator s := by
  have hplain (s : String) (hs : isPlain s) : isDeclarator s = false := by
    have hsign {c : Char} (hc : isIdentTail c = false) : c ∉ s.toList := fun hmem => by
      rw [isIdentTail_of_mem hs hmem] at hc; cases hc
    have hlast : s.toList.getLast? ≠ some '>' := fun h =>
      hsign (c := '>') (by decide) (List.mem_of_getLast? h)
    have hstar : s ≠ "*" := by rintro rfl; exact hsign (c := '*') (by decide) (by decide)
    have hamp : s ≠ "&" := by rintro rfl; exact hsign (c := '&') (by decide) (by decide)
    have hamps : s ≠ "&&" := by rintro rfl; exact hsign (c := '&') (by decide) (by decide)
    simp [isDeclarator, hlast, hstar, hamp, hamps]
  exact test_rename f (fun s t hs ht => by rw [hplain s hs, hplain t ht]) s

/-- Names hold no parentheses. -/
theorem trackAll_rename (f : PlainName ↪ PlainName) (scope : MacroScope) (s : String) :
    scope.trackAll (rename f s) = scope.trackAll s := by
  have hplain (s : String) (hs : isPlain s) : scope.trackAll s = scope := by
    have hfold (cs : List Char) (h : ∀ c ∈ cs, isIdentTail c) :
        cs.foldl MacroScope.track scope = scope := by
      induction cs with
      | nil => rfl
      | cons c cs ih =>
        obtain ⟨hc, hcs⟩ := List.forall_mem_cons.1 h
        have hkeep : MacroScope.track scope c = scope := by
          unfold MacroScope.track
          split
          · cases hc
          · cases hc
          · rfl
        rw [List.foldl_cons, hkeep, ih hcs]
    exact hfold _ fun c hc => isIdentTail_of_mem hs hc
  exact test_rename f (fun s t hs ht => by rw [hplain s hs, hplain t ht]) s

/-! ### Tokens -/

namespace Token

abbrev renamed (f : PlainName ↪ PlainName) (t : Token) : Token := { t with text := rename f t.text }

variable (f : PlainName ↪ PlainName) (t : Token)

/-- Tokens with a fixed word are met where they were. -/
theorem is_renamed (kind : Category) {w : String} (hw : w ∈ fixedWords) :
    (t.renamed f).is kind w = t.is kind w := by
  simp only [Token.is, decide_rename f hw]

@[simp] theorem opensArguments_renamed : (t.renamed f).opensArguments = t.opensArguments := by
  simp (disch := decide) only [opensArguments, is_renamed]

theorem opensMember_renamed : opensMember (t.renamed f) = opensMember t := by
  simp (disch := decide) only [opensMember, is_renamed]

theorem keyword?_renamed : keyword? (t.renamed f) = keyword? t := by
  simp only [keyword?, isKeyword_rename, isControlKeyword_rename]

end Token

section Ahead

variable (f : PlainName ↪ PlainName) (ts : List Token)

theorem skipText_renamed : skipText (ts.map (.renamed f)) = (skipText ts).map (.renamed f) :=
  List.dropWhile_map

theorem next?_renamed : next? (ts.map (.renamed f)) = (next? ts).map (.renamed f) := by
  rw [next?, skipText_renamed, List.head?_map, next?]

/-- A test of the next token that sees its category and no name. -/
theorem any_next?_renamed {test : Token → Bool} (h : ∀ t, test (t.renamed f) = test t) :
    (next? (ts.map (.renamed f))).any test = (next? ts).any test := by
  rw [next?_renamed, Option.any_map]
  exact congrArg (fun test => (next? ts).any test) (funext h)

theorem any_next?_is_renamed (kind : Category) {w : String} (hw : w ∈ fixedWords) :
    (next? (ts.map (.renamed f))).any (·.is kind w) = (next? ts).any (·.is kind w) :=
  any_next?_renamed f ts fun t => is_renamed f t kind hw

theorem isCalled_renamed : isCalled (ts.map (.renamed f)) = isCalled ts :=
  any_next?_renamed f ts (opensArguments_renamed f)

theorem isKey_renamed : isKey (ts.map (.renamed f)) = isKey ts := by
  unfold isKey
  rw [skipText_renamed]
  cases skipText ts with
  | nil => rfl
  | cons eq rest =>
    simp (disch := decide) only [List.map_cons, is_renamed]
    rw [any_next?_renamed f rest fun _ => rfl]

theorem scopeAt_renamed (scope : MacroScope) (t : Token) :
    scopeAt scope (t.renamed f) (ts.map (.renamed f)) = scopeAt scope t ts := by
  simp (disch := decide) only [scopeAt, isCoreMacro_rename, any_next?_is_renamed,
    trackAll_rename]

theorem segments_renamed : segments (ts.map (.renamed f)) = (segments ts).map (.renamed f) := by
  fun_induction segments ts with
  | case1 op t rest hc ih =>
    simp (disch := decide) only [List.map_cons, segments, is_renamed, hc, ih]
    rfl
  | case2 op t rest hc =>
    simp (disch := decide) only [List.map_cons, segments, is_renamed, hc]
    rfl
  | case3 rest hrest =>
    rcases rest with _ | ⟨op, _ | ⟨t, rest⟩⟩
    · rfl
    · rfl
    · exact absurd rfl (hrest op t rest)

end Ahead

/-! ### Declared names -/

/-- A name is in a list if the new name is in the list of new names. -/
theorem contains_map_rename (f : PlainName ↪ PlainName) (l : List String) (s : String) :
    (l.map (rename f)).contains (rename f s) = l.contains s := by
  simp [List.mem_map_of_injective (rename_injective f)]

theorem insert_map_rename (f : PlainName ↪ PlainName) (l : List String) (s : String) :
    (l.map (rename f)).insert (rename f s) = (l.insert s).map (rename f) := by
  unfold List.insert
  rw [contains_map_rename]
  split_ifs <;> rfl

namespace Symbols

variable (f : PlainName ↪ PlainName)

def renamed (s : Symbols) : Symbols :=
  ⟨s.parameters.map (rename f), s.types.map (rename f), s.vars.map (rename f)⟩

variable (s : Symbols) (name : String)

@[simp] theorem hasType_renamed : (s.renamed f).hasType (rename f name) = s.hasType name :=
  contains_map_rename f _ _

@[simp] theorem hasParameter_renamed :
    (s.renamed f).hasParameter (rename f name) = s.hasParameter name :=
  contains_map_rename f _ _

@[simp] theorem hasVariable_renamed :
    (s.renamed f).hasVariable (rename f name) = s.hasVariable name :=
  contains_map_rename f _ _

@[simp] theorem declaresType_renamed :
    (s.renamed f).declaresType (rename f name) = s.declaresType name := by
  simp only [declaresType, hasType_renamed, hasParameter_renamed]

theorem addParameter_renamed :
    (s.renamed f).addParameter (rename f name) = (s.addParameter name).renamed f := by
  simp only [addParameter, renamed, insert_map_rename]

theorem addType_renamed : (s.renamed f).addType (rename f name) = (s.addType name).renamed f := by
  simp only [addType, renamed, insert_map_rename]

theorem addVariable_renamed :
    (s.renamed f).addVariable (rename f name) = (s.addVariable name).renamed f := by
  simp only [addVariable, renamed, insert_map_rename]

variable (before : Option Token) (t : Token) (ts : List Token)

theorem opensParameter_renamed :
    opensParameter (before.map (.renamed f)) (t.renamed f) = opensParameter before t := by
  have hbefore : (before.map (Token.renamed f)).any (fun p => p.text = "<" || p.text = ",") =
      before.any fun p => p.text = "<" || p.text = "," := by
    cases before with
    | none => rfl
    | some p =>
      simp (disch := decide) only [Option.map_some, Option.any_some, decide_rename]
  simp (disch := decide) only [opensParameter, decide_rename, is_renamed, hbefore]

theorem opensClass_renamed : opensClass (t.renamed f) = opensClass t := by
  simp (disch := decide) only [opensClass, decide_rename]

theorem isType_renamed : (s.renamed f).isType (t.renamed f) = s.isType t := by
  simp only [isType, declaresType_renamed, isLibraryType_rename, isEngineType_rename]

theorem parameterName_renamed :
    parameterName (ts.map (.renamed f)) = (parameterName ts).map (rename f) := by
  unfold parameterName
  rw [skipText_renamed]
  cases skipText ts with
  | nil => rfl
  | cons name rest =>
    simp (disch := decide) only [List.map_cons, any_next?_is_renamed]
    split_ifs <;> rfl

theorem aliasName_renamed : aliasName (ts.map (.renamed f)) = (aliasName ts).map (rename f) := by
  unfold aliasName
  rw [skipText_renamed]
  cases skipText ts with
  | nil => rfl
  | cons name rest =>
    simp (disch := decide) only [List.map_cons, any_next?_is_renamed]
    split_ifs <;> rfl

theorem className_renamed : className (ts.map (.renamed f)) = (className ts).map (rename f) := by
  induction ts with
  | nil => rfl
  | cons t ts ih =>
    have hexport : isExport (t.renamed f) = isExport t := by
      simp only [isExport, hasExportForm_rename, isCoreMacro_rename]
    simp only [List.map_cons, className, hexport, ih, apply_ite (Option.map (rename f)),
      Option.map_some, Option.map_none]

theorem declared?_renamed : declared? (ts.map (.renamed f)) = (declared? ts).map (.renamed f) := by
  induction ts with
  | nil => rfl
  | cons t ts ih =>
    simp only [List.map_cons, declared?, isDeclarator_rename, ih,
      apply_ite (Option.map (Token.renamed f)), Option.map_some]

theorem variableName_renamed : (s.renamed f).variableName (ts.map (.renamed f)) =
    (s.variableName ts).map (rename f) := by
  unfold variableName
  rw [declared?_renamed]
  cases declared? ts with
  | none => rfl
  | some t =>
    simp only [Option.map_some, hasType_renamed, isEngineType_rename]
    split_ifs <;> rfl

/-- What is noted under a new name is the new name of what is noted. -/
theorem elim_renamed (add : Symbols → String → Symbols)
    (h : ∀ name, add (s.renamed f) (rename f name) = (add s name).renamed f)
    (name : Option String) :
    (name.map (rename f)).elim (s.renamed f) (add (s.renamed f)) =
      (name.elim s (add s)).renamed f := by
  cases name with
  | none => rfl
  | some name => exact h name

theorem note_renamed :
    (s.renamed f).note (before.map (.renamed f)) (t.renamed f) (ts.map (.renamed f)) =
      (s.note before t ts).renamed f := by
  have hparameter (s : Symbols) : (s.renamed f).noteParameter (before.map (.renamed f))
      (t.renamed f) (ts.map (.renamed f)) = (s.noteParameter before t ts).renamed f := by
    rw [noteParameter, noteParameter, opensParameter_renamed, parameterName_renamed,
      elim_renamed f s addParameter (addParameter_renamed f s), apply_ite (renamed f)]
  have hclass (s : Symbols) : (s.renamed f).noteClass (t.renamed f) (ts.map (.renamed f)) =
      (s.noteClass t ts).renamed f := by
    rw [noteClass, noteClass, opensClass_renamed, className_renamed,
      elim_renamed f s addType (addType_renamed f s), apply_ite (renamed f)]
  have halias (s : Symbols) : (s.renamed f).noteAlias (t.renamed f) (ts.map (.renamed f)) =
      (s.noteAlias t ts).renamed f := by
    rw [noteAlias, noteAlias, is_renamed f t _ (by simp [fixedWords]), aliasName_renamed,
      elim_renamed f s addType (addType_renamed f s), apply_ite (renamed f)]
  have hvariable (s : Symbols) : (s.renamed f).noteVariable (t.renamed f)
      (ts.map (.renamed f)) = (s.noteVariable t ts).renamed f := by
    rw [noteVariable, noteVariable, isType_renamed, variableName_renamed,
      elim_renamed f s addVariable (addVariable_renamed f s), apply_ite (renamed f)]
  rw [note, hparameter, hclass, halias, hvariable, note]

theorem collectFrom_renamed :
    collectFrom (s.renamed f) (before.map (.renamed f)) (ts.map (.renamed f)) =
      (collectFrom s before ts).renamed f := by
  induction ts generalizing s before with
  | nil => rfl
  | cons t ts ih =>
    have hbefore : (if t.kind = .text then before.map (.renamed f) else some (t.renamed f)) =
        (if t.kind = .text then before else some t).map (.renamed f) := by
      split_ifs <;> rfl
    rw [List.map_cons, collectFrom, collectFrom, note_renamed, hbefore, ih]

theorem collect_renamed : collect (ts.map (.renamed f)) = (collect ts).renamed f :=
  collectFrom_renamed f empty none ts

end Symbols

/-! ### The pass -/

section Kinds

variable (f : PlainName ↪ PlainName)

theorem tailKind_rename (root parent name : String) (called : Bool) :
    tailKind (rename f root) (rename f parent) (rename f name) called =
      tailKind root parent name called := by
  have hstd : (rename f root = "std") = (root = "std") :=
    propext (decide_eq_decide.1 (decide_rename f (by simp [fixedWords]) root))
  simp only [tailKind, hasEnumForm_rename, hstd, isStream_rename, isLibraryFunction_rename,
    isLibraryType_rename]

theorem chainTail?_renamed (t : Token) (ts : List Token) :
    chainTail? (t.renamed f) (ts.map (.renamed f)) =
      (chainTail? t ts).map fun tail => (tail.1.renamed f, tail.2) := by
  have hparent (o : Option Token) : ((o.map (.renamed f)).getD (t.renamed f)).text =
      rename f (o.getD t).text := by
    cases o <;> rfl
  simp only [chainTail?, segments_renamed, List.getLast?_map, ← List.map_dropLast, hparent,
    List.length_map, ← List.map_drop, isCalled_renamed]
  cases (segments ts).getLast? with
  | none => rfl
  | some tail => simp only [Option.map_some, tailKind_rename]

def renamedLast (last : Option (Category × String)) : Option (Category × String) :=
  last.map fun l => (l.1, rename f l.2)

theorem afterType_renamed (last : Option (Category × String)) (s : Symbols) :
    Standing.afterType (renamedLast f last) (s.renamed f) = Standing.afterType last s := by
  rcases last with _ | ⟨k, text⟩
  · rfl
  · cases k <;> simp only [renamedLast, Option.map_some, Standing.afterType,
      Symbols.hasType_renamed, isSpecifier_rename, isDeclarator_rename]

theorem nameKind_renamed (n : Standing) (s : Symbols) (last : Option (Category × String))
    (t : Token) :
    n.nameKind (s.renamed f) (renamedLast f last) (t.renamed f) = n.nameKind s last t := by
  have hconvention : n.convention? (s.renamed f) (renamedLast f last) (rename f t.text) =
      n.convention? s last t.text := by
    simp only [Standing.convention?, isCoreMacro_rename, isUtilityMacro_rename,
      isEngineType_rename, hasLogForm_rename, isStream_rename, isLibraryFunction_rename,
      isNeverCalled_rename, afterType_renamed, Symbols.hasVariable_renamed]
  simp only [Standing.nameKind, Symbols.declaresType_renamed, hconvention]

namespace Context

/-- The state of the pass over tokens with new names. -/
def renamed (c : Context) : Context :=
  ⟨c.before.map (.renamed f), renamedLast f c.last, c.scope, c.decided⟩

theorem afterNamespace_renamed (c : Context) :
    (c.renamed f).afterNamespace = c.afterNamespace := by
  obtain ⟨before, _ | ⟨k, text⟩, scope, decided⟩ := c
  · rfl
  · simp (disch := decide) only [renamed, renamedLast, Option.map_some, afterNamespace,
      Option.any_some, decide_rename]

theorem afterMemberAccess_renamed (c : Context) :
    (c.renamed f).afterMemberAccess = c.afterMemberAccess := by
  obtain ⟨_ | t, last, scope, decided⟩ := c
  · rfl
  · exact opensMember_renamed f t

theorem standing_renamed (c : Context) (ts : List Token) :
    (c.renamed f).standing (ts.map (.renamed f)) = c.standing ts := by
  rw [standing, afterNamespace_renamed, afterMemberAccess_renamed, isKey_renamed,
    isCalled_renamed]
  rfl

/-- A step gives the same category and goes on with the new names. -/
theorem step_renamed (c : Context) (s : Symbols) (t : Token) (ts : List Token) :
    (c.renamed f).step (s.renamed f) (t.renamed f) (ts.map (.renamed f)) =
      ((c.step s t ts).1, (c.step s t ts).2.renamed f) := by
  obtain ⟨before, last, scope, _ | ⟨k, ks⟩⟩ := c
  case cons => rfl
  have hstanding := standing_renamed f ⟨before, last, scopeAt scope t ts, []⟩ ts
  have hchain (k : Category) :
      chainKinds (segments (ts.map (.renamed f))) k = chainKinds (segments ts) k :=
    chainKinds_congr k (by rw [segments_renamed, List.length_map])
  simp only [renamed] at hstanding
  simp only [step, renamed, scopeAt_renamed, keyword?_renamed, chainTail?_renamed]
  split_ifs with ht ho
  · rfl
  · cases keyword? t with
    | some k => rfl
    | none =>
      cases chainTail? t ts with
      | some tail => simp only [Option.map_some, hchain, renamedLast]
      | none =>
        simp only [Option.map_none, hstanding, nameKind_renamed]
        rfl
  · cases keyword? t <;> rfl

theorem reclassify_renamed (s : Symbols) (c : Context) (ts : List Token) :
    reclassify (s.renamed f) (c.renamed f) (ts.map (.renamed f)) =
      (reclassify s c ts).map (.renamed f) := by
  induction ts generalizing c with
  | nil => rfl
  | cons t ts ih => simp only [List.map_cons, reclassify, step_renamed, ih]

end Context

end Kinds

theorem classify_renamed (f : PlainName ↪ PlainName) (ts : List Token) :
    classify (ts.map (.renamed f)) = (classify ts).map (.renamed f) := by
  rw [classify, Symbols.collect_renamed]
  exact Context.reclassify_renamed f _ .start ts

/-- A pass gives the same categories if plain names are replaced one to one. -/
theorem kinds_classify_renamed (f : PlainName ↪ PlainName) (ts : List Token) :
    (classify (ts.map (.renamed f))).map (·.kind) = (classify ts).map (·.kind) := by
  rw [classify_renamed, List.map_map]
  rfl

end Highlighter
