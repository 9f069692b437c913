import Mathlib.Data.List.DropRight
import Mathlib.Tactic.SplitIfs
import Highlighter.Config.Basic

/-! Names of languages in other letters and between white space. The names and tags that are
built in are found in any such form. An alias is found by its own name and by names with its
letters in capitals, if its name has none; white space is not removed to find one. Proved: the
languages of a configuration depend on capitals exactly if an alias stands for something else
than its name in small letters, and on capitals or white space exactly if an alias stands for
something else than its name does without it. -/

namespace Highlighter

open Text

namespace Text

/-! ### Small letters -/

def capitals : List Char := "ABCDEFGHIJKLMNOPQRSTUVWXYZ".toList

theorem toLower_eq_self_or (c : Char) : c.toLower = c ∨ c ∈ capitals := by
  by_cases h : c.val ≥ 'A'.val ∧ c.val ≤ 'Z'.val
  · right
    have hall : ∀ n : Fin 91, 65 ≤ n.val → Char.ofNat n ∈ capitals := by decide
    have hlow : 65 ≤ c.toNat := UInt32.le_iff_toNat_le.1 h.1
    have hhigh : c.toNat ≤ 90 := UInt32.le_iff_toNat_le.1 h.2
    have hmem := hall ⟨c.toNat, by omega⟩ hlow
    rwa [Char.ofNat_toNat] at hmem
  · exact .inl (dif_neg h)

@[simp] theorem toLower_toLower (c : Char) : c.toLower.toLower = c.toLower := by
  rcases toLower_eq_self_or c with h | h
  · rw [h, h]
  · have hall : capitals.all fun c => c.toLower.toLower == c.toLower := by decide
    exact beq_iff_eq.1 (List.all_eq_true.1 hall c h)

@[simp] theorem isSpace_toLower (c : Char) : isSpace c.toLower = isSpace c := by
  rcases toLower_eq_self_or c with h | h
  · rw [h]
  · have hall : capitals.all fun c => isSpace c.toLower == isSpace c := by decide
    exact beq_iff_eq.1 (List.all_eq_true.1 hall c h)

def lowered (s : String) : String := String.ofList (s.toList.map Char.toLower)

@[simp] theorem toList_lowered (s : String) : (lowered s).toList = s.toList.map Char.toLower :=
  String.toList_ofList

@[simp] theorem length_lowered (s : String) : (lowered s).length = s.length := by
  rw [← String.length_toList, toList_lowered, List.length_map, String.length_toList]

@[simp] theorem lowered_lowered (s : String) : lowered (lowered s) = lowered s := by
  apply String.toList_injective
  simp

/-! ### White space -/

theorem trim_eq (cs : List Char) : trim cs = (cs.dropWhile isSpace).rdropWhile isSpace := rfl

/-- White space around a text is removed, whether or not the text begins or ends with more. -/
theorem trim_append_append {a cs b : List Char} (ha : ∀ c ∈ a, isSpace c)
    (hb : ∀ c ∈ b, isSpace c) : trim (a ++ cs ++ b) = trim cs := by
  have hnil : b.dropWhile isSpace = [] := List.dropWhile_eq_nil_iff.2 hb
  have hend (l : List Char) : (l ++ b).rdropWhile isSpace = l.rdropWhile isSpace := by
    rw [List.rdropWhile, List.reverse_append, List.dropWhile_append_of_pos]
    · rfl
    · simpa using hb
  rw [trim_eq, trim_eq, List.append_assoc, List.dropWhile_append_of_pos ha, List.dropWhile_append]
  split_ifs with h
  · rw [hnil, List.isEmpty_iff.1 h]
  · exact hend _

theorem trim_map_toLower (cs : List Char) :
    trim (cs.map Char.toLower) = (trim cs).map Char.toLower := by
  have hcomp : isSpace ∘ Char.toLower = isSpace := funext isSpace_toLower
  rw [trim, trim, List.dropWhile_map, hcomp, ← List.map_reverse, List.dropWhile_map, hcomp,
    List.map_reverse]

end Text

/-! ### Names that differ only in form -/

/-- Two names differ at most in the case of their ASCII letters. -/
def SameLetters (s t : String) : Prop := lowered s = lowered t

instance (s t : String) : Decidable (SameLetters s t) :=
  inferInstanceAs (Decidable (lowered s = lowered t))

/-- The name is the text with white space around it. -/
def Encloses (s : String) (u : List Char) : Prop :=
  ∃ a b, s.toList = a ++ u ++ b ∧ (∀ c ∈ a, isSpace c) ∧ ∀ c ∈ b, isSpace c

/-- Two names differ at most in the case of their ASCII letters and in the white space around
them. -/
def SameName (s t : String) : Prop :=
  ∃ u v, Encloses s u ∧ Encloses t v ∧ u.map Char.toLower = v.map Char.toLower

theorem encloses_self (s : String) : Encloses s s.toList := ⟨[], [], by simp, by simp, by simp⟩

theorem encloses_trim (s : String) : Encloses s (trim s.toList) := by
  refine ⟨s.toList.takeWhile isSpace, (s.toList.dropWhile isSpace).rtakeWhile isSpace, ?_,
    fun c hc => List.mem_takeWhile_imp hc, fun c hc => List.mem_rtakeWhile_imp hc⟩
  rw [trim_eq, List.append_assoc, List.rdropWhile_append_rtakeWhile,
    List.takeWhile_append_dropWhile]

theorem SameLetters.sameName {s t : String} (h : SameLetters s t) : SameName s t := by
  refine ⟨_, _, encloses_self s, encloses_self t, ?_⟩
  rw [← toList_lowered, ← toList_lowered]
  exact congrArg String.toList h

theorem sameLetters_lowered (s : String) : SameLetters s (lowered s) := (lowered_lowered s).symm

namespace Language

theorem normalized_of_encloses {s : String} {u : List Char} (h : Encloses s u) :
    normalized s = String.ofList (trim (u.map Char.toLower)) := by
  obtain ⟨a, b, hs, ha, hb⟩ := h
  rw [normalized, hs, trim_append_append ha hb, trim_map_toLower]

/-- Names that differ only in form have one normal form. -/
theorem sameName_iff {s t : String} : SameName s t ↔ normalized s = normalized t := by
  constructor
  · rintro ⟨u, v, hs, ht, huv⟩
    rw [normalized_of_encloses hs, normalized_of_encloses ht, huv]
  · intro h
    exact ⟨_, _, encloses_trim s, encloses_trim t, String.ofList_injective h⟩

instance (s t : String) : Decidable (SameName s t) := decidable_of_iff _ sameName_iff.symm

theorem ofTag?_congr {s t : String} (h : SameName s t) : ofTag? s = ofTag? t := by
  rw [ofTag?, ofTag?, sameName_iff.1 h]

end Language

/-! ### The answers of a configuration -/

namespace Config

open Highlighter.Language

variable {c : Config} {s t name tag : String}

/-- Two names have the same language, or both have none and are reported as they are given. -/
def Agrees (c : Config) (s t : String) : Prop :=
  (∃ l, c.language (some s) = .ok l ∧ c.language (some t) = .ok l) ∨
    c.language (some s) = .error (.unknownLanguage s) ∧
      c.language (some t) = .error (.unknownLanguage t)

theorem agrees_iff : c.Agrees s t ↔ ofTag? (c.target s) = ofTag? (c.target t) := by
  unfold Agrees language
  simp only [Option.getD_some]
  cases ofTag? (c.target s) <;> cases ofTag? (c.target t) <;> simp [eq_comm]

instance (c : Config) (s t : String) : Decidable (c.Agrees s t) :=
  decidable_of_iff _ agrees_iff.symm

/-- The tag of the alias that a name finds: its own, or that of its small letters. -/
def alias? (c : Config) (name : String) : Option String :=
  (c.aliases.get? name).or (c.aliases.get? (lowered name))

theorem target_eq (c : Config) (name : String) : c.target name = (c.alias? name).getD name := rfl

theorem ofTag?_target (c : Config) (name : String) :
    ofTag? (c.target name) = (c.alias? name).elim (ofTag? name) ofTag? := by
  rw [target_eq]
  cases c.alias? name with
  | none => rw [Option.getD_none, Option.elim_none]
  | some tag => rw [Option.getD_some, Option.elim_some]

theorem agrees_lowered_of_get?_eq_none (h : c.aliases.get? name = none) :
    c.Agrees name (lowered name) := by
  rw [agrees_iff, ofTag?_target, ofTag?_target, alias?, alias?, h, lowered_lowered,
    ofTag?_congr (sameLetters_lowered name).sameName, Option.none_or, Option.or_self]

/-- The name of no alias is as long as a name with enough white space in front. -/
theorem exists_sameName_alias?_eq_none (c : Config) (name : String) :
    ∃ s, SameName name s ∧ c.alias? s = none := by
  obtain ⟨n, hn⟩ : ∃ n, ∀ e ∈ c.aliases.entries, e.1.length < n := by
    induction c.aliases.entries with
    | nil => exact ⟨0, by simp⟩
    | cons e es ih =>
      obtain ⟨n, hn⟩ := ih
      refine ⟨max n (e.1.length + 1), List.forall_mem_cons.2 ⟨by omega, fun e' he' => ?_⟩⟩
      exact Nat.lt_of_lt_of_le (hn e' he') (Nat.le_max_left _ _)
  have hnone (s : String) (hs : n ≤ s.length) : c.aliases.get? s = none := by
    refine List.lookup_eq_none_iff.2 fun e he => ?_
    have hlt := hn e he
    rw [bne_iff_ne]
    rintro rfl
    omega
  let s := String.ofList (List.replicate n ' ' ++ name.toList)
  have hlist : s.toList = List.replicate n ' ' ++ name.toList := String.toList_ofList
  have hlen : n ≤ s.length := by
    rw [← String.length_toList, hlist, List.length_append, List.length_replicate]
    exact Nat.le_add_right _ _
  have hencloses : Encloses s name.toList := by
    refine ⟨List.replicate n ' ', [], by simp [hlist], fun d hd => ?_, by simp⟩
    rw [List.eq_of_mem_replicate hd]
    rfl
  refine ⟨s, ⟨_, _, encloses_self name, hencloses, rfl⟩, ?_⟩
  rw [alias?, hnone s hlen, hnone _ (by rwa [length_lowered])]
  rfl

theorem agrees_iff_of_sameName (h : SameName s t) : c.Agrees s t ↔
    (c.alias? s).elim (ofTag? s) ofTag? = (c.alias? t).elim (ofTag? s) ofTag? := by
  rw [agrees_iff, ofTag?_target, ofTag?_target, ofTag?_congr h]

/-- Capitals do not count if each alias agrees with its small letters. -/
theorem agrees_of_sameLetters_iff : (∀ s t, SameLetters s t → c.Agrees s t) ↔
    ∀ name tag, c.aliases.get? name = some tag → c.Agrees name (lowered name) := by
  refine ⟨fun h name _ _ => h _ _ (sameLetters_lowered name), fun h s t hst => ?_⟩
  have hlower (s : String) : ofTag? (c.target s) = ofTag? (c.target (lowered s)) := by
    refine agrees_iff.1 ?_
    cases hs : c.aliases.get? s with
    | none => exact agrees_lowered_of_get?_eq_none hs
    | some tag => exact h s tag hs
  rw [agrees_iff, hlower s, hlower t, hst]

theorem ofTag?_target_of_idle
    (h : ∀ name tag, c.aliases.get? name = some tag → ofTag? tag = ofTag? name) (s : String) :
    ofTag? (c.target s) = ofTag? s := by
  rw [ofTag?_target, alias?]
  cases hs : c.aliases.get? s with
  | some tag => rw [Option.some_or, Option.elim_some, h s tag hs]
  | none =>
    cases hlow : c.aliases.get? (lowered s) with
    | some tag =>
      rw [Option.none_or, Option.elim_some, h _ tag hlow,
        ofTag?_congr (sameLetters_lowered s).sameName]
    | none => rw [Option.none_or, Option.elim_none]

/-- Capitals and white space do not count only if no alias makes a difference: one that does is
missed by its own name behind enough blanks. -/
theorem agrees_of_sameName_iff : (∀ s t, SameName s t → c.Agrees s t) ↔
    ∀ name tag, c.aliases.get? name = some tag → ofTag? tag = ofTag? name := by
  constructor
  · intro h name tag hname
    obtain ⟨s, hs, hnone⟩ := c.exists_sameName_alias?_eq_none name
    have hagrees := agrees_iff.1 (h name s hs)
    rw [ofTag?_target, ofTag?_target, hnone, alias?, hname, Option.some_or, Option.elim_some,
      Option.elim_none] at hagrees
    rw [hagrees, ofTag?_congr hs]
  · intro h s t hst
    rw [agrees_iff, ofTag?_target_of_idle h, ofTag?_target_of_idle h, ofTag?_congr hst]

/-- Two names that differ only in form agree exactly if the aliases that they find stand for one
language, where a name that finds none stands for itself. All names that differ only in case agree
exactly if each alias agrees with its small letters, and all that differ in white space as well
exactly if each alias stands for what its name stands for without it. -/
theorem language_sameName_iff (c : Config) :
    (∀ s t, SameName s t → (c.Agrees s t ↔
        (c.alias? s).elim (ofTag? s) ofTag? = (c.alias? t).elim (ofTag? s) ofTag?)) ∧
      ((∀ s t, SameLetters s t → c.Agrees s t) ↔
        ∀ name tag, c.aliases.get? name = some tag → c.Agrees name (lowered name)) ∧
      ((∀ s t, SameName s t → c.Agrees s t) ↔
        ∀ name tag, c.aliases.get? name = some tag → ofTag? tag = ofTag? name) :=
  ⟨fun _ _ h => agrees_iff_of_sameName h, agrees_of_sameLetters_iff, agrees_of_sameName_iff⟩

/-- An alias in small letters is found in any, but not between blanks. -/
def shellAlias : Config := { default with aliases := Aliases.empty.insert "shell" "terminal" }

theorem language_sameName_shell :
    SameLetters "SHELL" "Shell" ∧ shellAlias.Agrees "SHELL" "Shell" ∧
      SameName "shell" " shell" ∧ ¬ shellAlias.Agrees "shell" " shell" := by
  have hget (name tag : String) (h : shellAlias.aliases.get? name = some tag) : "shell" = name := by
    rw [shellAlias, Aliases.get?_insert, Aliases.get?_empty] at h
    exact (Option.ite_none_right_eq_some.1 h).1.symm
  have hself : shellAlias.Agrees "shell" (lowered "shell") := by decide +kernel
  have hblank : SameName "shell" " shell" := by decide +kernel
  obtain ⟨hpair, hcase, -⟩ := language_sameName_iff shellAlias
  refine ⟨by decide +kernel, hcase.2 ?_ _ _ (by decide +kernel), hblank, fun h => ?_⟩
  · exact fun name tag h => hget name tag h ▸ hself
  · exact absurd ((hpair _ _ hblank).1 h) (by decide +kernel)

/-- An alias that shadows a built-in name, and one with a capital letter. -/
def shadowing : Config :=
  { default with aliases := (Aliases.empty.insert "cpp" "output").insert "Shell" "terminal" }

/-- A blank in front of the name is enough to miss an alias, and so are small letters. -/
theorem language_shadowing_misses :
    SameName "cpp" " cpp" ∧ shadowing.language (some "cpp") = .ok .output ∧
      shadowing.language (some " cpp") = .ok .engineCpp ∧ SameName "Shell" "shell" ∧
      shadowing.language (some "Shell") = .ok .terminal ∧
      shadowing.language (some "shell") = .error (.unknownLanguage "shell") := by
  refine ⟨?_, rfl, rfl, ?_, rfl, rfl⟩ <;> decide +kernel

end Config

end Highlighter
