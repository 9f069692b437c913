import Highlighter.Language
import Highlighter.Proofs.QualifiedNames

/-! Keywords that are restored. The scanner makes names of some words of the language, and a
pass makes keywords of them again, but it runs ahead over a qualified name without a look at
the words in it. Proved: in highlighted source text a word of the language has the category of
a keyword exactly if it is no name that a `::` joins to a part of a qualified name. -/

namespace Highlighter

open Token Context

/-! ### The decision on a word of the language -/

def restoredKind (word : String) : Category :=
  if Names.isControlKeyword word then .keywordDeclaration else .keyword

theorem restoredKind_isA_keyword (word : String) : (restoredKind word).isA .keyword := by
  unfold restoredKind
  split_ifs <;> rfl

theorem keyword?_of_isKeyword {t : Token} (hf : t.kind.isA .name ∨ t.kind.isA .keyword)
    (hk : Names.isKeyword t.text) : keyword? t = some (restoredKind t.text) := by
  have hfamily : (t.kind.isA .name || t.kind.isA .keyword) = true := by simpa using hf
  rw [keyword?, hfamily, hk]
  rfl

/-- A word that nothing is decided ahead for is restored. -/
theorem site_of_keyword? {p : Cursor} {t : Token} {k : Category} (hd : p.decided = [])
    (hk : keyword? t = some k) (rest : List Token) : p.site t rest = .restored k := by
  have ht : t.kind ≠ .text := by
    intro h
    have hfamily := isA_of_keyword? hk
    rw [h] at hfamily
    cases hfamily
  exact (Cursor.Walks.restored hd ht hk).eq.1

theorem linked_through {p : Cursor} {ts rest : List Token} (h : Linked p.decided (ts ++ rest)) :
    Linked (p.through ts rest).decided rest := by
  induction ts generalizing p with
  | nil => exact h
  | cons t ts ih => exact ih (linked_next h)

/-- The site of a word of the language: it is restored, or it is a part of a qualified name. -/
theorem site_of_isKeyword (before : List Token) {t : Token} (rest : List Token)
    (hf : t.kind.isA .name ∨ t.kind.isA .keyword) (hk : Names.isKeyword t.text) :
    if t.kind.isA .name ∧ endsInJoint before.reverse then
      ∃ k, k.isA .name ∧
        (Cursor.start.through before (t :: rest)).site t rest = .linked k
    else (Cursor.start.through before (t :: rest)).site t rest =
      .restored (restoredKind t.text) := by
  have hlinked : Linked (Cursor.start.through before (t :: rest)).decided (t :: rest) :=
    linked_through trivial
  have hahead (ht : t.kind.isA .name) :
      (Cursor.start.through before (t :: rest)).decided = [] ↔ endsInJoint before.reverse = false :=
    decided_through before ht rest
  generalize Cursor.start.through before (t :: rest) = p at hlinked hahead
  cases hd : p.decided with
  | nil =>
    rw [hd, eq_self, true_iff] at hahead
    rw [if_neg fun h => by simp [hahead h.1] at h]
    exact site_of_keyword? hd (keyword?_of_isKeyword hf hk) rest
  | cons k ks =>
    rw [hd] at hlinked hahead
    -- a category that is decided ahead of a name or a keyword is that of a name
    have hnames : k.isA .name ∧ t.kind.isA .name := by
      rcases hlinked.1 with ⟨-, ht⟩ | h
      · rw [ht] at hf
        rcases hf with h | h <;> cases h
      · exact h
    have hjoint : endsInJoint before.reverse = true := by simpa using hahead hnames.2
    rw [if_pos ⟨hnames.2, hjoint⟩]
    exact ⟨k, hnames.1, Cursor.site_of_decided hd t rest⟩

theorem getElem?_classify_site (before : List Token) (t : Token) (rest : List Token) :
    ∃ s last, (classify (before ++ t :: rest))[before.length]? =
      some { t with
        kind := ((Cursor.start.through before (t :: rest)).site t rest).kind s last t } := by
  refine getElem?_classify (by simp) ?_
  rw [sites, ← Nat.add_zero before.length, ← List.getElem?_drop, Cursor.drop_sites]
  rfl

/-- In highlighted source text, a word that the scanner takes for a name or a keyword and that
is a word of the language is a keyword of its sort exactly if it is no name behind a `::` that
joins it to a part of a qualified name. -/
theorem highlight_restored_iff (source : String) {before rest : List Token} {t : Token}
    (h : (Language.engineCpp.scan source).tokens = before ++ t :: rest)
    (hf : t.kind.isA .name ∨ t.kind.isA .keyword) (hk : Names.isKeyword t.text) :
    (Language.engineCpp.highlight source)[before.length]? =
        some { t with
          kind := if Names.isControlKeyword t.text then .keywordDeclaration else .keyword } ↔
      ¬ (t.kind.isA .name ∧ endsInJoint before.reverse) := by
  have hhighlight : Language.engineCpp.highlight source = classify (before ++ t :: rest) := by
    rw [← h]
    rfl
  obtain ⟨s, last, hkind⟩ := getElem?_classify_site before t rest
  have hsite := site_of_isKeyword before rest hf hk
  rw [hhighlight, hkind]
  split_ifs at hsite with hjoined
  · obtain ⟨k, hname, hlinked⟩ := hsite
    refine iff_of_false ?_ (not_not_intro hjoined)
    rw [hlinked, Option.some_inj]
    intro he
    have hkeyword := restoredKind_isA_keyword t.text
    rw [← show k = restoredKind t.text from congrArg Token.kind he,
      Category.not_keyword_of_name hname] at hkeyword
    cases hkeyword
  · exact iff_of_true (by rw [hsite]; rfl) hjoined

/-- A word in an argument list, behind a qualified name. -/
theorem highlight_restored_argument :
    let before : List Token := [⟨⟨0, 0⟩, .name, "Json"⟩, ⟨⟨0, 4⟩, .operator, "::"⟩,
      ⟨⟨0, 6⟩, .name, "Value"⟩, ⟨⟨0, 11⟩, .punctuation, "("⟩]
    let t : Token := ⟨⟨0, 12⟩, .nameBuiltin, "nullptr"⟩
    (Language.engineCpp.scan "Json::Value(nullptr)").tokens =
        before ++ t :: [⟨⟨0, 19⟩, .punctuation, ")"⟩] ∧
      (Language.engineCpp.highlight "Json::Value(nullptr)")[4]? =
        some ⟨⟨0, 12⟩, .keyword, "nullptr"⟩ := by
  intro before t
  have hscan : (Language.engineCpp.scan "Json::Value(nullptr)").tokens =
      before ++ t :: [⟨⟨0, 19⟩, .punctuation, ")"⟩] := by decide +kernel
  exact ⟨hscan, (highlight_restored_iff _ hscan (.inl rfl) (by decide +kernel)).2
    (by decide +kernel)⟩

/-- Behind `Json::` the same sort of word comes out as a class. -/
theorem highlight_joined_null :
    ⟨⟨0, 6⟩, .nameBuiltin, "NULL"⟩ ∈ (Language.engineCpp.scan "Json::NULL").tokens ∧
      Names.isKeyword "NULL" ∧
      ⟨⟨0, 6⟩, .nameClass, "NULL"⟩ ∈ Language.engineCpp.highlight "Json::NULL" := by
  decide +kernel

end Highlighter
