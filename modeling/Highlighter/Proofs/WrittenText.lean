import Mathlib.Data.List.Induction
import Mathlib.Tactic.IntervalCases
import Highlighter.Json.Printer

/-! Strings and blocks of JSON text. Proved: a character is read back from what is written for
it, so a string is read back from its written form with any text behind it, and a block is cut
into its items and the separators between them. -/

namespace Highlighter.Json

/-! ### Hexadecimal digits -/

theorem hexDigit?_digitChar {d : Nat} (h : d < 16) : hexDigit? d.digitChar = some d := by
  interval_cases d <;> decide

theorem hexNumber?_concat {ds : List Char} {c : Char} {n d : Nat} (hn : hexNumber? ds = some n)
    (hd : hexDigit? c = some d) : hexNumber? (ds ++ [c]) = some (16 * n + d) := by
  rw [hexNumber?] at hn ⊢
  rw [List.foldl_append, hn]
  simp [hd]

/-- The digits of a number write that number. -/
theorem hexNumber?_toDigits (n : Nat) : hexNumber? (Nat.toDigits 16 n) = some n := by
  induction n using Nat.strongRecOn with
  | ind n ih =>
    rcases Nat.lt_or_ge n 16 with h | h
    · rw [Nat.toDigits_of_lt_base h]
      have hempty : hexNumber? [] = some 0 := rfl
      simpa using hexNumber?_concat hempty (hexDigit?_digitChar h)
    · rw [Nat.toDigits_of_base_le (by decide) h]
      have hlast := hexDigit?_digitChar (n.mod_lt (by decide))
      have hall := hexNumber?_concat (ih (n / 16) (by omega)) hlast
      rwa [Nat.div_add_mod] at hall

theorem isSome_hexDigit?_of_mem {ds : List Char} {n : Nat} (h : hexNumber? ds = some n) {c : Char}
    (hc : c ∈ ds) : (hexDigit? c).isSome := by
  induction ds using List.reverseRecOn generalizing n with
  | nil => cases hc
  | append_singleton ds d ih =>
    rw [hexNumber?, List.foldl_append, ← hexNumber?] at h
    simp only [List.foldl_cons, List.foldl_nil, Option.bind_eq_bind, Option.bind_eq_some_iff] at h
    obtain ⟨m, hm, e, he, -⟩ := h
    rcases List.mem_append.1 hc with hc | hc
    · exact ih hm hc
    · rw [List.mem_singleton.1 hc, he]
      rfl

/-- The escape of a control character is read as its number. -/
theorem readHex_hexPair {n : Nat} (h : n < 0x20) (r : List Char) :
    readHex ('0' :: '0' :: hexPair n ++ r) = .ok (n, r) := by
  interval_cases n <;> rfl

/-! ### Strings -/

/-- A character is read back from what is written for it. -/
theorem readChar_writeChar (c : Char) (r : List Char) :
    readChar true (writeChar c ++ r) = .ok (some c, r) := by
  unfold writeChar
  split_ifs with hmark hb hf hn hr ht hcontrol
  · simp only [Bool.or_eq_true, decide_eq_true_eq] at hmark
    rcases hmark with rfl | rfl <;> rfl
  · subst hb; rfl
  · subst hf; rfl
  · subst hn; rfl
  · subst hr; rfl
  · subst ht; rfl
  -- the code of a control character is no half of another character
  · have hread : readChar true (['\\', 'u', '0', '0'] ++ hexPair c.toNat ++ r) =
        (readCodeEscape true ('0' :: '0' :: hexPair c.toNat ++ r)).andThen
          fun c cs => .ok (some c, cs) := rfl
    have h₁ : ¬ (0xDC00 ≤ c.toNat ∧ c.toNat ≤ 0xDFFF) := by omega
    have h₂ : ¬ (0xD800 ≤ c.toNat ∧ c.toNat ≤ 0xDBFF) := by omega
    rw [hread, readCodeEscape, readHex_hexPair hcontrol]
    simp [h₁, h₂, Char.ofNat_toNat]
  · simp only [Bool.or_eq_true, decide_eq_true_eq, not_or] at hmark
    simp [readChar, hmark, hcontrol]

theorem readChars_flatMap_writeChar (s r : List Char) {n : Nat} (h : s.length < n) :
    readChars true n (s.flatMap writeChar ++ '"' :: r) = .ok (s, r) := by
  induction s generalizing n with
  | nil =>
    obtain ⟨n, rfl⟩ := Nat.exists_eq_succ_of_ne_zero (Nat.ne_of_gt h)
    rfl
  | cons c s ih =>
    obtain ⟨n, rfl⟩ := Nat.exists_eq_succ_of_ne_zero (Nat.ne_of_gt (Nat.zero_lt_of_lt h))
    rw [List.flatMap_cons, List.append_assoc, readChars, readChar_writeChar]
    simp [ih (Nat.lt_of_succ_lt_succ h)]

theorem one_le_length_writeChar (c : Char) : 1 ≤ (writeChar c).length := by
  unfold writeChar
  split_ifs <;> simp

theorem length_le_flatMap_writeChar (s : List Char) : s.length ≤ (s.flatMap writeChar).length := by
  induction s with
  | nil => simp
  | cons c s ih =>
    have hc := one_le_length_writeChar c
    simp only [List.length_cons, List.flatMap_cons, List.length_append]
    omega

/-- A string is read back, after its opening quote, from its written form. -/
theorem readString_flatMap_writeChar (s : String) (r : List Char) :
    readString (s.toList.flatMap writeChar ++ '"' :: r) = .ok (s, r) := by
  have hlength := length_le_flatMap_writeChar s.toList
  rw [readString, readChars_flatMap_writeChar]
  · simp
  · simp only [List.length_append, List.length_cons]
    omega

/-- A written string: its opening quote, and the text from which it is read. -/
theorem writeString_append (s : String) (r : List Char) :
    writeString s ++ r = '"' :: (s.toList.flatMap writeChar ++ '"' :: r) := by
  simp [writeString]

/-! ### Blocks -/

/-- Items of a block that follow another one, and the end of the block. -/
def more (depth : Nat) (closing : Char) : List (List Char) → List Char
  | [] => newLine depth ++ [closing]
  | x :: xs => ',' :: newLine (depth + 1) ++ x ++ more depth closing xs

theorem intercalate_append_end (depth : Nat) (closing : Char) (x : List Char)
    (xs : List (List Char)) :
    [','].intercalate ((x :: xs).map (newLine (depth + 1) ++ ·)) ++ newLine depth ++ [closing] =
      newLine (depth + 1) ++ x ++ more depth closing xs := by
  induction xs generalizing x with
  | nil => simp [more, List.intercalate]
  | cons y ys ih => simpa [more, List.intercalate] using ih y

theorem block_nil (depth : Nat) (opening closing : Char) :
    block depth opening closing [] = [opening, closing] := rfl

/-- A block with items: each of them is set off from the one before. -/
theorem block_cons (depth : Nat) (opening closing : Char) (x : List Char)
    (xs : List (List Char)) : block depth opening closing (x :: xs) =
      opening :: newLine (depth + 1) ++ x ++ more depth closing xs := by
  simpa [block] using intercalate_append_end depth closing x xs

end Highlighter.Json
