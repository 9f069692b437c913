import Mathlib.Data.List.Basic
import Highlighter.Divergence
import Highlighter.Proofs.Lossless

/-! Where tokens stop reproducing a text. The tokens are compared with the text one by one, by
characters, and the answer counts bytes. Proved: the text is always cut between characters, and
the answer is the length of what the bytes of the text and those of the tokens have in common.
A token can only differ from the text where its bytes do, because bytes that a text begins with
are those of characters that it begins with, if they are those of any. -/

namespace Highlighter

namespace Text

/-! ### Bytes of texts -/

@[simp] theorem utf8_append (cs ds : List Char) : utf8 (cs ++ ds) = utf8 cs ++ utf8 ds :=
  List.flatMap_append

theorem utf8Encode_eq (cs : List Char) : cs.utf8Encode = (utf8 cs).toByteArray := rfl

theorem length_utf8 (s : String) : (utf8 s.toList).length = s.utf8ByteSize := by
  rw [← String.size_toByteArray, ← String.utf8Encode_toList, utf8Encode_eq, List.size_toByteArray]

/-- Bytes tell where their characters end. -/
theorem prefix_of_utf8_prefix {cs ds : List Char} (h : utf8 cs <+: utf8 ds) : cs <+: ds := by
  obtain ⟨bytes, h⟩ := h
  refine List.isPrefix_of_utf8Encode_append_eq_utf8Encode bytes.toByteArray ?_
  rw [utf8Encode_eq, utf8Encode_eq, ← h, List.toByteArray_append]

/-! ### Common beginnings -/

theorem commonLength_append (as bs cs : List UInt8) :
    commonLength (as ++ bs) (as ++ cs) = as.length + commonLength bs cs := by
  induction as with
  | nil => simp
  | cons a as ih => simp [commonLength, ih]; omega

/-- What is behind the end of a list that the other does not begin with has no effect. -/
theorem commonLength_append_right {as bs : List UInt8} (h : ¬ bs <+: as) (cs : List UInt8) :
    commonLength as (bs ++ cs) = commonLength as bs := by
  induction bs generalizing as with
  | nil => exact absurd List.nil_prefix h
  | cons b bs ih =>
    cases as with
    | nil => rfl
    | cons a as =>
      rw [List.cons_append, commonLength, commonLength]
      split_ifs with hab
      · subst hab
        rw [ih fun hp => h (List.cons_prefix_cons.2 ⟨rfl, hp⟩)]
      · rfl

/-- `n` bytes are the longest beginning that both lists have. -/
def IsCommonLength (n : Nat) (as bs : List UInt8) : Prop :=
  ∃ p, p.length = n ∧ p <+: as ∧ p <+: bs ∧ ∀ q, q <+: as → q <+: bs → q <+: p

theorem IsCommonLength.unique {n k : Nat} {as bs : List UInt8} (h : IsCommonLength n as bs)
    (h' : IsCommonLength k as bs) : n = k := by
  obtain ⟨p, rfl, hpa, hpb, hp⟩ := h
  obtain ⟨q, rfl, hqa, hqb, hq⟩ := h'
  exact Nat.le_antisymm (hq p hpa hpb).length_le (hp q hqa hqb).length_le

theorem isCommonLength_commonLength (as bs : List UInt8) :
    IsCommonLength (commonLength as bs) as bs := by
  induction as generalizing bs with
  | nil => exact ⟨[], rfl, List.nil_prefix, List.nil_prefix, fun q hq _ => hq⟩
  | cons a as ih =>
    cases bs with
    | nil => exact ⟨[], rfl, List.nil_prefix, List.nil_prefix, fun q _ hq => hq⟩
    | cons b bs =>
      rw [commonLength]
      split_ifs with hab
      · subst hab
        obtain ⟨p, hlen, has, hbs, hlongest⟩ := ih bs
        refine ⟨a :: p, congrArg Nat.succ hlen, List.cons_prefix_cons.2 ⟨rfl, has⟩,
          List.cons_prefix_cons.2 ⟨rfl, hbs⟩, fun q hqa hqb => ?_⟩
        rcases List.prefix_cons_iff.1 hqa with rfl | ⟨q, rfl, hqa⟩
        · exact List.nil_prefix
        · exact List.cons_prefix_cons.2 ⟨rfl, hlongest q (List.cons_prefix_cons.1 hqa).2
            (List.cons_prefix_cons.1 hqb).2⟩
      · refine ⟨[], rfl, List.nil_prefix, List.nil_prefix, fun q hqa hqb => ?_⟩
        rcases List.prefix_cons_iff.1 hqa with rfl | ⟨q, rfl, -⟩
        · exact List.nil_prefix
        · exact absurd (List.cons_prefix_cons.1 hqb).1 hab

end Text

/-! ### Divergence -/

/-- The answer at a place of the source, told by what is left of it and the tokens that are
left. -/
theorem divergenceFrom?_append (a rest : String) (ts : List Token) :
    divergenceFrom? (a ++ rest) a.utf8ByteSize ts =
      some (if Token.joined ts = rest.toList then none else some (a.utf8ByteSize +
        Text.commonLength (Text.utf8 rest.toList) (Text.utf8 (Token.joined ts)))) := by
  induction ts generalizing a rest with
  | nil =>
    have hnil : a.utf8ByteSize = (a ++ rest).utf8ByteSize ↔ [] = rest.toList := by
      rw [String.utf8ByteSize_append, eq_comm, Nat.add_eq_left, String.utf8ByteSize_eq_zero_iff,
        ← String.toList_eq_nil_iff, eq_comm]
    have hzero : Text.commonLength (Text.utf8 rest.toList) [] = 0 := by
      cases Text.utf8 rest.toList <;> rfl
    rw [divergenceFrom?, Token.joined_nil, show Text.utf8 [] = [] from rfl, hzero, Nat.add_zero]
    exact congrArg some (if_congr hnil rfl rfl)
  | cons t ts ih =>
    rw [divergenceFrom?, Token.joined_cons]
    by_cases hslice : ∃ b, rest = t.text ++ b
    · rw [if_pos (Text.slice?_append_iff.2 hslice)]
      obtain ⟨b, rfl⟩ := hslice
      have hih := ih (a ++ t.text) b
      rw [String.append_assoc, String.utf8ByteSize_append] at hih
      rw [hih, String.toList_append, Text.utf8_append, Text.utf8_append,
        Text.commonLength_append, Text.length_utf8, Nat.add_assoc]
      simp only [List.append_cancel_left_eq]
    · rw [if_neg (mt Text.slice?_append_iff.1 hslice), Text.slice?_append_end]
      have hprefix : ¬ t.text.toList <+: rest.toList := by
        rintro ⟨cs, hcs⟩
        refine hslice ⟨String.ofList cs, String.toList_injective ?_⟩
        rw [String.toList_append, String.toList_ofList, hcs]
      rw [if_neg fun h => hprefix ⟨_, h⟩, Text.utf8_append,
        Text.commonLength_append_right (mt Text.prefix_of_utf8_prefix hprefix)]
      rfl

theorem divergenceFrom?_eq (source : String) (ts : List Token) : divergenceFrom? source 0 ts =
    some (if Token.joined ts = source.toList then none else
      some (Text.commonLength (Text.utf8 source.toList) (Text.utf8 (Token.joined ts)))) := by
  simpa using divergenceFrom?_append "" source ts

/-- Tokens that make up a text do not diverge from it. -/
theorem firstDivergence_of_joined {source : String} {ts : List Token}
    (h : Token.joined ts = source.toList) : firstDivergence source ts = none := by
  simp [firstDivergence, divergenceFrom?_eq, h]

/-- The comparison of tokens with a text answers for all texts and tokens: the text can be
cut at each place where it is cut. The tokens diverge from the text unless they make it up,
and they do so behind as many bytes as the text and what they make up have in common. -/
theorem firstDivergence_commonLength (source : String) (ts : List Token) :
    divergenceFrom? source 0 ts = some (firstDivergence source ts) ∧
      (firstDivergence source ts = none ↔ Token.joined ts = source.toList) ∧
      ∀ n, firstDivergence source ts = some n ↔ Token.joined ts ≠ source.toList ∧
        Text.IsCommonLength n (Text.utf8 source.toList) (Text.utf8 (Token.joined ts)) := by
  have hanswer : divergenceFrom? source 0 ts = some (firstDivergence source ts) :=
    (Option.some_get _).symm
  refine ⟨hanswer, ?_⟩
  rw [divergenceFrom?_eq, Option.some_inj] at hanswer
  rw [← hanswer]
  have hcommon := Text.isCommonLength_commonLength (Text.utf8 source.toList)
    (Text.utf8 (Token.joined ts))
  by_cases hjoined : Token.joined ts = source.toList
  · simp [hjoined]
  · simp only [if_neg hjoined, Option.some_inj, reduceCtorEq, false_iff]
    refine ⟨hjoined, fun n => ⟨?_, fun h => hcommon.unique h.2⟩⟩
    rintro rfl
    exact ⟨hjoined, hcommon⟩

end Highlighter
