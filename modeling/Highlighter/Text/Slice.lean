/-! Texts cut at byte offsets. -/

namespace Highlighter.Text

/-- Whether a byte offset lies at an end of the text or between two of its characters. -/
abbrev IsOffset (s : String) (i : Nat) : Prop := String.Pos.Raw.IsValid s ⟨i⟩

/-- The text between two offsets. A place beyond the end or inside of a character is
refused, and so is an end in front of the start. -/
def slice? (s : String) (start stop : Nat) : Option String :=
  if h : IsOffset s start ∧ IsOffset s stop ∧ start ≤ stop then
    some (s.slice (s.pos _ h.1) (s.pos _ h.2.1) h.2.2).copy
  else none

theorem isOffset_iff {s : String} {i : Nat} :
    IsOffset s i ↔ ∃ a b : String, s = a ++ b ∧ i = a.utf8ByteSize := by
  rw [IsOffset, String.Pos.Raw.isValid_iff_exists_append]
  simp only [String.Pos.Raw.ext_iff, String.byteIdx_rawEndPos]

theorem isOffset_zero (s : String) : IsOffset s 0 :=
  isOffset_iff.2 ⟨"", s, String.empty_append.symm, rfl⟩

/-- A slice is a part of the text with its size in bytes between the offsets. -/
theorem slice?_eq_some_iff {s t : String} {start stop : Nat} : slice? s start stop = some t ↔
    ∃ a b : String, s = a ++ t ++ b ∧ start = a.utf8ByteSize ∧ stop = start + t.utf8ByteSize := by
  constructor
  · intro h
    unfold slice? at h
    split at h
    · next hv =>
      obtain ⟨a, b, hstart, hstop⟩ :=
        String.copy_slice_eq_iff_splits.1 ⟨hv.2.2, Option.some.inj h⟩
      have hfirst : start = a.utf8ByteSize :=
        congrArg String.Pos.Raw.byteIdx hstart.offset_eq_rawEndPos
      have hlast : stop = (a ++ t).utf8ByteSize :=
        congrArg String.Pos.Raw.byteIdx hstop.offset_eq_rawEndPos
      rw [String.utf8ByteSize_append, ← hfirst] at hlast
      exact ⟨a, b, hstop.eq_append, hfirst, hlast⟩
    · cases h
  · rintro ⟨a, b, rfl, rfl, rfl⟩
    have hstart : IsOffset (a ++ t ++ b) a.utf8ByteSize :=
      isOffset_iff.2 ⟨a, t ++ b, String.append_assoc, rfl⟩
    have hstop : IsOffset (a ++ t ++ b) (a.utf8ByteSize + t.utf8ByteSize) :=
      isOffset_iff.2 ⟨a ++ t, b, rfl, String.utf8ByteSize_append.symm⟩
    have hfirst : ((a ++ t ++ b).pos _ hstart).Splits a (t ++ b) := ⟨String.append_assoc, rfl⟩
    have hlast : ((a ++ t ++ b).pos _ hstop).Splits (a ++ t) b :=
      ⟨rfl, String.Pos.Raw.ext String.utf8ByteSize_append.symm⟩
    rw [slice?, dif_pos ⟨hstart, hstop, Nat.le_add_right _ _⟩]
    obtain ⟨_, h⟩ := String.copy_slice_eq_iff_splits.2 ⟨a, b, hfirst, hlast⟩
    exact congrArg some h

/-- A text can be cut out behind `a` where what is behind `a` begins with it. -/
theorem slice?_append_iff {a rest t : String} :
    slice? (a ++ rest) a.utf8ByteSize (a.utf8ByteSize + t.utf8ByteSize) = some t ↔
      ∃ b, rest = t ++ b := by
  rw [slice?_eq_some_iff]
  constructor
  · rintro ⟨a', b, h, ha, -⟩
    have hoffset : IsOffset (a ++ rest) a.utf8ByteSize := isOffset_iff.2 ⟨a, rest, rfl, rfl⟩
    have hleft : ((a ++ rest).pos _ hoffset).Splits a rest := ⟨rfl, rfl⟩
    have hright : ((a ++ rest).pos _ hoffset).Splits a' (t ++ b) :=
      ⟨h.trans String.append_assoc, String.Pos.Raw.ext ha⟩
    exact ⟨b, hleft.eq_right hright⟩
  · rintro ⟨b, rfl⟩
    exact ⟨a, b, String.append_assoc.symm, rfl, rfl⟩

theorem slice?_append_end (a rest : String) :
    slice? (a ++ rest) a.utf8ByteSize (a ++ rest).utf8ByteSize = some rest := by
  rw [String.utf8ByteSize_append]
  exact slice?_append_iff.2 ⟨"", String.append_empty.symm⟩

theorem isOffset_of_slice? {s t : String} {start stop : Nat} (h : slice? s start stop = some t) :
    IsOffset s stop := by
  obtain ⟨a, b, rfl, rfl, rfl⟩ := slice?_eq_some_iff.1 h
  exact isOffset_iff.2 ⟨a ++ t, b, rfl, String.utf8ByteSize_append.symm⟩

/-- From an offset on, there is a slice up to the end. -/
theorem isSome_slice?_end {s : String} {i : Nat} (h : IsOffset s i) :
    (slice? s i s.utf8ByteSize).isSome := by
  obtain ⟨a, b, rfl, rfl⟩ := isOffset_iff.1 h
  rw [slice?_append_end, Option.isSome_some]

end Highlighter.Text
