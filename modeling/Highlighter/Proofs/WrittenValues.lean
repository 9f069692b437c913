import Mathlib.Data.List.TakeWhile
import Highlighter.Proofs.WrittenText

/-! What JSON text tells. Proved: a written value can be told from every other value, also with
any text behind it that does not go on with a digit. Parts of a value stand in front of a comma
or a new line, so they are told by induction on the value. -/

namespace Highlighter.Json

/-- Whether a text does not go on with a digit, so that a number ends in front of it. -/
def Closed (r : List Char) : Prop := ∀ c ∈ r.head?, ¬ c.isDigit

theorem closed_nil : Closed [] := by simp [Closed]

/-- Whether what is written for `a` is told from what is written for anything else, and from
the text behind it. -/
def Tells {α : Type} (enc : α → List Char) (a : α) : Prop :=
  ∀ b r s, Closed r → Closed s → enc a ++ r = enc b ++ s → a = b ∧ r = s

/-! ### Numbers and strings -/

theorem takeWhile_isDigit_of_closed {r : List Char} (h : Closed r) :
    r.takeWhile Char.isDigit = [] := by
  cases r with
  | nil => rfl
  | cons c cs => exact List.takeWhile_cons_of_neg (h c rfl)

/-- The digits in front of a text are those of the number. -/
theorem takeWhile_isDigit_toDigits (n : Nat) {r : List Char} (h : Closed r) :
    (Nat.toDigits 10 n ++ r).takeWhile Char.isDigit = Nat.toDigits 10 n := by
  rw [List.takeWhile_append_of_pos fun _ hc => Nat.isDigit_of_mem_toDigits (by decide) le_rfl hc,
    takeWhile_isDigit_of_closed h, List.append_nil]

theorem tells_toDigits (n : Nat) : Tells (Nat.toDigits 10) n := by
  intro m r s hr hs h
  have hdigits : Nat.toDigits 10 n = Nat.toDigits 10 m := by
    rw [← takeWhile_isDigit_toDigits n hr, h, takeWhile_isDigit_toDigits m hs]
  have hn : n = m := by
    rw [← Nat.ofDigitChars_ten_toDigits (n := n), hdigits, Nat.ofDigitChars_ten_toDigits]
  subst hn
  exact ⟨rfl, List.append_cancel_left h⟩

theorem writeString_inj {s t : String} {r r' : List Char}
    (h : writeString s ++ r = writeString t ++ r') : s = t ∧ r = r' := by
  rw [writeString_append, writeString_append] at h
  have hread := readString_flatMap_writeChar s r
  rw [List.cons.inj h |>.2, readString_flatMap_writeChar] at hread
  cases hread
  exact ⟨rfl, rfl⟩

/-! ### Blocks -/

section Blocks

variable {α : Type} {enc : α → List Char} {depth : Nat} {closing : Char}

theorem closed_more (xs : List (List Char)) (r : List Char) :
    Closed (more depth closing xs ++ r) := by
  cases xs <;> simp [more, newLine, Closed, Char.isDigit]

theorem more_inj {xs ys : List α} {r s : List Char} (hx : ∀ x ∈ xs, Tells enc x)
    (h : more depth closing (xs.map enc) ++ r = more depth closing (ys.map enc) ++ s) :
    xs = ys ∧ r = s := by
  induction xs generalizing ys with
  | nil =>
    cases ys with
    | nil => exact ⟨rfl, List.append_cancel_left h⟩
    | cons y ys => simp [more, newLine] at h
  | cons x xs ih =>
    cases ys with
    | nil => simp [more, newLine] at h
    | cons y ys =>
      simp only [List.map_cons, more, List.append_assoc, List.cons_append, List.cons.injEq,
        true_and] at h
      obtain ⟨rfl, hrest⟩ := hx x List.mem_cons_self y _ _ (closed_more _ _) (closed_more _ _)
        (List.append_cancel_left h)
      obtain ⟨rfl, rfl⟩ := ih (fun x hmem => hx x (List.mem_cons_of_mem _ hmem)) hrest
      exact ⟨rfl, rfl⟩

/-- A block is told by its items. The bracket that closes it is no new line, so a block
without items is not the start of one with items. -/
theorem block_inj {opening : Char} (hc : closing ≠ '\n') {xs ys : List α} {r s : List Char}
    (hx : ∀ x ∈ xs, Tells enc x)
    (h : block depth opening closing (xs.map enc) ++ r =
      block depth opening closing (ys.map enc) ++ s) : xs = ys ∧ r = s := by
  cases xs with
  | nil =>
    cases ys with
    | nil => exact ⟨rfl, List.append_cancel_left h⟩
    | cons y ys => simp [block_nil, block_cons, newLine, hc] at h
  | cons x xs =>
    cases ys with
    | nil => simp [block_nil, block_cons, newLine, hc.symm] at h
    | cons y ys =>
      have hmore : more depth closing ((x :: xs).map enc) ++ r =
          more depth closing ((y :: ys).map enc) ++ s := by
        simpa [block_cons, more] using h
      exact more_inj hx hmore

end Blocks

/-! ### Values -/

namespace Value

def writeMember (depth : Nat) (m : String × Value) : List Char :=
  writeString m.1 ++ ": ".toList ++ m.2.write depth

theorem writeElements_eq_map (depth : Nat) (vs : List Value) :
    writeElements depth vs = vs.map (write depth) := by
  induction vs with
  | nil => rfl
  | cons v vs ih => rw [writeElements, ih, List.map_cons]

theorem writeMembers_eq_map (depth : Nat) (ms : List (String × Value)) :
    writeMembers depth ms = ms.map (writeMember depth) := by
  induction ms with
  | nil => rfl
  | cons m ms ih =>
    obtain ⟨name, v⟩ := m
    rw [writeMembers, ih, List.map_cons, writeMember]

/-- The character that a value starts with, unless that is a digit. -/
def mark : Value → Option Char
  | text _ => some '"'
  | natural _ => none
  | list _ => some '['
  | object _ => some '\x7b'

theorem filter_head?_write (depth : Nat) (v : Value) (r : List Char) :
    (v.write depth ++ r).head?.filter (!·.isDigit) = v.mark := by
  cases v with
  | text s => rw [write, writeString_append]; rfl
  | natural n =>
    obtain ⟨c, cs, hn⟩ := List.exists_cons_of_ne_nil (Nat.toDigits_ne_nil (n := n) (b := 10))
    have hc : c.isDigit := by
      refine Nat.isDigit_of_mem_toDigits (n := n) (b := 10) (by decide) le_rfl ?_
      rw [hn]
      exact List.mem_cons_self
    rw [write, hn]
    simp [mark, hc]
  | list vs => cases vs <;> simp [write, writeElements, block_nil, block_cons, mark]
  | object ms => cases ms <;> simp [write, writeMembers, block_nil, block_cons, mark]

theorem mark_eq_of_write {depth : Nat} {v w : Value} {r s : List Char}
    (h : v.write depth ++ r = w.write depth ++ s) : v.mark = w.mark := by
  rw [← filter_head?_write depth v r, h, filter_head?_write]

theorem tells_writeMember {depth : Nat} {m : String × Value}
    (h : Tells (write depth) m.2) : Tells (writeMember depth) m := by
  intro m' r s hr hs heq
  obtain ⟨name, v⟩ := m
  obtain ⟨name', v'⟩ := m'
  simp only [writeMember, List.append_assoc] at heq
  obtain ⟨rfl, hvalue⟩ := writeString_inj heq
  obtain ⟨rfl, rfl⟩ := h v' r s hr hs (List.append_cancel_left hvalue)
  exact ⟨rfl, rfl⟩

mutual

/-- A value is told by its text. -/
theorem tells_write (v : Value) (depth : Nat) : Tells (write depth) v := by
  intro w r s hr hs h
  -- values of two kinds start with different characters
  have hmark := mark_eq_of_write h
  cases v with
  | text t =>
    cases w with
    | text u =>
      obtain ⟨rfl, rfl⟩ := writeString_inj h
      exact ⟨rfl, rfl⟩
    | _ => simp [mark] at hmark
  | natural m =>
    cases w with
    | natural n =>
      obtain ⟨rfl, rfl⟩ := tells_toDigits m n r s hr hs h
      exact ⟨rfl, rfl⟩
    | _ => simp [mark] at hmark
  | list vs =>
    cases w with
    | list ws =>
      simp only [write, writeElements_eq_map] at h
      obtain ⟨rfl, rfl⟩ := block_inj (by decide) (tells_elements vs (depth + 1)) h
      exact ⟨rfl, rfl⟩
    | _ => simp [mark] at hmark
  | object ms =>
    cases w with
    | object ns =>
      simp only [write, writeMembers_eq_map] at h
      obtain ⟨rfl, rfl⟩ := block_inj (by decide) (tells_members ms (depth + 1)) h
      exact ⟨rfl, rfl⟩
    | _ => simp [mark] at hmark

theorem tells_elements (vs : List Value) (depth : Nat) : ∀ v ∈ vs, Tells (write depth) v := by
  cases vs with
  | nil => simp
  | cons v vs => exact List.forall_mem_cons.2 ⟨tells_write v depth, tells_elements vs depth⟩

theorem tells_members (ms : List (String × Value)) (depth : Nat) :
    ∀ m ∈ ms, Tells (writeMember depth) m := by
  cases ms with
  | nil => simp
  | cons m ms =>
    obtain ⟨name, v⟩ := m
    exact List.forall_mem_cons.2
      ⟨tells_writeMember (tells_write v depth), tells_members ms depth⟩

end

/-- Values with the same text are the same. -/
theorem written_injective : Function.Injective written := by
  intro v w h
  have h : v.write 0 ++ [] = w.write 0 ++ [] := by
    simpa [written] using congrArg String.toList h
  exact (tells_write v 0 w [] [] closed_nil closed_nil h).1

end Value

end Highlighter.Json
