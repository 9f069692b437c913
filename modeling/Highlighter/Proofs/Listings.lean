import Mathlib.Data.List.Basic
import Highlighter.CommandLine.Listing
import Highlighter.Proofs.WrittenValues
import Highlighter.Text.Pieces

/-! What listings of tokens tell. In quotes every character can be read back and none is a
newline, and no name of a category has a blank. Proved: a plain listing has one line for each
token, which tells its kind and its text; the listing as JSON tells the tokens with their
locations. -/

namespace Highlighter

/-! ### Quoted texts -/

namespace Text

/-- Reads back a character in double quotes, if the quotes do not end before it. -/
def unquoteChar? : List Char → Option (Char × List Char)
  | [] => none
  | '"' :: _ => none
  | '\\' :: '0' :: cs => some ('\x00', cs)
  | '\\' :: 't' :: cs => some ('\t', cs)
  | '\\' :: 'r' :: cs => some ('\r', cs)
  | '\\' :: 'n' :: cs => some ('\n', cs)
  | '\\' :: 'u' :: '{' :: cs =>
    (Json.hexNumber? (cs.takeWhile (· ≠ '\x7d'))).map fun n =>
      (Char.ofNat n, (cs.dropWhile (· ≠ '\x7d')).drop 1)
  | '\\' :: c :: cs => some (c, cs)
  | c :: cs => some (c, cs)

theorem not_mem_toDigits {n : Nat} {c : Char} (h : Json.hexDigit? c = none) :
    c ∉ Nat.toDigits 16 n := by
  intro hc
  have := Json.isSome_hexDigit?_of_mem (Json.hexNumber?_toDigits n) hc
  rw [h] at this
  cases this

theorem unquoteChar?_codeEscape (c : Char) (r : List Char) :
    unquoteChar? (codeEscape c ++ r) = some (c, r) := by
  have hdigits : ∀ d ∈ Nat.toDigits 16 c.toNat, decide (d ≠ '\x7d') = true := by
    intro d hd
    have hne : d ≠ '\x7d' := by
      rintro rfl
      exact not_mem_toDigits (by decide) hd
    exact decide_eq_true hne
  have hescape : codeEscape c ++ r =
      '\\' :: 'u' :: '\x7b' :: (Nat.toDigits 16 c.toNat ++ '\x7d' :: r) := by
    simp [codeEscape]
  rw [hescape, unquoteChar?, List.takeWhile_append_of_pos hdigits,
    List.dropWhile_append_of_pos hdigits]
  simp [Json.hexNumber?_toDigits, Char.ofNat_toNat]

/-- A character is read back from its form in quotes. -/
theorem unquoteChar?_quoteChar (c : Char) (r : List Char) :
    unquoteChar? (quoteChar '"' c ++ r) = some (c, r) := by
  unfold quoteChar
  split_ifs with h0 ht hr hn hmark hcode
  · subst h0; rfl
  · subst ht; rfl
  · subst hr; rfl
  · subst hn; rfl
  · simp only [Bool.or_eq_true, decide_eq_true_eq] at hmark
    rcases hmark with rfl | rfl <;> rfl
  · exact unquoteChar?_codeEscape c r
  · simp only [Bool.or_eq_true, decide_eq_true_eq, not_or] at hmark
    simp [unquoteChar?, hmark]

theorem quoteChars_injective {s t : List Char}
    (h : s.flatMap (quoteChar '"') ++ ['"'] = t.flatMap (quoteChar '"') ++ ['"']) : s = t := by
  have hread := congrArg unquoteChar? h
  induction s generalizing t with
  | nil =>
    cases t with
    | nil => rfl
    | cons d t =>
      rw [List.flatMap_cons, List.append_assoc, unquoteChar?_quoteChar] at hread
      cases hread
  | cons c s ih =>
    rw [List.flatMap_cons, List.append_assoc, unquoteChar?_quoteChar] at hread
    cases t with
    | nil => cases hread
    | cons d t =>
      rw [List.flatMap_cons, List.append_assoc, unquoteChar?_quoteChar] at hread
      obtain ⟨rfl, hrest⟩ := Prod.mk.inj (Option.some.inj hread)
      rw [ih hrest (congrArg _ hrest)]

theorem quoted_injective : Function.Injective quoted := by
  intro s t h
  have h := congrArg String.toList h
  simp only [quoted, String.toList_ofList, List.cons_append, List.cons.injEq, true_and] at h
  exact String.toList_injective (quoteChars_injective h)

theorem newline_not_mem_quoteChar (mark c : Char) : '\n' ∉ quoteChar mark c := by
  unfold quoteChar
  split_ifs with h0 ht hr hn hmark hcode
  · decide
  · decide
  · decide
  · decide
  · simp [Ne.symm hn]
  · have hdigits : '\n' ∉ Nat.toDigits 16 c.toNat := not_mem_toDigits (by decide)
    simp [codeEscape, hdigits]
  · simp [Ne.symm hn]

theorem newline_not_mem_quoted (s : String) : '\n' ∉ (quoted s).toList := by
  simp [quoted, newline_not_mem_quoteChar]

/-! ### Lines -/

/-- A line without newlines is the first piece. -/
theorem pieces_line {l : List Char} (h : '\n' ∉ l) (r : List Char) :
    pieces '\n' (l ++ '\n' :: r) = l :: pieces '\n' r := by
  induction l with
  | nil => simp [pieces]
  | cons c l ih =>
    rw [List.mem_cons, not_or] at h
    rw [List.cons_append, pieces, if_neg (Ne.symm h.1), ih h.2]

end Text

/-! ### Categories -/

namespace Category

theorem fullName_injective : Function.Injective fullName := by
  intro c d h
  have hname := ofName?_fullName c
  rw [h, ofName?_fullName] at hname
  exact (Option.some.inj hname).symm

theorem not_mem_fullName (k : Category) :
    ' ' ∉ k.fullName.toList ∧ '\n' ∉ k.fullName.toList := by
  cases k <;> simp [fullName]

end Category

namespace Token

/-! ### Plain listings -/

def lineText (e : Category × String) : List Char :=
  (Text.padded 45 e.1.fullName ++ " " ++ Text.quoted e.2).toList

/-- The kind ends at the first blank. -/
theorem takeWhile_lineText (e : Category × String) :
    (lineText e).takeWhile (· ≠ ' ') = e.1.fullName.toList := by
  have hname : ∀ c ∈ e.1.fullName.toList, decide (c ≠ ' ') = true := fun c hc =>
    decide_eq_true fun h => (Category.not_mem_fullName e.1).1 (h ▸ hc)
  have hblanks (n : Nat) (cs : List Char) :
      (List.replicate n ' ' ++ (' ' :: cs)).takeWhile (· ≠ ' ') = [] := by
    cases n <;> simp [List.replicate_succ]
  have hline : lineText e = e.1.fullName.toList ++
      (List.replicate (45 - e.1.fullName.length) ' ' ++ (' ' :: (Text.quoted e.2).toList)) := by
    simp [lineText, Text.padded]
  rw [hline, List.takeWhile_append_of_pos hname, hblanks, List.append_nil]

/-- A line tells the kind and the text. -/
theorem lineText_injective : Function.Injective lineText := by
  rintro ⟨k, s⟩ ⟨k', s'⟩ h
  have hkind : k = k' := by
    refine Category.fullName_injective (String.toList_injective ?_)
    rw [← takeWhile_lineText (k, s), h, takeWhile_lineText]
  subst hkind
  simp only [lineText, String.toList_append] at h
  have htext : s = s' := Text.quoted_injective (String.toList_injective (List.append_cancel_left h))
  rw [htext]

theorem newline_not_mem_lineText (e : Category × String) : '\n' ∉ lineText e := by
  simp [lineText, Text.padded, (Category.not_mem_fullName e.1).2, Text.newline_not_mem_quoted]

theorem toList_line (t : Token) : t.line.toList = lineText (t.kind, t.text) ++ ['\n'] := by
  simp [line, lineText]

theorem toList_listing_plain (ts : List Token) : (listing .plain ts).toList =
    (ts.map fun t => (t.kind, t.text)).flatMap fun e => lineText e ++ ['\n'] := by
  simp [listing, String.toList_join, List.flatMap_map, toList_line]

theorem pieces_lines (es : List (Category × String)) :
    Text.pieces '\n' (es.flatMap fun e => lineText e ++ ['\n']) = es.map lineText ++ [[]] := by
  induction es with
  | nil => rfl
  | cons e es ih =>
    rw [List.flatMap_cons, List.append_assoc, List.singleton_append,
      Text.pieces_line (newline_not_mem_lineText e), ih, List.map_cons, List.cons_append]

theorem listing_plain_eq_iff (ts us : List Token) : listing .plain ts = listing .plain us ↔
    ts.map (fun t => (t.kind, t.text)) = us.map (fun t => (t.kind, t.text)) := by
  constructor
  · intro h
    have hpieces := congrArg (fun s => Text.pieces '\n' s.toList) h
    simp only [toList_listing_plain, pieces_lines] at hpieces
    exact List.map_injective_iff.2 lineText_injective (List.append_cancel_right hpieces)
  · intro h
    refine String.toList_injective ?_
    rw [toList_listing_plain, toList_listing_plain, h]

/-! ### Listings as JSON -/

theorem value_injective : Function.Injective value := by
  rintro ⟨⟨line, column⟩, kind, text⟩ ⟨⟨line', column'⟩, kind', text'⟩ h
  simp only [value, Json.Value.object.injEq, List.cons.injEq, Prod.mk.injEq, true_and, and_true,
    Json.Value.natural.injEq, Json.Value.text.injEq] at h
  obtain ⟨rfl, rfl, hkind, rfl⟩ := h
  obtain rfl := Category.fullName_injective hkind
  rfl

theorem listing_json_injective : Function.Injective (listing .json) := by
  intro ts us h
  have hwritten : (Json.Value.list (ts.map value)).written =
      (Json.Value.list (us.map value)).written := by
    have h := congrArg String.toList h
    simp only [listing, String.toList_append] at h
    exact String.toList_injective (List.append_cancel_right h)
  have hvalues := Json.Value.list.inj (Json.Value.written_injective hwritten)
  exact List.map_injective_iff.2 value_injective hvalues

/-- A plain listing tells the kinds and the texts of the tokens, in one line for each token
whatever its text holds, and the listing as JSON tells the tokens. -/
theorem listings_faithful :
    (∀ ts us : List Token, listing .plain ts = listing .plain us ↔
      ts.map (fun t => (t.kind, t.text)) = us.map (fun t => (t.kind, t.text))) ∧
    (∀ ts : List Token, Text.pieces '\n' (listing .plain ts).toList =
      ts.map (fun t => t.line.toList.dropLast) ++ [[]]) ∧
    ∀ ts us : List Token, listing .json ts = listing .json us ↔ ts = us := by
  refine ⟨listing_plain_eq_iff, fun ts => ?_, fun ts us => listing_json_injective.eq_iff⟩
  rw [toList_listing_plain, pieces_lines]
  simp [toList_line]

end Token

end Highlighter
