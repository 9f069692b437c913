import Highlighter.Config.Text
import Highlighter.Proofs.WrittenValues

/-! Reading a configuration back from its text. Each reader of a field takes what is written for
the field and leaves the text behind it. Proved: an object is read member by member, so the
text of a configuration gives that configuration, whatever its strings hold and in whatever
order its aliases are written. -/

namespace Highlighter

/-! ### Objects -/

namespace Json

theorem skipBlanks_cons {c : Char} (h : isBlank c = false) (cs : List Char) :
    skipBlanks (c :: cs) = c :: cs :=
  List.dropWhile_cons_of_neg (by simp [h])

theorem skipBlanks_blank (cs : List Char) : skipBlanks (' ' :: cs) = skipBlanks cs := rfl

theorem skipBlanks_newLine (depth : Nat) {c : Char} (h : isBlank c = false) (r : List Char) :
    skipBlanks (newLine depth ++ c :: r) = c :: r := by
  have hline : ∀ b ∈ newLine depth, isBlank b := by
    intro b hb
    rcases List.mem_cons.1 hb with rfl | hb
    · rfl
    · rw [List.eq_of_mem_replicate hb]
      rfl
  rw [skipBlanks, List.dropWhile_append_of_pos hline, ← skipBlanks, skipBlanks_cons h]

variable {α : Type} {member : α → String → List Char → Read α} {depth : Nat}

/-- Members that are read one after another from their texts, with the states before the first
and behind the last. -/
inductive Reads (member : α → String → List Char → Read α) (depth : Nat) :
    α → List (String × Value) → α → Prop
  | nil (a : α) : Reads member depth a [] a
  | cons {a b c : α} {name : String} {v : Value} {ms : List (String × Value)}
    (first : ∀ r, member a name (": ".toList ++ (v.write depth ++ r)) = .ok (b, r))
    (rest : Reads member depth b ms c) : Reads member depth a ((name, v) :: ms) c

/-- The text of a member after the quote that opens its name, and the text behind it. -/
def fromName (depth : Nat) (m : String × Value) (r : List Char) : List Char :=
  m.1.toList.flatMap writeChar ++ '"' :: (": ".toList ++ (m.2.write depth ++ r))

theorem writeMember_append (depth : Nat) (m : String × Value) (r : List Char) :
    Value.writeMember depth m ++ r = '"' :: fromName depth m r := by
  rw [Value.writeMember, List.append_assoc, List.append_assoc, writeString_append, fromName]

theorem nextMember_first (m : String × Value) (r : List Char) :
    nextMember true (newLine depth ++ (Value.writeMember depth m ++ r)) =
      .ok (some (fromName depth m r)) := by
  rw [writeMember_append, nextMember, skipBlanks_newLine depth rfl]
  rfl

theorem nextMember_comma (m : String × Value) (r : List Char) :
    nextMember false (',' :: (newLine depth ++ (Value.writeMember depth m ++ r))) =
      .ok (some (fromName depth m r)) := by
  rw [writeMember_append, nextMember, skipBlanks_cons rfl]
  simp [skipBlanks_newLine depth (c := '"') rfl]

/-- A member is read behind its name, and then those that follow it. -/
theorem readMembers_succ {a b : α} {name : String} {v : Value} {first : Bool} {cs r : List Char}
    {n : Nat} (hnext : nextMember first cs = .ok (some (fromName depth (name, v) r)))
    (hm : member a name (": ".toList ++ (v.write depth ++ r)) = .ok (b, r)) :
    readMembers member (n + 1) first a cs = readMembers member n false b r := by
  rw [readMembers, hnext]
  simp only [fromName, readString_flatMap_writeChar, Read.andThen_ok, hm]

/-- Members that follow another one are read up to the closing brace. -/
theorem readMembers_more {a c : α} {ms : List (String × Value)}
    (h : Reads member (depth + 1) a ms c) {n : Nat} (hn : ms.length < n) (r : List Char) :
    readMembers member n false a
      (more depth '\x7d' (ms.map (Value.writeMember (depth + 1))) ++ r) = .ok (c, r) := by
  induction h generalizing n with
  | nil a =>
    obtain ⟨n, rfl⟩ := Nat.exists_eq_succ_of_ne_zero (Nat.ne_of_gt hn)
    simp only [List.map_nil, more, List.append_assoc, List.singleton_append]
    simp [readMembers, nextMember, skipBlanks_newLine depth (c := '\x7d') rfl]
  | cons first rest ih =>
    obtain ⟨n, rfl⟩ := Nat.exists_eq_succ_of_ne_zero (Nat.ne_of_gt (Nat.zero_lt_of_lt hn))
    simp only [List.map_cons, more, List.append_assoc, List.cons_append]
    rw [readMembers_succ (nextMember_comma _ _) (first _), ih (Nat.lt_of_succ_lt_succ hn)]

/-- Each item takes some text, so there are no more members than characters. -/
theorem length_lt_more (depth : Nat) (closing : Char) (items : List (List Char)) :
    items.length < (more depth closing items).length := by
  induction items with
  | nil => simp [more]
  | cons x xs ih =>
    simp only [more, List.length_cons, List.length_append]
    omega

/-- An object is read from its text, after the opening brace. -/
theorem readObject_write {a c : α} {ms : List (String × Value)}
    (h : Reads member (depth + 1) a ms c) (r : List Char) : ∃ cs,
      (Value.object ms).write depth ++ r = '\x7b' :: cs ∧ readObject member a cs = .ok (c, r) := by
  rw [Value.write, Value.writeMembers_eq_map]
  cases h with
  | nil => exact ⟨'\x7d' :: r, rfl, rfl⟩
  | @cons _ b _ name v ms first rest =>
    have hlength := length_lt_more depth '\x7d' (ms.map (Value.writeMember (depth + 1)))
    rw [List.map_cons, block_cons]
    refine ⟨_, by simp only [List.cons_append, List.append_assoc]; rfl, ?_⟩
    rw [readObject, readMembers_succ (nextMember_first _ _) (first _), readMembers_more rest]
    simp only [List.length_map, List.length_append] at hlength ⊢
    omega

theorem skipColon_colon (cs : List Char) : skipColon (": ".toList ++ cs) = .ok (' ' :: cs) := rfl

/-- A string is read from what is written for it, behind a blank. -/
theorem readText_write (expected s : String) (depth : Nat) (r : List Char) :
    readText expected (' ' :: ((Value.text s).write depth ++ r)) = .ok (s, r) := by
  rw [Value.write, writeString_append, readText, skipBlanks_blank, skipBlanks_cons rfl]
  exact readString_flatMap_writeChar s r

end Json

/-! ### Aliases -/

namespace Assoc

/-- A new key goes to the end. -/
theorem put_of_notMem {κ α : Type} [DecidableEq κ] {k : κ} (a : α) {es : List (κ × α)}
    (h : k ∉ es.map Prod.fst) : put k a es = es ++ [(k, a)] := by
  induction es with
  | nil => rfl
  | cons e es ih =>
    rw [List.map_cons, List.mem_cons, not_or] at h
    rw [put, if_neg (Ne.symm h.1), ih h.2, List.cons_append]

end Assoc

namespace Aliases

def insertAll (a : Aliases) (es : List (String × String)) : Aliases :=
  es.foldl (fun a e => a.insert e.1 e.2) a

theorem entries_insertAll (a : Aliases) (es : List (String × String))
    (h : ((a.entries ++ es).map Prod.fst).Nodup) : (a.insertAll es).entries = a.entries ++ es := by
  induction es generalizing a with
  | nil => exact (List.append_nil _).symm
  | cons e es ih =>
    have hnew : e.1 ∉ a.entries.map Prod.fst := fun hmem => by
      rw [List.map_append] at h
      exact (List.nodup_append.1 h).2.2 _ hmem _ List.mem_cons_self rfl
    have hinsert : (a.insert e.1 e.2).entries = a.entries ++ [e] :=
      Assoc.put_of_notMem e.2 hnew
    have hsplit : (a.insert e.1 e.2).entries ++ es = a.entries ++ e :: es := by
      rw [hinsert, List.append_assoc, List.singleton_append]
    rw [insertAll, List.foldl_cons, ← insertAll, ih _ (hsplit ▸ h), hsplit]

theorem insertAll_empty (a : Aliases) : Aliases.empty.insertAll a.entries = a := by
  have hentries := entries_insertAll .empty a.entries a.nodup
  cases h : Aliases.empty.insertAll a.entries
  rw [h] at hentries
  cases hentries
  rfl

theorem get?_eq_some_iff (a : Aliases) (name tag : String) :
    a.get? name = some tag ↔ (name, tag) ∈ a.entries := by
  obtain ⟨es, h⟩ := a
  simp only [get?]
  induction es with
  | nil => simp
  | cons e es ih =>
    obtain ⟨k, t⟩ := e
    rw [List.map_cons, List.nodup_cons] at h
    by_cases hk : name = k
    · subst hk
      have hnot : (name, tag) ∉ es := fun hmem =>
        h.1 (List.mem_map.2 ⟨(name, tag), hmem, rfl⟩)
      simp [hnot, eq_comm]
    · have hne : (name == k) = false := by simpa using hk
      simp [List.lookup_cons, hne, hk, ih h.2]

/-- The order of the entries makes no difference. -/
theorem get?_of_perm {a b : Aliases} (h : a.entries.Perm b.entries) (name : String) :
    a.get? name = b.get? name := by
  refine Option.ext fun tag => ?_
  rw [get?_eq_some_iff, get?_eq_some_iff, h.mem_iff]

end Aliases

/-! ### Configurations -/

namespace Config

open Json

theorem reads_aliases (depth : Nat) (a : Aliases) (es : List (String × String)) :
    Reads readAlias depth a (es.map fun e => (e.1, .text e.2)) (a.insertAll es) := by
  induction es generalizing a with
  | nil => exact .nil a
  | cons e es ih =>
    refine .cons (b := a.insert e.1 e.2) (fun r => ?_) (ih _)
    rw [readAlias, skipColon_colon]
    simp only [Except.bind, readText_write, Read.andThen_ok]

theorem readAliases_write (a : Aliases) (depth : Nat) (r : List Char) :
    readAliases (' ' :: ((Value.object (a.entries.map fun e => (e.1, .text e.2))).write depth ++ r))
      = .ok (a, r) := by
  obtain ⟨cs, htext, hread⟩ := readObject_write (reads_aliases (depth + 1) .empty a.entries) r
  rw [htext, readAliases, skipBlanks_blank, skipBlanks_cons rfl]
  exact Aliases.insertAll_empty a ▸ hread

theorem formatOf_name (f : OutputFormat) (cs : List Char) : formatOf f.name cs = .ok (f, cs) := by
  cases f <;> rfl

theorem readFormat_write (f : OutputFormat) (depth : Nat) (r : List Char) :
    Config.readFormat (' ' :: ((Value.text f.name).write depth ++ r)) = .ok (f, r) := by
  rw [Value.write, writeString_append, Config.readFormat, skipBlanks_blank, skipBlanks_cons rfl]
  simp only [readString_flatMap_writeChar, Read.andThen_ok, formatOf_name]

/-- The members of a configuration are read into its fields. -/
theorem reads_fields (c : Config) (depth : Nat) :
    Reads Fields.readMember depth .unread
      [("default_lexer", .text c.defaultLanguage), ("format", .text c.format.name),
        ("aliases", .object (c.aliases.entries.map fun e => (e.1, .text e.2)))]
      ⟨some c.defaultLanguage, some c.format, some c.aliases⟩ := by
  refine .cons (b := ⟨some c.defaultLanguage, none, none⟩) (fun r => ?_)
    (.cons (b := ⟨some c.defaultLanguage, some c.format, none⟩) (fun r => ?_)
      (.cons (fun r => ?_) (.nil _)))
  · simp only [Fields.readMember, Fields.unread, Option.isSome_none, Bool.false_eq_true,
      ↓reduceIte, skipColon_colon, Except.bind, Fields.readDefaultLanguage, readText_write,
      Read.andThen_ok]
  · simp only [Fields.readMember, Option.isSome_none, Bool.false_eq_true, ↓reduceIte,
      skipColon_colon, Except.bind, Fields.readFormat, readFormat_write, Read.andThen_ok]
  · simp only [Fields.readMember, Option.isSome_none, Bool.false_eq_true, ↓reduceIte,
      skipColon_colon, Except.bind, Fields.readAliases, readAliases_write, Read.andThen_ok]

/-- A configuration is read back from its text, also with blanks behind it. -/
theorem ofText_text_append (c : Config) (blanks : String)
    (h : ∀ b ∈ blanks.toList, Json.isBlank b) : ofText (c.text ++ blanks) = .ok c := by
  obtain ⟨cs, htext, hread⟩ := readObject_write (reads_fields c 1) blanks.toList
  have hvalue : (c.text ++ blanks).toList = '\x7b' :: cs := by
    rw [← htext, String.toList_append, text, Value.written, String.toList_ofList, value]
  have hend : skipBlanks blanks.toList = [] := List.dropWhile_eq_nil_iff.2 h
  rw [ofText, hvalue, readAll, readFields, skipBlanks_cons rfl]
  simp only [hread, Read.andThen_ok, hend]
  rfl

theorem ofText_text (c : Config) : ofText c.text = .ok c := by
  simpa using ofText_text_append c "" (by simp)

theorem ofText_line (c : Config) : ofText (c.text ++ "\n") = .ok c :=
  ofText_text_append c "\n" (by simp [Json.isBlank])

/-- Whether configurations differ at most in the order of their aliases. -/
structure Same (c d : Config) : Prop where
  defaultLanguage : c.defaultLanguage = d.defaultLanguage
  format : c.format = d.format
  aliases : ∀ name, c.aliases.get? name = d.aliases.get? name

theorem same_of_perm (c : Config) {a : Aliases} (h : a.entries.Perm c.aliases.entries) :
    Same { c with aliases := a } c :=
  ⟨rfl, rfl, Aliases.get?_of_perm h⟩

end Config

end Highlighter
