import Mathlib.Data.List.Induction
import Highlighter.Proofs.Ends
import Highlighter.Proofs.Lossless
import Highlighter.Rules.EngineCpp

/-! String literals. In a literal the scanner takes a run of plain characters, a backslash
with what it escapes, or a backslash that escapes nothing. Proved: no such chunk hides the
end of the literal or moves it, so the literal ends at the first quote or newline that has
an even number of backslashes in front of it, and up to there all is string or escape. -/

namespace Highlighter

open Pattern Rules.EngineCpp

/-! ### Ends of literals -/

/-- The number of backslashes that a text ends in. -/
def backslashes (cs : List Char) : Nat := (cs.reverse.takeWhile (· == '\\')).length

/-- Whether a character that stands behind some text of a literal ends the literal: the
backslashes in front of it escape each other. -/
def EndsLiteral (cs : List Char) (c : Char) : Prop :=
  (c = '"' ∨ c = '\n') ∧ backslashes cs % 2 = 0
deriving Decidable

/-- No character of the text ends the literal that the text begins. -/
def StaysInLiteral (cs : List Char) : Prop :=
  ∀ i, ∀ h : i < cs.length, ¬ EndsLiteral (cs.take i) cs[i]

instance (cs : List Char) : Decidable (StaysInLiteral cs) :=
  inferInstanceAs (Decidable (∀ i, ∀ h : i < cs.length, ¬ EndsLiteral (cs.take i) cs[i]))

theorem staysInLiteral_iff {cs : List Char} :
    StaysInLiteral cs ↔ ∀ b c d, cs = b ++ c :: d → ¬ EndsLiteral b c := by
  constructor
  · rintro h b c d rfl
    simpa using h b.length (by simp)
  · intro h i hi
    refine h _ _ (cs.drop (i + 1)) ?_
    rw [List.getElem_cons_drop, List.take_append_drop]

theorem backslashes_append_singleton (b : List Char) (c : Char) :
    backslashes (b ++ [c]) = if c = '\\' then backslashes b + 1 else 0 := by
  simp only [backslashes, List.reverse_append, List.reverse_singleton, List.singleton_append,
    List.takeWhile_cons, beq_iff_eq]
  split_ifs <;> simp

/-- Behind a text that ends in backslashes that escape each other, the count begins anew. -/
theorem even_backslashes_append {w : List Char} (hw : backslashes w % 2 = 0) (b : List Char) :
    backslashes (w ++ b) % 2 = backslashes b % 2 := by
  induction b using List.reverseRecOn with
  | nil => rw [List.append_nil, hw]; rfl
  | append_singleton b c ih =>
    rw [← List.append_assoc, backslashes_append_singleton, backslashes_append_singleton]
    split_ifs <;> omega

/-- Behind a character that is no backslash, it begins anew as well. -/
theorem backslashes_append_cons {c : Char} (hc : c ≠ '\\') (w b : List Char) :
    backslashes (w ++ c :: b) = backslashes (c :: b) := by
  induction b using List.reverseRecOn with
  | nil =>
    rw [backslashes_append_singleton, if_neg hc, ← List.nil_append [c],
      backslashes_append_singleton, if_neg hc]
  | append_singleton b d ih =>
    rw [← List.cons_append, ← List.append_assoc, backslashes_append_singleton,
      backslashes_append_singleton, ih]

/-! ### Chunks of literals -/

def plainChars : CharSet := .except [.of "\\\"\n"]

theorem has_plainChars {c : Char} : plainChars.has c ↔ c ≠ '\\' ∧ c ≠ '"' ∧ c ≠ '\n' := by
  simp [plainChars]

theorem backslashes_of_plain {w : List Char} (h : ∀ c ∈ w, plainChars.has c) :
    backslashes w = 0 := by
  cases w using List.reverseRecOn with
  | nil => rfl
  | append_singleton w c =>
    rw [backslashes_append_singleton, if_neg (has_plainChars.1 (h c (by simp))).1]

theorem even_backslashes_escape (c : Char) {w : List Char} (h : ∀ c ∈ w, plainChars.has c) :
    backslashes ('\\' :: c :: w) % 2 = 0 := by
  cases w using List.reverseRecOn with
  | nil =>
    change backslashes (([] ++ ['\\']) ++ [c]) % 2 = 0
    rw [backslashes_append_singleton, backslashes_append_singleton, if_pos rfl]
    split_ifs <;> rfl
  | append_singleton w d =>
    have hd := has_plainChars.1 (h d (by simp))
    rw [← List.cons_append, ← List.cons_append, backslashes_append_singleton, if_neg hd.1]

/-- What the scanner takes of a literal in one step that does not end it, in front of some
text: plain characters, a backslash with what it escapes, or a backslash that escapes
nothing. -/
inductive Chunk : List Char → List Char → Prop
  | plain {w : List Char} (hne : w ≠ []) (h : ∀ c ∈ w, plainChars.has c) (rest : List Char) :
      Chunk w rest
  | escape {w : List Char} (c : Char) (h : ∀ c ∈ w, plainChars.has c) (rest : List Char) :
      Chunk ('\\' :: c :: w) rest
  | lone {rest : List Char} (h : ∀ c ∈ rest.head?, plainChars.has c) : Chunk ['\\'] rest

namespace Chunk

variable {w rest : List Char}

theorem ne_nil (h : Chunk w rest) : w ≠ [] := by
  cases h with
  | plain hne => exact hne
  | escape | lone => simp

/-- A chunk does not run over the end of the literal. -/
theorem staysInLiteral (h : Chunk w rest) : StaysInLiteral w := by
  have hplain {w b d : List Char} {c : Char} (hw : ∀ c ∈ w, plainChars.has c)
      (he : w = b ++ c :: d) : ¬ (c = '"' ∨ c = '\n') := by
    have hc := has_plainChars.1 (hw c (by simp [he]))
    tauto
  rw [staysInLiteral_iff]
  rintro b c d hb ⟨hc, heven⟩
  cases h with
  | plain _ h => exact hplain h hb hc
  | escape e h =>
    match b, hb with
    | [], hb =>
      cases hb
      simp at hc
    | [x], hb =>
      cases hb
      cases heven
    | x :: y :: b, hb =>
      cases hb
      exact hplain h rfl hc
  | lone =>
    cases b with
    | nil =>
      cases hb
      simp at hc
    | cons => simp at hb

/-- A chunk does not move the end of the literal. -/
theorem endsLiteral_append (h : Chunk w rest) {b d : List Char} {c : Char}
    (hr : rest = b ++ c :: d) : EndsLiteral (w ++ b) c ↔ EndsLiteral b c := by
  have heven (hw : backslashes w % 2 = 0) : EndsLiteral (w ++ b) c ↔ EndsLiteral b c := by
    rw [EndsLiteral, EndsLiteral, even_backslashes_append hw]
  cases h with
  | plain _ h => exact heven (by rw [backslashes_of_plain h])
  | escape e h => exact heven (even_backslashes_escape e h)
  | lone h =>
    subst hr
    cases b with
    | nil =>
      have hc := has_plainChars.1 (h c (by simp))
      simp only [EndsLiteral]
      tauto
    | cons e b =>
      have he := has_plainChars.1 (h e (by simp))
      rw [EndsLiteral, EndsLiteral, backslashes_append_cons he.1]

/-- In front of the end of the literal or of the text, what is left behind a chunk has the
same end. -/
theorem exists_split (h : Chunk w rest) {body tail : List Char} (he : w ++ rest = body ++ tail)
    (hbody : StaysInLiteral body) (htail : ∀ e ∈ tail.head?, EndsLiteral body e) :
    ∃ b, body = w ++ b ∧ rest = b ++ tail ∧ StaysInLiteral b ∧
      ∀ e ∈ tail.head?, EndsLiteral b e := by
  have hprefix : ∃ b, body = w ++ b ∧ rest = b ++ tail := by
    rcases List.append_eq_append_iff.1 he with ⟨b, hb, hrest⟩ | ⟨b, hb, hrest⟩
    · exact ⟨b, hb, hrest⟩
    · cases b with
      | nil => exact ⟨[], by simpa using hb.symm, by simpa using hrest.symm⟩
      | cons e b =>
        have hends := htail e (by rw [hrest]; rfl)
        exact absurd hends (staysInLiteral_iff.1 h.staysInLiteral _ _ _ hb)
  obtain ⟨b, rfl, rfl⟩ := hprefix
  refine ⟨b, rfl, rfl, ?_, fun e htl => ?_⟩
  · rw [staysInLiteral_iff] at hbody ⊢
    rintro b c d rfl
    rw [← h.endsLiteral_append (List.append_assoc b (c :: d) tail)]
    exact hbody (w ++ b) c d (List.append_assoc w b (c :: d)).symm
  · obtain ⟨ds, hds⟩ := List.head?_eq_some_iff.1 htl
    exact (h.endsLiteral_append (by rw [hds])).1 (htail e htl)

end Chunk

/-! ### Rules of the state -/

theorem rules_string : Rules.engineCpp.rules string =
    [(Rule.token (char '"') .literalString).pop 1,
      .token escapeSequence .literalStringEscape,
      .token (plus (one plainChars)) .literalString,
      .token (lit "\\\n") .literalString,
      .token (char '\\') .literalString,
      (Rule.token (char '\n') .text).pop 1] := rfl

/-- The characters of a set are plain if none of the special ones is in it. -/
theorem has_plainChars_of_has {s : CharSet} (hs : "\\\"\n".toList.any s.has = false) {c : Char}
    (h : s.has c) : plainChars.has c := by
  by_contra hc
  rw [has_plainChars] at hc
  have hspecial : c ∈ "\\\"\n".toList := by
    simp only [String.reduceToList, List.mem_cons, List.not_mem_nil]
    tauto
  exact List.any_eq_false.1 hs c hspecial h

/-- An escape with a letter in front of its digits. -/
theorem takes_of_mem_lettered {r m : Reach} {e : Char} {s : CharSet} {least top : Nat}
    (hs : "\\\"\n".toList.any s.has = false)
    (h : m ∈ (seqs [char e, rep (one s) least (some top) true]).ways r) :
    ∃ c w, (∀ d ∈ w, plainChars.has d) ∧ r.Takes (c :: w) m := by
  simp only [mem_ways_seqs_cons, mem_ways_seqs_nil, mem_ways_char] at h
  obtain ⟨x, hx, _, hm, rfl⟩ := h
  obtain ⟨w, -, hw, hm⟩ := takes_of_mem_ways_rep_one hm
  exact ⟨e, w, fun d hd => has_plainChars_of_has hs (hw d hd), (Reach.takes_cons _ _).2 ⟨x, hx, hm⟩⟩

theorem takes_of_mem_escapeSequence {r m : Reach} (h : m ∈ escapeSequence.ways r) :
    ∃ c w, (∀ d ∈ w, plainChars.has d) ∧ r.Takes ('\\' :: c :: w) m := by
  have hhex : "\\\"\n".toList.any CharSet.hexDigit.has = false := by decide
  rw [escapeSequence, mem_ways_seqs_cons] at h
  obtain ⟨x, hx, h⟩ := h
  suffices hrest : ∃ c w, (∀ d ∈ w, plainChars.has d) ∧ x.Takes (c :: w) m by
    obtain ⟨c, w, hw, hm⟩ := hrest
    exact ⟨c, w, hw, (Reach.takes_cons _ _).2 ⟨x, mem_ways_char.1 hx, hm⟩⟩
  simp only [seqs, alts, mem_ways_alt] at h
  rcases h with h | h | h | h | h
  · obtain ⟨c, -, hm⟩ := mem_ways_one.1 h
    exact ⟨c, [], by simp, hm⟩
  · exact takes_of_mem_lettered hhex h
  · exact takes_of_mem_lettered hhex h
  · exact takes_of_mem_lettered hhex h
  · obtain ⟨w, hlen, hw, hm⟩ := takes_of_mem_ways_rep_one h
    obtain ⟨c, w, rfl⟩ := List.exists_cons_of_length_pos (show 0 < w.length by omega)
    have hw' := (List.forall_mem_cons.1 hw).2
    exact ⟨c, w, fun d hd => has_plainChars_of_has (by decide) (hw' d hd), hm⟩

/-- A backslash, and a quote or another backslash, are an escape. -/
theorem exists_mem_escapeSequence {r : Reach} {c : Char} {cs : List Char}
    (hr : r.rest = '\\' :: c :: cs) (hc : c = '\\' ∨ c = '"') :
    ∃ m, m ∈ escapeSequence.ways r := by
  obtain ⟨x, hx, hrest⟩ := Reach.exists_takes (show r.rest = ['\\'] ++ c :: cs from hr)
  obtain ⟨m, hm, -⟩ := Reach.exists_takes (show x.rest = [c] ++ cs from hrest)
  refine ⟨m, ?_⟩
  rw [escapeSequence, mem_ways_seqs_cons]
  refine ⟨x, mem_ways_char.2 hx, ?_⟩
  simp only [seqs, alts, mem_ways_alt]
  exact .inl (mem_ways_one.2 ⟨c, by rcases hc with rfl | rfl <;> decide, hm⟩)

/-- A backslash is taken by itself where it escapes nothing. -/
theorem chunk_lone {r m : Reach} (hm : r.Takes ['\\'] m)
    (hescape : ∀ x, x ∉ escapeSequence.ways r) (hcontinued : ∀ x, x ∉ (lit "\\\n").ways r) :
    Chunk ['\\'] m.rest := by
  refine .lone fun c hc => has_plainChars.2 ?_
  obtain ⟨cs, hcs⟩ := List.head?_eq_some_iff.1 hc
  have hrest : r.rest = '\\' :: c :: cs := by rw [hm.rest_eq, hcs]; rfl
  have hfree : ¬ (c = '\\' ∨ c = '"') := by
    intro he
    obtain ⟨x, hx⟩ := exists_mem_escapeSequence hrest he
    exact hescape x hx
  refine ⟨fun he => hfree (.inl he), fun he => hfree (.inr he), ?_⟩
  rintro rfl
  obtain ⟨x, hx, -⟩ := Reach.exists_takes (show r.rest = "\\\n".toList ++ cs from hrest)
  exact hcontinued x (mem_ways_lit.2 hx)

/-- There is a rule for each character. -/
theorem exists_mem_ways {r : Reach} (hr : r.rest ≠ []) : ∃ x, x ∈ (char '"').ways r ∨
    x ∈ (plus (one plainChars)).ways r ∨ x ∈ (char '\\').ways r ∨ x ∈ (char '\n').ways r := by
  obtain ⟨c, cs, hcs⟩ := List.exists_cons_of_ne_nil hr
  obtain ⟨x, hx, -⟩ := Reach.exists_takes (show r.rest = [c] ++ cs from hcs)
  refine ⟨x, ?_⟩
  simp only [mem_ways_char, mem_ways_plus_one]
  by_cases hplain : plainChars.has c
  · exact .inr (.inl ⟨[c], by simp, by simpa using hplain, hx⟩)
  · have hspecial : c = '\\' ∨ c = '"' ∨ c = '\n' := by
      rw [has_plainChars] at hplain
      tauto
    rcases hspecial with rfl | rfl | rfl
    · exact .inr (.inr (.inl hx))
    · exact .inl hx
    · exact .inr (.inr (.inr hx))

/-- What a rule takes in a literal, in front of some text: the end of the literal, or a chunk
of it. -/
inductive InLiteral (r : Rule) (w rest : List Char) : Prop
  | ends {c : Char} (hw : w = [c]) (hc : c = '"' ∨ c = '\n') (hmove : r.move = .pop 1)
      (ha : r.action = .emit (if c = '"' then .literalString else .text))
  | stays {kind : Category} (hw : Chunk w rest) (hmove : r.move = .stay)
      (ha : r.action = .emit kind) (hk : kind = .literalString ∨ kind = .literalStringEscape)

/-! ### Steps in a literal -/

namespace Scanner

variable {s : Scanner} {st : Stack}

/-- What the rule takes that is selected in a literal. -/
theorem select_string (hst : s.stack.top = string) (hr : s.rest ≠ []) :
    ∃ r m w, s.select Rules.engineCpp = some (r, m) ∧ (Reach.start s.before s.rest).Takes w m ∧
      InLiteral r w m.rest := by
  rw [select, hst, rules_string]
  have hways {r : Rule} {m : Reach} (h : s.effect? r = some m) (hp : r.action ≠ .peek)
      (hu : r.pattern.unmarked) : m ∈ r.pattern.ways (.start s.before s.rest) :=
    mem_ways_of_rule (effect?_eq_some h).1 hp hu
  -- the rules are tried in their order
  cases hquote : s.effect? ((Rule.token (char '"') .literalString).pop 1) with
  | some m =>
    have hm := mem_ways_char.1 (hways hquote (by decide) rfl)
    exact ⟨_, m, _, findSome?_of_effect? hquote, hm, .ends rfl (.inl rfl) rfl rfl⟩
  | none =>
  rw [findSome?_of_effect?_eq_none hquote]
  cases hescape : s.effect? (.token escapeSequence .literalStringEscape) with
  | some m =>
    obtain ⟨c, w, hw, hm⟩ := takes_of_mem_escapeSequence (hways hescape (by decide) rfl)
    exact ⟨_, m, _, findSome?_of_effect? hescape, hm, .stays (.escape c hw _) rfl rfl (.inr rfl)⟩
  | none =>
  rw [findSome?_of_effect?_eq_none hescape]
  cases hplain : s.effect? (.token (plus (one plainChars)) .literalString) with
  | some m =>
    obtain ⟨w, hne, hw, hm⟩ := mem_ways_plus_one.1 (hways hplain (by decide) rfl)
    exact ⟨_, m, w, findSome?_of_effect? hplain, hm, .stays (.plain hne hw _) rfl rfl (.inl rfl)⟩
  | none =>
  rw [findSome?_of_effect?_eq_none hplain]
  cases hcontinued : s.effect? (.token (lit "\\\n") .literalString) with
  | some m =>
    have hm := mem_ways_lit.1 (hways hcontinued (by decide) rfl)
    exact ⟨_, m, _, findSome?_of_effect? hcontinued, hm,
      .stays (.escape '\n' (by simp) _) rfl rfl (.inl rfl)⟩
  | none =>
  rw [findSome?_of_effect?_eq_none hcontinued]
  rw [effect?_eq_none_iff rfl (by decide) rfl rfl] at hquote hescape hplain hcontinued
  cases hlone : s.effect? (.token (char '\\') .literalString) with
  | some m =>
    have hm := mem_ways_char.1 (hways hlone (by decide) rfl)
    exact ⟨_, m, _, findSome?_of_effect? hlone, hm,
      .stays (chunk_lone hm hescape hcontinued) rfl rfl (.inl rfl)⟩
  | none =>
  rw [findSome?_of_effect?_eq_none hlone]
  cases hnewline : s.effect? ((Rule.token (char '\n') .text).pop 1) with
  | some m =>
    have hm := mem_ways_char.1 (hways hnewline (by decide) rfl)
    exact ⟨_, m, _, findSome?_of_effect? hnewline, hm, .ends rfl (.inr rfl) rfl rfl⟩
  | none =>
  rw [effect?_eq_none_iff rfl (by decide) rfl rfl] at hlone hnewline
  obtain ⟨x, h | h | h | h⟩ := exists_mem_ways (r := .start s.before s.rest) hr
  · exact absurd h (hquote x)
  · exact absurd h (hplain x)
  · exact absurd h (hlone x)
  · exact absurd h (hnewline x)

/-- A step in a literal ends it, or takes a chunk of it. -/
theorem step_string (hst : s.stack = st.push string) (hr : s.rest ≠ []) :
    (∃ c, (c = '"' ∨ c = '\n') ∧ TakesText (if c = '"' then .literalString else .text) [c] st
      s (s.step Rules.engineCpp)) ∨
    ∃ w kind, (kind = .literalString ∨ kind = .literalStringEscape) ∧
      Chunk w (s.step Rules.engineCpp).rest ∧
      TakesText kind w s.stack s (s.step Rules.engineCpp) := by
  obtain ⟨r, m, w, hsel, hm, hin⟩ := select_string (by rw [hst]; rfl) hr
  cases hin with
  | @ends c hw hc hmove ha =>
    subst hw
    have hstack : r.move.apply s.stack = st := by rw [hmove, hst]; rfl
    exact .inl ⟨c, hc, hstack ▸ takesText_of_select hsel hm (by simp) ha⟩
  | @stays kind hw hmove ha hkind =>
    have hstack : r.move.apply s.stack = s.stack := by rw [hmove]; rfl
    have htakes := takesText_of_select hsel hm hw.ne_nil ha
    rw [hstack] at htakes
    have hrest : (s.step Rules.engineCpp).rest = m.rest :=
      List.append_cancel_left (htakes.rest_eq.symm.trans hm.rest_eq)
    exact .inr ⟨w, kind, hkind, hrest ▸ hw, htakes⟩

/-- In front of the end of the literal, the step takes the end. -/
theorem takesText_end {e : Char} {after : List Char} (hst : s.stack = st.push string)
    (hr : s.rest = e :: after) (he : e = '"' ∨ e = '\n') :
    TakesText (if e = '"' then .literalString else .text) [e] st s (s.step Rules.engineCpp) := by
  rcases step_string hst (by rw [hr]; simp) with ⟨c, -, htakes⟩ | ⟨w, kind, -, hw, htakes⟩
  · rwa [(List.cons.inj (hr.symm.trans htakes.rest_eq)).1]
  · -- no chunk begins with the end of the literal
    obtain ⟨x, xs, rfl⟩ := List.exists_cons_of_ne_nil hw.ne_nil
    have hx : e = x := (List.cons.inj (hr.symm.trans htakes.rest_eq)).1
    exact absurd ⟨hx ▸ he, rfl⟩ (staysInLiteral_iff.1 hw.staysInLiteral [] x xs rfl)

/-- The part of a literal in front of its end, or of the end of the text, comes out as string
and escapes. -/
theorem exists_run_literal {body tail : List Char} (hst : s.stack = st.push string)
    (hr : s.rest = body ++ tail) (hbody : StaysInLiteral body)
    (htail : ∀ e ∈ tail.head?, EndsLiteral body e) :
    ∃ n ts, (s.run Rules.engineCpp n).rest = tail ∧
      (s.run Rules.engineCpp n).stack = st.push string ∧
      (s.run Rules.engineCpp n).tokens = s.tokens ++ ts ∧
      (∀ t ∈ ts, t.kind = .literalString ∨ t.kind = .literalStringEscape) ∧
      Token.joined ts = body := by
  induction hn : body.length using Nat.strongRecOn generalizing s body with
  | ind n ih =>
  by_cases hnil : body = []
  · subst hnil
    exact ⟨0, [], hr, hst, by simp [run], by simp, rfl⟩
  obtain ⟨x, xs, hx⟩ := List.exists_cons_of_ne_nil hnil
  have hne : s.rest ≠ [] := by rw [hr, hx]; simp
  rcases step_string hst hne with ⟨c, hc, htakes⟩ | ⟨w, kind, hkind, hw, htakes⟩
  · -- the literal does not end at its first character
    have hcx : c = x := by
      have := htakes.rest_eq
      rw [hr, hx] at this
      exact (List.cons.inj this).1.symm
    subst hcx
    exact absurd ⟨hc, rfl⟩ (staysInLiteral_iff.1 hbody [] c xs hx)
  · have hsplit : w ++ (s.step Rules.engineCpp).rest = body ++ tail := by
      rw [← htakes.rest_eq, hr]
    obtain ⟨b, rfl, hrest, hbody', htail'⟩ := hw.exists_split hsplit hbody htail
    have hshort : b.length < n := by
      rw [← hn, List.length_append]
      exact Nat.lt_add_of_pos_left (List.length_pos_iff.2 hw.ne_nil)
    obtain ⟨k, ts, hend, hstack, htokens, hkinds, hjoined⟩ :=
      ih _ hshort (htakes.stack_eq.trans hst) hrest hbody' htail' rfl
    refine ⟨k + 1, ⟨s.location, kind, String.ofList w⟩ :: ts, ?_⟩
    rw [run_succ hne, htokens, htakes.tokens_eq, Token.joined_cons, hjoined, String.toList_ofList]
    exact ⟨hend, hstack, by simp, List.forall_mem_cons.2 ⟨hkind, hkinds⟩, rfl⟩

end Scanner

/-- A string literal ends where it should. In any state inside of one, the first quote or
newline with an even number of backslashes in front of it ends it: what is before it comes
out as string and escapes, the quote as string and the newline as plain text, and the stack
is again the one below. Without such a character all text comes out as string and escapes. -/
theorem stringLiteral_ends {s : Scanner} {st : Stack} (h : s.stack = st.push string) :
    (∀ body e after, s.rest = body ++ e :: after → StaysInLiteral body → EndsLiteral body e →
      ∃ n ts t, (s.run Rules.engineCpp n).rest = after ∧ (s.run Rules.engineCpp n).stack = st ∧
        (s.run Rules.engineCpp n).tokens = s.tokens ++ ts ++ [t] ∧
        (∀ u ∈ ts, u.kind = .literalString ∨ u.kind = .literalStringEscape) ∧
        Token.joined ts = body ∧
        t.kind = (if e = '"' then .literalString else .text) ∧ t.text = String.ofList [e]) ∧
    (StaysInLiteral s.rest → ∃ n ts, (s.run Rules.engineCpp n).rest = [] ∧
      (s.run Rules.engineCpp n).tokens = s.tokens ++ ts ∧
      (∀ u ∈ ts, u.kind = .literalString ∨ u.kind = .literalStringEscape) ∧
      Token.joined ts = s.rest) := by
  constructor
  · intro body e after hr hbody hend
    obtain ⟨n, ts, hrest, hstack, htokens, hkinds, hjoined⟩ :=
      Scanner.exists_run_literal h hr hbody (by simpa using hend)
    have hne : (s.run Rules.engineCpp n).rest ≠ [] := by rw [hrest]; simp
    have hstep : s.run Rules.engineCpp (n + 1) =
        (s.run Rules.engineCpp n).step Rules.engineCpp := by
      rw [Scanner.run_add, Scanner.run_succ hne]
      rfl
    have htakes := Scanner.takesText_end hstack hrest hend.1
    have hafter : after = ((s.run Rules.engineCpp n).step Rules.engineCpp).rest :=
      (List.cons.inj (hrest.symm.trans htakes.rest_eq)).2
    refine ⟨n + 1, ts, ⟨(s.run Rules.engineCpp n).location,
      if e = '"' then .literalString else .text, String.ofList [e]⟩, ?_⟩
    rw [hstep, ← htokens, htakes.tokens_eq, hafter]
    exact ⟨rfl, htakes.stack_eq, rfl, hkinds, hjoined, rfl, rfl⟩
  · intro hopen
    obtain ⟨n, ts, hrest, -, hrun⟩ :=
      Scanner.exists_run_literal h (List.append_nil _).symm hopen (by simp)
    exact ⟨n, ts, hrest, hrun⟩

/-- A literal with an escaped quote in it, and with a backslash that is escaped in front of
its end. -/
theorem stringLiteral_ends_escapedQuote :
    let s := (Scanner.start "\"a\\\"b\\\\\";".toList).run Rules.engineCpp 1
    s.stack = Stack.root.push string ∧ StaysInLiteral "a\\\"b\\\\".toList ∧
      EndsLiteral "a\\\"b\\\\".toList '"' ∧
      ∃ n ts t, (s.run Rules.engineCpp n).rest = [';'] ∧ (s.run Rules.engineCpp n).stack = .root ∧
        (s.run Rules.engineCpp n).tokens = s.tokens ++ ts ++ [t] ∧
        (∀ u ∈ ts, u.kind = .literalString ∨ u.kind = .literalStringEscape) ∧
        Token.joined ts = "a\\\"b\\\\".toList ∧ t.kind = .literalString ∧ t.text = "\"" := by
  intro s
  have hstack : s.stack = Stack.root.push string := by decide +kernel
  have hrest : s.rest = "a\\\"b\\\\".toList ++ '"' :: [';'] := by decide +kernel
  have hbody : StaysInLiteral "a\\\"b\\\\".toList := by decide +kernel
  have hend : EndsLiteral "a\\\"b\\\\".toList '"' := by decide +kernel
  exact ⟨hstack, hbody, hend, (stringLiteral_ends hstack).1 _ _ _ hrest hbody hend⟩

end Highlighter
