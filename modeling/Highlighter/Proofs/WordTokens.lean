import Highlighter.Language
import Highlighter.Proofs.PreferredEnds
import Highlighter.Proofs.Progress
import Highlighter.Proofs.Renaming
import Highlighter.Proofs.SkippedBlocks

/-! Names and keywords in a text. The scanner makes them with rules for certain words between
word boundaries, one for the names of export macros and one for any identifier. Proved: each
of these rules takes an identifier and leaves nothing of it behind, so no name or keyword of
a scan is cut off within an identifier, and a keyword is never part of a longer word. -/

namespace Highlighter

open Pattern Rules.EngineCpp

/-! ### Words in a text -/

/-- Neither of the characters beside a text is a word character. -/
def NoWordBeside (before after : Option Char) : Prop :=
  ¬ before.any Text.isWord ∧ ¬ after.any Text.isWord
deriving Decidable

namespace Names

theorem has_letter (c : Char) : CharSet.letter.has c = c.isAlpha := by
  unfold Char.isAlpha Char.isUpper Char.isLower
  simp [CharSet.letter, CharSet.upper, CharSet.lower, CharSet.has, Char.le_def]

theorem has_identHead (c : Char) : CharSet.identHead.has c = (c.isAlpha || c == '_') := by
  simp [CharSet.identHead, has_letter]

theorem has_identTail (c : Char) : CharSet.identTail.has c = isIdentTail c := by
  have hdigit : CharSet.asciiDigit.has c = c.isDigit := by
    simp only [CharSet.asciiDigit, CharSet.has, Char.isDigit, Char.le_def]
  simp [CharSet.identTail, has_letter, hdigit, isIdentTail, Char.isAlphanum, Bool.or_assoc]

theorem isIdentTail_of_identHead {c : Char} (h : CharSet.identHead.has c) : isIdentTail c := by
  rw [has_identHead, Bool.or_eq_true] at h
  rcases h with h | h <;> simp [isIdentTail, Char.isAlphanum, h]

theorem isIdentifier_ofList_cons (c : Char) (cs : List Char) :
    isIdentifier (String.ofList (c :: cs)) ↔
      CharSet.identHead.has c ∧ ∀ d ∈ cs, isIdentTail d := by
  simp [isIdentifier, has_identHead]

theorem exists_cons_of_isIdentifier {w : List Char} (h : isIdentifier (String.ofList w)) :
    ∃ c cs, w = c :: cs := by
  cases w with
  | nil => cases h
  | cons c cs => exact ⟨c, cs, rfl⟩

theorem toNat_lt_of_isIdentTail {c : Char} (h : isIdentTail c) : c.toNat < 128 := by
  unfold isIdentTail Char.isAlphanum Char.isAlpha Char.isUpper Char.isLower Char.isDigit at h
  simp only [Bool.or_eq_true, Bool.and_eq_true, decide_eq_true_eq, beq_iff_eq, ge_iff_le,
    UInt32.le_iff_toNat_le, Char.reduceVal, UInt32.reduceToNat, Char.ext_iff,
    ← UInt32.toNat_inj] at h
  change c.val.toNat < 128
  omega

theorem isWord_of_isIdentTail {c : Char} (h : isIdentTail c) : Text.isWord c := by
  rwa [Text.isWord_ascii c (toNat_lt_of_isIdentTail h)]

theorem isWord_of_isIdentifier {w : List Char} (h : isIdentifier (String.ofList w)) {c : Char}
    (hc : c ∈ w) : Text.isWord c := by
  obtain ⟨d, ds, rfl⟩ := exists_cons_of_isIdentifier h
  obtain ⟨hd, hds⟩ := (isIdentifier_ofList_cons d ds).1 h
  refine isWord_of_isIdentTail ?_
  rcases List.mem_cons.1 hc with rfl | hc
  · exact isIdentTail_of_identHead hd
  · exact hds c hc

end Names

/-! ### Patterns for words -/

namespace Pattern

variable {r m : Reach}

theorem mem_ways_oneOf {ws : List String} (hne : ws ≠ []) :
    m ∈ (oneOf ws).ways r ↔ ∃ w ∈ ws, r.Takes w.toList m := by
  induction ws with
  | nil => exact absurd rfl hne
  | cons w ws ih =>
    cases ws with
    | nil => simp [oneOf, alts]
    | cons v ws =>
      change m ∈ (alt (lit w) (oneOf (v :: ws))).ways r ↔ _
      rw [mem_ways_alt, mem_ways_lit, ih (List.cons_ne_nil v ws)]
      exact (List.exists_mem_cons_iff (fun w => r.Takes w.toList m) w (v :: ws)).symm

/-- The pattern takes identifiers alone. -/
def TakesIdentifiers (p : Pattern) : Prop :=
  ∀ r, ∀ m ∈ p.ways r, ∃ w, Names.isIdentifier (String.ofList w) ∧ r.Takes w m

theorem takesIdentifiers_oneOf {ws : List String} (hne : ws ≠ [])
    (h : ∀ w ∈ ws, Names.isIdentifier w) : (oneOf ws).TakesIdentifiers := by
  intro r m hm
  obtain ⟨w, hw, hm⟩ := (mem_ways_oneOf hne).1 hm
  exact ⟨w.toList, by rw [String.ofList_toList]; exact h w hw, hm⟩

theorem takesIdentifiers_identifier : identifier.TakesIdentifiers := by
  intro r m hm
  simp only [identifier, mem_ways_seqs_cons, mem_ways_seqs_nil, mem_ways_one,
    mem_ways_star_one] at hm
  obtain ⟨x, ⟨c, hc, hx⟩, _, ⟨cs, hcs, hm⟩, rfl⟩ := hm
  refine ⟨c :: cs, (Names.isIdentifier_ofList_cons c cs).2 ⟨hc, fun d hd => ?_⟩,
    (Reach.takes_cons _ _).2 ⟨x, hx, hm⟩⟩
  rw [← Names.has_identTail]
  exact hcs d hd

/-- An identifier goes on as long as it can. -/
theorem not_isIdentTail_of_identifier (h : identifier.match? r = some m) :
    ¬ m.rest.head?.any Names.isIdentTail := by
  rw [match?_eq_head? rfl] at h
  obtain ⟨x, -, h⟩ := exists_of_head?_seqs (l := [one .identHead]) h
  intro hany
  obtain ⟨c, hc, htail⟩ := (Option.any_eq_true _ _).1 hany
  have hnot := not_has_of_head?_star h c hc
  rw [Names.has_identTail, htail] at hnot
  cases hnot

/-- Word boundaries at both ends of an identifier keep other word characters off. -/
theorem exists_takes_between {l : List Pattern} (hl : (seqs l).TakesIdentifiers)
    (h : m ∈ (seqs (boundary :: (l ++ [boundary]))).ways r) :
    ∃ w, Names.isIdentifier (String.ofList w) ∧ r.Takes w m ∧
      NoWordBeside r.before m.rest.head? := by
  rw [mem_ways_seqs_cons] at h
  obtain ⟨x, hx, h⟩ := h
  obtain ⟨hstart, rfl⟩ := mem_ways_edge.1 hx
  obtain ⟨y, hy, h⟩ := mem_ways_seqs_append.1 h
  obtain ⟨hend, rfl⟩ := mem_ways_edge.1 h
  obtain ⟨w, hw, hm⟩ := hl x m hy
  refine ⟨w, hw, hm, ?_, ?_⟩
  · obtain ⟨c, cs, rfl⟩ := Names.exists_cons_of_isIdentifier hw
    have hc := Names.isWord_of_isIdentifier hw (List.mem_cons_self)
    rw [Reach.atEdge, hm.rest_eq] at hstart
    simpa [Edge.holds, hc] using hstart
  · refine (Reach.atEdge_wordBoundary hm ?_).1 hend
    obtain ⟨c, cs, rfl⟩ := Names.exists_cons_of_isIdentifier hw
    rw [List.getLast?_eq_some_getLast (List.cons_ne_nil c cs)]
    exact Names.isWord_of_isIdentifier hw (List.getLast_mem _)

end Pattern

/-! ### Rules for words -/

def exportName : List Pattern :=
  [one .upper, star (one (.anyOf [.upper, .asciiDigit, .char '_'])), lit "_API"]

/-- The lists of words that have rules of their own. -/
def wordLists : List (List String) :=
  [["__offload", "__blockingoffload", "__outer"], ["class", "struct"], ["template"], ["typename"],
   ["nullptr", "true", "false", "NULL"], Lexicon.Cpp.scannedKeywords, Lexicon.Cpp.scannedTypes,
   Lexicon.Cpp.scannedReserved]

def Category.isWordKind (k : Category) : Bool := k.isA .name || k.isA .keyword

theorem rules_words : ∀ st ∈ Rules.engineCpp.states, ∀ r ∈ st.rules, ∀ k ∈ r.action.kinds,
    k.isWordKind → r.action = .emit k ∧
      ((∃ ws ∈ wordLists, r.pattern = wholeWord ws) ∨
        r.pattern = seqs (boundary :: (exportName ++ [boundary])) ∨
        r.pattern = identifier ∧ (k = .name ∨ k = .nameClass)) := by
  decide +kernel

theorem unmarked_of_mem_rules {i : Nat} {r : Rule} (h : r ∈ Rules.engineCpp.rules i) :
    r.pattern.unmarked := by
  obtain ⟨st, hst, hmem⟩ := RuleSet.exists_state_of_mem_rules h
  have hwithin := staysWithin_last
  simp only [RuleSet.staysWithin, List.all_eq_true, Rule.staysWithin, Bool.and_eq_true] at hwithin
  exact unmarked_of_staysWithin (hwithin st (List.mem_of_getElem? hst) r hmem).1

theorem isIdentifier_of_mem_wordLists : ∀ ws ∈ wordLists, ws ≠ [] ∧
    ∀ w ∈ ws, Names.isIdentifier w := by
  decide +kernel

theorem takesIdentifiers_exportName : (seqs exportName).TakesIdentifiers := by
  intro r m hm
  simp only [exportName, mem_ways_seqs_cons, mem_ways_seqs_nil, mem_ways_one, mem_ways_star_one,
    mem_ways_lit] at hm
  obtain ⟨x, ⟨c, hc, hx⟩, y, ⟨cs, hcs, hy⟩, _, hm, rfl⟩ := hm
  refine ⟨c :: (cs ++ "_API".toList), (Names.isIdentifier_ofList_cons _ _).2 ⟨?_, fun d hd => ?_⟩,
    (Reach.takes_cons _ _).2 ⟨x, hx, (Reach.takes_append _ _).2 ⟨y, hy, hm⟩⟩⟩
  · simp [CharSet.identHead, CharSet.letter, CharSet.has, hc]
  · rcases List.mem_append.1 hd with hd | hd
    · have htail := hcs d hd
      rw [← Names.has_identTail]
      simp only [CharSet.has_anyOf, List.any_cons, List.any_nil, Bool.or_eq_true] at htail
      simp only [CharSet.identTail, CharSet.letter, CharSet.has_anyOf, List.any_cons, List.any_nil,
        CharSet.has, Bool.or_eq_true]
      tauto
    · have hall : "_API".toList.all Names.isIdentTail := by decide
      exact List.all_eq_true.1 hall d hd

/-! ### The steps that tokens come from -/

namespace Scanner

variable {rs : RuleSet} {source : String} {s : Scanner}

namespace Reached

theorem covers (h : Reached rs source s) : s.Covers source.toList := by
  induction h with
  | start => exact .start _
  | step _ hr ih => exact ih.step hr

/-- The character behind a scanner is the last one of its tokens. -/
theorem before_eq (h : Reached rs source s) : s.before = (Token.joined s.tokens).getLast? := by
  induction h with
  | start => rfl
  | @step s h hr ih =>
    generalize s.step rs = s', steps rs hr = hstep
    cases hstep with
    | @take r m hsel _ | @look r m hsel _ _ =>
      change (s.rest.take m.taken).getLast?.or s.before =
        (Token.joined (s.apply r m).tokens).getLast?
      rw [tokens_apply, Token.joined_append, joined_cut, r.width_pieces (match?_of_select hsel),
        List.getLast?_append, ih]
    | @skip c cs hc _ =>
      have hbefore : s.giveUp.before = some c := by
        simp [giveUp, hc, happen, advance]
      rw [hbefore, tokens_giveUp hc]
      simp

/-- Each token comes from a step, behind the tokens in front of it. -/
theorem exists_step (h : Reached rs source s) {before rest : List Token} {t : Token}
    (hs : s.tokens = before ++ t :: rest) : ∃ s', Reached rs source s' ∧ s'.rest ≠ [] ∧
      ∃ ts us, before = s'.tokens ++ ts ∧ (s'.step rs).tokens = s'.tokens ++ (ts ++ t :: us) := by
  induction h generalizing before rest with
  | start => simp [Scanner.start, tokens, Scanner.events] at hs
  | @step s h hr ih =>
    obtain ⟨new, hnew⟩ := exists_tokens_run rs s 1
    rw [run_succ hr] at hnew
    change (s.step rs).tokens = s.tokens ++ new at hnew
    rw [hnew] at hs
    rcases List.append_eq_append_iff.1 hs with ⟨ts, hbefore, hts⟩ | ⟨us, htokens, hus⟩
    · exact ⟨s, h, hr, ts, rest, hbefore, by rw [hnew, hts]⟩
    · cases us with
      | nil =>
        refine ⟨s, h, hr, [], rest, ?_, ?_⟩
        · simpa using htokens.symm
        · rw [hnew, ← show _ = new from hus]
          rfl
      | cons u us =>
        cases hus
        exact ih htokens

end Reached

end Scanner

/-! ### Words of a scan -/

/-- The token is the match of a rule that is selected behind the tokens in front of it. -/
structure ComesFrom (source : String) (before : List Token) (t : Token) (rest : List Token)
    (s : Scanner) (r : Rule) (m : Reach) : Prop where
  reached : Scanner.Reached Rules.engineCpp source s
  tokens_eq : s.tokens = before
  select_eq : s.select Rules.engineCpp = some (r, m)
  action_eq : r.action = .emit t.kind
  text_eq : t.text = String.ofList (s.rest.take m.taken)
  rest_eq : s.rest.drop m.taken = Token.joined rest

theorem isWordKind_of_mem_cut {r : Rule} {m : Reach} {l : Location} {cs : List Char} {t : Token}
    {st : Nat} (hr : r ∈ Rules.engineCpp.rules st) (ht : t ∈ cut l cs (r.action.pieces m))
    (hk : t.kind.isWordKind) : r.action = .emit t.kind ∧
      cut l cs (r.action.pieces m) = [⟨l, t.kind, String.ofList (cs.take m.taken)⟩] := by
  obtain ⟨state, hstate, hmem⟩ := RuleSet.exists_state_of_mem_rules hr
  have hkind : t.kind ∈ r.action.kinds :=
    (r.action.kind_of_mem_tokens ht).resolve_left fun h => by rw [h] at hk; cases hk
  have haction := (rules_words state (List.mem_of_getElem? hstate) r hmem t.kind hkind hk).1
  refine ⟨haction, ?_⟩
  rw [haction, Action.pieces, piece] at ht ⊢
  split_ifs at ht ⊢ with hzero
  · cases ht
  · rfl

/-- A name or a keyword is the whole match of a rule. -/
theorem exists_comesFrom {source : String} {before rest : List Token} {t : Token}
    (h : (Language.engineCpp.scan source).tokens = before ++ t :: rest) (hk : t.kind.isWordKind) :
    ∃ s r m, ComesFrom source before t rest s r m := by
  have hscan : Scanner.Reached Rules.engineCpp source (Language.engineCpp.scan source) :=
    Scanner.Reached.start.run _
  have hsource := hscan.covers.joined_append
  obtain ⟨s, hs, hr, ts, us, rfl, htokens⟩ := hscan.exists_step h
  rw [h, show (Language.engineCpp.scan source).rest = [] from Scanner.rest_scan _ _,
    List.append_nil, ← hs.covers.joined_append, Token.joined_append, Token.joined_append,
    List.append_assoc, List.append_cancel_left_eq, Token.joined_cons] at hsource
  generalize s.step Rules.engineCpp = s', Scanner.steps Rules.engineCpp hr = hstep at htokens
  cases hstep with
  | @take r m hsel _ | @look r m hsel _ _ =>
    change (s.apply r m).tokens = _ at htokens
    rw [Scanner.tokens_apply, List.append_cancel_left_eq] at htokens
    have ht : t ∈ cut s.location s.rest (r.action.pieces m) := by rw [htokens]; simp
    obtain ⟨haction, hcut⟩ := isWordKind_of_mem_cut (Scanner.select_eq_some hsel).1 ht hk
    rw [hcut] at htokens
    obtain ⟨rfl, he⟩ : ts = [] ∧ t = ⟨s.location, t.kind, String.ofList (s.rest.take m.taken)⟩ := by
      cases ts with
      | nil => exact ⟨rfl, (List.cons.inj htokens).1.symm⟩
      | cons u ts => simp at htokens
    have htext : t.text = String.ofList (s.rest.take m.taken) := congrArg Token.text he
    refine ⟨s, r, m, hs, by simp, hsel, haction, htext, ?_⟩
    rw [htext, String.toList_ofList] at hsource
    refine List.append_cancel_left ((List.take_append_drop m.taken s.rest).trans ?_)
    exact hsource.symm
  | @skip c cs hc _ =>
    rw [Scanner.tokens_giveUp hc, List.append_cancel_left_eq] at htokens
    have ht : t ∈ [Token.mk s.location (if c = '\n' then .text else .genericOutput)
        (String.ofList [c])] := by rw [htokens]; simp
    rw [List.mem_singleton.1 ht] at hk
    simp only at hk
    split_ifs at hk <;> cases hk

namespace ComesFrom

variable {source : String} {before rest : List Token} {t : Token} {s : Scanner} {r : Rule}
  {m : Reach}

theorem text_eq_of_takes (h : ComesFrom source before t rest s r m) {w : List Char}
    (hm : (Reach.start s.before s.rest).Takes w m) :
    t.text = String.ofList w ∧ m.rest = Token.joined rest := by
  have hrest : s.rest = w ++ m.rest := hm.rest_eq
  have htaken : m.taken = w.length := hm.taken_eq.trans (Nat.zero_add _)
  rw [h.text_eq, ← h.rest_eq, htaken, hrest, List.take_left, List.drop_left]
  exact ⟨rfl, rfl⟩

theorem pattern_match? (h : ComesFrom source before t rest s r m) :
    r.pattern.match? (.start s.before s.rest) = some m :=
  r.pattern_match? (Scanner.match?_of_select h.select_eq) (by simp [h.action_eq])

theorem before_eq (h : ComesFrom source before t rest s r m) :
    s.before = (Token.joined before).getLast? := by
  rw [h.reached.before_eq, h.tokens_eq]

/-- An identifier that is taken between word boundaries does not go on behind the token. -/
theorem isIdentifier_of_between (h : ComesFrom source before t rest s r m) {w : List Char}
    (hw : Names.isIdentifier (String.ofList w))
    (hm : (Reach.start s.before s.rest).Takes w m)
    (hbeside : NoWordBeside s.before m.rest.head?) :
    Names.isIdentifier t.text ∧ ¬ (Token.joined rest).head?.any Names.isIdentTail ∧
      NoWordBeside (Token.joined before).getLast? (Token.joined rest).head? := by
  obtain ⟨htext, hrest⟩ := h.text_eq_of_takes hm
  rw [h.before_eq, hrest] at hbeside
  refine ⟨htext ▸ hw, fun hany => hbeside.2 ?_, hbeside⟩
  obtain ⟨c, hc, htail⟩ := (Option.any_eq_true _ _).1 hany
  exact (Option.any_eq_true _ _).2 ⟨c, hc, Names.isWord_of_isIdentTail htail⟩

/-- What is taken for a name or a keyword is an identifier that does not go on behind the
token, and a whole word unless the rule takes any identifier. -/
theorem isIdentifier (h : ComesFrom source before t rest s r m) (hk : t.kind.isWordKind) :
    Names.isIdentifier t.text ∧ ¬ (Token.joined rest).head?.any Names.isIdentTail ∧
      (NoWordBeside (Token.joined before).getLast? (Token.joined rest).head? ∨
        r.pattern = identifier ∧ (t.kind = .name ∨ t.kind = .nameClass)) := by
  have hmatch := h.pattern_match?
  have hr := (Scanner.select_eq_some h.select_eq).1
  have hends : m ∈ r.pattern.ways (.start s.before s.rest) :=
    mem_ways_of_match? (unmarked_of_mem_rules hr) hmatch
  obtain ⟨state, hstate, hmem⟩ := RuleSet.exists_state_of_mem_rules hr
  have hrule := rules_words state (List.mem_of_getElem? hstate) r hmem t.kind
    (by simp [h.action_eq, Action.kinds]) hk
  rcases hrule.2 with ⟨ws, hws, hp⟩ | hp | hp
  · obtain ⟨hne, hidentifiers⟩ := isIdentifier_of_mem_wordLists ws hws
    rw [hp] at hends
    obtain ⟨w, hw, hm, hbeside⟩ :=
      exists_takes_between (l := [oneOf ws]) (takesIdentifiers_oneOf hne hidentifiers) hends
    obtain ⟨hword, htail, hwhole⟩ := h.isIdentifier_of_between hw hm hbeside
    exact ⟨hword, htail, .inl hwhole⟩
  · rw [hp] at hends
    obtain ⟨w, hw, hm, hbeside⟩ := exists_takes_between takesIdentifiers_exportName hends
    obtain ⟨hword, htail, hwhole⟩ := h.isIdentifier_of_between hw hm hbeside
    exact ⟨hword, htail, .inl hwhole⟩
  · rw [hp.1] at hends hmatch
    obtain ⟨w, hw, hm⟩ := takesIdentifiers_identifier _ m hends
    obtain ⟨htext, hrest⟩ := h.text_eq_of_takes hm
    exact ⟨htext ▸ hw, hrest ▸ not_isIdentTail_of_identifier hmatch, .inr hp⟩

end ComesFrom

/-- A scan of C++ cuts no word. A name or a keyword is an identifier that does not go on
behind it, and beside a keyword there is no word character at all. -/
theorem scan_words_uncut (source : String) {before rest : List Token} {t : Token}
    (h : (Language.engineCpp.scan source).tokens = before ++ t :: rest) :
    source.toList = Token.joined before ++ t.text.toList ++ Token.joined rest ∧
      (t.kind.isA .name ∨ t.kind.isA .keyword → Names.isIdentifier t.text ∧
        ¬ (Token.joined rest).head?.any Names.isIdentTail) ∧
      (t.kind.isA .keyword →
        NoWordBeside (Token.joined before).getLast? (Token.joined rest).head?) := by
  have hscan : Scanner.Reached Rules.engineCpp source (Language.engineCpp.scan source) :=
    Scanner.Reached.start.run _
  have hsource := hscan.covers.joined_append
  rw [h, show (Language.engineCpp.scan source).rest = [] from Scanner.rest_scan _ _] at hsource
  refine ⟨by simp [← hsource], fun hk => ?_, fun hk => ?_⟩
  · have hword : t.kind.isWordKind := by simpa [Category.isWordKind] using hk
    obtain ⟨s, r, m, hcomes⟩ := exists_comesFrom h hword
    obtain ⟨hidentifier, htail, -⟩ := hcomes.isIdentifier hword
    exact ⟨hidentifier, htail⟩
  · have hword : t.kind.isWordKind := by simp [Category.isWordKind, hk]
    obtain ⟨s, r, m, hcomes⟩ := exists_comesFrom h hword
    refine (hcomes.isIdentifier hword).2.2.resolve_right fun ⟨_, hname⟩ => ?_
    rcases hname with hname | hname <;> rw [hname] at hk <;> cases hk

/-- A keyword, and a name that a letter stands behind which is no part of identifiers. -/
theorem scan_words_uncut_letterBehind :
    let int : Token := ⟨⟨0, 0⟩, .keywordType, "int"⟩
    let blank : Token := ⟨⟨0, 3⟩, .text, " "⟩
    let x : Token := ⟨⟨0, 4⟩, .name, "x1"⟩
    let rest : List Token := [⟨⟨0, 6⟩, .genericOutput, "é"⟩, ⟨⟨0, 7⟩, .punctuation, ";"⟩]
    (Language.engineCpp.scan "int x1é;").tokens = [] ++ int :: blank :: x :: rest ∧
      (Language.engineCpp.scan "int x1é;").tokens = [int, blank] ++ x :: rest ∧
      NoWordBeside none (Token.joined (blank :: x :: rest)).head? ∧ Names.isIdentifier "x1" ∧
      ¬ (Token.joined rest).head?.any Names.isIdentTail := by
  intro int blank x rest
  have hint : (Language.engineCpp.scan "int x1é;").tokens = [] ++ int :: blank :: x :: rest := by
    decide +kernel
  have hx : (Language.engineCpp.scan "int x1é;").tokens = [int, blank] ++ x :: rest := hint
  obtain ⟨hname, htail⟩ := (scan_words_uncut _ hx).2.1 (.inl rfl)
  exact ⟨hint, hx, (scan_words_uncut _ hint).2.2 rfl, hname, htail⟩

end Highlighter
