import Highlighter.Proofs.Changes
import Highlighter.Proofs.Locations
import Highlighter.Proofs.StrayCharacters
import Highlighter.Proofs.WordTokens

/-! Keywords that touch other words. The scanner asks for word boundaries around a keyword, but
classification restores one wherever a name has its text. A check of the rules says behind
which of them a name cannot follow a word character at once. Proved: beside a keyword of
highlighted text there is a word character only where the scanner took the keyword for a
name, directly behind a number or a stray character, or in front of a character that is no
part of identifiers. -/

namespace Highlighter

open Pattern Rules.EngineCpp

/-! ### Places between words -/

/-- No identifier goes on or begins here directly behind a word character. -/
def Reach.IsApart (r : Reach) : Prop :=
  r.before.any Text.isWord → ¬ r.rest.head?.any Names.isIdentTail

/-- The set has certain characters alone, and none of them in words. -/
def CharSet.isApart (s : CharSet) : Bool := s.singles?.any (·.all (!Text.isWord ·))

theorem CharSet.not_isWord_of_has {s : CharSet} (hs : s.isApart) {c : Char} (hc : s.has c) :
    ¬ Text.isWord c := by
  obtain ⟨l, hl, hall⟩ := (Option.any_eq_true _ _).1 hs
  have hnot := List.all_eq_true.1 hall c ((has_iff_mem_singles hl c).1 hc)
  simpa using hnot

theorem Edge.isApart_of_atEdge {r : Reach} {e : Edge}
    (he : e ∈ [wordBoundary, lineEnd, textEnd]) (h : r.atEdge e) : r.IsApart := by
  intro hbefore hafter
  obtain ⟨c, hc, htail⟩ := (Option.any_eq_true _ _).1 hafter
  have hword := Names.isWord_of_isIdentTail htail
  rw [Reach.atEdge, hc] at h
  rcases List.mem_cons.1 he with rfl | he
  · simp [holds, hbefore, hword] at h
  rcases List.mem_cons.1 he with rfl | he
  · have hnewline : c = '\n' := by simpa [holds] using h
    rw [hnewline] at htail
    cases htail
  · rw [List.mem_singleton.1 he] at h
    cases h

namespace Pattern

/-- Whether the pattern takes no word characters at its end, though it may take nothing. -/
def keepsApart : Pattern → Bool
  | empty | edge _ | mark _ => true
  | one s => s.isApart
  | seq p q | alt p q => p.keepsApart && q.keepsApart
  | group _ p | rep p _ _ _ => p.keepsApart

/-- Whether no identifier goes on or begins behind the pattern directly behind a word
character. -/
def endsApart : Pattern → Bool
  | empty | mark _ => false
  | one s => s.isApart
  | edge e => [.wordBoundary, .lineEnd, .textEnd].contains e
  | seq p q => q.endsApart || (p.endsApart && q.keepsApart)
  | alt p q => p.endsApart && q.endsApart
  | group _ p => p.endsApart
  | rep p least _ _ => 0 < least && !p.canBeEmpty && p.endsApart

variable {p : Pattern} {r m : Reach}

theorem isApart_of_mem_one {s : CharSet} (hs : s.isApart) (h : m ∈ (one s).ways r) :
    m.IsApart := by
  obtain ⟨c, hc, hm⟩ := mem_ways_one.1 h
  intro hbefore
  rw [hm.before_eq] at hbefore
  exact absurd hbefore (CharSet.not_isWord_of_has hs hc)

theorem preserves_isApart (h : p.keepsApart) : Preserves Reach.IsApart p.ways := by
  induction p with
  | empty | mark => exact fun r hr m hm => List.mem_singleton.1 hm ▸ hr
  | one s => exact fun r _ m hm => isApart_of_mem_one h hm
  | edge e => exact fun r hr m hm => (mem_ways_edge.1 hm).2 ▸ hr
  | seq p q ihp ihq =>
    simp only [keepsApart, Bool.and_eq_true] at h
    exact (ihp h.1).flatMap (ihq h.2)
  | alt p q ihp ihq =>
    simp only [keepsApart, Bool.and_eq_true] at h
    intro r hr m hm
    rcases mem_ways_alt.1 hm with hm | hm
    · exact ihp h.1 r hr m hm
    · exact ihq h.2 r hr m hm
  | group i p ih =>
    intro r hr m hm
    obtain ⟨x, hx, rfl⟩ := mem_ways_group.1 hm
    exact ih h r hr x hx
  | rep p least most greedy ih => exact (ih h).rep least most greedy

theorem isApart_of_mem_ways (hu : p.unmarked) (h : p.endsApart) (hm : m ∈ p.ways r) :
    m.IsApart := by
  induction p generalizing r m with
  | empty | mark => cases h
  | one s => exact isApart_of_mem_one h hm
  | edge e =>
    obtain ⟨hedge, rfl⟩ := mem_ways_edge.1 hm
    exact Edge.isApart_of_atEdge (by simpa [endsApart] using h) hedge
  | seq p q ihp ihq =>
    simp only [unmarked, endsApart, Bool.and_eq_true, Bool.or_eq_true] at hu h
    obtain ⟨x, hx, hm⟩ := mem_ways_seq.1 hm
    rcases h with h | ⟨hp, hq⟩
    · exact ihq hu.2 h hm
    · exact preserves_isApart hq x (ihp hu.1 hp hx) m hm
  | alt p q ihp ihq =>
    simp only [unmarked, endsApart, Bool.and_eq_true] at hu h
    rcases mem_ways_alt.1 hm with hm | hm
    · exact ihp hu.1 h.1 hm
    · exact ihq hu.2 h.2 hm
  | group i p ih =>
    obtain ⟨x, hx, rfl⟩ := mem_ways_group.1 hm
    have hapart : x.IsApart := ih hu h hx
    exact hapart
  | rep p least most greedy ih =>
    simp only [endsApart, Bool.and_eq_true, decide_eq_true_eq, Bool.not_eq_true'] at h
    obtain ⟨⟨hleast, hempty⟩, hends⟩ := h
    have hlt : r.taken < m.taken := by
      refine taken_lt_of_mem_ways hu ?_ hm
      rw [canBeEmpty, hempty]
      simpa using Nat.ne_of_gt hleast
    -- at each end the last repetition has taken something, unless there is none
    have hkeeps : Preserves (fun x => x.taken = r.taken ∨ x.IsApart) p.ways :=
      fun x _ y hy => .inr (ih hu hends hy)
    exact (hkeeps.rep least most greedy r (.inl rfl) m hm).resolve_left (Nat.ne_of_gt hlt)

theorem isApart_of_identifier (h : identifier.match? r = some m) : m.IsApart :=
  fun _ => not_isIdentTail_of_identifier h

/-- A line comment goes on up to the end of a line. -/
theorem isApart_of_lineComment (h : lineComment.match? r = some m) : m.IsApart := by
  rw [match?_eq_head? (by decide)] at h
  obtain ⟨x, -, h⟩ := exists_of_head?_seqs (l := [lit "//"]) h
  have hnone := ways_eq_nil_of_head?_star (by decide) (by decide) h
  intro _ hany
  obtain ⟨c, hc, htail⟩ := (Option.any_eq_true _ _).1 hany
  have hnewline : (CharSet.except [.newline]).has c = false :=
    ways_one_eq_nil_iff.1 (List.append_eq_nil_iff.1 hnone).2 c hc
  have hc : c = '\n' := by simpa [CharSet.newline] using hnewline
  rw [hc] at htail
  cases htail

end Pattern

/-! ### Rules that keep words apart -/

def makesWords (state : Nat) : Bool :=
  (Rules.engineCpp.rules state).any fun r => r.action.kinds.any (·.isWordKind)

/-- Whether a name may stand directly behind the last character of such a token, even if it
is a word character. -/
def Category.mayTouch (k : Category) : Bool := k.isA .literalNumber || k = .genericOutput

namespace Rule

/-- Whether no name can touch a word that the match of the rule ends in. -/
def leavesApart (r : Rule) : Bool :=
  r.pattern.endsApart || r.pattern = identifier || r.pattern = lineComment

/-- Whether the rule leads from the state to one that makes no words. -/
def leadsAside (r : Rule) (state : Nat) : Bool :=
  match r.move with
  | .stay => !makesWords state
  | .push target => !makesWords target
  | .pop _ => false

theorem not_makesWords {r : Rule} {st : Stack} (h : r.leadsAside st.top) :
    makesWords (r.move.apply st).top = false := by
  unfold leadsAside at h
  cases hm : r.move with
  | stay => simpa [hm, Move.apply] using h
  | push target => simpa [hm, Move.apply, Stack.push] using h
  | pop n => simp [hm] at h

/-- Whether the text of the rule is a token that a name may touch. -/
def isTouched (r : Rule) : Bool :=
  match r.action with
  | .emit k => k.mayTouch
  | _ => false

theorem isApart_of_match? {r : Rule} (hu : r.pattern.unmarked) (h : r.leavesApart) {x m : Reach}
    (hm : r.pattern.match? x = some m) : m.IsApart := by
  simp only [leavesApart, Bool.or_eq_true, decide_eq_true_eq] at h
  rcases h with (h | h) | h
  · exact isApart_of_mem_ways hu h (mem_ways_of_match? hu hm)
  · exact isApart_of_identifier (h ▸ hm)
  · exact isApart_of_lineComment (h ▸ hm)

end Rule

theorem rules_apart : ∀ q < Rules.engineCpp.states.length, ∀ r ∈ Rules.engineCpp.rules q,
    (r.mayIdle → makesWords q ∧ r.action = .peek) ∧
      (r.action = .peek ∨ r.leavesApart ∨ r.isTouched ∨ r.leadsAside q) := by
  decide +kernel

/-! ### What a name can touch -/

theorem RuleSet.lt_of_mem_rules {rs : RuleSet} {q : Nat} {r : Rule} (h : r ∈ rs.rules q) :
    q < rs.states.length := by
  obtain ⟨st, hst, -⟩ := exists_state_of_mem_rules h
  exact (List.getElem?_eq_some_iff.1 hst).1

namespace Scanner

variable {s : Scanner} {source : String}

/-- In a state that makes words, none touches what is behind, unless that is a token that a
name may touch. -/
def Separates (s : Scanner) : Prop :=
  makesWords s.stack.top → (Reach.start s.before s.rest).IsApart ∨
    ∃ u, s.tokens.getLast? = some u ∧ u.kind.mayTouch

theorem separates_start (source : List Char) : (Scanner.start source).Separates :=
  fun _ => .inl fun h => by cases h

/-- A match ends where the scanner stands behind it. -/
theorem isApart_apply {r : Rule} {m : Reach} (hm : r.match? s.before s.rest = some m)
    (h : m.IsApart) : (Reach.start (s.apply r m).before (s.apply r m).rest).IsApart := by
  obtain ⟨hrest, hbefore⟩ := place_apply hm
  rw [hrest, hbefore]
  exact h

/-- Behind a rule that is touched stands its token. -/
theorem exists_last_of_isTouched {r : Rule} {m : Reach} (h : r.isTouched) (ht : 0 < m.taken) :
    ∃ u, (s.apply r m).tokens.getLast? = some u ∧ u.kind.mayTouch := by
  unfold Rule.isTouched at h
  split at h
  · next k ha =>
    refine ⟨⟨s.location, k, String.ofList (s.rest.take m.taken)⟩, ?_, h⟩
    rw [tokens_apply, ha, Action.pieces, piece, if_neg (Nat.ne_of_gt ht)]
    simp [cut]
  · cases h

theorem separates_take {r : Rule} {m : Reach} (hsel : s.select Rules.engineCpp = some (r, m))
    (ht : 0 < m.taken) : (s.apply r m).Separates := by
  have hmem := (select_eq_some hsel).1
  have hmatch := match?_of_select hsel
  have hpeek : r.action ≠ .peek := fun hp => Nat.ne_of_gt ht (r.taken_of_peek hmatch hp)
  intro hwords
  rcases (rules_apart _ (RuleSet.lt_of_mem_rules hmem) r hmem).2 with h | h | h | h
  · exact absurd h hpeek
  · exact .inl (isApart_apply hmatch
      (Rule.isApart_of_match? (unmarked_of_mem_rules hmem) h (r.pattern_match? hmatch hpeek)))
  · exact .inr (exists_last_of_isTouched h ht)
  · rw [show makesWords (s.apply r m).stack.top = false from Rule.not_makesWords h] at hwords
    cases hwords

/-- A rule that only looks leaves the text and the tokens as they are. -/
theorem Separates.look (h : s.Separates) {r : Rule} {m : Reach}
    (hsel : s.select Rules.engineCpp = some (r, m)) (ht : m.taken = 0) :
    (s.apply r m).Separates := by
  have hmem := (select_eq_some hsel).1
  obtain ⟨hwords, hpeek⟩ := (rules_apart _ (RuleSet.lt_of_mem_rules hmem) r hmem).1
    (mayIdle_of_select hsel ht).1
  intro _
  rcases h hwords with hapart | ⟨u, hu, htouch⟩
  · left
    change (Reach.start ((s.rest.take m.taken).getLast?.or s.before)
      (s.rest.drop m.taken)).IsApart
    rw [ht]
    exact hapart
  · refine .inr ⟨u, ?_, htouch⟩
    rw [tokens_apply, hpeek]
    simpa [Action.pieces, cut] using hu

theorem separates_giveUp {c : Char} {cs : List Char} (hr : s.rest = c :: cs) :
    s.giveUp.Separates := by
  intro _
  by_cases hnewline : c = '\n'
  · left
    have hword : ¬ Text.isWord '\n' := by decide
    intro hbefore
    simp [Reach.start, giveUp, hr, happen, advance, hnewline, hword] at hbefore
  · right
    rw [tokens_giveUp hr, List.getLast?_concat, if_neg hnewline]
    exact ⟨_, rfl, rfl⟩

theorem Separates.step (h : s.Separates) (hr : s.rest ≠ []) :
    (s.step Rules.engineCpp).Separates := by
  generalize s.step Rules.engineCpp = s', steps Rules.engineCpp hr = hstep
  cases hstep with
  | take hsel ht => exact separates_take hsel ht
  | look hsel ht _ => exact h.look hsel ht
  | skip hc _ => exact separates_giveUp hc

theorem Reached.separates (h : Reached Rules.engineCpp source s) : s.Separates := by
  induction h with
  | start => exact separates_start _
  | step _ hr ih => exact ih.step hr

end Scanner

/-! ### Keywords of highlighted text -/

theorem Token.getLast?_joined {ts : List Token} {u : Token} (h : ts.getLast? = some u)
    (hne : u.text ≠ "") : (joined ts).getLast? = u.text.toList.getLast? := by
  obtain ⟨us, rfl⟩ := List.getLast?_eq_some_iff.1 h
  obtain ⟨c, hc⟩ : ∃ c, u.text.toList.getLast? = some c :=
    Option.ne_none_iff_exists'.1 (by simpa using hne)
  simp [hc]

theorem Names.le_toNat_of_isWord {c : Char} (hword : Text.isWord c) (htail : ¬ isIdentTail c) :
    128 ≤ c.toNat := by
  by_contra hlt
  rw [Text.isWord_ascii c (by omega)] at hword
  exact htail hword

namespace ComesFrom

variable {source : String} {before rest : List Token} {t : Token} {s : Scanner} {r : Rule}
  {m : Reach}

theorem makesWords_top (h : ComesFrom source before t rest s r m) (hk : t.kind.isWordKind) :
    makesWords s.stack.top :=
  List.any_eq_true.2 ⟨r, (Scanner.select_eq_some h.select_eq).1,
    by simp [h.action_eq, Action.kinds, hk]⟩

theorem head_isIdentTail (h : ComesFrom source before t rest s r m)
    (hidentifier : Names.isIdentifier t.text) : s.rest.head?.any Names.isIdentTail := by
  rw [h.text_eq] at hidentifier
  obtain ⟨c, cs, hc⟩ := Names.exists_cons_of_isIdentifier hidentifier
  rw [hc, Names.isIdentifier_ofList_cons] at hidentifier
  rw [← List.take_append_drop m.taken s.rest, hc]
  exact Names.isIdentTail_of_identHead hidentifier.1

/-- Where a word character stands behind a word, it is the end of a token that a name may
touch. -/
theorem exists_touched (h : ComesFrom source before t rest s r m) (hk : t.kind.isWordKind)
    (hbehind : (Token.joined before).getLast?.any Text.isWord) :
    ∃ u, before.getLast? = some u ∧ u.kind.mayTouch ∧
      u.text.toList.getLast?.any Text.isWord := by
  rcases h.reached.separates (h.makesWords_top hk) with hapart | ⟨u, hu, htouch⟩
  · refine absurd (h.head_isIdentTail (h.isIdentifier hk).1) (hapart ?_)
    rwa [← h.before_eq] at hbehind
  · have hne : u.text ≠ "" := h.reached.covers.text_ne u (List.mem_of_getLast? hu)
    rw [h.tokens_eq] at hu
    exact ⟨u, hu, htouch, by rwa [← Token.getLast?_joined hu hne]⟩

/-- Where a word character stands beside a word, a rule for any identifier takes the word. -/
theorem beside (h : ComesFrom source before t rest s r m) (hk : t.kind.isWordKind)
    (hbeside : ¬ NoWordBeside (Token.joined before).getLast? (Token.joined rest).head?) :
    (t.kind = .name ∨ t.kind = .nameClass) ∧
      ((∃ u, before.getLast? = some u ∧ u.kind.mayTouch ∧
          u.text.toList.getLast?.any Text.isWord) ∨
        (Token.joined rest).head?.any fun c => Text.isWord c && 128 ≤ c.toNat) := by
  obtain ⟨-, htail, hrule⟩ := h.isIdentifier hk
  refine ⟨(hrule.resolve_left hbeside).2, ?_⟩
  by_cases hbehind : (Token.joined before).getLast?.any Text.isWord
  · exact .inl (h.exists_touched hk hbehind)
  · right
    have hahead : (Token.joined rest).head?.any Text.isWord := by
      by_contra hahead
      exact hbeside ⟨hbehind, hahead⟩
    obtain ⟨c, hc, hword⟩ := (Option.any_eq_true _ _).1 hahead
    have hnot : ¬ Names.isIdentTail c := fun hc' =>
      htail ((Option.any_eq_true _ _).2 ⟨c, hc, hc'⟩)
    rw [hc, Option.any_some, hword]
    simpa using Names.le_toNat_of_isWord hword hnot

end ComesFrom

namespace Language

/-- Highlighted tokens are the scanned ones, with a few other categories. -/
theorem exists_scan_of_highlight {source : String} {before rest : List Token} {t : Token}
    (h : engineCpp.highlight source = before ++ t :: rest) :
    ∃ bs u us, (engineCpp.scan source).tokens = bs ++ u :: us ∧ u.text = t.text ∧
      bs.map (·.text) = before.map (·.text) ∧ us.map (·.text) = rest.map (·.text) := by
  have htexts := engineCpp.map_highlight (f := Token.text) (fun _ _ => rfl) source
  rw [h, List.map_append, List.map_cons] at htexts
  obtain ⟨bs, us', hscan, hbefore, htail⟩ := List.map_eq_append_iff.1 htexts.symm
  obtain ⟨u, us, rfl, hu, hus⟩ := List.map_eq_cons_iff.1 htail
  exact ⟨bs, u, us, hscan, hu, hbefore, hus⟩

theorem exists_changes {source : String} {i : Nat} {u : Token}
    (h : (engineCpp.scan source).tokens[i]? = some u) : ∃ k,
      (engineCpp.highlight source)[i]? = some { u with kind := k } ∧
        Changes (tokenBefore none (engineCpp.scan source).tokens i) u k := by
  obtain ⟨site, hsite⟩ : ∃ site, (sites (engineCpp.scan source).tokens)[i]? = some site := by
    have hi := (List.getElem?_eq_some_iff.1 h).1
    exact ⟨_, List.getElem?_eq_getElem (by rwa [length_sites])⟩
  obtain ⟨s, last, hk⟩ := getElem?_classify h hsite
  exact ⟨_, hk, changes_getElem? (p := Cursor.start) trivial h hsite s last⟩

/-- A token that a name may touch keeps its category. -/
theorem getElem?_highlight_of_mayTouch {source : String} {i : Nat} {u : Token}
    (h : (engineCpp.scan source).tokens[i]? = some u) (hu : u.kind.mayTouch) :
    (engineCpp.highlight source)[i]? = some u := by
  obtain ⟨k, hk, hchanges⟩ := exists_changes h
  have hother : ¬ u.kind.isA .name ∧ ¬ u.kind.isA .keyword := by
    revert hu
    cases u.kind <;> decide
  rw [hk, hchanges.other hother.1 hother.2]

theorem getLast?_highlight {source : String} {bs us before rest : List Token} {v : Token}
    (hscan : (engineCpp.scan source).tokens = bs ++ us) (hlength : bs.length = before.length)
    (h : engineCpp.highlight source = before ++ rest) (hv : bs.getLast? = some v)
    (htouch : v.kind.mayTouch) : before.getLast? = some v := by
  obtain ⟨ts, rfl⟩ := List.getLast?_eq_some_iff.1 hv
  have hlt : ts.length < before.length := by
    rw [← hlength, List.length_append]
    exact Nat.lt_succ_self _
  have hscanned : (engineCpp.scan source).tokens[ts.length]? = some v := by simp [hscan]
  have hget := getElem?_highlight_of_mayTouch hscanned htouch
  rw [h, List.getElem?_append_left hlt] at hget
  rw [List.getLast?_eq_getElem?, ← hlength, List.length_append]
  exact hget

end Language

/-- A keyword of highlighted text is a whole word, unless the scanner takes it for a name that
stands directly behind a number or a stray character which ends in a word character, or in
front of a word character that is no part of identifiers. -/
theorem highlight_keyword_beside_iff (source : String) {before rest : List Token} {t : Token}
    (h : Language.engineCpp.highlight source = before ++ t :: rest) (hk : t.kind.isA .keyword) :
    source.toList = Token.joined before ++ t.text.toList ++ Token.joined rest ∧
      ∃ u, (Language.engineCpp.scan source).tokens[before.length]? = some u ∧ u.text = t.text ∧
        (¬ NoWordBeside (Token.joined before).getLast? (Token.joined rest).head? ↔
          (u.kind = .name ∨ u.kind = .nameClass) ∧
            ((∃ v, before.getLast? = some v ∧
                (v.kind.isA .literalNumber ∨ v.kind = .genericOutput) ∧
                v.text.toList.getLast?.any Text.isWord) ∨
              (Token.joined rest).head?.any fun c => Text.isWord c && 128 ≤ c.toNat)) := by
  obtain ⟨bs, u, us, hscan, hu, hbs, hus⟩ := Language.exists_scan_of_highlight h
  have hlength : bs.length = before.length := by simpa using congrArg List.length hbs
  have hget : (Language.engineCpp.scan source).tokens[before.length]? = some u := by
    simp [hscan, ← hlength]
  have hsource := Language.engineCpp.joined_highlight source
  rw [h, Token.joined_append, Token.joined_cons] at hsource
  refine ⟨by rw [← hsource, List.append_assoc], u, hget, hu, fun hbeside => ?_, ?_⟩
  · have hword : u.kind.isWordKind := by
      obtain ⟨k, hkind, hchanges⟩ := Language.exists_changes hget
      have ht : t = { u with kind := k } := by simpa [h] using hkind
      by_contra hother
      simp only [Category.isWordKind, Bool.or_eq_true, not_or] at hother
      rw [ht, hchanges.other hother.1 hother.2] at hk
      exact hother.2 hk
    obtain ⟨s, r, m, hcomes⟩ := exists_comesFrom hscan hword
    rw [← Token.joined_congr hbs, ← Token.joined_congr hus] at hbeside
    obtain ⟨hname, ⟨v, hv, htouch, hlast⟩ | hahead⟩ := hcomes.beside hword hbeside
    · refine ⟨hname, .inl ⟨v, ?_, by simpa [Category.mayTouch] using htouch, hlast⟩⟩
      exact Language.getLast?_highlight hscan hlength h hv htouch
    · exact ⟨hname, .inr (by rwa [← Token.joined_congr hus])⟩
  · rintro ⟨-, ⟨v, hv, -, hlast⟩ | hahead⟩ ⟨hbefore, hafter⟩
    · refine hbefore ?_
      rwa [Token.getLast?_joined hv fun he => by simp [he] at hlast]
    · refine hafter ?_
      obtain ⟨c, hc, hword⟩ := (Option.any_eq_true _ _).1 hahead
      exact (Option.any_eq_true _ _).2 ⟨c, hc, (Bool.and_eq_true_iff.1 hword).1⟩

/-- Behind a number, classification restores what the scanner could take for a name only. -/
theorem highlight_keyword_behindNumber :
    let one : Token := ⟨⟨0, 0⟩, .literalNumberInteger, "1"⟩
    let t : Token := ⟨⟨0, 1⟩, .keywordDeclaration, "if"⟩
    Language.engineCpp.highlight "1if" = [one] ++ t :: [] ∧ t.kind.isA .keyword ∧
      ¬ NoWordBeside (Token.joined [one]).getLast? (Token.joined []).head? ∧
      ∃ u, (Language.engineCpp.scan "1if").tokens[1]? = some u ∧ u.text = "if" ∧
        (u.kind = .name ∨ u.kind = .nameClass) := by
  intro one t
  have hhighlight : Language.engineCpp.highlight "1if" = [one] ++ t :: [] := by decide +kernel
  have hbeside : ¬ NoWordBeside (Token.joined [one]).getLast? (Token.joined []).head? := by
    decide +kernel
  obtain ⟨-, u, hscan, htext, hiff⟩ := highlight_keyword_beside_iff "1if" hhighlight rfl
  exact ⟨hhighlight, rfl, hbeside, u, hscan, htext, (hiff.1 hbeside).1⟩

/-- Behind a letter that is no part of identifiers, a keyword is part of a longer word. -/
theorem highlight_keyword_behindStray :
    let stray : Token := ⟨⟨0, 0⟩, .genericOutput, "é"⟩
    let t : Token := ⟨⟨0, 1⟩, .keywordDeclaration, "if"⟩
    Language.engineCpp.highlight "éif" = [stray] ++ t :: [] ∧ t.kind.isA .keyword ∧
      ¬ NoWordBeside (Token.joined [stray]).getLast? (Token.joined []).head? := by
  decide +kernel

end Highlighter
