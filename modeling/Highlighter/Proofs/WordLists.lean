import Highlighter.Language
import Highlighter.Proofs.Selection
import Highlighter.Proofs.WordTokens

/-! Lists of words between word boundaries. The match is the first entry that is ahead and has
a word boundary behind it, and a sign within a later entry is a boundary as well. Proved: an
entry between white space is matched as a whole exactly if no earlier one begins it up to a
boundary, and a shell command that stands alone is one token unless it is `apt-get`. -/

namespace Highlighter

open Pattern

/-! ### White space and words at the start of a text -/

namespace Text

theorem Ranges.exists_mem_of_covers {l : Ranges} {n : Nat} (h : l.covers n) :
    ∃ r ∈ l, r.1 ≤ n ∧ n ≤ r.2 := by
  induction l with
  | nil => cases h
  | cons r l ih =>
    obtain ⟨first, last⟩ := r
    simp only [covers, Bool.and_eq_true, Bool.or_eq_true, decide_eq_true_eq] at h
    rcases h.2 with hle | h'
    · exact ⟨(first, last), List.mem_cons_self, h.1, hle⟩
    · obtain ⟨r, hr, hn⟩ := ih h'
      exact ⟨r, List.mem_cons_of_mem _ hr, hn⟩

def spaceChars : List Char :=
  spaceRanges.flatMap fun r => (List.range' r.1 (r.2 + 1 - r.1)).map Char.ofNat

theorem mem_spaceChars {c : Char} (h : isSpace c) : c ∈ spaceChars := by
  obtain ⟨r, hr, hfirst, hlast⟩ := Ranges.exists_mem_of_covers h
  refine List.mem_flatMap.2 ⟨r, hr, List.mem_map.2 ⟨c.toNat, ?_, Char.ofNat_toNat c⟩⟩
  rw [List.mem_range'_1]
  omega

theorem not_isWord_of_isSpace {c : Char} (h : isSpace c) : isWord c = false := by
  have hspace : spaceChars.any isWord = false := by decide +kernel
  exact Bool.eq_false_iff.2 (List.any_eq_false.1 hspace c (mem_spaceChars h))

theorem not_any_isWord_of_all_isSpace {o : Option Char} (h : o.all isSpace) :
    o.any isWord = false := by
  cases o with
  | none => rfl
  | some c => exact not_isWord_of_isSpace h

/-- Whether a text begins with a word and has a word boundary behind it. In front of the text
there is no word character. -/
def beginsWith (text : List Char) (w : String) : Bool :=
  w.toList.isPrefixOf text && Edge.wordBoundary.holds w.toList.getLast? (text.drop w.length).head?

theorem beginsWith_iff {text : List Char} {w : String} : beginsWith text w ↔
    ∃ after, text = w.toList ++ after ∧ Edge.wordBoundary.holds w.toList.getLast? after.head? := by
  rw [beginsWith, Bool.and_eq_true, List.isPrefixOf_iff_prefix]
  constructor
  · rintro ⟨⟨after, rfl⟩, hedge⟩
    rw [← String.length_toList, List.drop_left] at hedge
    exact ⟨after, rfl, hedge⟩
  · rintro ⟨after, rfl, hedge⟩
    rw [← String.length_toList, List.drop_left]
    exact ⟨List.prefix_append _ _, hedge⟩

/-- A word that has no boundary inside is begun by itself alone. -/
theorem eq_of_beginsWith {v w : String} (hv : v.toList.getLast?.any isWord)
    (hw : ∀ c ∈ w.toList, isWord c) (h : beginsWith w.toList v) : v = w := by
  obtain ⟨after, hafter, hedge⟩ := beginsWith_iff.1 h
  cases after with
  | nil => exact String.toList_injective (hafter.trans (List.append_nil _)).symm
  | cons c after =>
    have hword : isWord c := hw c (by rw [hafter]; simp)
    simp [Edge.holds, hv, hword] at hedge

theorem prefix_of_prefix_append {cs text after : List Char} (h : cs <+: text ++ after)
    (hcs : ∀ c ∈ cs, ¬ isSpace c) (ha : after.head?.all isSpace) : cs <+: text := by
  rcases List.prefix_or_prefix_of_prefix h (List.prefix_append text after) with h' | ⟨back, rfl⟩
  · exact h'
  · cases back with
    | nil => simp
    | cons c back =>
      have hmem : c ∈ after.head? := by
        obtain ⟨rest, hrest⟩ := (List.prefix_append_right_inj text).1 h
        rw [← hrest]
        rfl
      exact absurd ((Option.all_eq_true _ _).1 ha c hmem) (hcs c (by simp))

/-- White space ends a text as its end does. -/
theorem beginsWith_append_iff {text after : List Char} {v : String}
    (hv : ∀ c ∈ v.toList, ¬ isSpace c) (ha : after.head?.all isSpace) :
    beginsWith (text ++ after) v ↔ beginsWith text v := by
  have hedge (back : List Char) : Edge.wordBoundary.holds v.toList.getLast? (back ++ after).head? =
      Edge.wordBoundary.holds v.toList.getLast? back.head? := by
    rw [List.head?_append]
    cases back.head? <;> simp [Edge.holds, not_any_isWord_of_all_isSpace ha]
  simp only [beginsWith_iff]
  constructor
  · rintro ⟨rest, hrest, hholds⟩
    obtain ⟨back, rfl⟩ := prefix_of_prefix_append ⟨rest, hrest.symm⟩ hv ha
    rw [List.append_assoc, List.append_cancel_left_eq] at hrest
    rw [← hrest, hedge] at hholds
    exact ⟨back, rfl, hholds⟩
  · rintro ⟨back, rfl, hholds⟩
    exact ⟨back ++ after, List.append_assoc _ _ _, by rwa [hedge]⟩

end Text

/-! ### The match of a word list -/

theorem Reach.Takes.unique {r m m' : Reach} {cs : List Char} (h : r.Takes cs m)
    (h' : r.Takes cs m') : m = m' := by
  obtain ⟨before, rest, taken, spans⟩ := m
  obtain ⟨before', rest', taken', spans'⟩ := m'
  obtain ⟨hrest, hbefore, htaken, hspans⟩ := h
  obtain ⟨hrest', hbefore', htaken', hspans'⟩ := h'
  have hsame : rest = rest' := List.append_cancel_left (hrest.symm.trans hrest')
  simp_all

/-- Texts that are taken from one place are the same if they are of the same length. -/
theorem Reach.Takes.eq_of_taken_eq {r m m' : Reach} {cs ds : List Char} (h : r.Takes cs m)
    (h' : r.Takes ds m') (ht : m.taken = m'.taken) : cs = ds ∧ m = m' := by
  have hlen : cs.length = ds.length := by
    have htaken := h.taken_eq
    rw [ht, h'.taken_eq] at htaken
    omega
  have hsame : cs = ds := (List.append_inj (h.rest_eq.symm.trans h'.rest_eq) hlen).1
  exact ⟨hsame, h.unique (hsame ▸ h')⟩

theorem Edge.wordBoundary_holds_or {o o' : Option Char} (h : o'.any Text.isWord = false)
    (after : Option Char) :
    Edge.wordBoundary.holds (o.or o') after = Edge.wordBoundary.holds o after := by
  cases o <;> simp [Edge.holds, h]

namespace Pattern

variable {r m : Reach} {ws : List String} {w : String}

/-- What holds of the empty text and of two parts in a row holds of any parts in a row. -/
theorem seqs_induction {P : Pattern → Prop} (hempty : P empty)
    (hseq : ∀ p q, P p → P q → P (seq p q)) {ps : List Pattern} (h : ∀ p ∈ ps, P p) :
    P (seqs ps) := by
  induction ps with
  | nil => exact hempty
  | cons p ps ih =>
    obtain ⟨hp, hps⟩ := List.forall_mem_cons.1 h
    cases ps with
    | nil => exact hp
    | cons q ps => exact hseq p _ hp (ih hps)

/-- What holds of the empty text and of two alternatives holds of any alternatives. -/
theorem alts_induction {P : Pattern → Prop} (hempty : P empty)
    (halt : ∀ p q, P p → P q → P (alt p q)) {ps : List Pattern} (h : ∀ p ∈ ps, P p) :
    P (alts ps) := by
  induction ps with
  | nil => exact hempty
  | cons p ps ih =>
    obtain ⟨hp, hps⟩ := List.forall_mem_cons.1 h
    cases ps with
    | nil => exact hp
    | cons q ps => exact halt p _ hp (ih hps)

theorem unmarked_lit (w : String) : (lit w).unmarked :=
  seqs_induction (P := fun p => p.unmarked) rfl (fun _ _ hp hq => Bool.and_eq_true_iff.2 ⟨hp, hq⟩)
    (List.forall_mem_map.2 fun _ _ => rfl)

theorem unmarked_oneOf (ws : List String) : (oneOf ws).unmarked :=
  alts_induction (P := fun p => p.unmarked) rfl (fun _ _ hp hq => Bool.and_eq_true_iff.2 ⟨hp, hq⟩)
    (List.forall_mem_map.2 fun w _ => unmarked_lit w)

theorem ways_oneOf (hne : ws ≠ []) (r : Reach) :
    (oneOf ws).ways r = ws.flatMap fun w => (lit w).ways r := by
  induction ws with
  | nil => exact absurd rfl hne
  | cons w ws ih =>
    cases ws with
    | nil => simp [oneOf, alts]
    | cons v ws =>
      change (lit w).ways r ++ (oneOf (v :: ws)).ways r = _
      rw [ih (List.cons_ne_nil v ws)]
      rfl

/-- Where no text begins another one, at most one of them is ahead. -/
theorem eq_of_mem_ways_oneOf (hne : ws ≠ [])
    (hws : ∀ v ∈ ws, ∀ w ∈ ws, v.toList <+: w.toList → v = w) {m' : Reach}
    (hm : m ∈ (oneOf ws).ways r) (hm' : m' ∈ (oneOf ws).ways r) : m = m' := by
  obtain ⟨v, hv, hm⟩ := (mem_ways_oneOf hne).1 hm
  obtain ⟨w, hw, hm'⟩ := (mem_ways_oneOf hne).1 hm'
  obtain rfl : v = w := by
    rcases List.prefix_or_prefix_of_prefix ⟨m.rest, hm.rest_eq.symm⟩ ⟨m'.rest, hm'.rest_eq.symm⟩
      with hpre | hpre
    · exact hws v hv w hw hpre
    · exact (hws w hw v hv hpre).symm
  exact hm.unique hm'

def upToBoundary (w : String) : Pattern := seq (lit w) boundary

theorem unmarked_upToBoundary (w : String) : (upToBoundary w).unmarked := by
  change ((lit w).unmarked && true) = true
  rw [unmarked_lit, Bool.and_self]

theorem match?_upToBoundary_eq_some_iff :
    (upToBoundary w).match? r = some m ↔ r.Takes w.toList m ∧ m.atEdge .wordBoundary := by
  have hu := unmarked_upToBoundary w
  have hmem (m : Reach) :
      m ∈ (upToBoundary w).ways r ↔ r.Takes w.toList m ∧ m.atEdge .wordBoundary := by
    rw [upToBoundary, mem_ways_seq]
    constructor
    · rintro ⟨x, hx, hm⟩
      obtain ⟨hedge, rfl⟩ := mem_ways_edge.1 hm
      exact ⟨mem_ways_lit.1 hx, hedge⟩
    · rintro ⟨hx, hedge⟩
      exact ⟨m, mem_ways_lit.2 hx, mem_ways_edge.2 ⟨hedge, rfl⟩⟩
  constructor
  · exact fun h => (hmem m).1 (mem_ways_of_match? hu h)
  · intro h
    cases hm : (upToBoundary w).match? r with
    | none => exact absurd ((hmem m).2 h) ((match?_eq_none_iff hu).1 hm m)
    | some m' => rw [((hmem m').1 (mem_ways_of_match? hu hm)).1.unique h.1]

theorem isSome_upToBoundary (hb : r.before.any Text.isWord = false) :
    ((upToBoundary w).match? r).isSome ↔ Text.beginsWith r.rest w := by
  rw [Text.beginsWith_iff, Option.isSome_iff_exists]
  constructor
  · rintro ⟨m, hm⟩
    obtain ⟨htakes, hedge⟩ := match?_upToBoundary_eq_some_iff.1 hm
    rw [Reach.atEdge, htakes.before_eq, Edge.wordBoundary_holds_or hb] at hedge
    exact ⟨m.rest, htakes.rest_eq, hedge⟩
  · rintro ⟨after, hrest, hedge⟩
    obtain ⟨m, htakes, rfl⟩ := Reach.exists_takes hrest
    refine ⟨m, match?_upToBoundary_eq_some_iff.2 ⟨htakes, ?_⟩⟩
    rwa [Reach.atEdge, htakes.before_eq, Edge.wordBoundary_holds_or hb]

/-- The match of a word list is that of its first entry that has one. -/
theorem match?_wholeWord (hne : ws ≠ []) (hr : r.atEdge .wordBoundary) :
    (wholeWord ws).match? r = ws.findSome? fun w => (upToBoundary w).match? r := by
  have hu : (wholeWord ws).unmarked := by
    change (true && ((oneOf ws).unmarked && true)) = true
    rw [unmarked_oneOf]
    rfl
  have hways : (wholeWord ws).ways r = ws.flatMap fun w => (upToBoundary w).ways r := by
    change (boundary.ways r).flatMap (fun x => ((oneOf ws).ways x).flatMap boundary.ways) = _
    rw [boundary, ways, if_pos hr, List.flatMap_singleton, ways_oneOf hne, List.flatMap_assoc]
    rfl
  simp only [match?_eq_head? hu, hways, List.head?_flatMap,
    match?_eq_head? (unmarked_upToBoundary _)]

theorem match?_wholeWord_eq_none_iff (hne : ws ≠ []) (hr : r.atEdge .wordBoundary)
    (hb : r.before.any Text.isWord = false) :
    (wholeWord ws).match? r = none ↔ ∀ v ∈ ws, ¬ Text.beginsWith r.rest v := by
  rw [match?_wholeWord hne hr, List.findSome?_eq_none_iff]
  refine forall₂_congr fun v _ => ?_
  rw [← isSome_upToBoundary hb, Option.not_isSome_iff_eq_none]

theorem exists_of_match?_wholeWord (hne : ws ≠ []) (hr : r.atEdge .wordBoundary)
    (h : (wholeWord ws).match? r = some m) : ∃ v ∈ ws, r.Takes v.toList m := by
  rw [match?_wholeWord hne hr] at h
  obtain ⟨v, hv, hm⟩ := List.exists_of_findSome?_eq_some h
  exact ⟨v, hv, (match?_upToBoundary_eq_some_iff.1 hm).1⟩

/-- Up to an entry that has a match, only the entries before it count. -/
theorem findSome?_eq_or {α β : Type} [DecidableEq α] {l : List α} {a : α} (ha : a ∈ l)
    {f : α → Option β} {b : β} (hb : f a = some b) :
    l.findSome? f = ((l.takeWhile (· ≠ a)).findSome? f).or (some b) := by
  induction l with
  | nil => cases ha
  | cons x l ih =>
    by_cases hx : x = a
    · rw [List.takeWhile_cons_of_neg (by simpa using hx), hx, List.findSome?_cons, hb]
      rfl
    · rw [List.takeWhile_cons_of_pos (by simpa using hx), List.findSome?_cons,
        List.findSome?_cons, ih ((List.mem_cons.1 ha).resolve_left (Ne.symm hx))]
      cases f x <;> rfl

/-- An entry that begins the text up to a boundary is the match of its list exactly if no
earlier one does. -/
theorem match?_wholeWord_eq_iff (hw : w ∈ ws) (hr : r.atEdge .wordBoundary)
    (hb : r.before.any Text.isWord = false) (hm : (upToBoundary w).match? r = some m) :
    (wholeWord ws).match? r = some m ↔
      ∀ v ∈ ws.takeWhile (· ≠ w), ¬ Text.beginsWith r.rest v := by
  rw [match?_wholeWord (List.ne_nil_of_mem hw) hr, findSome?_eq_or hw hm]
  cases hfront : (ws.takeWhile (· ≠ w)).findSome? fun v => (upToBoundary v).match? r with
  | none =>
    refine iff_of_true rfl fun v hv => ?_
    rw [← isSome_upToBoundary hb, List.findSome?_eq_none_iff.1 hfront v hv]
    exact Bool.false_ne_true
  | some m' =>
    obtain ⟨v, hv, hm'⟩ := List.exists_of_findSome?_eq_some hfront
    refine iff_of_false ?_ fun h => h v hv ?_
    · rintro ⟨⟩
      have hsame := ((match?_upToBoundary_eq_some_iff.1 hm').1.eq_of_taken_eq
        (match?_upToBoundary_eq_some_iff.1 hm).1 rfl).1
      have hne : v ≠ w := by simpa using List.mem_takeWhile_imp hv
      exact hne (String.toList_injective hsame)
    · rw [← isSome_upToBoundary hb, hm']
      rfl

/-- An entry that stands between white space has an end. -/
theorem exists_upToBoundary {after : List Char} (hrest : r.rest = w.toList ++ after)
    (hlast : w.toList.getLast?.any Text.isWord) (ha : after.head?.all Text.isSpace) :
    ∃ m, (upToBoundary w).match? r = some m ∧ m.rest = after := by
  obtain ⟨m, hm, rfl⟩ := Reach.exists_takes hrest
  refine ⟨m, match?_upToBoundary_eq_some_iff.2 ⟨hm, ?_⟩, rfl⟩
  rw [Reach.atEdge_wordBoundary hm hlast, Text.not_any_isWord_of_all_isSpace ha]
  exact Bool.false_ne_true

theorem atEdge_of_isWord (hb : r.before.any Text.isWord = false)
    (hr : r.rest.head?.any Text.isWord) : r.atEdge .wordBoundary := by
  simp only [Reach.atEdge, Edge.holds, hb, hr, Bool.false_bne]

theorem atEdge_of_word {after : List Char} (hb : r.before.any Text.isWord = false)
    (hrest : r.rest = w.toList ++ after) (hfirst : w.toList.head?.any Text.isWord) :
    r.atEdge .wordBoundary := by
  refine atEdge_of_isWord hb ?_
  obtain ⟨c, hc, hword⟩ := (Option.any_eq_true _ _).1 hfirst
  simp [hrest, List.head?_append, hc, hword]

/-- Between white space, an entry of a list is matched as a whole exactly if no earlier one
begins it up to a word boundary. -/
theorem taken_wholeWord_iff {before : Option Char} {after : List Char} (hw : w ∈ ws)
    (hfirst : w.toList.head?.any Text.isWord) (hlast : w.toList.getLast?.any Text.isWord)
    (hb : before.all Text.isSpace) (ha : after.head?.all Text.isSpace) :
    ((wholeWord ws).match? (.start before (w.toList ++ after))).map (·.taken) = some w.length ↔
      ∀ v ∈ ws.takeWhile (· ≠ w), ¬ Text.beginsWith (w.toList ++ after) v := by
  have hbefore := Text.not_any_isWord_of_all_isSpace hb
  obtain ⟨m, hm, -⟩ := exists_upToBoundary (r := .start before (w.toList ++ after)) rfl hlast ha
  have hedge : (Reach.start before (w.toList ++ after)).atEdge .wordBoundary :=
    atEdge_of_word hbefore rfl hfirst
  have htakes := (match?_upToBoundary_eq_some_iff.1 hm).1
  have htaken : m.taken = w.length := by
    rw [htakes.taken_eq, Reach.start, Nat.zero_add, String.length_toList]
  refine Iff.trans ?_ (match?_wholeWord_eq_iff hw hedge hbefore hm)
  rw [Option.map_eq_some_iff]
  constructor
  · rintro ⟨m', hm', ht⟩
    obtain ⟨v, -, hv⟩ := exists_of_match?_wholeWord (List.ne_nil_of_mem hw) hedge hm'
    rw [hm', (hv.eq_of_taken_eq htakes (ht.trans htaken.symm)).2]
  · exact fun h => ⟨m, h, htaken⟩

end Pattern

/-! ### Commands of a shell -/

open Lexicon.Shell

namespace Rules.Terminal

def newlineRule : Rule := (Rule.token (char '\n') .text).pop 1

def driverRule : Rule := (Rule.token compilerDriver .nameBuiltin).followedBy driverEnd

def commandRule : Rule := .token (wholeWord shellCommands) .nameBuiltin

theorem rules_command :
    terminal.rules command = newlineRule :: driverRule :: commandRule :: commandLine.drop 3 := rfl

theorem skips_newlineRule {c : Char} (h : c ≠ '\n') : newlineRule.skips c := by
  have hnot : (CharSet.char '\n').has c = false := by rw [CharSet.has_char, beq_eq_false_iff_ne.2 h]
  change (true && true && !(CharSet.char '\n').has c) = true
  rw [hnot]
  rfl

end Rules.Terminal

open Rules Rules.Terminal

/-- Whether a compiler driver may end in front of a text. -/
def mayEndDriver (text : List Char) : Bool :=
  text.head?.all fun c => Text.isSpace c || c == '-' || c == '\n'

/-- No compiler driver begins another one. -/
theorem compilerDrivers_apart : ∀ d ∈ compilerDrivers, ∀ d' ∈ compilerDrivers,
    d.toList <+: d'.toList → d = d' := by
  decide

/-- The commands are words, and no compiler driver begins one. -/
theorem shellCommands_words : ∀ w ∈ shellCommands, w.toList.head?.any Text.isWord ∧
    w.toList.getLast?.any Text.isWord ∧ w.toList.any Text.isSpace = false ∧
    ∀ d ∈ compilerDrivers, ¬ d.toList <+: w.toList := by
  decide +kernel

/-- No earlier command begins a command up to a boundary, but for `apt`. -/
theorem shellCommands_begun : ∀ w ∈ shellCommands,
    (∀ v ∈ shellCommands.takeWhile (· ≠ w), ¬ Text.beginsWith w.toList v) ↔ w ≠ "apt-get" := by
  have hinside : ∀ w ∈ shellCommands,
      w.toList.all Text.isWord ∨ w = "pkg-config" ∨ w = "apt-get" := by decide +kernel
  intro w hw
  rcases hinside w hw with hword | rfl | rfl
  · refine iff_of_true (fun v hv h => ?_) ?_
    · have hne : v ≠ w := by simpa using List.mem_takeWhile_imp hv
      have hlast := (shellCommands_words v ((List.takeWhile_prefix _).subset hv)).2.1
      exact hne (Text.eq_of_beginsWith hlast (List.all_eq_true.1 hword) h)
    · rintro rfl
      exact absurd hword (by decide)
  · exact iff_of_true (by decide) (by decide)
  · exact iff_of_false (by decide +kernel) (not_not_intro rfl)

namespace Scanner

variable {s : Scanner}

theorem effect?_driverRule (s : Scanner) : s.effect? driverRule =
    (compilerDriver.match? (.start s.before s.rest)).filter (mayEndDriver ·.rest) := by
  have hpattern : driverRule.pattern = compilerDriver := rfl
  rw [effect?, Rule.match?, hpattern]
  cases hm : compilerDriver.match? (.start s.before s.rest) with
  | none => rfl
  | some m =>
    have hpos : 0 < m.taken := taken_lt_of_match? (by decide) hm
    have hguard : (driverEnd.match? m.restart).isSome = mayEndDriver m.rest :=
      isSome_driverEnd m.restart
    simp only [driverRule, Rule.followedBy, Rule.token, Option.all_some, hguard]
    cases hend : mayEndDriver m.rest <;> simp [Option.filter, hend, hpos]

/-- The rule for compiler drivers asks for one and for something behind it that may follow. -/
theorem effect?_driverRule_eq_none_iff : s.effect? driverRule = none ↔
    ∀ d ∈ compilerDrivers, ∀ after, s.rest = d.toList ++ after → ¬ mayEndDriver after := by
  have hends {m : Reach} : m ∈ compilerDriver.ways (.start s.before s.rest) ↔
      ∃ d ∈ compilerDrivers, (Reach.start s.before s.rest).Takes d.toList m :=
    mem_ways_oneOf (by decide)
  rw [effect?_driverRule, Option.filter_eq_none_iff]
  constructor
  · intro h d hd after hrest
    obtain ⟨m, hm, rfl⟩ := Reach.exists_takes (r := .start s.before s.rest) hrest
    cases hmatch : compilerDriver.match? (.start s.before s.rest) with
    | none =>
      exact absurd (hends.2 ⟨d, hd, hm⟩) ((match?_eq_none_iff (unmarked_oneOf _)).1 hmatch m)
    | some m' =>
      -- no driver begins another one, so the match is the one that is ahead
      obtain rfl := eq_of_mem_ways_oneOf (by decide) compilerDrivers_apart
        (hends.2 ⟨d, hd, hm⟩) (mem_ways_of_match? (unmarked_oneOf _) hmatch)
      exact h m hmatch
  · intro h m hm
    obtain ⟨d, hd, hm⟩ := hends.1 (mem_ways_of_match? (unmarked_oneOf _) hm)
    exact h d hd m.rest hm.rest_eq

/-- A compiler driver comes out as one token. -/
theorem exists_takesText_driver {m : Reach} {c : Char} {cs : List Char}
    (hst : s.stack.top = command) (hr : s.rest = c :: cs) (hc : c ≠ '\n')
    (hdriver : s.effect? driverRule = some m) :
    ∃ d : String, TakesText .nameBuiltin d.toList s.stack s (s.step Rules.terminal) := by
  have hmatch := hdriver
  rw [effect?_driverRule, Option.filter_eq_some_iff] at hmatch
  obtain ⟨d, hd, htakes⟩ := (mem_ways_oneOf (by decide)).1
    (mem_ways_of_match? (unmarked_oneOf compilerDrivers) hmatch.1)
  have hne : ∀ d ∈ compilerDrivers, d.toList ≠ [] := by decide
  have hrules : Rules.terminal.rules s.stack.top =
      [newlineRule] ++ driverRule :: commandRule :: commandLine.drop 3 := by
    rw [hst, rules_command]
    rfl
  refine ⟨d, takesText_of_effect? hrules ?_ hdriver htakes (hne d hd) rfl⟩
  exact List.forall_mem_singleton.2 (effect?_of_skips (skips_newlineRule hc) hr)

/-- In front of a command that no driver begins, the match of the list comes out as one token. -/
theorem exists_takesText_command {m : Reach} (hst : s.stack.top = command)
    (hdriver : s.effect? driverRule = none)
    (hedge : (Reach.start s.before s.rest).atEdge .wordBoundary)
    (hm : (wholeWord shellCommands).match? (.start s.before s.rest) = some m) :
    ∃ v : String, (Reach.start s.before s.rest).Takes v.toList m ∧
      TakesText .nameBuiltin v.toList s.stack s (s.step Rules.terminal) := by
  obtain ⟨v, hv, htakes⟩ := exists_of_match?_wholeWord (by decide) hedge hm
  obtain ⟨c, hc, hword⟩ := (Option.any_eq_true _ _).1 (shellCommands_words v hv).1
  obtain ⟨cs, hcs⟩ := List.head?_eq_some_iff.1 hc
  have hr : s.rest = c :: (cs ++ m.rest) := by
    have hrest : s.rest = v.toList ++ m.rest := htakes.rest_eq
    rw [hrest, hcs, List.cons_append]
  have hnewline : c ≠ '\n' := by
    rintro rfl
    exact absurd hword (by decide)
  have hrules : Rules.terminal.rules s.stack.top =
      [newlineRule, driverRule] ++ commandRule :: commandLine.drop 3 := by
    rw [hst, rules_command]
    rfl
  refine ⟨v, htakes, takesText_token hrules ?_ hm htakes (by simp [hcs])⟩
  simp only [List.forall_mem_cons, List.not_mem_nil, false_implies, implies_true, and_true]
  exact ⟨effect?_of_skips (skips_newlineRule hnewline) hr, hdriver⟩

/-- In front of a command between white space, a command comes out as one token: this one,
unless it is `apt-get`. -/
theorem takesText_command {w : String} (hw : w ∈ shellCommands) {after : List Char}
    (hst : s.stack.top = command) (hb : s.before.all Text.isSpace)
    (hrest : s.rest = w.toList ++ after) (ha : after.head?.all Text.isSpace) :
    ∃ v, TakesText .nameBuiltin v.toList s.stack s (s.step Rules.terminal) ∧
      (v = w ↔ w ≠ "apt-get") := by
  obtain ⟨hfirst, hlast, -, hdrivers⟩ := shellCommands_words w hw
  have hbefore := Text.not_any_isWord_of_all_isSpace hb
  have hdriver : s.effect? driverRule = none := by
    refine effect?_driverRule_eq_none_iff.2 fun d hd back hback => absurd ?_ (hdrivers d hd)
    have hplain : ∀ d ∈ compilerDrivers, d.toList.any Text.isSpace = false := by decide
    exact Text.prefix_of_prefix_append ⟨back, (hrest.symm.trans hback).symm⟩
      (List.any_eq_false.1 (hplain d hd)) ha
  have hedge : (Reach.start s.before s.rest).atEdge .wordBoundary :=
    atEdge_of_word hbefore hrest hfirst
  obtain ⟨m, hm, -⟩ := exists_upToBoundary (r := .start s.before s.rest) hrest hlast ha
  -- the list has a match, as this entry has one
  obtain ⟨m', hm'⟩ : ∃ m', (wholeWord shellCommands).match? (.start s.before s.rest) = some m' := by
    rw [← Option.isSome_iff_exists, match?_wholeWord (by decide) hedge, List.findSome?_isSome_iff]
    exact ⟨w, hw, by rw [hm]; rfl⟩
  obtain ⟨v, hv, hstep⟩ := exists_takesText_command hst hdriver hedge hm'
  refine ⟨v, hstep, ?_⟩
  calc v = w ↔ (wholeWord shellCommands).match? (.start s.before s.rest) = some m := by
        rw [hm', Option.some_inj]
        have htakes := (match?_upToBoundary_eq_some_iff.1 hm).1
        exact ⟨fun h => hv.unique (h ▸ htakes), fun h => String.toList_injective
          (hv.eq_of_taken_eq htakes (congrArg Reach.taken h)).1⟩
    _ ↔ ∀ v ∈ shellCommands.takeWhile (· ≠ w), ¬ Text.beginsWith s.rest v :=
        match?_wholeWord_eq_iff hw hedge hbefore hm
    _ ↔ ∀ v ∈ shellCommands.takeWhile (· ≠ w), ¬ Text.beginsWith w.toList v := by
        refine forall₂_congr fun v hv => not_congr ?_
        rw [hrest]
        have hplain := (shellCommands_words v ((List.takeWhile_prefix _).subset hv)).2.2.1
        exact Text.beginsWith_append_iff (List.any_eq_false.1 hplain) ha
    _ ↔ w ≠ "apt-get" := shellCommands_begun w hw

end Scanner

/-! ### Entries of a list, and commands -/

/-- An entry of a word list that stands between white space is matched as a whole exactly if no
earlier one begins it up to a word boundary. A shell command that stands so in a command line
is one token exactly if it is not `apt-get`, which `apt` begins. -/
theorem wholeWord_ownWords {ws : List String} {w : String} (hw : w ∈ ws)
    {before : Option Char} {after : List Char} (hb : before.all Text.isSpace)
    (ha : after.head?.all Text.isSpace) :
    (w.toList.head?.any Text.isWord → w.toList.getLast?.any Text.isWord →
        (((wholeWord ws).match? (.start before (w.toList ++ after))).map (·.taken) =
            some w.length ↔
          ∀ v ∈ ws.takeWhile (· ≠ w), ¬ Text.beginsWith (w.toList ++ after) v)) ∧
      ∀ s : Scanner, ws = shellCommands → s.stack.top = command → s.before = before →
        s.rest = w.toList ++ after →
        ((s.step Rules.terminal).tokens = s.tokens ++ [⟨s.location, .nameBuiltin, w⟩] ↔
          w ≠ "apt-get") := by
  refine ⟨fun hfirst hlast => taken_wholeWord_iff hw hfirst hlast hb ha, ?_⟩
  rintro s rfl hst rfl hrest
  obtain ⟨v, hstep, hv⟩ := s.takesText_command hw hst hb hrest ha
  rw [hstep.tokens_eq, ← hv, String.ofList_toList]
  simp

/-- `python` comes before `python3` in the list, but is not followed by a boundary in it. -/
theorem wholeWord_ownWords_python :
    let s := (Scanner.start "$ python3 a.py".toList).run Rules.terminal 1
    "python3" ∈ shellCommands ∧ s.stack.top = command ∧ s.before = some ' ' ∧
      s.rest = "python3".toList ++ " a.py".toList ∧
      ((wholeWord shellCommands).match? (.start (some ' ') ("python3".toList ++
        " a.py".toList))).map (·.taken) = some 7 ∧
      (s.step Rules.terminal).tokens =
        [⟨⟨0, 0⟩, .genericPrompt, "$ "⟩, ⟨⟨0, 2⟩, .nameBuiltin, "python3"⟩] := by
  intro s
  have hs : s = ⟨⟨1, [0]⟩, some ' ', "python3 a.py".toList, ⟨0, 2⟩, 0,
      [.enter 1, .token ⟨⟨0, 0⟩, .genericPrompt, "$ "⟩]⟩ := by decide
  have hw : "python3" ∈ shellCommands := by decide
  have htop : s.stack.top = command := by rw [hs]; rfl
  have hbefore : s.before = some ' ' := by rw [hs]
  have hrest : s.rest = "python3".toList ++ " a.py".toList := by rw [hs]; rfl
  have hblank : (some ' ').all Text.isSpace := rfl
  have hbehind : " a.py".toList.head?.all Text.isSpace := rfl
  have hentry := wholeWord_ownWords hw hblank hbehind
  refine ⟨hw, htop, hbefore, hrest, (hentry.1 (by decide) (by decide)).2 (by decide), ?_⟩
  refine ((hentry.2 s rfl htop hbefore hrest).2 (by decide)).trans ?_
  rw [hs]
  rfl

/-- A hyphen is a word boundary: the list matches `apt`, and `-get` comes out as an option. -/
theorem scan_aptGet_split : "apt-get" ∈ shellCommands ∧
    (Language.terminal.scan "$ apt-get").tokens = [⟨⟨0, 0⟩, .genericPrompt, "$ "⟩,
      ⟨⟨0, 2⟩, .nameBuiltin, "apt"⟩, ⟨⟨0, 5⟩, .nameDecorator, "-get"⟩] ∧
    ((wholeWord shellCommands).match? (.start none "apt-get".toList)).map (·.taken) = some 3 := by
  decide

end Highlighter
