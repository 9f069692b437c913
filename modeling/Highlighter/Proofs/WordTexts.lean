import Highlighter.Pattern.Words
import Highlighter.Proofs.NormalForms

/-! The pattern texts of word lists. Every sign in an entry is escaped, so the reader takes the
entries apart at the bars between them and reads each character of an entry as itself. Proved:
the text of a list is read as a pattern whose match is the first entry that is ahead, whatever
characters the entries have. -/

namespace Highlighter.Pattern

/-! ### Reading on -/

/-- With enough steps left, reading comes to another reading and to a later part of the text. -/
def Reads (s : Reading) (cs : List Char) (s' : Reading) (cs' : List Char) : Prop :=
  ∀ n, cs.length ≤ n → ∃ n', cs'.length ≤ n' ∧ readParts n s cs = readParts n' s' cs'

namespace Reads

variable {s s' s'' : Reading} {cs cs' cs'' : List Char} {c : Char}

theorem refl (s : Reading) (cs : List Char) : Reads s cs s cs := fun n hn => ⟨n, hn, rfl⟩

theorem trans (h : Reads s cs s' cs') (h' : Reads s' cs' s'' cs'') : Reads s cs s'' cs'' := by
  intro n hn
  obtain ⟨k, hk, hread⟩ := h n hn
  obtain ⟨m, hm, hread'⟩ := h' k hk
  exact ⟨m, hm, hread.trans hread'⟩

theorem part (h : readPart s c cs = some (s', cs')) (hle : cs'.length ≤ cs.length) :
    Reads s (c :: cs) s' cs' := by
  intro n hn
  cases n with
  | zero => cases hn
  | succ n => exact ⟨n, Nat.le_trans hle (Nat.le_of_succ_le_succ hn), by rw [readParts, h]⟩

/-- A text without repetitions is read as the pattern that its last reading makes. -/
theorem read_eq {text : String} {l : Level} {n : Nat}
    (h : Reads .start text.toList ⟨l, [], n⟩ []) (hdepth : l.close.depth ≤ depthLimit)
    (hrepeats : l.close.pattern.repeats = false) : read text = some l.close.pattern := by
  obtain ⟨k, -, hread⟩ := h _ (Nat.le_refl _)
  have hparts : readParts text.toList.length .start text.toList = some l.close := by
    rw [hread, readParts]
    rfl
  rw [read, hparts]
  simp [Nat.not_lt.2 hdepth, hrepeats]

end Reads

/-! ### Reading entries -/

/-- How characters are meant where no flag is set. -/
def plainFlags : Flags := ⟨false, false, true⟩

def charPart (c : Char) : Part := ⟨char c, 0, true⟩

def wordPart (w : String) : Part := .joined sequence (w.toList.map charPart)

def wordsPart (ws : List String) : Part :=
  let inner := Part.joined choice (ws.map wordPart)
  ⟨inner.pattern, inner.depth + 1, true⟩

variable {branches parts : List Part} {outer : List (Option Nat × Level)} {n : Nat}
  {c : Char} {cs : List Char} {ws : List String}

theorem readEscape_of_isSign (h : isSign c) (cs : List Char) :
    readEscape (c :: cs) = some (.char c, cs) := by
  have hmem : c ∈ ['\\', '.', '+', '*', '?', '(', ')', '|', '[', ']', '\x7b', '\x7d', '^', '$',
      '#', '&', '-', '~'] := List.contains_iff_mem.1 h
  simp only [List.mem_cons, List.not_mem_nil, or_false] at hmem
  rcases hmem with rfl | rfl | rfl | rfl | rfl | rfl | rfl | rfl | rfl | rfl | rfl | rfl | rfl |
    rfl | rfl | rfl | rfl | rfl <;> rfl

theorem readPart_of_isSign (h : isSign c) (s : Reading) (cs : List Char) :
    readPart s '\\' (c :: cs) = some (s.pushSimple (one (s.level.flags.charSet c)), cs) := by
  simp only [readPart, readEscape_of_isSign h]

theorem readPart_of_not_isSign (h : isSign c = false) (s : Reading) (cs : List Char) :
    readPart s c cs = some (s.pushSimple (one (s.level.flags.charSet c)), cs) := by
  unfold readPart
  split
  case h_13 => rfl
  -- all characters with a case of their own are signs
  all_goals cases h

theorem reads_char (c : Char) (cs : List Char) :
    Reads ⟨⟨branches, parts, plainFlags⟩, outer, n⟩ (escapeChars [c] ++ cs)
      ⟨⟨branches, charPart c :: parts, plainFlags⟩, outer, n⟩ cs := by
  rw [escapeChars]
  split_ifs with h
  · exact .part (readPart_of_isSign h _ cs) (Nat.le_succ _)
  · exact .part (readPart_of_not_isSign (Bool.eq_false_iff.2 h) _ _) (Nat.le_refl _)

theorem reads_text (w cs : List Char) :
    Reads ⟨⟨branches, parts, plainFlags⟩, outer, n⟩ (escapeChars w ++ cs)
      ⟨⟨branches, (w.map charPart).reverse ++ parts, plainFlags⟩, outer, n⟩ cs := by
  induction w generalizing parts with
  | nil => exact .refl _ _
  | cons c w ih =>
    have hcons : escapeChars (c :: w) = escapeChars [c] ++ escapeChars w := by
      simp only [escapeChars]
      split_ifs <;> rfl
    rw [hcons, List.append_assoc, List.map_cons, List.reverse_cons, List.append_assoc]
    exact (reads_char c _).trans ih

/-- The characters between the parentheses of a word list. -/
def joinedChars (ws : List String) : List Char :=
  ['|'].intercalate (ws.map fun w => escapeChars w.toList)

/-- Each bar finishes an entry; the last one is left open. -/
theorem reads_words (hne : ws ≠ []) (branches : List Part) (outer : List (Option Nat × Level))
    (n : Nat) (cs : List Char) : ∃ l : Level,
      Reads ⟨⟨branches, [], plainFlags⟩, outer, n⟩ (joinedChars ws ++ cs) ⟨l, outer, n⟩ cs ∧
        l.branch.branches = (ws.map wordPart).reverse ++ branches := by
  induction ws generalizing branches with
  | nil => exact absurd rfl hne
  | cons w ws ih =>
    have hword : wordPart w = .joined sequence ((w.toList.map charPart).reverse ++ []).reverse := by
      rw [List.append_nil, List.reverse_reverse]
      rfl
    cases ws with
    | nil =>
      rw [joinedChars, List.map_singleton, List.intercalate_singleton]
      refine ⟨_, reads_text w.toList cs, ?_⟩
      rw [Level.branch, List.map_singleton, hword]
      rfl
    | cons v ws =>
      obtain ⟨l, hl, hbranches⟩ := ih (List.cons_ne_nil v ws) (wordPart w :: branches)
      refine ⟨l, ?_, by rw [hbranches]; simp⟩
      have hchars : joinedChars (w :: v :: ws) ++ cs =
          escapeChars w.toList ++ '|' :: (joinedChars (v :: ws) ++ cs) := by
        simp [joinedChars, List.intercalate_cons_cons]
      rw [hchars]
      refine (reads_text w.toList _).trans (.trans (.part ?_ (Nat.le_refl _)) hl)
      rw [hword]
      rfl

/-- A group with a word list in it is read as one part. -/
theorem reads_group (hne : ws ≠ []) (cs : List Char) :
    Reads ⟨⟨branches, parts, plainFlags⟩, outer, n⟩ ("(?:".toList ++ joinedChars ws ++ ')' :: cs)
      ⟨⟨branches, wordsPart ws :: parts, plainFlags⟩, outer, n⟩ cs := by
  obtain ⟨l, hl, hbranches⟩ := reads_words hne []
    ((none, ⟨branches, parts, plainFlags⟩) :: outer) n (')' :: cs)
  have hclose : l.close = .joined choice (ws.map wordPart) := by
    rw [Level.close, hbranches, List.append_nil, List.reverse_reverse]
  have hopen : readPart ⟨⟨branches, parts, plainFlags⟩, outer, n⟩ '('
      ('?' :: ':' :: (joinedChars ws ++ ')' :: cs)) = some
        (⟨.opened plainFlags, (none, ⟨branches, parts, plainFlags⟩) :: outer, n⟩,
          joinedChars ws ++ ')' :: cs) := rfl
  refine (Reads.part hopen (Nat.le_add_right _ 2)).trans (hl.trans (.part ?_ (Nat.le_refl _)))
  change ((some _ : Option Reading).map (·, cs)) = _
  rw [hclose]
  rfl

theorem toList_escape (w : String) : (escape w).toList = escapeChars w.toList :=
  String.toList_ofList

theorem toList_oneOfText (ws : List String) :
    (oneOfText ws).toList = "(?:".toList ++ joinedChars ws ++ [')'] := by
  simp only [oneOfText, String.toList_append, String.toList_intercalate, List.map_map,
    Function.comp_def, toList_escape]
  rfl

theorem reads_oneOfText (hne : ws ≠ []) :
    Reads .start (oneOfText ws).toList ⟨⟨[], [wordsPart ws], plainFlags⟩, [], 0⟩ [] := by
  rw [toList_oneOfText]
  exact reads_group hne []

theorem reads_wholeWordText (hne : ws ≠ []) :
    Reads .start (wholeWordText ws).toList
      ⟨⟨[], [⟨boundary, 0, true⟩, wordsPart ws, ⟨boundary, 0, true⟩], plainFlags⟩, [], 0⟩ [] := by
  have hchars : (wholeWordText ws).toList =
      '\\' :: 'b' :: ("(?:".toList ++ joinedChars ws ++ ')' :: ['\\', 'b']) := by
    rw [wholeWordText, String.toList_append, String.toList_append, toList_oneOfText]
    simp
  rw [hchars]
  refine (Reads.part rfl (Nat.le_succ _)).trans ((reads_group hne _).trans (.part rfl ?_))
  exact Nat.zero_le _

/-! ### How deep the text of a word list is nested -/

theorem foldl_max_le {l : List Nat} {a b : Nat} (ha : a ≤ b) (h : ∀ x ∈ l, x ≤ b) :
    l.foldl max a ≤ b := by
  induction l generalizing a with
  | nil => exact ha
  | cons x l ih =>
    obtain ⟨hx, hl⟩ := List.forall_mem_cons.1 h
    exact ih (Nat.max_le.2 ⟨ha, hx⟩) hl

theorem depth_joined_le {combine : List Pattern → Pattern} {l : List Part} {b : Nat}
    (h : ∀ p ∈ l, p.depth ≤ b) : (Part.joined combine l).depth ≤ b + 1 := by
  have hmax : (l.map (·.depth)).foldl max 0 ≤ b :=
    foldl_max_le (Nat.zero_le b) (List.forall_mem_map.2 h)
  simp only [Part.joined]
  split_ifs <;> omega

theorem depth_wordsPart_le (ws : List String) : (wordsPart ws).depth ≤ 3 := by
  refine Nat.succ_le_succ (depth_joined_le (List.forall_mem_map.2 fun w _ => ?_))
  exact depth_joined_le (List.forall_mem_map.2 fun c _ => Nat.le_refl 0)

theorem depth_close_le {l : List Part} (h : ∀ p ∈ l, p.depth ≤ 3) :
    (Level.close ⟨[], l, plainFlags⟩).depth ≤ depthLimit := by
  have hbranch : (Part.joined sequence l.reverse).depth ≤ 4 :=
    depth_joined_le fun p hp => h p (List.mem_reverse.1 hp)
  exact Nat.le_trans (depth_joined_le (List.forall_mem_singleton.2 hbranch)) (by decide)

/-! ### The patterns of word lists -/

theorem pattern_wordPart (w : String) : (wordPart w).pattern = lit w := by
  change sequence ((w.toList.map charPart).map (·.pattern)) = lit w
  rw [List.map_map]
  exact sequence_chars w.toList

theorem pattern_wordsPart (ws : List String) :
    (wordsPart ws).pattern = choice (ws.map lit) := by
  change choice ((ws.map wordPart).map (·.pattern)) = _
  rw [List.map_map]
  exact congrArg choice (List.map_congr_left fun w _ => pattern_wordPart w)

/-- The pattern that the text of a word list is read as. -/
def oneOfRead (ws : List String) : Pattern := sequence [choice (ws.map lit)]

/-- The pattern that the text of a word list between boundaries is read as. -/
def wholeWordRead (ws : List String) : Pattern :=
  sequence [boundary, choice (ws.map lit), boundary]

theorem plain_oneOfRead (ws : List String) : (oneOfRead ws).Plain :=
  .sequence (List.forall_mem_singleton.2 (.choice_lits ws))

theorem plain_wholeWordRead (ws : List String) : (wholeWordRead ws).Plain := by
  refine .sequence ?_
  simp only [List.forall_mem_cons, List.not_mem_nil, false_implies, implies_true, and_true]
  exact ⟨.edge _, .choice_lits ws, .edge _⟩

theorem read_oneOfText (hne : ws ≠ []) : read (oneOfText ws) = some (oneOfRead ws) := by
  have hpattern : (Level.close ⟨[], [wordsPart ws], plainFlags⟩).pattern = oneOfRead ws := by
    rw [oneOfRead, ← pattern_wordsPart]
    rfl
  rw [← hpattern]
  refine (reads_oneOfText hne).read_eq ?_ (by rw [hpattern]; exact (plain_oneOfRead ws).repeats)
  exact depth_close_le (List.forall_mem_singleton.2 (depth_wordsPart_le ws))

theorem read_wholeWordText (hne : ws ≠ []) :
    read (wholeWordText ws) = some (wholeWordRead ws) := by
  have hpattern : (Level.close ⟨[], [⟨boundary, 0, true⟩, wordsPart ws, ⟨boundary, 0, true⟩],
      plainFlags⟩).pattern = wholeWordRead ws := by
    rw [wholeWordRead, ← pattern_wordsPart]
    rfl
  rw [← hpattern]
  refine (reads_wholeWordText hne).read_eq ?_
    (by rw [hpattern]; exact (plain_wholeWordRead ws).repeats)
  refine depth_close_le ?_
  simp only [List.forall_mem_cons, List.not_mem_nil, false_implies, implies_true, and_true]
  exact ⟨Nat.zero_le 3, depth_wordsPart_le ws, Nat.zero_le 3⟩

end Highlighter.Pattern

namespace Highlighter

open Pattern

/-! ### Matches of word lists -/

/-- The place behind a text that is ahead. -/
def Reach.behind (r : Reach) (w : String) : Reach :=
  ⟨w.toList.getLast?.or r.before, r.rest.drop w.length, r.taken + w.length, r.spans⟩

theorem Reach.takes_iff_behind {r r' : Reach} {w : String} :
    r.Takes w.toList r' ↔ w.toList.isPrefixOf r.rest ∧ r' = r.behind w := by
  have htakes (h : w.toList <+: r.rest) : r.Takes w.toList (r.behind w) := by
    obtain ⟨after, hafter⟩ := h
    refine ⟨?_, rfl, rfl, rfl⟩
    rw [behind, ← hafter, ← String.length_toList, List.drop_left]
  rw [List.isPrefixOf_iff_prefix]
  constructor
  · intro h
    have hahead : w.toList <+: r.rest := ⟨r'.rest, h.rest_eq.symm⟩
    exact ⟨hahead, h.unique (htakes hahead)⟩
  · rintro ⟨hahead, rfl⟩
    exact htakes hahead

namespace Pattern

variable {ws : List String}

theorem find?_ways_lit (w : String) (r : Reach) (f : Reach → Bool) :
    ((lit w).ways r).find? f =
      if w.toList.isPrefixOf r.rest && f (r.behind w) then some (r.behind w) else none := by
  have hmem (m : Reach) : m ∈ (lit w).ways r ↔
      m ∈ if w.toList.isPrefixOf r.rest then [r.behind w] else [] := by
    rw [mem_ways_lit, Reach.takes_iff_behind]
    split_ifs with h <;> simp [h]
  rw [find?_eq_of_unique hmem fun m hm m' hm' =>
    (mem_ways_lit.1 hm).unique (mem_ways_lit.1 hm')]
  cases w.toList.isPrefixOf r.rest <;> cases hf : f (r.behind w) <;> simp [hf]

/-- Under any condition, the first end of a choice between texts is behind the first text that is
ahead and meets it. -/
theorem find?_ways_oneOf (hne : ws ≠ []) (r : Reach) (f : Reach → Bool) :
    ((oneOf ws).ways r).find? f =
      (ws.find? fun w => w.toList.isPrefixOf r.rest && f (r.behind w)).map r.behind := by
  rw [ways_oneOf hne, List.find?_flatMap, ← List.findSome?_guard, List.map_findSome?]
  refine congrArg (List.findSome? · ws) (funext fun w => ?_)
  rw [find?_ways_lit, Function.comp_apply, Option.guard]
  split_ifs <;> rfl

/-- Behind some ends, an edge picks the first that stands at one. -/
theorem head?_flatMap_edge (l : List Reach) (e : Edge) :
    (l.flatMap (edge e).ways).head? = l.find? (·.atEdge e) := by
  rw [List.head?_flatMap, ← List.findSome?_guard]
  refine congrArg (List.findSome? · l) (funext fun m => ?_)
  rw [ways, Option.guard]
  split_ifs <;> rfl

theorem match?_oneOfRead (hne : ws ≠ []) (r : Reach) :
    (oneOfRead ws).match? r = (ws.find? (·.toList.isPrefixOf r.rest)).map r.behind := by
  have hways : (oneOfRead ws).ways r = (choice (ws.map lit)).ways r := ways_sequence _ r
  have hhead (l : List Reach) : l.head? = l.find? fun _ => true := by cases l <;> rfl
  rw [match?_eq_head? (plain_oneOfRead ws).unmarked, hways, hhead, find?_ways_choice_lits hne,
    find?_ways_oneOf hne]
  simp only [Bool.and_true]

theorem match?_wholeWordRead (hne : ws ≠ []) (r : Reach) :
    (wholeWordRead ws).match? r =
      (ws.find? fun w => w.toList.isPrefixOf r.rest &&
        (r.atEdge .wordBoundary && (r.behind w).atEdge .wordBoundary)).map r.behind := by
  have hways : (wholeWordRead ws).ways r = (boundary.ways r).flatMap fun x =>
      ((choice (ws.map lit)).ways x).flatMap boundary.ways := ways_sequence _ r
  rw [match?_eq_head? (plain_wholeWordRead ws).unmarked, hways, boundary, ways]
  cases hedge : r.atEdge .wordBoundary with
  | true =>
    rw [if_pos rfl, List.flatMap_singleton, head?_flatMap_edge, find?_ways_choice_lits hne,
      find?_ways_oneOf hne]
    simp only [Bool.true_and]
  | false => simp

end Pattern

/-- The pattern texts of a word list are read as patterns, and at each place of a text the match
of the first is the first entry that is ahead, and that of the second the first entry ahead with
a word boundary on both of its sides. This holds whatever the entries are made of. -/
theorem Pattern.wordTexts_literal {ws : List String} (hne : ws ≠ []) :
    ∃ p q, read (oneOfText ws) = some p ∧ read (wholeWordText ws) = some q ∧
      ∀ (before : Option Char) (rest : List Char),
        let here := Reach.start before rest
        p.match? here = (ws.find? (·.toList.isPrefixOf rest)).map here.behind ∧
        q.match? here =
          (ws.find? fun w => w.toList.isPrefixOf rest &&
            (here.atEdge .wordBoundary && (here.behind w).atEdge .wordBoundary)).map here.behind :=
  ⟨oneOfRead ws, wholeWordRead ws, read_oneOfText hne, read_wholeWordText hne, fun before rest =>
    ⟨match?_oneOfRead hne (.start before rest), match?_wholeWordRead hne (.start before rest)⟩⟩

/-- No boundary is between a plus sign and a blank, so the first entry gives way to the second
where boundaries are asked for. -/
theorem Pattern.wordTexts_literal_signs :
    ["g++", "g"] ≠ [] ∧ oneOfText ["g++", "g"] = "(?:g\\+\\+|g)" ∧
      ∃ p q, read (oneOfText ["g++", "g"]) = some p ∧ read (wholeWordText ["g++", "g"]) = some q ∧
        p.match? (.start none "g++ a".toList) = some ⟨some '+', " a".toList, 3, []⟩ ∧
        q.match? (.start none "g++ a".toList) = some ⟨some 'g', "++ a".toList, 1, []⟩ := by
  have hne : ["g++", "g"] ≠ [] := List.cons_ne_nil _ _
  obtain ⟨p, q, hp, hq, hmatch⟩ := Pattern.wordTexts_literal hne
  obtain ⟨hfirst, hwhole⟩ := hmatch none "g++ a".toList
  exact ⟨hne, by decide, p, q, hp, hq, hfirst.trans (by decide), hwhole.trans (by decide)⟩

end Highlighter
