import Highlighter.Proofs.SkippedBlocks

/-! Blocks that the scanner takes for ended too early. Outside of a block it takes no line as a
whole but an empty one or one that begins a block, so it cannot come to agree again with the
lines of the block that it has left. Proved: a skipped block is scanned line by line and apart
from what is behind it exactly if no inner block has another branch. -/

namespace Highlighter

open Pattern Rules.EngineCpp

/-! ### Lines outside of a block -/

/-- The rule that begins a directive. -/
def directiveRule : Rule := (statements.tail).head (List.cons_ne_nil _ _)

theorem rest_of_mem_directiveRule {r m : Reach} (h : m ∈ directiveRule.pattern.ways r) :
    ∃ bs, (∀ c ∈ bs, isBlank c) ∧ r.rest = bs ++ '#' :: m.rest := by
  change m ∈ (seqs [lineStart, group 1 optBlanks, group 2 (char '#')]).ways r at h
  simp only [mem_ways_seqs_cons, mem_ways_seqs_nil, mem_ways_group, lineStart, mem_ways_edge,
    mem_ways_optBlanks, mem_ways_char] at h
  obtain ⟨_, ⟨-, rfl⟩, x, ⟨y, ⟨bs, hbs, hy⟩, rfl⟩, z, ⟨w, hw, rfl⟩, rfl⟩ := h
  refine ⟨bs, hbs, ?_⟩
  have hrest : y.rest = ['#'] ++ w.rest := hw.rest_eq
  rw [hy.rest_eq, hrest]
  rfl

theorem exists_mem_directiveRule {r : Reach} {bs ds : List Char} (hbs : ∀ c ∈ bs, isBlank c)
    (hr : r.rest = bs ++ '#' :: ds) (he : r.atEdge .lineStart) :
    ∃ m, m ∈ directiveRule.pattern.ways r := by
  change ∃ m, m ∈ (seqs [lineStart, group 1 optBlanks, group 2 (char '#')]).ways r
  simp only [mem_ways_seqs_cons, mem_ways_seqs_nil, mem_ways_group, lineStart, mem_ways_edge,
    mem_ways_optBlanks, mem_ways_char]
  obtain ⟨y, hy, hrest⟩ := Reach.exists_takes hr
  obtain ⟨w, hw, -⟩ := Reach.exists_takes
    (show (y.record 1 r.taken).rest = ['#'] ++ ds from hrest)
  exact ⟨_, r, ⟨he, rfl⟩, _, ⟨y, ⟨bs, hbs, hy⟩, rfl⟩, _, ⟨w, hw, rfl⟩, rfl⟩

theorem rest_of_mem_ifZeroRule {r m : Reach} (h : m ∈ ifZeroRule.pattern.ways r) :
    ∃ bs bs' bs'', (∀ c ∈ bs, isBlank c) ∧ (∀ c ∈ bs', isBlank c) ∧
      r.rest = bs ++ '#' :: (bs' ++ ("if".toList ++ (bs'' ++ '0' :: m.rest))) := by
  change m ∈ (seqs [lineStart, group 1 optBlanks,
    group 2 (seqs [char '#', optBlanks, lit "if", blanks, char '0']), boundary]).ways r at h
  simp only [mem_ways_seqs_cons, mem_ways_seqs_nil, mem_ways_group, lineStart, boundary,
    mem_ways_edge, mem_ways_optBlanks, mem_ways_char, mem_ways_lit, blanks, mem_ways_plus_one] at h
  obtain ⟨_, ⟨-, rfl⟩, x, ⟨y, ⟨bs, hbs, hy⟩, rfl⟩, z, ⟨w, ⟨a, ha, b, ⟨bs', hbs', hb⟩, c, hc, d,
    ⟨bs'', -, -, hd⟩, e, he, rfl⟩, rfl⟩, _, ⟨-, rfl⟩, rfl⟩ := h
  refine ⟨bs, bs', bs'', hbs, hbs', ?_⟩
  have hrest : y.rest = ['#'] ++ a.rest := ha.rest_eq
  rw [hy.rest_eq, hrest, hb.rest_eq, hc.rest_eq, hd.rest_eq, he.rest_eq]
  rfl

namespace Line

variable {l : Line} {bs : List Char}

theorem exists_hash (h : l.role ≠ .plain) :
    ∃ bs ds, (∀ c ∈ bs, isBlank c) ∧ l.chars = bs ++ '#' :: ds := by
  cases hd : directive? l.chars with
  | none => exact absurd (by simp [role, directs, hd]) h
  | some ds =>
    obtain ⟨bs, bs', hl, hbs, -, -⟩ := directive?_eq_some.1 hd
    exact ⟨bs, bs' ++ ds, hbs, hl⟩

theorem role_of_hash (hbs : ∀ c ∈ bs, isBlank c) (h : l.chars = bs ++ ['#']) :
    l.role = .plain := by
  have hd : directive? l.chars = some [] :=
    directive?_eq_some.2 ⟨bs, [], by simp [h], hbs, by simp, by simp⟩
  rw [role, directs, directs, directs, hd]
  rfl

theorem role_of_if {bs' ds : List Char} (hbs : ∀ c ∈ bs, isBlank c) (hbs' : ∀ c ∈ bs', isBlank c)
    (h : l.chars = bs ++ '#' :: (bs' ++ ("if".toList ++ ds))) : l.role = .opens := by
  have hd : directive? l.chars = some ("if".toList ++ ds) :=
    directive?_eq_some.2 ⟨bs, bs', h, hbs, hbs', by simp [isBlank]⟩
  have hif : startsWith "if" ("if".toList ++ ds) := startsWith_iff.2 ⟨ds, rfl⟩
  rw [role, directs, hd, Option.any_some, if_pos hif]

end Line

namespace Scanner

variable {s : Scanner} {l : Line} {n : Nat} {cs : List Char} {r : Rule} {m : Reach}

/-- The match of a rule that stays in its line ends in the line. -/
theorem exists_match?_line (h : s.AtLine .root n (l.chars ++ '\n' :: cs)) (hstay : r.staysInLine)
    (hm : r.match? s.before s.rest = some m) (ht : l.chars.length ≤ m.taken) :
    ∃ m', r.match? none l.chars = some m' ∧ m'.rest = [] ∧ m.taken = l.chars.length := by
  have hframe := Rule.match?_within hstay none l.chars (.between cs)
  simp only [Frame.between, Option.none_or] at hframe
  rw [h.before_eq, h.rest_eq, hframe, Option.map_eq_some_iff] at hm
  obtain ⟨m', hm', rfl⟩ := hm
  have hadd := (r.leads_of_match? hm').taken_add
  simp only [Reach.start, Nat.zero_add] at hadd
  rw [Reach.taken_within] at ht ⊢
  exact ⟨m', hm', List.length_eq_zero_iff.1 (by omega), by omega⟩

theorem exists_effect?_directiveRule {bs ds : List Char} (hbs : ∀ c ∈ bs, isBlank c)
    (hr : s.rest = bs ++ '#' :: ds) (hb : s.before = some '\n') :
    ∃ m, s.effect? directiveRule = some m := by
  have hedge : (Reach.start s.before s.rest).atEdge .lineStart := by
    rw [Reach.atEdge, Reach.start, hb]; rfl
  obtain ⟨x, hx⟩ := exists_mem_directiveRule (r := .start s.before s.rest) hbs hr hedge
  rw [← Option.ne_none_iff_exists', Ne, effect?_eq_none_iff rfl (by decide)
    (by decide) (by decide)]
  exact fun h => h x hx

/-- Outside of a block, only the first line of one is taken as a whole. -/
theorem ifZeroRule_of_select (h : s.AtLine .root n (l.chars ++ '\n' :: cs))
    (hsel : s.select Rules.engineCpp = some (r, m)) (hrole : l.role ≠ .plain)
    (ht : l.chars.length ≤ m.taken) :
    r = ifZeroRule ∧ m.taken = l.chars.length ∧ l.role = .opens := by
  obtain ⟨bs, ds, hbs, hl⟩ := Line.exists_hash hrole
  have hrules : Rules.engineCpp.rules s.stack.top =
      ifZeroRule :: directiveRule :: statements.tail.tail := by rw [h.stack_eq]; rfl
  have hmatch := match?_of_select hsel
  rw [select, hrules] at hsel
  cases he : s.effect? ifZeroRule with
  | some x =>
    rw [findSome?_of_effect? he] at hsel
    cases hsel
    obtain ⟨m', hm', hrest, htaken⟩ := exists_match?_line h (by decide) hmatch ht
    have hmem := mem_ways_of_rule hm' (by decide) (by decide)
    obtain ⟨bs, bs', bs'', hbs, hbs', hl⟩ := rest_of_mem_ifZeroRule hmem
    exact ⟨rfl, htaken, Line.role_of_if hbs hbs' hl⟩
  | none =>
    rw [findSome?_of_effect?_eq_none he] at hsel
    -- a directive begins here, but its rule takes no more than the `#`
    have hrest : s.rest = bs ++ '#' :: (ds ++ '\n' :: cs) := by rw [h.rest_eq, hl]; simp
    obtain ⟨x, hx⟩ := exists_effect?_directiveRule hbs hrest h.before_eq
    rw [findSome?_of_effect? hx] at hsel
    cases hsel
    obtain ⟨m', hm', hrest, -⟩ := exists_match?_line h (by decide) hmatch ht
    have hmem := mem_ways_of_rule hm' (by decide) (by decide)
    obtain ⟨bs, hbs, hl⟩ := rest_of_mem_directiveRule hmem
    rw [hrest] at hl
    exact absurd (Line.role_of_hash hbs hl) hrole

/-- Outside of a block, each rule takes some text and none of it as a skipped line. -/
theorem of_select_root (h : s.stack = .root) (hsel : s.select Rules.engineCpp = some (r, m)) :
    0 < m.taken ∧ .comment ∉ r.action.kinds := by
  have hrules : ∀ r ∈ Rules.engineCpp.rules 0, r.pattern.canBeEmpty = false ∧
      r.action ≠ .peek ∧ .comment ∉ r.action.kinds := by decide
  have hmem := (select_eq_some hsel).1
  rw [h] at hmem
  obtain ⟨hempty, hpeek, hkinds⟩ := hrules r hmem
  exact ⟨taken_lt_of_match? hempty (Rule.pattern_match? (match?_of_select hsel) hpeek), hkinds⟩

/-- Outside of a block, a token that is neither plain text nor a stray character is the first
one of a match, and no skipped line. -/
theorem exists_select_root (h : s.stack = .root) (hr : s.rest ≠ []) {w : Token}
    {ts us : List Token} (ht : (s.step Rules.engineCpp).tokens ++ us = s.tokens ++ w :: ts)
    (htext : w.kind ≠ .text) (hstray : w.kind ≠ .genericOutput) :
    ∃ r m ws, s.select Rules.engineCpp = some (r, m) ∧ 0 < m.taken ∧
      cut s.location s.rest (r.action.pieces m) = w :: ws ∧ w.kind ≠ .comment := by
  generalize s.step Rules.engineCpp = s', steps Rules.engineCpp hr = hstep at ht
  cases hstep with
  | skip hc _ =>
    rw [tokens_giveUp hc, List.append_assoc, List.append_cancel_left_eq] at ht
    have hkind := congrArg Token.kind (List.cons.inj ht).1
    simp only at hkind
    split_ifs at hkind
    · exact absurd hkind.symm htext
    · exact absurd hkind.symm hstray
  | look hsel hzero _ => exact absurd (of_select_root h hsel).1 (by omega)
  | @take r m hsel hpos =>
    change (s.apply r m).tokens ++ us = _ at ht
    rw [tokens_apply, List.append_assoc, List.append_cancel_left_eq] at ht
    have hjoined := joined_cut s.location s.rest (r.action.pieces m)
    rw [r.width_pieces (match?_of_select hsel)] at hjoined
    cases hcut : cut s.location s.rest (r.action.pieces m) with
    | nil =>
      rw [hcut, Token.joined_nil, eq_comm, List.take_eq_nil_iff] at hjoined
      exact absurd hjoined (by simp [hr, Nat.ne_of_gt hpos])
    | cons w' ws =>
      rw [hcut] at ht
      obtain ⟨rfl, -⟩ := List.cons.inj ht
      refine ⟨r, m, ws, hsel, hpos, hcut, fun hcomment => ?_⟩
      have hmem := (r.action.kind_of_mem_tokens (hcut ▸ List.mem_cons_self)).resolve_left htext
      rw [hcomment] at hmem
      exact (of_select_root h hsel).2 hmem

/-- If outside of a block the next token is a whole line, as in a block, then the line is the
first one of a block. -/
theorem takesLine_step_root (h : s.AtLine .root n (l.chars ++ '\n' :: cs)) {ts us : List Token}
    (ht : (s.step Rules.engineCpp).tokens ++ us =
      s.tokens ++ ⟨⟨n, 0⟩, l.role.kind, String.ofList l.chars⟩ :: ts) :
    l.role = .opens ∧ TakesLine l 1 n cs s (s.step Rules.engineCpp) := by
  have hr : s.rest ≠ [] := by rw [h.rest_eq]; simp
  obtain ⟨r, m, ws, hsel, hpos, hcut, hcomment⟩ := exists_select_root h.stack_eq hr ht
    l.role.kind_ne.1 l.role.kind_ne.2
  have hwidth := r.width_pieces (match?_of_select hsel)
  have hjoined := joined_cut s.location s.rest (r.action.pieces m)
  have htexts := text_ne_of_mem_cut (l := s.location) (r.action.pos_of_mem_pieces m)
    (hwidth.trans_le (taken_le_of_select hsel))
  rw [hcut, hwidth] at hjoined
  have hlen : l.chars.length ≤ m.taken := by
    have hlength := congrArg List.length hjoined
    rw [Token.joined_cons, String.toList_ofList, List.length_append, List.length_take] at hlength
    omega
  obtain ⟨rfl, htaken, hopens⟩ :=
    ifZeroRule_of_select h hsel (fun hp => hcomment (by rw [hp]; rfl)) hlen
  have hws : ws = [] := by
    refine Token.eq_nil_of_joined_cons ?_ (hcut ▸ htexts)
    rw [hjoined, h.rest_eq, htaken, List.take_left, String.toList_ofList]
  exact ⟨hopens, takesLine_of_select h hsel hpos htaken (by rw [hcut, hws]) rfl⟩

/-- A line and its newline come out as in a block only where the stack is that of the count. -/
theorem exists_run_agreeing {d k : Nat} (h : s.AtLine (nested d) n (l.chars ++ '\n' :: cs))
    (hk : (s.run Rules.engineCpp k).rest = []) {us : List Token}
    (ht : (s.run Rules.engineCpp k).tokens = s.tokens ++ l.tokens n ++ us) :
    (d = 0 → l.role = .plain ∨ l.role = .opens) ∧
      ∃ j, AtLine (nested (l.role.count d)) (n + 1) cs (s.run Rules.engineCpp j) ∧
        (s.run Rules.engineCpp j).tokens = s.tokens ++ l.tokens n := by
  cases d with
  | succ d => exact ⟨fun h => absurd h (Nat.succ_ne_zero d), exists_run_line h⟩
  | zero =>
    by_cases hne : l.chars = []
    · exact ⟨fun _ => .inl (l.role_of_chars_eq_nil hne), 1, run_of_chars_eq_nil hne h⟩
    · have hr : s.rest ≠ [] := by rw [h.rest_eq]; simp
      have hstep : s.run Rules.engineCpp 1 = s.step Rules.engineCpp := run_succ hr 0
      obtain ⟨vs, hvs⟩ := exists_tokens_run Rules.engineCpp (s.step Rules.engineCpp) k
      rw [← hstep, run_run_eq hk, hstep, ht, Line.tokens, if_neg hne] at hvs
      rw [List.append_assoc, List.singleton_append, List.cons_append] at hvs
      obtain ⟨hopens, htakes⟩ := takesLine_step_root h hvs.symm
      refine ⟨fun _ => .inr hopens, 2, ?_⟩
      rw [hopens]
      exact run_of_takesLine hne hr htakes

/-- A scanner that has left a block too early never comes to agree with its lines. -/
theorem tokens_ne_of_left {ls : List Line} {x : Line} {c d k : Nat}
    (h : s.AtLine (nested c) n (unlines (ls ++ [x]) ++ cs))
    (hearly : EndsEarly c d ls)
    (hls : depthBehind Role.nest d ls = 1) (hx : x.role = .closes ∨ x.role = .branches)
    (hk : (s.run Rules.engineCpp k).rest = []) (us : List Token) :
    (s.run Rules.engineCpp k).tokens ≠ s.tokens ++ lineTokens n (ls ++ [x]) ++ us := by
  intro ht
  induction ls generalizing c d n s with
  | nil =>
    rw [depthBehind_nil] at hls
    have hc : c = 0 := by
      rcases hearly with hlt | ⟨-, l, hl, -⟩
      · omega
      · cases hl
    rw [List.nil_append, unlines_cons, List.append_assoc, List.cons_append] at h
    rw [List.nil_append, lineTokens, ← List.append_assoc, List.append_assoc] at ht
    obtain ⟨hrole, -⟩ := exists_run_agreeing h hk ht
    rcases hx with hx | hx
    · simp [hx, hc] at hrole
    · simp [hx, hc] at hrole
  | cons l ls ih =>
    rw [List.cons_append, unlines_cons, List.append_assoc, List.cons_append] at h
    rw [List.cons_append, lineTokens, ← List.append_assoc, List.append_assoc] at ht
    obtain ⟨-, j, hline, htokens⟩ := exists_run_agreeing h hk ht
    have hd : d ≠ 0 := fun h0 => by simp [h0] at hls
    obtain ⟨e, rfl⟩ := Nat.exists_eq_succ_of_ne_zero hd
    rw [depthBehind] at hls
    have hnest : l.role.nest (e + 1) ≠ 0 := fun h0 => by simp [h0] at hls
    refine ih hline (hearly.tail hnest) hls ((run_run_eq hk j).symm ▸ hk) ?_
    rw [run_run_eq hk, ht, htokens, List.append_assoc _ _ us]

end Scanner

/-- A skipped block is scanned apart up to the line that ends it in the count of the scanner.
This is the line that closes it, so that all of the block is scanned apart, exactly if no inner
block has another branch. -/
theorem skippedBlock_scansApart (b : SkippedBlock) (rest : String) :
    b.counted ++ b.left = b.lines ∧
    Rules.engineCpp.ScansApart (ifZero :: b.counted) (String.ofList (unlines b.left) ++ rest) ∧
    (Rules.engineCpp.ScansApart (ifZero :: b.lines) rest ↔ ∀ l ∈ b.body, l.role ≠ .branches) := by
  refine ⟨b.counted_append_left, scansApart_block b.depthBehind_lines _, ?_, ?_⟩
  · rintro ⟨htokens, -⟩ l hl hr
    generalize hsource : String.ofList (unlines (ifZero :: b.lines)) ++ rest = source at htokens
    have htext : source.toList = ifZero.chars ++ '\n' :: (unlines b.lines ++ rest.toList) := by
      simp [← hsource, String.toList_append]
    have hend := Scanner.rest_scan Rules.engineCpp source
    obtain ⟨hline, hfirst⟩ := Scanner.run_ifZero (unlines b.lines ++ rest.toList)
    rw [← htext] at hline hfirst
    have hscan : ((Scanner.start source.toList).run Rules.engineCpp 2).run Rules.engineCpp
        ((idleLimit + 1) * source.toList.length) = Rules.engineCpp.scan source :=
      Scanner.run_run_eq hend 2
    refine Scanner.tokens_ne_of_left hline (.inr ⟨rfl, l, hl, hr⟩) b.depth_body b.close_ends
      (by rw [hscan]; exact hend) ?_ ?_
    · exact (Rules.engineCpp.scan rest).tokens.map (·.down (ifZero :: b.lines).length)
    · rw [hscan, hfirst, htokens]
      rfl
  · intro h
    have hblock := scansApart_block b.depthBehind_lines rest
    rwa [show blockLines Role.count 1 b.lines = b.lines from b.counted_eq_lines h] at hblock

/-- A block with a declaration behind another branch of an inner block. -/
def blockWithElse : SkippedBlock where
  body := [⟨"#if A".toList, by decide⟩, ⟨"#else".toList, by decide⟩, ⟨"#endif".toList, by decide⟩,
    ⟨"int x;".toList, by decide⟩]
  close := ⟨"#endif".toList, by decide⟩
  depth_body := by decide +kernel
  close_ends := .inl (by decide +kernel)

/-- The declaration comes out as live code, though it stands in the body of the block. -/
theorem blockWithElse_live :
    String.ofList (unlines (ifZero :: blockWithElse.lines)) ++ "int y;" =
      "#if 0\n#if A\n#else\n#endif\nint x;\n#endif\nint y;" ∧
    ⟨⟨4, 0⟩, .keywordType, "int"⟩ ∈ (Rules.engineCpp.scan
      "#if 0\n#if A\n#else\n#endif\nint x;\n#endif\nint y;").tokens := by
  decide +kernel

end Highlighter
