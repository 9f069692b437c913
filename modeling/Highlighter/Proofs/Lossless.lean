import Highlighter.Proofs.Steps

/-! The tokens of a scan cover its text. A match is divided into pieces of one character
or more that add up to what is taken, whatever its groups are. Proved: after each step
the tokens and the text still ahead make up the whole text, and no token is empty. -/

namespace Highlighter

/-! ### Pieces -/

def width : List Piece → Nat
  | [] => 0
  | p :: ps => p.2 + width ps

@[simp] theorem width_nil : width [] = 0 := rfl

@[simp] theorem width_cons (p : Piece) (ps : List Piece) : width (p :: ps) = p.2 + width ps := rfl

@[simp] theorem width_append (ps qs : List Piece) : width (ps ++ qs) = width ps + width qs := by
  induction ps with
  | nil => simp
  | cons p ps ih => rw [List.cons_append, width_cons, width_cons, ih, Nat.add_assoc]

@[simp] theorem width_piece (kind : Category) (n : Nat) : width (piece kind n) = n := by
  unfold piece
  split_ifs with h
  · exact h.symm
  · rfl

theorem pos_of_mem_piece {kind : Category} {n : Nat} : ∀ p ∈ piece kind n, 0 < p.2 := by
  unfold piece
  split_ifs with h
  · simp
  · simpa using Nat.pos_of_ne_zero h

/-- The pieces of a match reach from where they begin to the end of the match. -/
theorem width_groupPieces {m : Reach} (hm : m.Holds) (i : Nat) {at' : Nat} (h : at' ≤ m.taken)
    (kinds : List Category) : width (groupPieces m i at' kinds) = m.taken - at' := by
  induction kinds generalizing i at' with
  | nil => simp [groupPieces]
  | cons kind kinds ih =>
    rw [groupPieces]
    cases hg : m.span? i with
    | none => exact ih _ h
    | some g =>
      have hspan := hm g (Reach.mem_of_span? hg)
      simp only
      split_ifs with hc
      · exact ih _ h
      · simp only [Bool.or_eq_true, decide_eq_true_eq, not_or, Nat.not_lt] at hc
        rw [width_append, width_append, width_piece, width_piece, ih _ hspan.2]
        omega

theorem pos_of_mem_groupPieces (m : Reach) (i at' : Nat) (kinds : List Category) :
    ∀ p ∈ groupPieces m i at' kinds, 0 < p.2 := by
  induction kinds generalizing i at' with
  | nil => exact pos_of_mem_piece
  | cons kind kinds ih =>
    rw [groupPieces]
    cases m.span? i with
    | none => exact ih _ _
    | some g =>
      simp only
      split_ifs
      · exact ih _ _
      · intro p hp
        simp only [List.mem_append] at hp
        rcases hp with (hp | hp) | hp
        · exact pos_of_mem_piece p hp
        · exact pos_of_mem_piece p hp
        · exact ih _ _ p hp

theorem Action.pos_of_mem_pieces (a : Action) (m : Reach) : ∀ p ∈ a.pieces m, 0 < p.2 := by
  cases a with
  | emit kind => exact pos_of_mem_piece
  | groups kinds => exact pos_of_mem_groupPieces m 1 0 kinds
  | peek => simp [pieces]

namespace Action

def kinds : Action → List Category
  | emit kind => [kind]
  | groups kinds => kinds
  | peek => []

end Action

theorem kind_of_mem_piece {kind : Category} {n : Nat} : ∀ p ∈ piece kind n, p.1 = kind := by
  unfold piece
  split_ifs <;> simp

theorem kind_of_mem_groupPieces (m : Reach) (i at' : Nat) (kinds : List Category) :
    ∀ p ∈ groupPieces m i at' kinds, p.1 = .text ∨ p.1 ∈ kinds := by
  induction kinds generalizing i at' with
  | nil => exact fun p hp => .inl (kind_of_mem_piece p hp)
  | cons kind kinds ih =>
    have hmore (i at' : Nat) : ∀ p ∈ groupPieces m i at' kinds, p.1 = .text ∨ p.1 ∈ kind :: kinds :=
      fun p hp => (ih i at' p hp).imp id (List.mem_cons_of_mem _)
    rw [groupPieces]
    cases m.span? i with
    | none => exact hmore _ _
    | some g =>
      simp only
      split_ifs
      · exact hmore _ _
      · intro p hp
        simp only [List.mem_append] at hp
        rcases hp with (hp | hp) | hp
        · exact .inl (kind_of_mem_piece p hp)
        · exact .inr (kind_of_mem_piece p hp ▸ List.mem_cons_self)
        · exact hmore _ _ p hp

theorem Action.kind_of_mem_pieces (a : Action) (m : Reach) :
    ∀ p ∈ a.pieces m, p.1 = .text ∨ p.1 ∈ a.kinds := by
  cases a with
  | emit kind => exact fun p hp => .inr (by simp [kinds, kind_of_mem_piece p hp])
  | groups kinds => exact kind_of_mem_groupPieces m 1 0 kinds
  | peek => simp [pieces]

/-- The pieces of a match add up to what it takes. -/
theorem Rule.width_pieces {r : Rule} {before : Option Char} {rest : List Char} {m : Reach}
    (h : r.match? before rest = some m) : width (r.action.pieces m) = m.taken := by
  cases ha : r.action with
  | emit kind => exact width_piece kind m.taken
  | groups kinds =>
    exact width_groupPieces ((r.leads_of_match? h).holds (Reach.holds_start _ _)) 1
      (Nat.zero_le _) kinds
  | peek => exact (r.taken_of_peek h ha).symm

/-! ### Tokens of pieces -/

namespace Token

@[simp] theorem joined_nil : joined [] = [] := rfl

@[simp] theorem joined_cons (t : Token) (ts : List Token) :
    joined (t :: ts) = t.text.toList ++ joined ts := rfl

@[simp] theorem joined_append (ts us : List Token) : joined (ts ++ us) = joined ts ++ joined us :=
  List.flatMap_append

/-- Tokens cover the same text if their texts are the same. -/
theorem joined_congr {ts us : List Token} (h : ts.map (·.text) = us.map (·.text)) :
    joined ts = joined us := by
  have hjoined (ts : List Token) : joined ts = (ts.map (·.text)).flatMap String.toList := by
    rw [joined, List.flatMap_map]
  rw [hjoined, h, ← hjoined]

end Token

theorem joined_cut (l : Location) (cs : List Char) (ps : List Piece) :
    Token.joined (cut l cs ps) = cs.take (width ps) := by
  induction ps generalizing l cs with
  | nil => simp [cut]
  | cons p ps ih =>
    obtain ⟨kind, n⟩ := p
    rw [cut, Token.joined_cons, ih, String.toList_ofList, width_cons, List.take_add]

theorem text_ne_of_mem_cut {l : Location} {cs : List Char} {ps : List Piece}
    (hpos : ∀ p ∈ ps, 0 < p.2) (hw : width ps ≤ cs.length) : ∀ t ∈ cut l cs ps, t.text ≠ "" := by
  induction ps generalizing l cs with
  | nil => simp [cut]
  | cons p ps ih =>
    obtain ⟨kind, n⟩ := p
    rw [width_cons] at hw
    have hn : 0 < n := hpos _ List.mem_cons_self
    rw [cut, List.forall_mem_cons]
    constructor
    · rw [Ne, String.ofList_eq_empty_iff, List.take_eq_nil_iff]
      rintro (h | rfl)
      · omega
      · simp only [List.length_nil] at hw; omega
    · exact ih (fun p hp => hpos p (List.mem_cons_of_mem _ hp)) (by rw [List.length_drop]; omega)

theorem kind_of_mem_cut {l : Location} {cs : List Char} {ps : List Piece} :
    ∀ t ∈ cut l cs ps, ∃ p ∈ ps, t.kind = p.1 := by
  induction ps generalizing l cs with
  | nil => simp [cut]
  | cons p ps ih =>
    obtain ⟨kind, n⟩ := p
    rw [cut, List.forall_mem_cons]
    refine ⟨⟨_, List.mem_cons_self, rfl⟩, fun t ht => ?_⟩
    obtain ⟨p, hp, h⟩ := ih t ht
    exact ⟨p, List.mem_cons_of_mem _ hp, h⟩

theorem Action.kind_of_mem_tokens (a : Action) {l : Location} {cs : List Char} {m : Reach}
    {t : Token} (ht : t ∈ cut l cs (a.pieces m)) :
    t.kind = .text ∨ t.kind ∈ a.kinds := by
  obtain ⟨p, hp, hk⟩ := kind_of_mem_cut t ht
  rw [hk]
  exact a.kind_of_mem_pieces m p hp

/-- Behind a token that is the whole text there is no other one. -/
theorem Token.eq_nil_of_joined_cons {t : Token} {ts : List Token}
    (h : joined (t :: ts) = t.text.toList) (hne : ∀ u ∈ t :: ts, u.text ≠ "") : ts = [] := by
  rw [joined_cons] at h
  have hts : joined ts = [] := List.append_cancel_left (h.trans (List.append_nil _).symm)
  cases ts with
  | nil => rfl
  | cons u ts =>
    rw [joined_cons, List.append_eq_nil_iff, String.toList_eq_nil_iff] at hts
    exact absurd hts.1 (hne u (by simp))

/-! ### Tokens of a scan -/

namespace Scanner

variable {rs : RuleSet} {s : Scanner}

theorem tokens_happen (s : Scanner) (events : List Event) :
    (s.happen events).tokens = s.tokens ++ events.filterMap Event.token? := by
  simp [tokens, Scanner.events, happen]

theorem token?_of_mem_events (mv : Move) (st : Stack) : ∀ e ∈ mv.events st, e.token? = none := by
  cases mv with
  | stay => simp [Move.events]
  | push state => simp [Move.events, Event.token?]
  | pop count => simp [Move.events, Event.token?]

theorem tokens_apply (s : Scanner) (r : Rule) (m : Reach) :
    (s.apply r m).tokens = s.tokens ++ cut s.location s.rest (r.action.pieces m) := by
  have hcut (ts : List Token) : (ts.map Event.token).filterMap Event.token? = ts := by
    rw [List.filterMap_map]
    exact List.filterMap_some
  have hmove : (r.move.events s.stack).filterMap Event.token? = [] :=
    List.filterMap_eq_nil_iff.2 (token?_of_mem_events _ _)
  change ((s.advance m.taken).happen _).tokens = _
  rw [tokens_happen, List.filterMap_append, hcut, hmove, List.append_nil]
  rfl

theorem tokens_giveUp {c : Char} {cs : List Char} (h : s.rest = c :: cs) :
    s.giveUp.tokens = s.tokens ++
      [⟨s.location, if c = '\n' then .text else .genericOutput, String.ofList [c]⟩] := by
  rw [giveUp, h]
  change ((s.advance 1).happen _).tokens = _
  rw [tokens_happen]
  rfl

theorem exists_tokens_run (rs : RuleSet) (s : Scanner) (n : Nat) :
    ∃ ts, (s.run rs n).tokens = s.tokens ++ ts := by
  refine run_induction (P := fun s' => ∃ ts, s'.tokens = s.tokens ++ ts) ?_ ⟨[], by simp⟩ n
  rintro s' hr ⟨ts, hts⟩
  generalize s'.step rs = s'', steps rs hr = hstep
  cases hstep with
  | @take r m _ _ | @look r m _ _ _ =>
    refine ⟨ts ++ cut s'.location s'.rest (r.action.pieces m), (tokens_apply s' r m).trans ?_⟩
    rw [hts, List.append_assoc]
  | skip hc _ => exact ⟨_, by rw [tokens_giveUp hc, hts, List.append_assoc]⟩

structure Covers (source : List Char) (s : Scanner) : Prop where
  joined_append : Token.joined s.tokens ++ s.rest = source
  text_ne : ∀ t ∈ s.tokens, t.text ≠ ""

namespace Covers

variable {source : List Char}

theorem apply (h : s.Covers source) {r : Rule} {m : Reach} (hs : s.select rs = some (r, m)) :
    (s.apply r m).Covers source := by
  have hwidth := r.width_pieces (match?_of_select hs)
  constructor
  · rw [tokens_apply, rest_apply, Token.joined_append, joined_cut, hwidth, List.append_assoc,
      List.take_append_drop, h.joined_append]
  · have hle : width (r.action.pieces m) ≤ s.rest.length := by
      rw [hwidth]
      exact taken_le_of_select hs
    rw [tokens_apply]
    exact List.forall_mem_append.2
      ⟨h.text_ne, text_ne_of_mem_cut (r.action.pos_of_mem_pieces m) hle⟩

theorem giveUp (h : s.Covers source) {c : Char} {cs : List Char} (hr : s.rest = c :: cs) :
    s.giveUp.Covers source := by
  constructor
  · rw [tokens_giveUp hr, rest_giveUp hr, ← h.joined_append, hr]
    simp
  · rw [tokens_giveUp hr]
    refine List.forall_mem_append.2 ⟨h.text_ne, ?_⟩
    simp

theorem step (h : s.Covers source) (hr : s.rest ≠ []) : (s.step rs).Covers source := by
  generalize s.step rs = s', steps rs hr = hstep
  cases hstep with
  | take hs _ => exact ⟨(h.apply hs).joined_append, (h.apply hs).text_ne⟩
  | look hs _ _ => exact ⟨(h.apply hs).joined_append, (h.apply hs).text_ne⟩
  | skip hc _ => exact h.giveUp hc

theorem run (h : s.Covers source) (n : Nat) : (s.run rs n).Covers source :=
  run_induction (fun _ hr h => h.step hr) h n

theorem start (source : List Char) : (Scanner.start source).Covers source :=
  ⟨rfl, by simp [Scanner.start, tokens, Scanner.events]⟩

end Covers

end Scanner

/-- A scan cuts its text into tokens, whatever its rules are: none of them is empty, and
together they are the text. -/
theorem RuleSet.scan_lossless (rs : RuleSet) (source : String) :
    (∀ t ∈ (rs.scan source).tokens, t.text ≠ "") ∧
      Token.joined (rs.scan source).tokens = source.toList := by
  have h : (rs.scan source).Covers source.toList := (Scanner.Covers.start source.toList).run _
  refine ⟨h.text_ne, ?_⟩
  rw [← h.joined_append, Scanner.rest_scan, List.append_nil]

end Highlighter
