import Highlighter.Proofs.InLine
import Highlighter.Proofs.Lossless
import Highlighter.Rules.CommandLine

/-! Scanners over a line within a longer text. Where the line begins, what is behind it and
what has happened before do not matter to a rule that stays in its line. Proved: such a rule
has the same match there, and its tokens are the same, further down; if this holds of all
rules of a state, the scanner takes the step there that it takes over the line alone. -/

namespace Highlighter

/-! ### Further down in a text -/

namespace Location

def down (l : Location) (n : Nat) : Location := { l with line := l.line + n }

theorem next_down (l : Location) (n : Nat) (c : Char) : (l.down n).next c = (l.next c).down n := by
  unfold next
  split_ifs
  · simp only [down, Nat.add_right_comm]
  · rfl

theorem after_down (l : Location) (n : Nat) (cs : List Char) :
    (l.down n).after cs = (l.after cs).down n := by
  induction cs generalizing l with
  | nil => rfl
  | cons c cs ih => rw [after_cons, next_down, ih, after_cons]

theorem line_after (l : Location) (cs : List Char) :
    (l.after cs).line = l.line + cs.count '\n' := by
  induction cs generalizing l with
  | nil => rfl
  | cons c cs ih =>
    rw [after_cons, ih, List.count_cons]
    unfold next
    split_ifs with h h' <;> simp_all
    omega

theorem after_of_not_mem (l : Location) {cs : List Char} (h : '\n' ∉ cs) :
    l.after cs = ⟨l.line, l.column + cs.length⟩ := by
  induction cs generalizing l with
  | nil => rfl
  | cons c cs ih =>
    rw [List.mem_cons, not_or] at h
    rw [after_cons, next, if_neg (Ne.symm h.1), ih _ h.2, List.length_cons]
    simp only [Nat.add_comm, Nat.add_left_comm]

end Location

namespace Token

def down (t : Token) (n : Nat) : Token := { t with location := t.location.down n }

@[simp] theorem down_zero (t : Token) : t.down 0 = t := rfl

end Token

theorem cut_down (l : Location) (n : Nat) (cs : List Char) (ps : List Piece) :
    cut (l.down n) cs ps = (cut l cs ps).map (·.down n) := by
  induction ps generalizing l cs with
  | nil => rfl
  | cons p ps ih =>
    obtain ⟨kind, k⟩ := p
    rw [cut, cut, Location.after_down, ih]
    rfl

/-- Pieces that fit into a text do not look behind it. -/
theorem cut_append (l : Location) {cs : List Char} (ds : List Char) {ps : List Piece}
    (h : width ps ≤ cs.length) : cut l (cs ++ ds) ps = cut l cs ps := by
  induction ps generalizing l cs with
  | nil => rfl
  | cons p ps ih =>
    obtain ⟨kind, k⟩ := p
    rw [width_cons] at h
    have hk : k ≤ cs.length := by simp only at h; omega
    rw [cut, cut, List.take_append_of_le_length hk, List.drop_append_of_le_length hk,
      ih _ (by rw [List.length_drop]; simp only at h; omega)]

namespace Event

def down (n : Nat) : Event → Event
  | token t => token (t.down n)
  | e => e

theorem token?_down (e : Event) (n : Nat) : (e.down n).token? = e.token?.map (·.down n) := by
  cases e <;> rfl

end Event

/-! ### Rules in a line -/

namespace Pattern

/-- A pattern that is only looked for, and found in every frame or in none. -/
def Looks (g : Pattern) : Prop :=
  ∀ r f, (g.match? (r.within f)).isSome = (g.match? r).isSome

theorem looks_of_staysInLine {g : Pattern} (h : g.staysInLine) : g.Looks := by
  intro r f
  rw [match?_within h r f, Option.isSome_map]

/-- What may follow a compiler driver: the end of the text, or one of some characters. -/
theorem isSome_driverEnd (r : Reach) : (Rules.driverEnd.match? r).isSome =
    r.rest.head?.all fun c => Text.isSpace c || c == '-' || c == '\n' := by
  rw [match?_eq_head? rfl]
  obtain ⟨before, rest, taken, spans⟩ := r
  cases rest with
  | nil => rfl
  | cons c cs =>
    simp only [Rules.driverEnd, alts, ways, Reach.take?, char, lineEnd, Reach.atEdge, Edge.holds,
      CharSet.has_char, CharSet.has, List.head?_cons, Option.all_some]
    by_cases hs : Text.isSpace c <;> by_cases hd : c == '-' <;> by_cases hn : c == '\n' <;>
      simp [hs, hd, hn]

/-- The newline belongs to white space, so the end of a line may follow as well. -/
theorem looks_driverEnd : Looks Rules.driverEnd := by
  intro r f
  rw [isSome_driverEnd, isSome_driverEnd, Reach.within, List.head?_append]
  cases r.rest.head? with
  | some c => rfl
  | none =>
    have hf := f.ahead_newline
    cases hc : f.ahead.head? with
    | none => rfl
    | some c =>
      rw [hc] at hf
      have hn : c = '\n' := by simpa using hf
      simp [hn]

theorem match?_one (s : CharSet) (r : Reach) : (one s).match? r = r.take? s := by
  unfold match? run
  cases r.take? s <;> rfl

end Pattern

namespace Rule

def isNewline (r : Rule) : Bool :=
  r.pattern = .char '\n' && r.guard = none && r.action = .emit .text

/-- Whether neither the pattern nor what has to follow it goes beyond the line. -/
def staysInLine (r : Rule) : Bool :=
  r.pattern.staysInLine && r.guard.all fun g => g.staysInLine || g = Rules.driverEnd

/-- Whether the frame is to the rule what the ends of the text are. -/
def staysWithin (f : Frame) (r : Rule) : Bool :=
  r.pattern.staysWithin f && r.guard.all (·.staysWithin f)

theorem match?_within_of_guard {r : Rule} {f : Frame} (hp : r.pattern.staysWithin f)
    (hg : ∀ g, r.guard = some g → ∀ m : Reach, (g.match? (m.within f)).isSome = (g.match? m).isSome)
    (before : Option Char) (rest : List Char) :
    r.match? (before.or f.behind) (rest ++ f.ahead) = (r.match? before rest).map (·.within f) := by
  have hlook (m : Reach) : (r.guard.all fun g => (g.match? (m.within f).restart).isSome) =
      r.guard.all fun g => (g.match? m.restart).isSome := by
    cases h : r.guard with
    | none => rfl
    | some g => exact hg g h m.restart
  have hstart : Reach.start (before.or f.behind) (rest ++ f.ahead) =
      (Reach.start before rest).within f := rfl
  unfold match?
  rw [hstart, Pattern.match?_within_of_staysWithin hp]
  cases r.pattern.match? (.start before rest) with
  | none => rfl
  | some m =>
    simp only [Option.map_some, hlook]
    split_ifs <;> rfl

theorem match?_within {r : Rule} (h : r.staysInLine) (before : Option Char) (rest : List Char)
    (f : Frame) : r.match? (before.or f.behind) (rest ++ f.ahead) =
      (r.match? before rest).map (·.within f) := by
  simp only [staysInLine, Bool.and_eq_true] at h
  refine match?_within_of_guard (Pattern.staysWithin_of_staysInLine h.1 f) (fun g hg m => ?_)
    before rest
  have hgl : g.staysInLine ∨ g = Rules.driverEnd := by simpa [hg] using h.2
  rcases hgl with hgl | rfl
  · exact Pattern.looks_of_staysInLine hgl m f
  · exact Pattern.looks_driverEnd m f

theorem match?_within_of_staysWithin {r : Rule} {f : Frame} (h : r.staysWithin f)
    (before : Option Char) (rest : List Char) : r.match? (before.or f.behind) (rest ++ f.ahead) =
      (r.match? before rest).map (·.within f) := by
  simp only [staysWithin, Bool.and_eq_true] at h
  refine match?_within_of_guard h.1 (fun g hg m => ?_) before rest
  rw [Pattern.match?_within_of_staysWithin (by simpa [hg] using h.2), Option.isSome_map]

theorem match?_newline {r : Rule} (h : r.isNewline) (before : Option Char) (rest : List Char) :
    r.match? before rest = (Reach.start before rest).take? .newline := by
  simp only [isNewline, Bool.and_eq_true, decide_eq_true_eq] at h
  obtain ⟨⟨hp, hg⟩, ha⟩ := h
  rw [match?_of_guard_eq_none hg (by rw [ha]; simp), hp]
  exact Pattern.match?_one _ _

/-- A rule that is not empty does not match at the end of the text. -/
theorem match?_nil {r : Rule} (h : r.pattern.canBeEmpty = false) (before : Option Char) :
    r.match? before [] = none := by
  unfold match?
  cases hm : r.pattern.match? (.start before []) with
  | none => rfl
  | some m =>
    have hlt := Pattern.taken_lt_of_match? h hm
    have hadd := (Pattern.leads_of_match? hm).taken_add
    simp only [Reach.start, List.length_nil] at hlt hadd
    omega

/-- A rule that stays in its line and is not empty does not match at the end of the line. -/
theorem match?_newline_eq_none {r : Rule} (h : r.staysInLine) (he : r.pattern.canBeEmpty = false)
    (before : Option Char) (rest : List Char) : r.match? before ('\n' :: rest) = none := by
  have hframe := match?_within h before [] (.first rest)
  rw [match?_nil he, Option.map_none, show (Frame.first rest).behind = none from rfl,
    Option.or_none] at hframe
  exact hframe

end Rule

/-! ### Scanners in a line -/

namespace Scanner

/-- The same scanner, with the line in a frame, `n` lines further down and after what has
happened before. -/
def within (s : Scanner) (f : Frame) (n : Nat) (past : List Event) : Scanner :=
  { s with
    before := s.before.or f.behind
    rest := s.rest ++ f.ahead
    location := s.location.down n
    trail := s.trail.map (·.down n) ++ past }

theorem tokens_within (s : Scanner) (f : Frame) (n : Nat) (past : List Event) :
    (s.within f n past).tokens =
      past.reverse.filterMap Event.token? ++ s.tokens.map (·.down n) := by
  simp only [tokens, events, within, List.reverse_append, List.filterMap_append,
    ← List.map_reverse, List.filterMap_map, List.map_filterMap]
  congr 2
  funext e
  exact e.token?_down n

theorem pieces_within (a : Action) (m : Reach) (f : Frame) :
    a.pieces (m.within f) = a.pieces m := by
  have hgroups (i at' : Nat) (kinds : List Category) :
      groupPieces (m.within f) i at' kinds = groupPieces m i at' kinds := by
    induction kinds generalizing i at' with
    | nil => rfl
    | cons kind kinds ih =>
      simp only [groupPieces, ih, Reach.taken_within]
      rfl
  cases a with
  | emit | peek => rfl
  | groups kinds => exact hgroups 1 0 kinds

theorem advance_within (s : Scanner) (f : Frame) (n : Nat) (past : List Event) {k : Nat}
    (hk : k ≤ s.rest.length) : (s.within f n past).advance k = (s.advance k).within f n past := by
  simp only [advance, within, List.take_append_of_le_length hk, List.drop_append_of_le_length hk,
    Location.after_down, Option.or_assoc]

theorem happen_within (s : Scanner) (f : Frame) (n : Nat) (past : List Event)
    (es : List Event) :
    (s.within f n past).happen (es.map (·.down n)) = (s.happen es).within f n past := by
  simp only [happen, within, List.map_append, List.map_reverse, List.append_assoc]

theorem down_move_events (mv : Move) (st : Stack) (n : Nat) :
    (mv.events st).map (·.down n) = mv.events st := by
  cases mv with
  | stay | push => rfl
  | pop count => rw [Move.events, List.map_map]; rfl

theorem apply_within (s : Scanner) (f : Frame) (n : Nat) (past : List Event) {r : Rule}
    {m : Reach} (hm : m.taken ≤ s.rest.length) (hw : width (r.action.pieces m) = m.taken) :
    (s.within f n past).apply r (m.within f) = (s.apply r m).within f n past := by
  have hcut : cut (s.within f n past).location (s.within f n past).rest
      (r.action.pieces (m.within f)) =
        (cut s.location s.rest (r.action.pieces m)).map (·.down n) := by
    rw [pieces_within, within, cut_down, cut_append _ _ (by omega)]
  have hevents : ((cut s.location s.rest (r.action.pieces m)).map (·.down n)).map Event.token ++
      r.move.events s.stack = ((cut s.location s.rest (r.action.pieces m)).map Event.token ++
        r.move.events s.stack).map (·.down n) := by
    rw [List.map_append, down_move_events, List.map_map, List.map_map]
    rfl
  unfold apply
  rw [hcut]
  simp only [Reach.taken_within, advance_within s f n past hm]
  rw [show (s.within f n past).stack = s.stack from rfl, hevents, happen_within]
  rfl

theorem giveUp_within {s : Scanner} (hr : s.rest ≠ []) (f : Frame) (n : Nat)
    (past : List Event) : (s.within f n past).giveUp = s.giveUp.within f n past := by
  obtain ⟨c, cs, hc⟩ := List.exists_cons_of_ne_nil hr
  have hlen : 1 ≤ s.rest.length := by simp [hc]
  have hadv := advance_within s f n past hlen
  have hrest : (s.within f n past).rest = c :: (cs ++ f.ahead) := by simp [within, hc]
  unfold giveUp
  rw [hrest, hc]
  simp only [hadv]
  exact congrArg (fun s : Scanner => { s with idle := 0 }) (happen_within (s.advance 1) f n past
    [.stray s.stack.top c,
      .token ⟨s.location, if c = '\n' then .text else .genericOutput, String.ofList [c]⟩])

/-! ### Steps in a line -/

variable {rs : RuleSet} {s : Scanner} {f : Frame}

theorem findSome?_eq {α β : Type} {l : List α} {f g : α → Option β} (h : ∀ a ∈ l, f a = g a) :
    l.findSome? f = l.findSome? g := by
  induction l with
  | nil => rfl
  | cons a l ih =>
    obtain ⟨ha, hl⟩ := List.forall_mem_cons.1 h
    rw [List.findSome?_cons, List.findSome?_cons, ha, ih hl]

/-- The rules of the active state have the same matches with the line in the frame. -/
def FramedBy (rs : RuleSet) (f : Frame) (s : Scanner) : Prop :=
  ∀ r ∈ rs.rules s.stack.top,
    r.match? (s.before.or f.behind) (s.rest ++ f.ahead) =
      (r.match? s.before s.rest).map (·.within f)

theorem select_within (h : s.FramedBy rs f) (n : Nat) (past : List Event) :
    (s.within f n past).select rs = (s.select rs).map fun (r, m) => (r, m.within f) := by
  unfold select
  rw [List.map_findSome?]
  refine findSome?_eq fun r hmem => ?_
  have heffect : (s.within f n past).effect? r = (s.effect? r).map (·.within f) := by
    have hmatch : r.match? (s.within f n past).before (s.within f n past).rest =
        (r.match? s.before s.rest).map (·.within f) := h r hmem
    rw [effect?, hmatch, Option.filter_map]
    rfl
  rw [heffect, Function.comp_apply, Option.map_map, Option.map_map]
  rfl

/-- In front of some text, a scanner in a frame takes the step that it takes alone. -/
theorem step_within (h : s.FramedBy rs f) (hr : s.rest ≠ []) (n : Nat) (past : List Event) :
    (s.within f n past).step rs = (s.step rs).within f n past := by
  unfold step
  rw [select_within h]
  cases hsel : s.select rs with
  | none => exact giveUp_within hr f n past
  | some rm =>
    obtain ⟨r, m⟩ := rm
    have hle := taken_le_of_select hsel
    have hw := r.width_pieces (match?_of_select hsel)
    simp only [Option.map_some, Reach.taken_within, apply_within s f n past hle hw]
    split_ifs with ht hi hi
    · rfl
    · rfl
    · exact absurd ‹_› hi
    · exact absurd ‹_› hi
    · exact giveUp_within hr f n past

end Scanner

/-! ### The last line -/

namespace RuleSet

/-- Whether the frame is to all rules what the ends of the text are. -/
def staysWithin (f : Frame) (rs : RuleSet) : Bool :=
  rs.states.all fun st => st.rules.all (·.staysWithin f)

theorem framedBy_of_staysWithin {rs : RuleSet} {f : Frame} (h : rs.staysWithin f) (s : Scanner) :
    s.FramedBy rs f := by
  intro r hr
  refine r.match?_within_of_staysWithin ?_ s.before s.rest
  obtain ⟨st, hst, hmem⟩ := exists_state_of_mem_rules hr
  simp only [staysWithin, List.all_eq_true] at h
  exact h st (List.mem_of_getElem? hst) r hmem

end RuleSet

namespace Scanner

/-- What is behind a line does not matter to a run from its start to the end of the text. -/
theorem run_within_last {rs : RuleSet} (h : rs.staysWithin .last) (s : Scanner) (n : Nat)
    (past : List Event) (k : Nat) :
    (s.within .last n past).run rs k = (s.run rs k).within .last n past := by
  induction k generalizing s with
  | zero => rfl
  | succ k ih =>
    by_cases hr : s.rest = []
    · have hr' : (s.within .last n past).rest = [] := by simp [within, Frame.last, hr]
      rw [run_of_rest_eq_nil hr, run_of_rest_eq_nil hr']
    · have hr' : (s.within .last n past).rest ≠ [] := by simp [within, Frame.last, hr]
      rw [run_succ hr, run_succ hr', step_within (RuleSet.framedBy_of_staysWithin h s) hr, ih]

end Scanner

end Highlighter
