import Highlighter.Rule
import Highlighter.Scan.Stack

/-! The scanner: it applies the first rule of the active state that matches, over
and over, until the text is used up. Text that no rule takes comes out character
by character. -/

namespace Highlighter

/-! ### Rules at a place -/

/-- The match of a rule between `before` and `rest`. The guard is tried at the end
of the preferred match only, and a peek takes nothing. -/
def Rule.match? (r : Rule) (before : Option Char) (rest : List Char) : Option Reach :=
  match r.pattern.match? (.start before rest) with
  | none => none
  | some m =>
    if r.guard.all fun g => (g.match? m.restart).isSome then
      some (if r.action = .peek then .start before rest else m)
    else none

/-- Whether a move has an effect on the stack. -/
def Move.changes (m : Move) (s : Stack) : Bool :=
  match m with
  | .stay => false
  | .push _ => true
  | .pop count => 0 < count && !s.below.isEmpty

def Move.apply (m : Move) (s : Stack) : Stack :=
  match m with
  | .stay => s
  | .push state => s.push state
  | .pop count => s.pop count

/-! ### Tokens of a match -/

/-- A category and the number of characters that it covers. -/
abbrev Piece := Category × Nat

/-- A piece of no characters is left out. -/
def piece (kind : Category) (n : Nat) : List Piece := if n = 0 then [] else [(kind, n)]

/-- The pieces from `at'` to `stop`, for the groups that are numbered from `i` on.
A group without text, or one that begins before `at'`, is passed over; what no
group covers is plain text. -/
def groupPieces (m : Reach) : Nat → Nat → List Category → List Piece
  | _, at', [] => piece .text (m.taken - at')
  | i, at', kind :: kinds =>
    match m.span? i with
    | none => groupPieces m (i + 1) at' kinds
    | some g =>
      if g.start < at' || m.taken < g.stop then groupPieces m (i + 1) at' kinds
      else piece .text (g.start - at') ++ piece kind (g.stop - g.start) ++
        groupPieces m (i + 1) g.stop kinds

/-- How an action divides the text of a match. -/
def Action.pieces (a : Action) (m : Reach) : List Piece :=
  match a with
  | .emit kind => piece kind m.taken
  | .groups kinds => groupPieces m 1 0 kinds
  | .peek => []

/-- The tokens of consecutive pieces of a text. -/
def cut : Location → List Char → List Piece → List Token
  | _, _, [] => []
  | l, cs, (kind, n) :: ps =>
    ⟨l, kind, String.ofList (cs.take n)⟩ :: cut (l.after (cs.take n)) (cs.drop n) ps

/-! ### Steps -/

/-- What a scanner does, as far as an observer can see. -/
inductive Event where
  | token (t : Token)
  | enter (state : Nat)
  | leave (state : Nat)
  /-- No rule of the state takes the character. -/
  | stray (state : Nat) (c : Char)
  deriving DecidableEq, Repr

def Event.token? : Event → Option Token
  | token t => some t
  | _ => none

/-- Entering or leaving states. -/
def Move.events (m : Move) (s : Stack) : List Event :=
  match m with
  | .stay => []
  | .push state => [.enter state]
  | .pop count => (s.popped count).map .leave

structure Scanner where
  stack : Stack
  /-- The character just behind. -/
  before : Option Char
  /-- The text still ahead. -/
  rest : List Char
  location : Location
  /-- The number of steps since the last one that took text. -/
  idle : Nat
  /-- What has happened, the latest first. -/
  trail : List Event
  deriving DecidableEq, Repr

/-- The number of steps in a row that may take no text. -/
def idleLimit : Nat := 64

namespace Scanner

def start (source : List Char) : Scanner := ⟨.root, none, source, .start, 0, []⟩

/-- Takes `n` characters. -/
def advance (s : Scanner) (n : Nat) : Scanner :=
  { s with
    before := (s.rest.take n).getLast?.or s.before
    rest := s.rest.drop n
    location := s.location.after (s.rest.take n) }

def happen (s : Scanner) (events : List Event) : Scanner :=
  { s with trail := events.reverse ++ s.trail }

/-- The match of a rule, if it takes some text or changes the stack. -/
def effect? (s : Scanner) (r : Rule) : Option Reach :=
  (r.match? s.before s.rest).filter fun m => 0 < m.taken || r.move.changes s.stack

/-- The first rule of the active state that matches and has an effect. -/
def select (rs : RuleSet) (s : Scanner) : Option (Rule × Reach) :=
  (rs.rules s.stack.top).findSome? fun r => (s.effect? r).map (r, ·)

/-- Applies a rule to its match. -/
def apply (s : Scanner) (r : Rule) (m : Reach) : Scanner :=
  let tokens := cut s.location s.rest (r.action.pieces m)
  { (s.advance m.taken).happen (tokens.map .token ++ r.move.events s.stack) with
    stack := r.move.apply s.stack }

/-- Takes one character that no rule takes. -/
def giveUp (s : Scanner) : Scanner :=
  match s.rest with
  | [] => s
  | c :: _ =>
    let kind := if c = '\n' then .text else .genericOutput
    { (s.advance 1).happen [.stray s.stack.top c, .token ⟨s.location, kind, String.ofList [c]⟩] with
      idle := 0 }

def step (rs : RuleSet) (s : Scanner) : Scanner :=
  match s.select rs with
  | none => s.giveUp
  | some (r, m) =>
    if 0 < m.taken then { s.apply r m with idle := 0 }
    else if s.idle < idleLimit then { s.apply r m with idle := s.idle + 1 }
    else s.giveUp

/-- At most `n` steps, up to the end of the text. -/
def run (rs : RuleSet) : Nat → Scanner → Scanner
  | 0, s => s
  | n + 1, s => if s.rest.isEmpty then s else run rs n (s.step rs)

def events (s : Scanner) : List Event := s.trail.reverse

def tokens (s : Scanner) : List Token := s.events.filterMap Event.token?

def depth (s : Scanner) : Nat := s.stack.depth

end Scanner

/-- Scans a text from its beginning to its end. Each character costs at most one
step that takes it and `idleLimit` steps before that. -/
def RuleSet.scan (rs : RuleSet) (source : String) : Scanner :=
  (Scanner.start source.toList).run rs ((idleLimit + 1) * source.toList.length)

end Highlighter
