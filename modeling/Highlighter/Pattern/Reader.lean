import Highlighter.Pattern.Size

/-! Reading a pattern from its text. The reader walks over the text once and keeps
the open groups on a stack; text that is no pattern has no result, and neither has
one that would become too large. -/

namespace Highlighter.Pattern

/-- How the next atoms are meant: without regard to case, a dot that takes
newlines, and anchors that know the lines of the text. -/
structure Flags where
  anyCase : Bool
  dotAll : Bool
  multiLine : Bool
  deriving DecidableEq, Repr

/-- A character stands for itself, or for all its case variants. -/
def Flags.charSet (f : Flags) (c : Char) : CharSet :=
  if f.anyCase then .anyCase (.char c) else .char c

/-- What a backslash and the characters after it stand for. -/
inductive Escape where
  | char (c : Char)
  | set (s : CharSet)
  | edge (e : Edge)

/-- Letters name classes, edges and controls; ASCII punctuation stands for itself. -/
def readEscape : List Char → Option (Escape × List Char)
  | [] => none
  | c :: cs =>
    match c with
    | 'd' => some (.set .digit, cs)
    | 'D' => some (.set (.compl .digit), cs)
    | 's' => some (.set .space, cs)
    | 'S' => some (.set (.compl .space), cs)
    | 'w' => some (.set .word, cs)
    | 'W' => some (.set (.compl .word), cs)
    | 'b' => some (.edge .wordBoundary, cs)
    | 'B' => some (.edge .noWordBoundary, cs)
    | '<' => some (.edge .wordStart, cs)
    | '>' => some (.edge .wordEnd, cs)
    | 'A' => some (.edge .textStart, cs)
    | 'z' => some (.edge .textEnd, cs)
    | 'n' => some (.char '\n', cs)
    | 't' => some (.char '\t', cs)
    | 'r' => some (.char '\r', cs)
    | 'a' => some (.char '\x07', cs)
    | 'f' => some (.char '\x0C', cs)
    | 'v' => some (.char '\x0B', cs)
    | _ => if c.toNat < 128 && !c.isAlphanum then some (.char c, cs) else none

/-! ### Character classes -/

/-- One member of a class: a character or a named set. -/
def readMember : List Char → Option ((Char ⊕ CharSet) × List Char)
  | '\\' :: cs =>
    match readEscape cs with
    | some (.char c, cs) => some (.inl c, cs)
    | some (.set s, cs) => some (.inr s, cs)
    | _ => none
  | '[' :: _ => none
  | c :: cs => some (.inl c, cs)
  | [] => none

/-- The members up to the closing bracket, after those read before. A hyphen before
it is a member; the doubled signs that other notations use to combine sets are refused. -/
def readMembers : Nat → List CharSet → List Char → Option (List CharSet × List Char)
  | 0, _, _ => none
  | _ + 1, l, ']' :: cs => some (l, cs)
  | _ + 1, _, '&' :: '&' :: _ => none
  | _ + 1, _, '-' :: '-' :: _ => none
  | _ + 1, _, '~' :: '~' :: _ => none
  | n + 1, l, cs =>
    match readMember cs with
    | none => none
    | some (.inr t, '-' :: ']' :: cs) => readMembers n (l ++ [t]) ('-' :: ']' :: cs)
    | some (.inr _, '-' :: _) => none
    | some (.inr t, cs) => readMembers n (l ++ [t]) cs
    | some (.inl c, '-' :: ']' :: cs) => readMembers n (l ++ [.char c]) ('-' :: ']' :: cs)
    | some (.inl _, '-' :: '-' :: _) => none
    | some (.inl c, '-' :: cs) =>
      match readMember cs with
      | some (.inl d, cs) => if c ≤ d then readMembers n (l ++ [.range c d]) cs else none
      | _ => none
    | some (.inl c, cs) => readMembers n (l ++ [.char c]) cs

/-- The class after its opening bracket, and whether it has several members. Hyphens
that come first are members, and so is a closing bracket that comes first. -/
def readClass (f : Flags) (cs : List Char) : Option (CharSet × Bool × List Char) :=
  let (negated, cs) := match cs with
    | '^' :: cs => (true, cs)
    | cs => (false, cs)
  let (first, cs) := match cs with
    | '-' :: _ => ((cs.takeWhile (· == '-')).map CharSet.char, cs.dropWhile (· == '-'))
    | ']' :: cs => ([.char ']'], cs)
    | cs => ([], cs)
  match readMembers (cs.length + 1) first cs with
  | none => none
  | some (members, cs) =>
    let s := match members with
      | [s] => s
      | l => .anyOf l
    let s := if f.anyCase then .anyCase s else s
    some (if negated then .compl s else s, 2 ≤ members.length, cs)

/-! ### Repetition counts -/

/-- A number below `2 ^ 32`, with white space around it. -/
def readCount (cs : List Char) : Option (Nat × List Char) :=
  let cs := cs.dropWhile Text.isSpace
  let digits := cs.takeWhile Char.isDigit
  let n := digits.foldl (fun n d => 10 * n + (d.toNat - '0'.toNat)) 0
  if digits.isEmpty || .pow 2 32 ≤ n then none
  else some (n, (cs.dropWhile Char.isDigit).dropWhile Text.isSpace)

/-- The bounds after an opening brace. -/
def readBounds (cs : List Char) : Option (Nat × Option Nat × List Char) :=
  match readCount cs with
  | some (n, '}' :: cs) => some (n, some n, cs)
  | some (n, ',' :: '}' :: cs) => some (n, none, cs)
  | some (n, ',' :: cs) =>
    match readCount cs with
    | some (top, '}' :: cs) => if n ≤ top then some (n, some top, cs) else none
    | _ => none
  | _ => none

/-! ### Groups -/

/-- A pattern as it was read: how deep its text is nested, and whether a repetition
may follow it. -/
structure Part where
  pattern : Pattern
  depth : Nat
  repeatable : Bool

namespace Part

/-- Several parts in one; a single one is not nested by it. -/
def joined (combine : List Pattern → Pattern) (parts : List Part) : Part :=
  let depth := (parts.map (·.depth)).foldl max 0
  ⟨combine (parts.map (·.pattern)), if parts.length < 2 then depth else depth + 1, true⟩

end Part

/-- What is read of one group so far: the finished alternatives and the parts of
the current one, latest first, and the flags in force. -/
structure Level where
  branches : List Part
  parts : List Part
  flags : Flags

namespace Level

def opened (f : Flags) : Level := ⟨[], [], f⟩

def push (l : Level) (p : Part) : Level := { l with parts := p :: l.parts }

def branch (l : Level) : Level :=
  { l with branches := .joined sequence l.parts.reverse :: l.branches, parts := [] }

def close (l : Level) : Part := .joined choice l.branch.branches.reverse

/-- Sets the flags for what follows in the group. -/
def setFlags (l : Level) (f : Flags) : Level := { l.push ⟨empty, 0, false⟩ with flags := f }

/-- Repeats the latest part. -/
def repeatLast (l : Level) (least : Nat) (most : Option Nat) (greedy : Bool) : Option Level :=
  match l.parts with
  | [] => none
  | p :: ps =>
    if p.repeatable then
      some { l with parts := ⟨repeated p.pattern least most greedy, p.depth + 1, true⟩ :: ps }
    else none

end Level

/-- The state of the reader: the innermost group, the groups around it with the
numbers they record under, and the count of recording groups. -/
structure Reading where
  level : Level
  outer : List (Option Nat × Level)
  groups : Nat

namespace Reading

/-- Anchors know lines unless a flag says otherwise. -/
def start : Reading := ⟨.opened ⟨false, false, true⟩, [], 0⟩

def push (s : Reading) (p : Part) : Reading := { s with level := s.level.push p }

/-- Reads a pattern that nothing is nested in. -/
def pushSimple (s : Reading) (p : Pattern) : Reading := s.push ⟨p, 0, true⟩

def enter (s : Reading) (index : Option Nat) (f : Flags) : Reading :=
  ⟨.opened f, (index, s.level) :: s.outer, s.groups⟩

def leave (s : Reading) : Option Reading :=
  match s.outer with
  | [] => none
  | (index, l) :: outer =>
    let inner := s.level.close
    let p := index.elim inner.pattern (group · inner.pattern)
    some ⟨l.push ⟨p, inner.depth + 1, true⟩, outer, s.groups⟩

end Reading

/-- Flags after `(?`, up to the colon that opens a group or the parenthesis that
ends the setting. Each may be named once; `named` are those before. After a hyphen
flags are switched off, and one has to follow it. -/
def readFlags (named : List Char) (on : Bool) (f : Flags) :
    List Char → Option (Flags × Bool × List Char)
  | ':' :: cs => if named.head? = some '-' then none else some (f, true, cs)
  | ')' :: cs => if named.head? = some '-' then none else some (f, false, cs)
  | c :: cs =>
    if named.contains c then none
    else match c with
      | 'i' => readFlags (c :: named) on { f with anyCase := on } cs
      | 's' => readFlags (c :: named) on { f with dotAll := on } cs
      | 'm' => readFlags (c :: named) on { f with multiLine := on } cs
      | '-' => readFlags (c :: named) false f cs
      | _ => none
  | [] => none

/-- Opens the group whose parenthesis was just read. -/
def readGroup (s : Reading) : List Char → Option (Reading × List Char)
  | '?' :: ')' :: _ => none
  | '?' :: cs =>
    match readFlags [] true s.level.flags cs with
    | some (f, true, cs) => some (s.enter none f, cs)
    | some (f, false, cs) => some ({ s with level := s.level.setFlags f }, cs)
    | none => none
  | cs => some ({ s with groups := s.groups + 1 }.enter (some (s.groups + 1)) s.level.flags, cs)

/-- A question mark after a repetition makes it lazy. -/
def readGreed : List Char → Bool × List Char
  | '?' :: cs => (false, cs)
  | cs => (true, cs)

def readRepeat (s : Reading) (least : Nat) (most : Option Nat) (cs : List Char) :
    Option (Reading × List Char) :=
  let (greedy, cs) := readGreed cs
  (s.level.repeatLast least most greedy).map fun l => ({ s with level := l }, cs)

/-- Reads one atom, sign or repetition. -/
def readPart (s : Reading) (c : Char) (cs : List Char) : Option (Reading × List Char) :=
  let f := s.level.flags
  match c with
  | '|' => some ({ s with level := s.level.branch }, cs)
  | '(' => readGroup s cs
  | ')' => s.leave.map (·, cs)
  | '[' => (readClass f cs).map fun (set, several, cs) =>
    (s.push ⟨one set, if several then 2 else 1, true⟩, cs)
  | '.' => some (s.pushSimple (if f.dotAll then one .all else dot), cs)
  | '^' => some (s.pushSimple (edge (if f.multiLine then .lineStart else .textStart)), cs)
  | '$' => some (s.pushSimple (edge (if f.multiLine then .lineEnd else .textEnd)), cs)
  | '*' => readRepeat s 0 none cs
  | '+' => readRepeat s 1 none cs
  | '?' => readRepeat s 0 (some 1) cs
  | '{' =>
    match readBounds cs with
    | some (least, most, cs) => readRepeat s least most cs
    | none => none
  | '\\' =>
    match readEscape cs with
    | some (.char c, cs) => some (s.pushSimple (one (f.charSet c)), cs)
    | some (.set set, cs) => some (s.pushSimple (one set), cs)
    | some (.edge e, cs) => some (s.pushSimple (edge e), cs)
    | none => none
  | c => some (s.pushSimple (one (f.charSet c)), cs)

/-- Reads on to the end of the text, in at most as many steps as the first argument
says. -/
def readParts : Nat → Reading → List Char → Option Part
  | _, s, [] => if s.outer.isEmpty then some s.level.close else none
  | 0, _, _ :: _ => none
  | n + 1, s, c :: cs =>
    match readPart s c cs with
    | some (s, cs) => readParts n s cs
    | none => none

/-- How deep the text of a pattern may be nested. -/
def depthLimit : Nat := 250

/-- The pattern that a text describes. With repetitions in it, it may not be too large,
and its branches are marked.

The size of a pattern without repetitions is not looked at, so that a list of words is read
whatever its length. An engine that keeps every automaton to the limit refuses such a pattern
where it passes 10 MiB: with several hundred classes of letters in a row, or with a list of
words of more than some 300 KB. -/
def read (text : String) : Option Pattern :=
  match readParts text.toList.length .start text.toList with
  | none => none
  | some ⟨p, depth, _⟩ =>
    if depthLimit < depth then none
    else if !p.repeats then some p
    else if p.fits then some (p.marked 0).1
    else none

end Highlighter.Pattern
