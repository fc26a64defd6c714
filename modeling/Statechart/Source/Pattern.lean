import Statechart.Source.Lexeme
import Statechart.Source.Tree

/-!
# Patterns

A grammar is given by patterns, which are data: a pattern says what is recognised at a place in the
text and which trees that gives. Of several choices the first that fits is taken for good. A
pattern inside another is recognised with one unit of fuel less, so that recognising always ends.
-/

namespace Statechart.Source

/-! ## 1. Cursors -/

/-- A place in a text: what remains, its line, and whether a line has ended since the last lexeme.
Gaps and comments before the next lexeme are already passed over. -/
structure Cursor where
  rest : List Char
  line : Nat
  fresh : Bool
deriving Repr

/-- What is being passed over between lexemes. -/
inductive Gap
  | blanks
  | lineComment
  | blockComment
deriving DecidableEq, Repr

/-- The place after gaps and comments. -/
def skipGaps : Gap → (fresh : Bool) → (line : Nat) → List Char → Cursor
  | _, fresh, line, [] => ⟨[], line, fresh⟩
  | .blanks, fresh, line, '/' :: '/' :: rest => skipGaps .lineComment fresh line rest
  | .blanks, fresh, line, '/' :: '*' :: rest => skipGaps .blockComment fresh line rest
  | .blanks, fresh, line, c :: rest =>
    if isLineEnd c then skipGaps .blanks true (if c = '\n' then line + 1 else line) rest
    else if isGap c then skipGaps .blanks fresh line rest
    else ⟨c :: rest, line, fresh⟩
  | .lineComment, fresh, line, c :: rest =>
    if isLineEnd c then skipGaps .blanks true (if c = '\n' then line + 1 else line) rest
    -- a carriage return ends the comment, but no line
    else if c = '\r' then skipGaps .blanks fresh line rest
    else skipGaps .lineComment fresh line rest
  | .blockComment, fresh, line, '*' :: '/' :: rest => skipGaps .blanks fresh line rest
  | .blockComment, fresh, line, c :: rest =>
    skipGaps .blockComment (fresh || isLineEnd c) (if c = '\n' then line + 1 else line) rest

namespace Cursor

/-- The place of the first lexeme of a text. -/
def start (text : String) : Cursor := skipGaps .blanks false 1 text.toList

/-- The place right after some text, before any gap. -/
def rightAfter (p : Cursor) (front rest : List Char) : Cursor :=
  ⟨rest, p.line + front.count '\n', false⟩

/-- The place of the next lexeme. -/
def skip (p : Cursor) : Cursor := skipGaps .blanks p.fresh p.line p.rest

end Cursor

/-! ## 2. Patterns -/

/-- The phrases of the grammar. -/
inductive Phrase
  -- expressions
  /-- Expressions with commas between them. -/
  | expression
  /-- An expression without a comma outside brackets. -/
  | single
  /-- Operands with any two-place operators between them. -/
  | chain
  /-- Operands with arithmetic operators between them. -/
  | tight
  /-- An operand with one-place operators before it. -/
  | prefixed
  /-- A basic expression with member accesses and calls after it. -/
  | postfixed
  | primary
  | arguments
  | string
  | template
  | object
  /-- What an assignment may take apart. -/
  | target
  /-- An element between tags. -/
  | element
  -- functions and classes
  | parameters
  /-- What a declaration may take apart. -/
  | binding
  | signature
  | classTail
  | propertyKey
  | decorator
  -- types
  | type
  | unionType
  | unaryType
  | primaryType
  | returnType
  | typeArguments
  | typeParameters
  | typeBody
  -- statements
  | statement
  | declaration
  | imports
  | block
  | statementEnd
  | program
deriving DecidableEq, Repr

/-- What is recognised at a place. -/
inductive Pattern
  /-- A whole word. -/
  | word (w : String)
  /-- Some characters of punctuation, followed by none of the given ones. -/
  | sign (s : String) (barred : String)
  /-- Some characters with no gap passed over after them. -/
  | bare (s : String)
  /-- A lexeme, which gives a leaf. -/
  | leaf (kind : Kind) (lexeme : Lexeme)
  /-- A lexeme with no gap passed over after it, which gives a leaf. -/
  | bareLeaf (kind : Kind) (lexeme : Lexeme)
  /-- Some punctuation or a word, which gives a leaf. -/
  | leafOf (kind : Kind) (inner : Pattern) (text : String)
  | seq (parts : List Pattern)
  | choice (options : List Pattern)
  | many (inner : Pattern)
  | opt (inner : Pattern)
  /-- What could be recognised here, without moving on. -/
  | ahead (inner : Pattern)
  /-- What could not be recognised here. -/
  | notAhead (inner : Pattern)
  /-- All trees of a pattern as one node. -/
  | node (kind : Kind) (inner : Pattern)
  /-- A pattern and then, as often as one fits, a further step: the trees so far and those of the
  step become one node of the step's kind. -/
  | grow (first : Pattern) (steps : List (Kind × Pattern))
  | phrase (p : Phrase)
  /-- The gaps before the next lexeme. -/
  | gaps
  /-- No line has ended before the next lexeme. -/
  | sameLine
  /-- A line has ended before the next lexeme. -/
  | freshLine
  /-- No line has ended before the next lexeme, unless line ends mean nothing here. -/
  | sameStatement
  /-- Nothing remains. -/
  | finished
  /-- The text may hold elements between tags, or may not. -/
  | elements (allowed : Bool)
  /-- Recognises inside brackets, where line ends mean nothing. -/
  | inside (inner : Pattern)
  /-- Recognises statements, which a line end may close. -/
  | outside (inner : Pattern)

/-- What is fixed while a pattern is recognised. -/
structure Surroundings where
  /-- Whether elements between tags may stand for expressions. -/
  elements : Bool
  /-- Whether a line end may close the statement at hand. -/
  lineEndsCount : Bool

/-- The trees of what was recognised and the place after it, or nothing. -/
abbrev Recognised := Option (List Tree × Cursor)

namespace Pattern

/-! ## 3. Recognising -/

/-- What remains after some characters. -/
def afterFront? (front cs : List Char) : Option (List Char) := front.isPrefixOf? cs

/-- Recognises patterns one after the other. -/
def runSeq (run : Pattern → Cursor → Recognised) : List Pattern → Cursor → Recognised
  | [], p => some ([], p)
  | q :: rest, p =>
    match run q p with
    | none => none
    | some (ts, p) =>
      match runSeq run rest p with
      | none => none
      | some (us, p) => some (ts ++ us, p)

/-- Recognises a pattern as often as it fits, at most `bound` times. -/
def runMany (run : Cursor → Recognised) : (bound : Nat) → Cursor → List Tree × Cursor
  | 0, p => ([], p)
  | bound + 1, p =>
    match run p with
    | none => ([], p)
    | some (ts, p) =>
      let (us, p) := runMany run bound p
      (ts ++ us, p)

/-- Extends some trees by steps as often as one fits, at most `bound` times. -/
def runSteps (run : Pattern → Cursor → Recognised) (steps : List (Kind × Pattern)) :
    (bound : Nat) → List Tree → Cursor → List Tree × Cursor
  | 0, ts, p => (ts, p)
  | bound + 1, ts, p =>
    match steps.findSome? fun (kind, step) => (run step p).map (kind, ·) with
    | none => (ts, p)
    | some (kind, us, p) => runSteps run steps bound [.node kind (ts ++ us)] p

/-- Recognises a pattern with the given depth of fuel, which also bounds how often a part may be
repeated. -/
def run (grammar : Phrase → Pattern) :
    (fuel : Nat) → Surroundings → Pattern → Cursor → Recognised
  | 0, _, _, _ => none
  | fuel + 1, s, pattern, p =>
    let recur := run grammar fuel s
    match pattern with
    | word w =>
      match afterFront? w.toList p.rest with
      | some rest =>
        if rest.head?.any isNameChar then none else some ([], (p.rightAfter w.toList rest).skip)
      | none => none
    | sign c barred =>
      match afterFront? c.toList p.rest with
      | some rest =>
        if rest.head?.any fun d => barred.toList.contains d then none
        else some ([], (p.rightAfter [] rest).skip)
      | none => none
    | bare c => (afterFront? c.toList p.rest).map fun rest => ([], p.rightAfter [] rest)
    | leaf kind lexeme =>
      (lexeme.read p.rest).map fun (front, rest) =>
        ([.leaf kind (String.ofList front) p.line], (p.rightAfter front rest).skip)
    | bareLeaf kind lexeme =>
      (lexeme.read p.rest).map fun (front, rest) =>
        ([.leaf kind (String.ofList front) p.line], p.rightAfter front rest)
    | leafOf kind inner text =>
      (recur inner p).map fun (_, q) => ([.leaf kind text p.line], q)
    | seq parts => runSeq recur parts p
    | choice options => options.findSome? fun q => recur q p
    | many inner => some (runMany (recur inner) fuel p)
    | opt inner => some ((recur inner p).getD ([], p))
    | ahead inner => (recur inner p).map fun _ => ([], p)
    | notAhead inner => if (recur inner p).isSome then none else some ([], p)
    | node kind inner => (recur inner p).map fun (ts, q) => ([.node kind ts], q)
    | grow first steps =>
      (recur first p).map fun (ts, q) => runSteps recur steps fuel ts q
    | phrase f => recur (grammar f) p
    | gaps => some ([], p.skip)
    | sameLine => if p.fresh then none else some ([], p)
    | freshLine => if p.fresh then some ([], p) else none
    | sameStatement => if p.fresh && s.lineEndsCount then none else some ([], p)
    | finished => if p.rest.isEmpty then some ([], p) else none
    | elements allowed => if s.elements = allowed then some ([], p) else none
    | inside inner => run grammar fuel { s with lineEndsCount := false } inner p
    | outside inner => run grammar fuel { s with lineEndsCount := true } inner p

/-! ## 4. Common patterns -/

/-- Some punctuation, whatever follows. -/
def mark (s : String) : Pattern := sign s ""

/-- One thing or more with a separator between them, which may also stand at the end. -/
def separated (separator inner : Pattern) : Pattern :=
  seq [inner, many (seq [separator, inner]), opt separator]

/-- Things with commas between them, or none. -/
def list (inner : Pattern) : Pattern := opt (separated (mark ",") inner)

/-- A pattern between two marks. -/
def between (left : String) (inner : Pattern) (right : String) : Pattern :=
  seq [mark left, inside inner, mark right]

end Pattern

end Statechart.Source
