import WereraChess.Pattern.Error
/-!
# Patterns as trees

A pattern is a tree whose leaves are what is matched at one place. Whether a tree is nested too
deeply is told by the first branch in reading order that lies too deep.
-/

namespace WereraChess.Pattern

/-- Where blanks and comments do not count, a pattern is loose. -/
inductive Flag where
  | caseless
  | multiline
  | dotMatchesLineEnd
  | lazy
  | unicode
  | carriageReturn
  | loose
  deriving DecidableEq

def Flag.ofChar? (c : Char) : Option Flag :=
  [('i', caseless), ('m', multiline), ('s', dotMatchesLineEnd), ('U', lazy), ('u', unicode),
    ('R', carriageReturn), ('x', loose)].lookup c

/-- Flags as they are written; a minus sign, which turns off what comes after it, is `none`. -/
abbrev FlagRow := List (Span × Option Flag)

def FlagRow.state? (row : FlagRow) (f : Flag) : Option Bool :=
  let items := row.map Prod.snd
  if some f ∈ items then some (none ∉ items.takeWhile (· ≠ some f)) else none

/-- A character that stands for itself, or the two digits of a byte. -/
structure Literal where
  span : Span
  char : Char
  isByte : Bool := false

/-- A place is no character, like the end of a line or the edge of a word. An escaped letter is
shorthand for a class. -/
inductive Leaf where
  | empty
  | flags (row : FlagRow)
  | literal (l : Literal)
  | anything
  | place
  | wordEdge
  | shorthand (negated : Bool)
  | property
  | named (negated : Bool)
  | range (low high : Literal)

/-- An operation makes one class of two. -/
inductive Branch where
  | repetition
  | group (row : FlagRow)
  | alternation
  | sequence
  | bracketed (negated : Bool)
  | union
  | operation

inductive Node where
  | leaf (span : Span) (l : Leaf)
  | branch (span : Span) (b : Branch) (parts : List Node)

namespace Node

def span : Node → Span
  | leaf s _ => s
  | branch s _ _ => s

def ofLiteral (l : Literal) : Node := leaf l.span (.literal l)

/-- The node of several in a row: no branch is made for one or none. -/
def ofParts (b : Branch) (span : Span) : List Node → Node
  | [] => leaf span .empty
  | [n] => n
  | ns => branch span b ns

mutual

/-- The first branch of a node that has more than `limit` branches from the node down to itself. -/
def tooDeep? (limit : Nat) : Node → Option Span
  | leaf _ _ => none
  | branch span _ parts =>
    match limit with
    | 0 => some span
    | limit + 1 => anyTooDeep? limit parts

def anyTooDeep? (limit : Nat) : List Node → Option Span
  | [] => none
  | n :: ns => tooDeep? limit n <|> anyTooDeep? limit ns

end

end Node

end WereraChess.Pattern
