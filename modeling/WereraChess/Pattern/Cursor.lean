import WereraChess.Text.Fields
/-!
# Places in a pattern

Lines and columns, and a cursor that goes through a pattern. Where blanks and comments do not count,
the cursor passes over them; a comment goes from a number sign to the end of its line.
-/

namespace WereraChess.Pattern

/-- A line and a column, both counted from one. -/
structure Position where
  line : Nat := 1
  column : Nat := 1
  deriving DecidableEq

def Position.after (p : Position) (c : Char) : Position :=
  if c = '\n' then ⟨p.line + 1, 1⟩ else ⟨p.line, p.column + 1⟩

/-- A part of a pattern, from its first position to the position after it. -/
structure Span where
  first : Position
  last : Position
  deriving DecidableEq

structure Cursor where
  position : Position := {}
  rest : List Char

namespace Cursor

def atEnd (c : Cursor) : Bool := c.rest.isEmpty

def sees (c : Cursor) (p : Char → Bool) : Bool := c.rest.head?.any p

def next (c : Cursor) : Cursor :=
  match c.rest with
  | [] => c
  | a :: rest => ⟨c.position.after a, rest⟩

def skip : Nat → Cursor → Cursor
  | 0, c => c
  | n + 1, c => skip n c.next

def span (c d : Cursor) : Span := ⟨c.position, d.position⟩

def point (c : Cursor) : Span := c.span c

/-- The next character. -/
def here (c : Cursor) : Span := c.span c.next

/-- Passes over blanks and comments; the first argument tells whether this is within a comment. -/
def skipComments : Bool → Position → List Char → Cursor
  | _, p, [] => ⟨p, []⟩
  | true, p, a :: rest => skipComments (a ≠ '\n') (p.after a) rest
  | false, p, a :: rest =>
    if Text.isBlank a || a = '#' then skipComments (a = '#') (p.after a) rest else ⟨p, a :: rest⟩

/-- Passes over what does not count. -/
def settle (loose : Bool) (c : Cursor) : Cursor :=
  if loose then skipComments false c.position c.rest else c

/-- The next place that counts. -/
def step (loose : Bool) (c : Cursor) : Cursor := c.next.settle loose

/-- Steps over characters that satisfy `p`, and gives them. -/
def stepWhile (loose : Bool) (p : Char → Bool) (c : Cursor) : List Char × Cursor :=
  c.rest.foldl (fun (seen, d) _ =>
    if d.sees p then (seen ++ d.rest.take 1, d.step loose) else (seen, d)) ([], c)

/-- The character after the next one. Of what does not count only blanks and the sign of one comment
are passed over, not its text. -/
def peek (loose : Bool) (c : Cursor) : Option Char :=
  let rest := c.next.rest
  if loose then
    let shown := match rest.dropWhile Text.isBlank with
      | '#' :: comment => comment.dropWhile Text.isBlank
      | shown => shown
    shown.head? <|> rest.head?
  else rest.head?

end Cursor

end WereraChess.Pattern
