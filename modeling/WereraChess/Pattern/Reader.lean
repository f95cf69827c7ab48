import WereraChess.Pattern.Class
import WereraChess.Pattern.Group
import WereraChess.Text.Decimal
/-!
# Reading patterns

The reader keeps the groups that are open in a row, the innermost first, and takes at least one
character in each step, so that a pattern is read in as many steps as it has characters.
-/

namespace WereraChess.Pattern

/-- A group that is being read, or the whole pattern. Its earlier alternatives and the parts of the
present one are kept, the last one first, and whether blanks count after it. -/
structure Open where
  opening : Span
  row : FlagRow
  loose : Bool
  first : Position
  earlier : List Node
  start : Position
  parts : List Node

namespace Open

def beginning (c : Cursor) (opening : Span) (row : FlagRow) (loose : Bool) : Open :=
  ⟨opening, row, loose, c.position, [], c.position, []⟩

def push (o : Open) (n : Node) : Open := { o with parts := n :: o.parts }

def alternative (o : Open) (p : Position) : Node :=
  .ofParts .sequence ⟨o.start, p⟩ o.parts.reverse

def content (o : Open) (p : Position) : Node :=
  .ofParts .alternation ⟨o.first, p⟩ (o.alternative p :: o.earlier).reverse

/-- What an operator after the present parts repeats. Flags are nothing to repeat. -/
def operand? (o : Open) : Option (Node × Open) :=
  match o.parts with
  | [] | .leaf _ (.flags _) :: _ => none
  | n :: parts => some (n, { o with parts })

end Open

structure Reader where
  cursor : Cursor
  loose : Bool := false
  names : List (List Char × Span) := []
  current : Open
  outer : List Open := []

namespace Reader

def ofText (text : List Char) : Reader :=
  let c : Cursor := ⟨{}, text⟩
  { cursor := c, current := .beginning c c.point [] false }

def push (r : Reader) (n : Node) (c : Cursor) : Reader :=
  { r with current := r.current.push n, cursor := c }

def enter (r : Reader) (row : FlagRow) (c : Cursor) : Reader :=
  { r with
    current := .beginning c r.cursor.here row r.loose
    outer := r.current :: r.outer
    loose := (row.state? .loose).getD r.loose
    cursor := c }

def openGroup (r : Reader) : Except Error Reader := do
  let (opening, c) ← Group.readOpening r.loose r.cursor
  match opening with
  | .flags row span =>
    let loose := (row.state? .loose).getD r.loose
    return { r.push (.leaf span (.flags row)) c with loose }
  | .group row => return r.enter row c
  | .named name span =>
    match r.names.lookup name with
    | some earlier => .error ⟨.nameTwice, span, some earlier⟩
    | none => return { r.enter [] c with names := (name, span) :: r.names }

def closeGroup (r : Reader) : Except Error Reader :=
  match r.outer with
  | [] => deny .groupUnopened r.cursor.here
  | parent :: outer =>
    let c := r.cursor.next
    let group : Node := .branch ⟨r.current.opening.first, c.position⟩ (.group r.current.row)
      [r.current.content r.cursor.position]
    .ok { r with
      current := parent.push group
      outer
      loose := r.current.loose
      cursor := c }

def alternate (r : Reader) : Reader :=
  let c := r.cursor.next
  let o := r.current
  { r with
    current := { o with
      earlier := o.alternative r.cursor.position :: o.earlier
      start := c.position
      parts := [] }
    cursor := c }

/-- Repeats the last part; a question mark after the operator belongs to it. -/
def repeatLast (r : Reader) : Except Error Reader :=
  match r.current.operand? with
  | none => deny .repetition r.cursor.point
  | some (n, o) =>
    let c := if r.cursor.next.sees (· = '?') then r.cursor.skip 2 else r.cursor.next
    .ok { r with
      current := o.push (.branch ⟨n.span.first, c.position⟩ .repetition [n])
      cursor := c }

/-- A count of repetitions, which is never closed. Blanks may stand around its digits. -/
def count (r : Reader) : Except Error Reader := do
  if r.current.operand?.isNone then deny .repetition r.cursor.point
  let c := r.cursor.step r.loose
  if c.atEnd then deny .countUnclosed (r.cursor.span c)
  let (_, c) := c.stepWhile false Text.isBlank
  let (digits, d) := c.stepWhile r.loose Char.isDigit
  let (_, e) := d.stepWhile r.loose Text.isBlank
  if e.atEnd then deny .countUnclosed (r.cursor.span e)
  match Text.decimal? digits with
  | none => deny .countEmpty (c.span d)
  | some n =>
    if UInt32.size ≤ n then deny .number (c.span d) else deny .countUnclosed (r.cursor.span e)

/-- Reads one part of the innermost group. -/
def step (r : Reader) : Except Error Reader := do
  let c := r.cursor.settle r.loose
  let r := { r with cursor := c }
  match c.rest.head? with
  | none => return r
  | some '(' => r.openGroup
  | some ')' => r.closeGroup
  | some '|' => return r.alternate
  | some '?' | some '*' | some '+' => r.repeatLast
  | some '\x7b' => r.count
  | some '[' => do
    let (n, d) ← Class.read r.loose c
    return r.push n d
  | some '\\' => do
    let (n, d) ← Escape.read r.loose c
    return r.push n d
  | some '.' => return r.push (.leaf c.here .anything) c.next
  | some '^' | some '$' => return r.push (.leaf c.here .place) c.next
  | some a => return r.push (.ofLiteral ⟨c.here, a, false⟩) c.next

def finish (r : Reader) : Except Error Node := do
  if !r.outer.isEmpty then deny .groupUnclosed r.current.opening
  let n := r.current.content r.cursor.position
  match n.tooDeep? nestingLimit with
  | some span => deny .nesting span
  | none => return n

end Reader

def Node.ofText (text : List Char) : Except Error Node := do
  (← text.foldlM (fun r _ => r.step) (Reader.ofText text)).finish

end WereraChess.Pattern
