import WereraChess.Pattern.Escape
/-!
# Bracketed classes

A class lists characters and ranges of them between brackets, in which other classes may stand. Two
signs between lists make one class of both. The reader keeps the classes that are open in a row, the
innermost first, and takes at least one character in each step.
-/

namespace WereraChess.Pattern.Class

/-- A class that is being read, with what stands before the last operation and the present list, the
last member first. -/
structure Open where
  start : Cursor
  opening : Span
  negated : Bool
  left : Option Node
  list : Cursor
  members : List Node

namespace Open

/-- The present list as one node, which takes in what stands before the last operation. -/
def toNode (o : Open) : Node :=
  let members := o.members.reverse
  let span := match members.head?, members.getLast? with
    | some a, some b => ⟨a.span.first, b.span.last⟩
    | _, _ => o.list.point
  let right := Node.ofParts .union span members
  match o.left with
  | none => right
  | some left => .branch ⟨left.span.first, right.span.last⟩ .operation [left, right]

def push (o : Open) (n : Node) : Open := { o with members := n :: o.members }

/-- The class after the sign of an operation. -/
def operate (o : Open) (list : Cursor) : Open :=
  { o with left := some o.toNode, list, members := [] }

def close (o : Open) (c : Cursor) : Node :=
  .branch (o.start.span c) (.bracketed o.negated) [o.toNode]

end Open

/-- A reader within a class, or after the outermost one. -/
structure State where
  cursor : Cursor
  opened : List Open
  result : Option Node

/-- The character at a cursor for itself. -/
def verbatim (c : Cursor) : Node := .ofLiteral ⟨c.here, (c.rest.head?).getD ' ', false⟩

/-- Reads an opening bracket with the signs after it that are not what they are elsewhere: a caret
negates, and minus signs, or else a closing bracket, stand for themselves. -/
def readOpening (loose : Bool) (start : Cursor) : Except Error (Open × Cursor) := do
  let c := start.step loose
  if c.atEnd then deny .classUnclosed (start.span c)
  let negated := c.sees (· = '^')
  let list := if negated then c.step loose else c
  if list.atEnd then deny .classUnclosed (start.span list)
  let (dashes, d) := list.rest.foldl (fun (ns, d) _ =>
    if d.sees (· = '-') then (verbatim d :: ns, d.step loose) else (ns, d)) ([], list)
  if d.atEnd then deny .classUnclosed start.point
  let (members, e) := if dashes.isEmpty ∧ d.sees (· = ']')
    then ([verbatim d], d.step loose) else (dashes, d)
  if e.atEnd then deny .classUnclosed (start.span e)
  return (⟨start, start.span e, negated, none, list, members⟩, e)

def names : List String :=
  ["alnum", "alpha", "ascii", "blank", "cntrl", "digit", "graph", "lower", "print", "punct",
    "space", "upper", "word", "xdigit"]

/-- Reads a class that is named between colons, if one stands at the cursor. -/
def named? (c : Cursor) : Option (Node × Cursor) :=
  match c.rest with
  | '[' :: ':' :: rest =>
    let negated := rest.head? = some '^'
    let rest := if negated then rest.drop 1 else rest
    let name := rest.takeWhile (· ≠ ':')
    if String.ofList name ∈ names ∧ (rest.drop name.length).take 2 = [':', ']'] then
      let d := c.skip (name.length + if negated then 5 else 4)
      some (.leaf (c.span d) (.named negated), d)
    else none
  | _ => none

def item (loose : Bool) (c : Cursor) : Except Error (Node × Cursor) :=
  if c.sees (· = '\\') then Escape.read loose c else .ok (verbatim c, c.next)

/-- A member of a list that is no range: a place is none. -/
def member : Node → Except Error Node
  | .leaf span .place | .leaf span .wordEdge => deny .classEscape span
  | n => .ok n

def bound : Node → Except Error Literal
  | .leaf _ (.literal l) => .ok l
  | n => deny .rangeBound n.span

/-- Reads a character, an escape or a range. The span is that of the opening of the class. -/
def range (loose : Bool) (opening : Span) (c : Cursor) : Except Error (Node × Cursor) := do
  let (low, d) ← item loose c
  let d := d.settle loose
  if d.atEnd then deny .classUnclosed opening
  if !d.sees (· = '-') ∨ d.peek loose = some ']' ∨ d.peek loose = some '-' then
    return (← member low, d)
  let e := d.step loose
  if e.atEnd then deny .classUnclosed opening
  let (high, f) ← item loose e
  let span : Span := ⟨low.span.first, high.span.last⟩
  let low ← bound low
  let high ← bound high
  if high.char.toNat < low.char.toNat then deny .rangeOrder span
  return (.leaf span (.range low high), f)

/-- Whether two signs of an operation come next. -/
def seesOperation (c : Cursor) : Bool :=
  c.rest.take 2 ∈ [['&', '&'], ['-', '-'], ['~', '~']]

/-- Reads one part of the innermost class. -/
def step (loose : Bool) (s : State) : Except Error State := do
  let c := s.cursor.settle loose
  match s.opened with
  | [] => return s
  | o :: outer =>
    let pushed (r : Node × Cursor) : State :=
      { s with cursor := r.2, opened := o.push r.1 :: outer }
    if c.atEnd then deny .classUnclosed o.opening
    else if c.sees (· = '[') then
      match named? c with
      | some r => return pushed r
      | none =>
        let (inner, d) ← readOpening loose c
        return { s with cursor := d, opened := inner :: o :: outer }
    else if c.sees (· = ']') then
      let n := o.close c.next
      match outer with
      | [] => return ⟨c.next, [], some n⟩
      | parent :: outer => return { s with cursor := c.next, opened := parent.push n :: outer }
    else if seesOperation c then
      let d := c.skip 2
      return { s with cursor := d, opened := o.operate d :: outer }
    else return pushed (← range loose o.opening c)

def read (loose : Bool) (start : Cursor) : Except Error (Node × Cursor) := do
  let (o, c) ← readOpening loose start
  let s ← start.rest.foldlM (fun s _ => step loose s) ⟨c, [o], none⟩
  match s.result with
  | some n => return (n, s.cursor)
  | none => deny .classUnclosed o.opening

end WereraChess.Pattern.Class
