import WereraChess.Pattern.Node
import WereraChess.Text.Alphanumeric
/-!
# Openings of groups

What may follow an opening parenthesis: a name for the group, flags for it or for the rest of the
group around it, or nothing.
-/

namespace WereraChess.Pattern.Group

/-- Flags that hold from here on, a group with flags of its own, or a named one. -/
inductive Opening where
  | flags (row : FlagRow) (span : Span)
  | group (row : FlagRow)
  | named (name : List Char) (span : Span)

/-- Reads flags up to a colon or a closing parenthesis. The flags before the position are kept, the
last one first. -/
def flags (row : FlagRow) (p : Position) : List Char → Except Error (FlagRow × Cursor)
  | [] => deny .flagEnd ⟨p, p⟩
  | a :: rest =>
    let span : Span := ⟨p, p.after a⟩
    if a = ':' ∨ a = ')' then
      match row with
      | (minus, none) :: _ => deny .flagDangling minus
      | _ => .ok (row.reverse, ⟨p, a :: rest⟩)
    else if a ≠ '-' ∧ Flag.ofChar? a = none then deny .flag span
    else
      let f := Flag.ofChar? a
      match row.find? (·.2 = f) with
      | some (earlier, _) =>
        .error ⟨if f = none then .negationTwice else .flagTwice, span, some earlier⟩
      | none => flags ((span, f) :: row) (p.after a) rest

/-- Whether a name may begin with a character. -/
def startsName (c : Char) : Bool := c = '_' || Text.isAlphabetic c

def isNameChar (c : Char) : Bool :=
  c = '_' || c = '.' || c = '[' || c = ']' || Text.isAlphanumeric c

def name (c : Cursor) : Except Error (List Char × Span × Cursor) :=
  let letters := if c.sees startsName then c.rest.takeWhile isNameChar else []
  let d := c.skip letters.length
  if d.atEnd then deny .nameEnd d.point
  else if !d.sees (· = '>') then deny .name d.here
  else if letters.isEmpty then deny .nameEmpty c.point
  else .ok (letters, c.span d, d.next)

/-- Reads the opening of a group, which begins with a parenthesis. -/
def readOpening (loose : Bool) (start : Cursor) : Except Error (Opening × Cursor) := do
  let c := start.step loose
  let begins (s : String) : Bool := s.toList.isPrefixOf c.rest
  let named (length : Nat) : Except Error (Opening × Cursor) := do
    let (letters, span, d) ← name (c.skip length)
    return (.named letters span, d)
  if begins "?=" || begins "?!" then deny .lookAround (start.span (c.skip 2))
  else if begins "?<=" || begins "?<!" then deny .lookAround (start.span (c.skip 3))
  else if begins "?P<" then named 3
  else if begins "?<" then named 2
  else if begins "?" then
    if c.next.atEnd then deny .groupUnclosed start.here
    let (row, d) ← flags [] c.next.position c.next.rest
    if d.sees (· = ':') then return (.group row, d.next)
    else if row.isEmpty then deny .repetition c.point
    else return (.flags row (start.span d.next), d.next)
  else return (.group [], c)

end WereraChess.Pattern.Group
