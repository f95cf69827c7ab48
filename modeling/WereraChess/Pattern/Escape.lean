import WereraChess.Pattern.Node
import WereraChess.Text.Hex
/-!
# Escapes

A backslash takes the meaning from a sign, or gives one to a letter. The readers here begin at the
backslash or, for what belongs to a letter, at the letter. Since no pattern has a closing brace,
what an opening brace begins is never complete.
-/

namespace WereraChess.Pattern.Escape

/-- The signs that have a meaning somewhere in a pattern. -/
def signs : List Char := "\\.+*?()|[]\x7b\x7d^$#&-~".toList

/-- The letters that stand for a character, with its code. -/
def controls : List (Char × Char) :=
  [('a', '\x07'), ('f', '\x0c'), ('t', '\t'), ('n', '\n'), ('r', '\r'), ('v', '\x0b')]

/-- Whether a backslash may stand before a character that stands for itself. -/
def isPlain (c : Char) : Bool :=
  c ∈ signs || c.toNat < 128 && !c.isAlphanum && c ≠ '<' && c ≠ '>'

/-- Reads `count` hexadecimal digits. -/
def digits (loose : Bool) : (count : Nat) → Cursor → Except Error (List Char × Cursor)
  | 0, c => .ok ([], c)
  | count + 1, c =>
    match c.rest with
    | [] => deny .escapeEnd c.point
    | a :: _ =>
      if (Text.hexValue? a).isNone then deny .hexDigit c.here
      else do
        let (ds, d) ← digits loose count (c.step loose)
        return (a :: ds, d)

def digitCount (letter : Char) : Nat :=
  if letter = 'x' then 2 else if letter = 'u' then 4 else 8

/-- The character with the code in the digits after a letter. -/
def code (loose : Bool) (letter : Char) (c : Cursor) : Except Error (Char × Cursor) := do
  let d := c.step loose
  if d.sees (· = '\x7b') then
    let (_, e) := (d.step loose).stepWhile loose fun a => (Text.hexValue? a).isSome
    if e.atEnd then deny .escapeEnd (d.span e) else deny .hexDigit e.here
  else
    let (ds, e) ← digits loose (digitCount letter) d
    match Text.hex? ds with
    | some n => if n.isValidChar then return (Char.ofNat n, e) else deny .hexCharacter (d.span e)
    | none => deny .hexCharacter (d.span e)

/-- What follows the name of a property. -/
def property (loose : Bool) (c : Cursor) : Except Error Cursor :=
  let d := c.step loose
  if d.atEnd then deny .escapeEnd d.point
  else if d.sees (· = '\x7b') then deny .escapeEnd (d.skip d.rest.length).point
  else if d.sees (· = '\\') then deny .property d.here
  else .ok (d.step loose)

/-- What follows the edge of a word, which may be named in braces. The cursors stand at the
backslash and after the letter. -/
def wordEdge (loose : Bool) (start c : Cursor) : Except Error Cursor :=
  let inBraces (a : Char) : Bool := a.isAlpha || a = '-'
  let d := c.step loose
  if !c.sees (· = '\x7b') then .ok c
  else if d.atEnd then deny .boundaryEnd (start.span d)
  else if !d.sees inBraces then .ok c
  else deny .boundary (c.span (d.stepWhile loose inBraces).2)

def read (loose : Bool) (start : Cursor) : Except Error (Node × Cursor) :=
  let c := start.next
  let e := c.next
  let leaf (l : Leaf) (d : Cursor) : Node × Cursor := (.leaf (start.span d) l, d)
  let literal (a : Char) : Node × Cursor := leaf (.literal ⟨start.span e, a, false⟩) e
  match c.rest with
  | [] => deny .escapeEnd (start.span c)
  | a :: _ =>
    if a.isDigit then deny .backreference (start.span e)
    else if a = 'x' ∨ a = 'u' ∨ a = 'U' then do
      let (b, d) ← code loose a c
      return leaf (.literal ⟨start.span d, b, a = 'x'⟩) d
    else if a = 'p' ∨ a = 'P' then do return leaf .property (← property loose c)
    else if a = 'd' ∨ a = 's' ∨ a = 'w' then .ok (leaf (.shorthand false) e)
    else if a = 'D' ∨ a = 'S' ∨ a = 'W' then .ok (leaf (.shorthand true) e)
    else if a = 'A' ∨ a = 'z' then .ok (leaf .place e)
    else if a = 'b' then do return (.leaf (start.span e) .wordEdge, ← wordEdge loose start e)
    else if a = 'B' ∨ a = '<' ∨ a = '>' then .ok (leaf .wordEdge e)
    else if isPlain a then .ok (literal a)
    else match controls.lookup a with
      | some b => .ok (literal b)
      | none => deny .escape (start.span e)

end WereraChess.Pattern.Escape
