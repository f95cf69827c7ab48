import WereraChess.Json.Value
import WereraChess.Text.Hex
/-!
# Quoted strings

Between its quotes a string is written character by character. Quotes, backslashes and the control
characters below the blank are escaped; a reader takes further escapes, among them code units of
UTF-16, of which surrogates count only in pairs.
-/

namespace WereraChess.Json.Quoted

def escape (c : Char) : List Char :=
  if c = '"' then ['\\', '"']
  else if c = '\\' then ['\\', '\\']
  else if c = '\x08' then ['\\', 'b']
  else if c = '\x0c' then ['\\', 'f']
  else if c = '\n' then ['\\', 'n']
  else if c = '\r' then ['\\', 'r']
  else if c = '\t' then ['\\', 't']
  else if c.toNat < 0x20 then
    ['\\', 'u', '0', '0', Text.hexDigit (c.toNat / 16), Text.hexDigit (c.toNat % 16)]
  else [c]

/-- What one unit of a written string stands for: a character, or a code unit of UTF-16. -/
inductive CodePart where
  | char (c : Char)
  | unit (n : Nat)

def unescape? : Char → Option Char
  | '"' => some '"'
  | '\\' => some '\\'
  | '/' => some '/'
  | 'b' => some '\x08'
  | 'f' => some '\x0c'
  | 'n' => some '\n'
  | 'r' => some '\r'
  | 't' => some '\t'
  | _ => none

/-- The parts of a written string; `none` if an escape is malformed or a control character is not
escaped. -/
def parts? : List Char → Option (List CodePart)
  | [] => some []
  | '\\' :: 'u' :: a :: b :: c :: d :: cs => do
    let n ← Text.hex? [a, b, c, d]
    return .unit n :: (← parts? cs)
  | '\\' :: e :: cs => do
    let c ← unescape? e
    return .char c :: (← parts? cs)
  | c :: cs => if c = '\\' ∨ c.toNat < 0x20 then none else return .char c :: (← parts? cs)

def isHighSurrogate (n : Nat) : Bool := 0xD800 ≤ n ∧ n < 0xDC00

def isLowSurrogate (n : Nat) : Bool := 0xDC00 ≤ n ∧ n < 0xE000

/-- Joins the parts to characters; `none` if a surrogate lacks its partner. -/
def join? : List CodePart → Option (List Char)
  | [] => some []
  | .char c :: ps => return c :: (← join? ps)
  | .unit n :: .unit m :: ps =>
    if isHighSurrogate n then
      if isLowSurrogate m then
        return Char.ofNat (0x10000 + 0x400 * (n - 0xD800) + (m - 0xDC00)) :: (← join? ps)
      else none
    else if isLowSurrogate n then none
    else return Char.ofNat n :: (← join? (.unit m :: ps))
  | .unit n :: ps =>
    if isHighSurrogate n || isLowSurrogate n then none else return Char.ofNat n :: (← join? ps)

/-- Reads what stands between two quotes. -/
def ofBody? (body : List Char) : Option Quoted :=
  (parts? body).map fun ps =>
    match join? ps with
    | some cs => .text (String.ofList cs)
    | none => .unpaired

def body : Quoted → List Char
  | text s => s.toList.flatMap escape
  | unpaired => ['\\', 'u', 'd', '8', '0', '0']

def chars (q : Quoted) : List Char := '"' :: q.body ++ ['"']

end WereraChess.Json.Quoted
