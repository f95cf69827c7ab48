import WereraChess.Json.Quoted
/-!
# Tokens

A document is a row of tokens with blanks between them: brackets, braces, commas, colons, strings,
numbers and the three words. `Token.scan?` goes through the characters one by one.
-/

namespace WereraChess.Json

/-- A scalar is a number or one of the words `true`, `false` and `null`. -/
inductive Token where
  | openArray
  | closeArray
  | openObject
  | closeObject
  | comma
  | colon
  | str (q : Quoted)
  | scalar (j : Json)

namespace Token

/-- The blanks of JSON, which are fewer than those of other text. -/
def isSpace (c : Char) : Bool := c = ' ' || c = '\t' || c = '\n' || c = '\r'

def isNumberChar (c : Char) : Bool :=
  c.isDigit || c = '-' || c = '+' || c = '.' || c = 'e' || c = 'E'

/-- One or more digits, and what follows them. -/
def digits? (cs : List Char) : Option (List Char × List Char) :=
  let whole := cs.takeWhile Char.isDigit
  if whole = [] then none else some (whole, cs.dropWhile Char.isDigit)

def skipFraction? : List Char → Option (List Char)
  | '.' :: cs => (digits? cs).map Prod.snd
  | cs => some cs

def skipExponent? : List Char → Option (List Char)
  | [] => some []
  | c :: cs =>
    if c = 'e' ∨ c = 'E' then
      match cs with
      | '+' :: ds | '-' :: ds => (digits? ds).map Prod.snd
      | ds => (digits? ds).map Prod.snd
    else some (c :: cs)

/-- Reads a number: no leading zeros, digits on both sides of the point. Negative zero is no
integer. -/
def number? (lexeme : List Char) : Option Json := do
  let negative := lexeme.head? = some '-'
  let (whole, rest) ← digits? (if negative then lexeme.drop 1 else lexeme)
  if whole.head? = some '0' ∧ whole ≠ ['0'] then none
  if (← skipExponent? (← skipFraction? rest)) ≠ [] then none
  if rest ≠ [] ∨ (negative ∧ whole = ['0']) then return .real (String.ofList lexeme)
  let n : Int := Nat.ofDigitChars 10 whole 0
  return .int (if negative then -n else n)

def word? (letters : List Char) : Option Json :=
  if letters = ['n', 'u', 'l', 'l'] then some .null
  else if letters = ['t', 'r', 'u', 'e'] then some (.bool true)
  else if letters = ['f', 'a', 'l', 's', 'e'] then some (.bool false)
  else none

/-- Where a scan stands: between tokens, or within one whose characters so far are kept, the last
one first. -/
inductive Mode where
  | between
  | word (seen : List Char)
  | number (seen : List Char)
  | string (seen : List Char)
  | escape (seen : List Char)

/-- A scan with the tokens that it has completed, the last one first. -/
structure Scan where
  mode : Mode
  tokens : List Token

/-- Completes a word or number that ends here. -/
def Scan.flush? (s : Scan) : Option (List Token) :=
  match s.mode with
  | .between => some s.tokens
  | .word seen => (word? seen.reverse).map (.scalar · :: s.tokens)
  | .number seen => (number? seen.reverse).map (.scalar · :: s.tokens)
  | .string _ | .escape _ => none

def Scan.begin? (tokens : List Token) (c : Char) : Option Scan :=
  if isSpace c then some ⟨.between, tokens⟩
  else if c = '[' then some ⟨.between, .openArray :: tokens⟩
  else if c = ']' then some ⟨.between, .closeArray :: tokens⟩
  else if c = '\x7b' then some ⟨.between, .openObject :: tokens⟩
  else if c = '\x7d' then some ⟨.between, .closeObject :: tokens⟩
  else if c = ',' then some ⟨.between, .comma :: tokens⟩
  else if c = ':' then some ⟨.between, .colon :: tokens⟩
  else if c = '"' then some ⟨.string [], tokens⟩
  else if c.isDigit ∨ c = '-' then some ⟨.number [c], tokens⟩
  else if c.isLower then some ⟨.word [c], tokens⟩
  else none

/-- Takes the next character. -/
def Scan.next? (s : Scan) (c : Char) : Option Scan :=
  match s.mode with
  | .between => begin? s.tokens c
  | .word seen =>
    if c.isLower then some ⟨.word (c :: seen), s.tokens⟩ else s.flush?.bind (begin? · c)
  | .number seen =>
    if isNumberChar c then some ⟨.number (c :: seen), s.tokens⟩ else s.flush?.bind (begin? · c)
  | .string seen =>
    if c = '"' then (Quoted.ofBody? seen.reverse).map fun q => ⟨.between, .str q :: s.tokens⟩
    else if c = '\\' then some ⟨.escape (c :: seen), s.tokens⟩
    else some ⟨.string (c :: seen), s.tokens⟩
  | .escape seen => some ⟨.string (c :: seen), s.tokens⟩

/-- The tokens of a text. -/
def scan? (cs : List Char) : Option (List Token) :=
  ((cs.foldlM Scan.next? ⟨.between, []⟩).bind Scan.flush?).map List.reverse

def scalarChars : Json → List Char
  | .null => "null".toList
  | .bool true => "true".toList
  | .bool false => "false".toList
  | .int (.ofNat n) => Nat.toDigits 10 n
  | .int (.negSucc n) => '-' :: Nat.toDigits 10 (n + 1)
  | .real lexeme => lexeme.toList
  | _ => []

def chars : Token → List Char
  | openArray => ['[']
  | closeArray => [']']
  | openObject => ['\x7b']
  | closeObject => ['\x7d']
  | comma => [',']
  | colon => [':']
  | str q => q.chars
  | scalar j => scalarChars j

end Token

end WereraChess.Json
