import WereraChess.Json.Token
/-!
# Writing values

The compact form has no blanks and is written by way of tokens. The spread form puts every item and
member on a line of its own, indented by two blanks for each level.
-/

namespace WereraChess.Json

mutual

def tokens : Json → List Token
  | .str q => [.str q]
  | .arr items => .openArray :: itemTokens items ++ [.closeArray]
  | .obj members => .openObject :: memberTokens members ++ [.closeObject]
  | j => [.scalar j]

def itemTokens : List Json → List Token
  | [] => []
  | [j] => tokens j
  | j :: js => tokens j ++ .comma :: itemTokens js

def memberTokens : List (Quoted × Json) → List Token
  | [] => []
  | [(q, j)] => .str q :: .colon :: tokens j
  | (q, j) :: ms => .str q :: .colon :: tokens j ++ .comma :: memberTokens ms

end

def compact (j : Json) : String := String.ofList (j.tokens.flatMap Token.chars)

def newline (level : Nat) : List Char := '\n' :: List.replicate (2 * level) ' '

mutual

/-- The spread form of a value at a level. Empty arrays and objects stay on their line. -/
def spreadChars (level : Nat) : Json → List Char
  | .arr [] => ['[', ']']
  | .arr items => '[' :: spreadItems (level + 1) items ++ newline level ++ [']']
  | .obj [] => ['\x7b', '\x7d']
  | .obj members => '\x7b' :: spreadMembers (level + 1) members ++ newline level ++ ['\x7d']
  | .str q => q.chars
  | j => Token.scalarChars j

def spreadItems (level : Nat) : List Json → List Char
  | [] => []
  | [j] => newline level ++ spreadChars level j
  | j :: js => newline level ++ spreadChars level j ++ ',' :: spreadItems level js

def spreadMembers (level : Nat) : List (Quoted × Json) → List Char
  | [] => []
  | [(q, j)] => newline level ++ q.chars ++ ':' :: ' ' :: spreadChars level j
  | (q, j) :: ms =>
    newline level ++ q.chars ++ ':' :: ' ' :: spreadChars level j ++ ',' :: spreadMembers level ms

end

def spread (j : Json) : String := String.ofList (spreadChars 0 j)

end WereraChess.Json
