import WereraChess.Board
import WereraChess.Fen.Alphabet
import WereraChess.Fen.Error
import WereraChess.Text.Fields
/-!
# The placement field

The pieces of a board as eight ranks from row 0 to row 7, separated by slashes. A rank lists its
squares from file a to file h, a piece as its letter and a run of empty squares as one digit. The
alphabet is not written down: a reader takes it from the letters that occur.
-/

namespace WereraChess

namespace Placement

/-- A run of `n` empty squares; nothing stands for no square. -/
def run : Nat → List Char
  | 0 => []
  | n => [Nat.digitChar n]

/-- The text of a rank, of which `n` empty squares have been seen already. -/
def rankText (a : Alphabet) : Nat → List (Option Piece) → List Char
  | n, [] => run n
  | n, none :: squares => rankText a (n + 1) squares
  | n, some p :: squares => run n ++ a.symbol p :: rankText a 0 squares

def text (a : Alphabet) (b : Board) : List Char :=
  ['/'].intercalate (b.rows.map (rankText a 0))

/-- Whether only this alphabet has the letter. -/
def isOwnLetter (a : Alphabet) (c : Char) : Bool := c.toLower ∈ a.ownLetters

/-- Whether the letter belongs to some alphabet. The letter N is the one that both have. -/
def isLetter (c : Char) : Bool :=
  isOwnLetter .shared c || isOwnLetter .senterej c || c.toLower = 'n'

/-- The first character that is neither a digit nor a letter, with its rank. -/
def stray? (ranks : List (List Char)) : Option (Nat × Char) :=
  (ranks.zipIdx 1).findSome? fun (rank, number) =>
    (rank.find? fun c => !c.isDigit && !isLetter c).map (number, ·)

/-- The alphabet of a placement. If all letters are N they are read as Senterej kings. -/
def alphabetOf (ranks : List (List Char)) : Except FenError Alphabet :=
  let letters := ranks.flatten.filter fun c => !c.isDigit
  match stray? ranks with
  | some (number, c) => .error (.unknownPiece number c)
  | none =>
    match letters.find? (isOwnLetter .shared), letters.find? (isOwnLetter .senterej) with
    | some c, some d => .error (.mixedAlphabets c d)
    | some _, none => .ok .shared
    | none, some _ => .ok .senterej
    | none, none => .ok (if letters = [] then .shared else .senterej)

/-- What has been read of a placement: the squares of the current rank and the sides whose king has
been seen. -/
structure Reading where
  squares : List (Option Piece)
  kings : List Side

/-- Adds the squares that one character of rank `number` stands for. -/
def readChar (a : Alphabet) (number : Nat) (p : Reading) (c : Char) :
    Except FenError Reading := do
  let next ←
    if c.isDigit then
      let n := c.toNat - 48
      if 1 ≤ n ∧ n ≤ 8 then
        pure { p with squares := p.squares ++ List.replicate n none }
      else throw (.invalidRunLength number c)
    else
      match a.piece? c with
      | none => throw (.unknownPiece number c)
      | some piece =>
        let squares := p.squares ++ [some piece]
        if piece.kind = .king then
          if piece.owner ∈ p.kings then throw (.duplicateKing piece.owner)
          else pure ⟨squares, piece.owner :: p.kings⟩
        else pure { p with squares }
  if next.squares.length ≤ 8 then return next
  else throw (.rankWidth number next.squares.length)

/-- Reads one rank; `kings` are the sides whose king stands on an earlier one. -/
def readRank (a : Alphabet) (number : Nat) (kings : List Side) (rank : List Char) :
    Except FenError Reading := do
  let p ← rank.foldlM (readChar a number) ⟨[], kings⟩
  if p.squares.length = 8 then return p else throw (.rankWidth number p.squares.length)

/-- Reads the ranks from rank `number` on. -/
def readRanks (a : Alphabet) (number : Nat) (kings : List Side) :
    List (List Char) → Except FenError (List (List (Option Piece)))
  | [] => return []
  | rank :: ranks => do
    let p ← readRank a number kings rank
    return p.squares :: (← readRanks a (number + 1) p.kings ranks)

/-- Reads a placement, and says in which alphabet it is. -/
def read (field : List Char) : Except FenError (Board × Alphabet) := do
  let ranks := Text.splitWhere (· = '/') field
  if ranks.length ≠ 8 then throw (.rankCount ranks.length)
  let a ← alphabetOf ranks
  let rows ← readRanks a 1 [] ranks
  return (Board.ofRows rows, a)

end Placement

end WereraChess
