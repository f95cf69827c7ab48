import WereraChess.Piece
/-!
# Piece letters

Two alphabets name the kinds by letters. The shared one serves both variants; the Senterej one takes
its letters from the Senterej names. The letter N stands for a knight in the one and for a king in
the other. Capitals are White's.
-/

namespace WereraChess

inductive Alphabet where
  | shared
  | senterej
  deriving DecidableEq

namespace Alphabet

def name : Alphabet → String
  | shared => "shared"
  | senterej => "senterej"

def ofName : String → Except UnknownName Alphabet :=
  Vocabulary.alphabet.find [("shared", shared), ("senterej", senterej), ("native", senterej)]

def letter : Alphabet → Kind → Char
  | shared, .king => 'K'
  | shared, .minister => 'Q'
  | shared, .elephant => 'B'
  | shared, .knight => 'N'
  | shared, .rook => 'R'
  | shared, .pawn => 'P'
  | senterej, .king => 'N'
  | senterej, .minister => 'F'
  | senterej, .elephant => 'S'
  | senterej, .knight => 'E'
  | senterej, .rook => 'D'
  | senterej, .pawn => 'M'

/-- The kind of a letter, capital or small. -/
def kind? (a : Alphabet) (c : Char) : Option Kind := Kind.all.find? fun k => a.letter k = c.toUpper

/-- The letter of a piece: a capital for White, small for Black. -/
def symbol (a : Alphabet) (p : Piece) : Char :=
  match p.owner with
  | .white => a.letter p.kind
  | .black => (a.letter p.kind).toLower

/-- The piece of a letter, as it is set up. -/
def piece? (a : Alphabet) (c : Char) : Option Piece :=
  (a.kind? c).map fun k => .fresh k (if c.isUpper then .white else .black)

/-- The letters, small, that belong to this alphabet alone. -/
def ownLetters : Alphabet → List Char
  | shared => ['k', 'q', 'b', 'r', 'p']
  | senterej => ['d', 'e', 'f', 's', 'm']

theorem kind?_letter (a : Alphabet) (k : Kind) : a.kind? (a.letter k) = some k := by
  cases a <;> cases k <;> decide

theorem piece?_symbol (a : Alphabet) (k : Kind) (s : Side) :
    a.piece? (a.symbol (.fresh k s)) = some (.fresh k s) := by
  cases a <;> cases k <;> cases s <;> decide

end Alphabet

end WereraChess
