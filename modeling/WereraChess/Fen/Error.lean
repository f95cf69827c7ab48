import WereraChess.Side
/-!
# Faulty position lines

Each way in which a line fails to describe a position, and the words that report it. Ranks are
counted from 1.
-/

namespace WereraChess

inductive FenError where
  | empty
  | tooManyFields (found : Nat)
  | missingActiveColor
  | rankCount (found : Nat)
  | rankWidth (rank squares : Nat)
  | invalidRunLength (rank : Nat) (digit : Char)
  | unknownPiece (rank : Nat) (letter : Char)
  | mixedAlphabets (shared senterej : Char)
  | duplicateKing (side : Side)
  | invalidActiveColor (field : String)
  | invalidPhase (field : String)
  | invalidMoveCount (field : String)
  deriving DecidableEq

def FenError.message : FenError → String
  | .empty => "FEN string is empty"
  | .tooManyFields found =>
    "expected at most 4 fields (ranks, color, phase, move count), found " ++ toString found
  | .missingActiveColor => "missing active color field (expected 'w' or 'b')"
  | .rankCount found => "expected 8 ranks separated by '/', found " ++ toString found
  | .rankWidth rank squares =>
    "rank " ++ toString rank ++ " describes " ++ toString squares
      ++ " squares, expected exactly 8"
  | .invalidRunLength rank digit =>
    "rank " ++ toString rank ++ ": empty-square run '" ++ digit.toString
      ++ "' must be between 1 and 8"
  | .unknownPiece rank letter =>
    "rank " ++ toString rank ++ ": unknown piece letter '" ++ letter.toString ++ "'"
  | .mixedAlphabets shared senterej =>
    "piece letters mix the shared alphabet ('" ++ shared.toString
      ++ "') with the Senterej alphabet ('" ++ senterej.toString ++ "')"
  | .duplicateKing side => side.name ++ " has more than one king"
  | .invalidActiveColor field =>
    "invalid active color '" ++ field ++ "' (expected 'w' or 'b')"
  | .invalidPhase field => "invalid phase '" ++ field ++ "' (expected 'werera' or 'normal')"
  | .invalidMoveCount field =>
    "invalid move count '" ++ field ++ "' (expected a non-negative integer)"

end WereraChess
