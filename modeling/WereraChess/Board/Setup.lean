import WereraChess.Board
/-!
# Setting up a board

The opening setup of each variant, and boards made from a list of placements.
-/

namespace WereraChess

/-- The back row of both sides from file a to file h. -/
def Variant.backRow : Variant → Vector Kind 8
  | .senterej => #v[.rook, .knight, .minister, .elephant, .knight, .elephant, .king, .rook]
  | .standard => #v[.rook, .knight, .elephant, .minister, .king, .elephant, .knight, .rook]

namespace Board

/-- Pieces behind pawns, Black on the rows 0 and 1, White on the rows 7 and 6. -/
def initial (v : Variant) : Board :=
  ofFn fun s =>
    match s.row with
    | 0 => some (.fresh v.backRow[s.col] .black)
    | 1 => some (.fresh .pawn .black)
    | 6 => some (.fresh .pawn .white)
    | 7 => some (.fresh v.backRow[s.col] .white)
    | _ => none

/-- Puts the pieces on an empty board in turn; of several on one square the last stays. -/
def ofPieces (pieces : List (Kind × Side × Square)) : Board :=
  pieces.foldl (fun b (kind, side, s) => b.set s (some (.fresh kind side))) empty

end Board

end WereraChess
