import WereraChess.Board
/-!
# Relocating a piece

A piece goes from one square to another and takes what stands there. Whether its movement allows
that is not asked here.
-/

namespace WereraChess

/-- What a relocation did: the piece as it stood before, the opposing piece that it took, and the
board after it. -/
structure Relocation where
  piece : Piece
  captured : Option Piece
  promoted : Bool
  board : Board

namespace Piece

/-- A pawn that arrives on its promotion row is promoted. -/
def promotesAt (p : Piece) (s : Square) : Bool :=
  p.kind = .pawn ∧ s.row = p.owner.promotionRow

/-- The piece as it arrives on the square: moved, and a minister if it was promoted. -/
def arrivedAt (p : Piece) (s : Square) : Piece :=
  { p with kind := if p.promotesAt s then .minister else p.kind, hasMoved := true }

end Piece

namespace Board

/-- Relocates the piece on `source`; `none` only if there is none. -/
def relocate (b : Board) (source target : Square) : Option Relocation :=
  (b.get source).map fun piece =>
    { piece
      captured := (b.get target).filter (·.owner ≠ piece.owner)
      promoted := piece.promotesAt target
      board := (b.set source none).set target (some (piece.arrivedAt target)) }

/-- Relocation between pairs of bytes; the target is looked at only if the source holds a piece. -/
def relocateCoord (b : Board) (source target : Coord) : Except Fault (Option Relocation) := do
  let s ← source.onBoard
  if b.get s = none then return none
  let t ← target.onBoard
  return b.relocate s t

/-- The board after the relocation, unchanged if there is no piece on `source`. -/
def after (b : Board) (source target : Square) : Board :=
  match b.relocate source target with
  | some r => r.board
  | none => b

end Board

end WereraChess
