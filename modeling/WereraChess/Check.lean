import WereraChess.Board.Relocation
import WereraChess.Movement
/-!
# Check

A king is in check when an opposing piece reaches its square. A side without a king is never in
check.
-/

namespace WereraChess.Board

def inCheck (b : Board) (v : Variant) (side : Side) : Bool :=
  match b.king? side with
  | some s => b.reachedBy v side.opponent s
  | none => false

/-- Whether the move leaves the mover's own king in check; `false` if there is no piece to move. -/
def exposesKing (b : Board) (v : Variant) (source target : Square) : Bool :=
  match b.get source with
  | some p => (b.after source target).inCheck v p.owner
  | none => false

/-- The destinations that do not leave the mover's own king in check, row by row. -/
def safeDestinations (b : Board) (v : Variant) (s : Square) : List Square :=
  (b.destinations v s).filter fun t => !b.exposesKing v s t

def hasSafeMove (b : Board) (v : Variant) (side : Side) : Bool :=
  (b.piecesOf side).any fun (s, _) => (b.reach v s).any fun t => !b.exposesKing v s t

/-- Whether the side has a move, own king's safety aside. -/
def hasMove (b : Board) (v : Variant) (side : Side) : Bool :=
  (b.piecesOf side).any fun (s, _) => !(b.reach v s).isEmpty

def isCheckmate (b : Board) (v : Variant) (side : Side) : Bool :=
  b.inCheck v side && !b.hasSafeMove v side

def isStalemate (b : Board) (v : Variant) (side : Side) : Bool :=
  !b.inCheck v side && !b.hasSafeMove v side

/-- Whether the side's only piece is a king. -/
def isBareKing (b : Board) (side : Side) : Bool :=
  match b.piecesOf side with
  | [(_, p)] => p.kind = .king
  | _ => false

end WereraChess.Board
