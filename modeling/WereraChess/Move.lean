import WereraChess.Move.Key
import WereraChess.Piece
import WereraChess.Square.Name
import WereraChess.Uuid
/-!
# Move records

A record of an accepted move. What it says about the pieces holds for the board on which it was
accepted. Records are ordered by time, then side, then identifier; the full order breaks ties between
different records of one identifier.
-/

namespace WereraChess

/-- The kinds are those of the moving piece and of the piece on the target, and the time is in
milliseconds, all as the submitter claims them. -/
structure Move where
  id : Uuid
  source : Coord
  target : Coord
  mover : Side
  piece : Kind
  captured : Option Kind
  timestamp : UInt64
  deriving DecidableEq

namespace Move

/-- The canonical order is that of the keys. -/
def key (m : Move) : Key := [m.timestamp.toNat, m.mover.ordinal, m.id.value.toNat]

/-- The identifier, the key and then everything else. No two records agree in it. -/
def fullKey (m : Move) : Key :=
  m.id.value.toNat :: m.key
    ++ [m.source.row.toNat, m.source.col.toNat, m.target.row.toNat, m.target.col.toNat,
      m.piece.ordinal, match m.captured with | none => 0 | some k => k.ordinal + 1]

/-- Keeps the first record of every run with one identifier. -/
def firstOfEach : List Move → List Move
  | [] => []
  | m :: ms => m :: (firstOfEach ms).dropWhile (·.id = m.id)

/-- The records in canonical order. Of several with one identifier the least in the full order
stays. -/
def canonical (ms : List Move) : List Move :=
  (firstOfEach (ms.mergeSort fun a b => a.fullKey.le b.fullKey)).mergeSort
    fun a b => a.key.le b.key

def text (m : Move) : Except Fault String := do
  let source ← m.source.name
  let target ← m.target.name
  let link := if m.captured.isSome then "x" else "-"
  return m.mover.name ++ " " ++ source ++ link ++ target ++ " @" ++ toString m.timestamp.toNat

end Move

end WereraChess
