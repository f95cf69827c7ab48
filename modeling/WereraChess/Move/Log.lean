import WereraChess.Move
/-!
# Move logs

A log holds the records of a game in canonical order. Built by insertion it is in order and holds
every identifier once; a log that was read from text keeps the order of the text.
-/

namespace WereraChess

structure MoveLog where
  moves : List Move
  deriving DecidableEq

namespace MoveLog

def empty : MoveLog := ⟨[]⟩

def get? (log : MoveLog) (id : Uuid) : Option Move := log.moves.find? (·.id = id)

def contains (log : MoveLog) (id : Uuid) : Bool := log.moves.any (·.id = id)

def latest? (log : MoveLog) : Option UInt64 := log.moves.getLast?.map Move.timestamp

/-- Narrows `size` places from `base` on down to one by halving. The upper half is kept if its first
record does not come after the key. -/
def narrow (moves : List Move) (key : Key) (base size : Nat) : Nat :=
  if 1 < size then
    let middle := base + size / 2
    let base' := if moves[middle]?.any fun m => m.key.le key then middle else base
    narrow moves key base' (size - size / 2)
  else base
termination_by size

/-- The place at which a record with the key belongs. -/
def slot (moves : List Move) (key : Key) : Nat :=
  let place := narrow moves key 0 moves.length
  if moves[place]?.any fun m => m.key.lt key then place + 1 else place

/-- Puts a record in its place; a record whose identifier is there already changes nothing. -/
def insert (log : MoveLog) (m : Move) : MoveLog :=
  if log.contains m.id then log else ⟨log.moves.insertIdx (slot log.moves m.key) m⟩

/-- Inserts a record, and tells whether its identifier is new. -/
def offer (log : MoveLog) (m : Move) : Bool × MoveLog := (!log.contains m.id, log.insert m)

def ofList (ms : List Move) : MoveLog := ms.foldl insert empty

end MoveLog

end WereraChess
