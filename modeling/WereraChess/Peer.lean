import WereraChess.Session.Submission
/-!
# Peers

A peer plays one side of a session on its own replica. It drops a submission that repeats its last
accepted one within the house rules' window.
-/

namespace WereraChess

/-- The last accepted submission of a peer. -/
structure Click where
  source : Coord
  target : Coord
  timestamp : UInt64
  deriving DecidableEq

structure Peer where
  side : Side
  session : Session
  last : Option Click
  deriving DecidableEq

namespace Peer

def ofSession (side : Side) (s : Session) : Peer := ⟨side, s, none⟩

/-- Whether a submission repeats the click: the same squares, and its time less than `window` later,
or earlier. -/
def Click.repeats (window : UInt64) (c d : Click) : Bool :=
  c.source = d.source && c.target = d.target
    && d.timestamp.toNat - c.timestamp.toNat < window.toNat

/-- Submits a move of the peer's side; `none` if it was dropped as a repetition. -/
def submit (p : Peer) (id : Uuid) (source target : Coord) (timestamp : UInt64) :
    Except Failure (Option Move × Peer) := do
  let click : Click := ⟨source, target, timestamp⟩
  if p.last.any fun last => Click.repeats p.session.rules.dedupWindow last click then
    return (none, p)
  let (accepted, session) ← p.session.submit id p.side source target timestamp
  return (some accepted.move, { p with session, last := some click })

def receive (p : Peer) (m : Move) : Except Fault (Bool × Peer) := do
  let (new, session) ← p.session.receive m
  return (new, { p with session })

end Peer

end WereraChess
