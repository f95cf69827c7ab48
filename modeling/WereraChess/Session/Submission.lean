import WereraChess.Session
/-!
# Submissions

A submission is checked in turn for an opponent, for the end of the game and the turn, for its time,
and for the movement of the piece. The first check that fails refuses it; one that passes them all is
logged.
-/

namespace WereraChess

/-- What the submitter of an accepted move learns. -/
structure Accepted where
  move : Move
  phase : Phase
  turn : Side
  ending : Option Ending
  deriving DecidableEq

namespace Session

/-- In normal play a record must be newer than all that are logged. -/
def checkTime (s : Session) (phase : Phase) (timestamp : UInt64) : Except Refusal Unit :=
  match phase, s.log.latest? with
  | .normal, some latest =>
    if timestamp ≤ latest then .error (.staleTimestamp timestamp latest) else .ok ()
  | _, _ => .ok ()

/-- Checks the movement on the board of the standing, and gives the kinds of the piece and of what
stands on its target. -/
def checkMovement (s : Session) (st : Standing) (side : Side) (source target : Coord) :
    Except Failure (Kind × Option Kind) := do
  let illegal (cause : IllegalCause) : Except Failure (Kind × Option Kind) :=
    refuse (.illegalMove source target cause)
  let origin ← source.onBoard
  match st.board.get origin with
  | none => illegal .noPiece
  | some piece =>
    if piece.owner ≠ side then illegal .opposingPiece
    else match target.square? with
      | none => illegal .unreachable
      | some goal =>
        if goal ∉ st.board.reach s.variant origin then illegal .unreachable
        else if !s.rules.allowsSelfCheck st.phase && st.board.exposesKing s.variant origin goal then
          illegal .exposesKing
        else return (piece.kind, (st.board.get goal).map Piece.kind)

/-- Submits a move of a side under a fresh identifier. -/
def submit (s : Session) (id : Uuid) (side : Side) (source target : Coord) (timestamp : UInt64) :
    Except Failure (Accepted × Session) := do
  if !s.seats.areFull then refuse .waitingForOpponent
  let before ← s.standing
  (Progress.resume before.phase before.turn).permit side
  s.checkTime before.phase timestamp
  let (piece, captured) ← s.checkMovement before side source target
  let move : Move := { id, source, target, mover := side, piece, captured, timestamp }
  let next := { s with log := s.log.insert move }
  let after ← next.standing
  let ending := if before.ending.isNone then after.ending else none
  return ({ move, phase := after.phase, turn := after.turn, ending }, next)

end Session

end WereraChess
