import WereraChess.Replay
/-!
# Sessions

A session is a game between two seats: its opening, its log and, once somebody has resigned or run
out of time, a resolution. Everything else follows by replay.
-/

namespace WereraChess

structure Participant where
  id : Uuid
  name : String
  deriving DecidableEq

structure Seats where
  white : Option Participant
  black : Option Participant
  deriving DecidableEq

namespace Seats

def empty : Seats := ⟨none, none⟩

def get (s : Seats) : Side → Option Participant
  | .white => s.white
  | .black => s.black

def areFull (s : Seats) : Bool := s.white.isSome && s.black.isSome

/-- The side of the participant with the identifier, White first. -/
def sideOf? (s : Seats) (id : Uuid) : Option Side :=
  [Side.white, .black].find? fun side => (s.get side).any (·.id = id)

/-- Takes the free seat, White's first. -/
def take? (s : Seats) (p : Participant) : Option (Side × Seats) :=
  match s.white, s.black with
  | none, _ => some (.white, { s with white := some p })
  | some _, none => some (.black, { s with black := some p })
  | some _, some _ => none

def swapped (s : Seats) : Seats := ⟨s.black, s.white⟩

end Seats

/-- A session may have been resolved by a resignation or timeout. -/
structure Session where
  id : Uuid
  variant : Variant
  seats : Seats
  opening : Opening
  log : MoveLog
  resolution : Option Ending
  rules : HouseRules
  deriving DecidableEq

namespace Session

/-- Where a session stands, seen from outside. -/
inductive Status where
  | waiting
  | active
  | complete (reason : EndReason)
  deriving DecidableEq

def Status.text : Status → String
  | .waiting => "waiting"
  | .active => "active"
  | .complete reason => "complete(" ++ reason.name ++ ")"

/-- A new session without records, under the usual rules. -/
def start (id : Uuid) (v : Variant) (seats : Seats) (o : Opening) : Session :=
  { id, variant := v, seats, opening := o, log := .empty, resolution := none, rules := {} }

/-- A session from the opening setup with both seats filled. -/
def create (id : Uuid) (v : Variant) (white black : Participant) : Session :=
  start id v ⟨some white, some black⟩ (.initial v)

/-- A session from the opening setup whose host waits for a second player. -/
def host (id : Uuid) (v : Variant) (white : Participant) : Session :=
  start id v ⟨some white, none⟩ (.initial v)

/-- A session from a position line. The variant is the line's unless one is given; a variant without
werera plays a line in the werera normally. -/
def ofFen (id : Uuid) (text : String) (v : Option Variant) (seats : Seats) :
    Except Refusal Session :=
  match Fen.ofText text with
  | .error e => .error (.badFen e)
  | .ok f =>
    match v with
    | none => .ok (start id f.variant seats (.ofFen f))
    | some v =>
      let phase := if !v.hasWerera && f.phase = .werera then .normal else f.phase
      .ok (start id v seats { Opening.ofFen f with phase })

/-- The standing by the log alone. -/
def replayed (s : Session) : Except Fault Standing :=
  replay s.variant s.rules s.opening s.log.moves

/-- The standing by the log and the resolution. -/
def standing (s : Session) : Except Fault Standing := do
  let st ← s.replayed
  return match s.resolution with
    | some e => st.declare e
    | none => st

def status (s : Session) : Except Fault Status := do
  if !s.seats.areFull then return .waiting
  match (← s.standing).phase with
  | .complete reason => return .complete reason
  | _ => return .active

def join (s : Session) (p : Participant) : Except Refusal (Side × Session) :=
  match s.seats.take? p with
  | some (side, seats) => .ok (side, { s with seats })
  | none => .error .seatsTaken

/-- Adds a record that was accepted elsewhere. It has to have a text; one that is known already
changes nothing. -/
def receive (s : Session) (m : Move) : Except Fault (Bool × Session) := do
  let _ ← m.text
  return (!s.log.contains m.id, { s with log := s.log.insert m })

/-- Resolves a running game. -/
def declare (s : Session) (e : Ending) : Except Failure (Ending × Session) := do
  match (← s.standing).phase with
  | .complete reason => refuse (.gameOver reason)
  | _ => return (e, { s with resolution := some e })

def resign (s : Session) (side : Side) : Except Failure (Ending × Session) :=
  s.declare (.resignation side)

def timeOut (s : Session) (side : Side) : Except Failure (Ending × Session) :=
  s.declare (.timeout side)

def line (s : Session) (a : Alphabet) : Except Fault String := do
  return ((← s.standing).fen a).line

/-- A new session of the same pair under the same rules, with the colours swapped. -/
def rematch (s : Session) (id : Uuid) : Session :=
  { start id s.variant s.seats.swapped (.initial s.variant) with rules := s.rules }

end Session

end WereraChess
