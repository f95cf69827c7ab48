import WereraChess.Lobby
/-!
# Messages

What two lobbies tell each other about a session. A move travels as its whole record, so it can be
merged in any order and more than once.
-/

namespace WereraChess

/-- A session is announced as it stands, and a refused submission with the refusal's code. -/
inductive Message where
  | sessionOpened (session : Session)
  | playerJoined (sessionId : Uuid) (player : Participant)
  | movePublished (sessionId : Uuid) (move : Move)
  | moveRejected (sessionId : Uuid) (reason message : String)
  | resigned (sessionId : Uuid) (side : Side)
  | timedOut (sessionId : Uuid) (side : Side)
  | gameEnded (sessionId : Uuid) (ending : Ending)
  | rematchRequested (sessionId : Uuid)
  deriving DecidableEq

namespace Message

def rejection (sessionId : Uuid) (r : Refusal) : Except Fault Message := do
  return .moveRejected sessionId r.code (← r.message)

def sessionId : Message → Uuid
  | sessionOpened s => s.id
  | playerJoined id _ | movePublished id _ | moveRejected id _ _ | resigned id _ | timedOut id _
  | gameEnded id _ | rematchRequested id => id

end Message

/-- Applies a message to a lobby. The reply tells of a game that has just ended and of a session
that has just been opened, the latter under the fresh identifier. -/
def Lobby.handle (l : Lobby) (fresh : Uuid) (m : Message) :
    Except Failure (Option Message × Lobby) := do
  match m with
  | .sessionOpened s => return (none, l.adopt s)
  | .playerJoined id player =>
    let (_, l) ← l.join id player
    return (none, l)
  | .movePublished id move =>
    let before ← l.standing id
    let (new, l) ← l.receive id move
    if !new then return (none, l)
    let after ← l.standing id
    match before.ending, after.ending with
    | none, some e => return (some (.gameEnded id e), l)
    | _, _ => return (none, l)
  | .moveRejected _ _ _ => return (none, l)
  | .resigned id side =>
    let (e, l) ← l.resign id side
    return (some (.gameEnded id e), l)
  | .timedOut id side =>
    let (e, l) ← l.timeOut id side
    return (some (.gameEnded id e), l)
  | .gameEnded _ _ => return (none, l)
  | .rematchRequested id =>
    let l ← l.rematch id fresh
    let s ← l.get fresh
    return (some (.sessionOpened s), l)

end WereraChess
