import WereraChess.Ending
import WereraChess.Fen.Error
import WereraChess.Square.Name
import WereraChess.Uuid
/-!
# Refusals

Why a session or a registry of sessions declines a request. A refused request changes nothing. A
`Failure` is a refusal or a fault in the data.
-/

namespace WereraChess

inductive IllegalCause where
  | noPiece
  | opposingPiece
  | unreachable
  | exposesKing
  deriving DecidableEq

def IllegalCause.text : IllegalCause → String
  | .noPiece => "no piece on the source square"
  | .opposingPiece => "piece belongs to the opponent"
  | .unreachable => "piece cannot move there"
  | .exposesKing => "move would leave the king in check"

inductive Refusal where
  | illegalMove (source target : Coord) (cause : IllegalCause)
  | notYourTurn (side : Side)
  | gameOver (reason : EndReason)
  | waitingForOpponent
  | seatsTaken
  | staleTimestamp (claimed latest : UInt64)
  | unknownSession (id : Uuid)
  | badFen (e : FenError)
  deriving DecidableEq

namespace Refusal

/-- A stable word for programs. -/
def code : Refusal → String
  | illegalMove _ _ _ => "illegal-move"
  | notYourTurn _ => "not-your-turn"
  | gameOver _ => "session-complete"
  | waitingForOpponent => "waiting-for-opponent"
  | seatsTaken => "session-full"
  | staleTimestamp _ _ => "stale-timestamp"
  | unknownSession _ => "unknown-session"
  | badFen _ => "fen-parse-error"

/-- A sentence for people. It cannot be given for a move between squares without names. -/
def message : Refusal → Except Fault String
  | illegalMove source target cause => do
    let s ← source.name
    let t ← target.name
    return "Illegal move " ++ s ++ " -> " ++ t ++ ": " ++ cause.text
  | notYourTurn side => return "Not your turn: " ++ side.name ++ " cannot move now"
  | gameOver reason => return "Game already over (" ++ reason.name ++ ")"
  | waitingForOpponent => return "Waiting for an opponent to join"
  | seatsTaken => return "Game is full"
  | staleTimestamp claimed latest =>
    return "Stale timestamp " ++ toString claimed.toNat ++ ": newest logged move is at "
      ++ toString latest.toNat
  | unknownSession id => return "Unknown session " ++ id.text
  | badFen e => return "FEN parse error: " ++ e.message

end Refusal

inductive Failure where
  | fault (f : Fault)
  | refused (r : Refusal)
  deriving DecidableEq

instance : MonadLift (Except Fault) (Except Failure) where
  monadLift
    | .ok a => .ok a
    | .error f => .error (.fault f)

instance : MonadLift (Except Refusal) (Except Failure) where
  monadLift
    | .ok a => .ok a
    | .error r => .error (.refused r)

/-- Fails with a refusal. -/
def refuse {α : Type} (r : Refusal) : Except Failure α := .error (.refused r)

end WereraChess
