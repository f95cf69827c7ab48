import WereraChess.Phase
import WereraChess.Refusal
/-!
# Progress of a game

The phase, the side to move and the ending. A move passes the turn to the other side; the first
capture ends the werera; a finished game stays finished.
-/

namespace WereraChess

structure Progress where
  phase : Phase
  turn : Side
  ending : Option Ending
  deriving DecidableEq

namespace Progress

/-- Progress without an ending. -/
def resume (phase : Phase) (turn : Side) : Progress := ⟨phase, turn, none⟩

/-- Progress at the start of a game. -/
def initial (v : Variant) : Progress := resume (.initial v) .white

/-- Whether the side may submit a move: always in the werera, on its turn in normal play. -/
def permit (p : Progress) (side : Side) : Except Refusal Unit :=
  match p.phase with
  | .complete reason => .error (.gameOver reason)
  | .werera => .ok ()
  | .normal => if side = p.turn then .ok () else .error (.notYourTurn side)

/-- Records a move of the side. -/
def record (p : Progress) (mover : Side) (captured : Bool) : Progress :=
  match p.phase with
  | .werera => { p with turn := mover.opponent, phase := if captured then .normal else .werera }
  | .normal => { p with turn := mover.opponent }
  | .complete _ => p

/-- Ends the game, unless it has ended. -/
def finish (p : Progress) (e : Ending) : Progress :=
  if p.phase.isComplete then p else { p with phase := .complete e.reason, ending := some e }

def finish? (p : Progress) : Option Ending → Progress
  | some e => p.finish e
  | none => p

end Progress

end WereraChess
