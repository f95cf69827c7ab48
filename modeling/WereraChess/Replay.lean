import WereraChess.Board.Setup
import WereraChess.Captures
import WereraChess.Fen.Line
import WereraChess.HouseRules
import WereraChess.Move.Log
import WereraChess.Progress
/-!
# Replay

The standing of a game follows from its opening and its records alone: the records are put into
canonical order and applied one after the other. A record is applied if its source holds a piece of
its mover and its target does not; movement was checked when it was accepted. All others are
skipped, as is everything after the end of the game.
-/

namespace WereraChess

structure Opening where
  board : Board
  phase : Phase
  turn : Side
  moveCount : UInt32
  deriving DecidableEq

namespace Opening

/-- The opening setup of a variant. -/
def initial (v : Variant) : Opening := ⟨.initial v, .initial v, .white, 0⟩

def ofFen (f : Fen) : Opening := ⟨f.board, f.phase, f.active, f.moveCount⟩

end Opening

/-- The standing of a game. It knows whether the side to move is in check and which records were not
applied, in canonical order. -/
structure Standing where
  variant : Variant
  board : Board
  turn : Side
  captures : Captures
  check : Bool
  checkmate : Bool
  stalemate : Bool
  winner : Option Side
  phase : Phase
  moveCount : UInt32
  ending : Option Ending
  skipped : List Uuid
  deriving DecidableEq

/-- A replay between two records. -/
structure Course where
  board : Board
  progress : Progress
  captures : Captures
  moveCount : UInt32
  skipped : List Uuid
  deriving DecidableEq

/-- Whether a move that leaves the own king in check counts as one in the phase. -/
def HouseRules.allowsSelfCheck (rules : HouseRules) (phase : Phase) : Bool :=
  phase = .werera && rules.selfCheckInWerera

namespace Course

/-- Ends the game if the position with `side` to move has ended it. -/
def settle (v : Variant) (rules : HouseRules) (c : Course) (side : Side) : Course :=
  let ending := c.board.ending? v side (rules.allowsSelfCheck c.progress.phase)
  { c with progress := c.progress.finish? ending }

def start (v : Variant) (rules : HouseRules) (o : Opening) : Course :=
  settle v rules ⟨o.board, .resume o.phase o.turn, .none, o.moveCount, []⟩ o.turn

def skip (c : Course) (m : Move) : Course := { c with skipped := c.skipped ++ [m.id] }

/-- Whether the record's source holds a piece of its mover and its target does not. -/
def applies (c : Course) (m : Move) (source target : Square) : Bool :=
  c.board.ownerAt source = some m.mover && c.board.ownerAt target ≠ some m.mover

/-- Records a relocation of `mover`. The counter has to have room for it. -/
def advance (c : Course) (mover : Side) (r : Relocation) : Except Fault Course :=
  if c.moveCount.toNat + 1 < UInt32.size then
    .ok { c with
      board := r.board
      captures := match r.captured with
        | some p => c.captures.add p.owner p.kind
        | none => c.captures
      moveCount := c.moveCount + 1
      progress := c.progress.record mover r.captured.isSome }
  else .error .counterFull

/-- Applies or skips one record. -/
def play (v : Variant) (rules : HouseRules) (c : Course) (m : Move) : Except Fault Course := do
  if c.progress.phase.isComplete then return c.skip m
  let source ← m.source.onBoard
  let target ← m.target.onBoard
  if !c.applies m source target then return c.skip m
  match c.board.relocate source target with
  | none => return c.skip m
  | some r => return (← c.advance m.mover r).settle v rules m.mover.opponent

/-- The standing that a replay has come to. -/
def standing (v : Variant) (c : Course) : Standing :=
  let ending := c.progress.ending
  { variant := v
    board := c.board
    turn := c.progress.turn
    captures := c.captures
    check := c.board.inCheck v c.progress.turn
    checkmate := ending.any (·.reason = .checkmate)
    stalemate := ending.any (·.reason = .stalemate)
    winner := ending.bind Ending.winner
    phase := c.progress.phase
    moveCount := c.moveCount
    ending
    skipped := c.skipped }

end Course

/-- The standing of a game with the given opening and records. -/
def replay (v : Variant) (rules : HouseRules) (o : Opening) (ms : List Move) :
    Except Fault Standing := do
  let c ← (Move.canonical ms).foldlM (Course.play v rules) (Course.start v rules o)
  return c.standing v

namespace Standing

/-- Ends the game by a declaration, unless the position has ended it. -/
def declare (s : Standing) (e : Ending) : Standing :=
  if s.ending.isSome then s
  else { s with phase := .complete e.reason, winner := e.winner, ending := some e }

def fen (s : Standing) (a : Alphabet) : Fen := ⟨s.board, s.turn, s.phase, s.moveCount, a⟩

end Standing

end WereraChess
