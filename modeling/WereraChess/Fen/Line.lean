import WereraChess.Fen.Placement
import WereraChess.Phase
import WereraChess.Text.Decimal
/-!
# Position lines

A position on one line: placement, side to move, phase and move count, separated by blanks. The
last two may be left out. The line keeps neither the flags of moved pieces nor the way a game ended.
-/

namespace WereraChess

/-- A position as a line describes it. Read from a line, its phase is the werera or normal play. -/
structure Fen where
  board : Board
  active : Side
  phase : Phase
  moveCount : UInt32
  alphabet : Alphabet
  deriving DecidableEq

namespace Fen

def sideLetter : Side → Char
  | .white => 'w'
  | .black => 'b'

/-- A finished game is written like one in normal play. -/
def phaseWord : Phase → List Char
  | .werera => "werera".toList
  | .normal | .complete _ => "normal".toList

def chars (f : Fen) : List Char :=
  Placement.text f.alphabet f.board ++ ' ' :: sideLetter f.active :: ' ' :: phaseWord f.phase
    ++ ' ' :: Text.decimal f.moveCount.toNat

def line (f : Fen) : String := String.ofList f.chars

def placement (a : Alphabet) (b : Board) : String := String.ofList (Placement.text a b)

/-- The variant of a line that does not name it: Senterej letters or a werera phase mean Senterej. -/
def variant (f : Fen) : Variant :=
  if f.alphabet = .senterej ∨ f.phase = .werera then .senterej else .standard

def readActive : Option (List Char) → Except FenError Side
  | none => .error .missingActiveColor
  | some ['w'] => .ok .white
  | some ['b'] => .ok .black
  | some field => .error (.invalidActiveColor (String.ofList field))

def readPhase : Option (List Char) → Except FenError Phase
  | none => .ok .normal
  | some field =>
    if field = "normal".toList then .ok .normal
    else if field = "werera".toList then .ok .werera
    else .error (.invalidPhase (String.ofList field))

def readMoveCount : Option (List Char) → Except FenError UInt32
  | none => .ok 0
  | some field =>
    match Text.decimal? field with
    | some n =>
      if n < UInt32.size then .ok n.toUInt32 else .error (.invalidMoveCount (String.ofList field))
    | none => .error (.invalidMoveCount (String.ofList field))

def ofFields (fields : List (List Char)) : Except FenError Fen := do
  match fields with
  | [] => throw .empty
  | placement :: rest =>
    if 4 < fields.length then throw (.tooManyFields fields.length)
    let (board, alphabet) ← Placement.read placement
    let active ← readActive rest[0]?
    let phase ← readPhase rest[1]?
    let moveCount ← readMoveCount rest[2]?
    return { board, active, phase, moveCount, alphabet }

def ofText (text : String) : Except FenError Fen := ofFields (Text.words text.toList)

end Fen

end WereraChess
