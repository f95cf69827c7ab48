import WereraChess.Script
import WereraChess.Settings
/-!
# Commands

What the program does for its user. A command yields the text to print or an error; files are handed
to it as their contents.
-/

namespace WereraChess

/-- A file as a command finds it. What is there but no text is unreadable. -/
inductive FileText where
  | missing
  | unreadable
  | text (s : String)
  deriving DecidableEq

namespace Command

inductive Error where
  | file
  | document
  | badSquare (e : BadSquare)
  | badFen (e : FenError)
  | refused (r : Refusal)
  | fault (f : Fault)
  deriving DecidableEq

def new (v : Variant) (a : Alphabet) : String :=
  let o := Opening.initial v
  let f : Fen := ⟨o.board, o.turn, o.phase, o.moveCount, a⟩
  f.board.diagram a ++ "\n" ++ f.line ++ "\n"

/-- The position of a line, in the line's own alphabet unless another is asked for. -/
def «show» (line : String) (a : Option Alphabet) : Except FenError String := do
  let f ← Fen.ofText line
  let standing := (Course.start f.variant {} (.ofFen f)).standing f.variant
  return standing.report (a.getD f.alphabet)

/-- The destinations of one piece. In the werera a move may expose the own king. -/
def destinationsIn (f : Fen) (s : Square) : List Square :=
  if f.phase = .werera then f.board.destinations f.variant s
  else f.board.safeDestinations f.variant s

/-- The squares whose pieces may move: all in the werera, those of the side to move otherwise. -/
def sourcesIn (f : Fen) : List Square :=
  (f.board.occupied.filter fun (_, p) => f.phase = .werera || p.owner = f.active).map Prod.fst

def movesLine (s : Square) (targets : List Square) : String :=
  s.name ++ ": " ++ " ".intercalate (targets.map Square.name) ++ "\n"

/-- The moves in the position of a line, one line for each square with a move, or one line for the
square that was asked for. -/
def moves (line : String) (square : Option Square) : Except FenError String := do
  let f ← Fen.ofText line
  match square with
  | some s => return movesLine s (destinationsIn f s)
  | none =>
    let rows := (sourcesIn f).map fun s => (s, destinationsIn f s)
    let movable := rows.filter fun (_, targets) => !targets.isEmpty
    return String.join (movable.map fun (s, targets) => movesLine s targets)

def contents : FileText → Except Error String
  | .text s => .ok s
  | .missing | .unreadable => .error .file

/-- Plays a script and reports its end. -/
def replay (file : FileText) (settings : Settings) (a : Option Alphabet) (wire : Bool)
    (ids : Nat → Uuid) (now : UInt64) : Except Error String := do
  let text ← contents file
  match JsonForm.ofText? text with
  | none => throw .document
  | some (script : Script) =>
    match script.play ids now settings.rules settings.variant with
    | .error (.badOpening r) => throw (.refused r)
    | .error (.badSquare e) => throw (.badSquare e)
    | .error (.fault f) => throw (.fault f)
    | .ok performance =>
      match performance.text (a.getD settings.alphabet) wire with
      | .ok out => return out
      | .error f => throw (.fault f)

/-- The settings in a file; the usual ones if there is none. -/
def settingsOf : FileText → Except Error Settings
  | .missing => .ok {}
  | .unreadable => .error .file
  | .text s =>
    match JsonForm.ofText? s with
    | some settings => .ok settings
    | none => .error .document

def settingsText (path : String) (s : Settings) : String :=
  "# " ++ path ++ "\n" ++ JsonForm.toLines s ++ "\n"

/-- What a settings file holds when it is written anew. -/
def freshSettings (now : Instant) : String :=
  JsonForm.toLines { ({} : Settings) with lastSaved := some now }

end Command

end WereraChess
