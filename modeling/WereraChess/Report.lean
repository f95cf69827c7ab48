import WereraChess.Replay
/-!
# Reports

A board as a diagram and a standing as a list of facts, for people to read.
-/

namespace WereraChess

/-- One row of a diagram: its rank, then its pieces, with points for empty squares. -/
def Board.diagramRow (b : Board) (a : Alphabet) (r : Fin 8) : String :=
  let squares := (b.row r).map fun
    | some p => a.symbol p
    | none => '.'
  toString (8 - r.val) ++ " |" ++ String.ofList (squares.flatMap fun c => [' ', c]) ++ "\n"

def Board.diagram (b : Board) (a : Alphabet) : String :=
  String.join ((List.finRange 8).map (b.diagramRow a)) ++ "    a b c d e f g h\n"

/-- A number with its sign; zero counts as positive. -/
def signed (n : Int) : String := (if n < 0 then "-" else "+") ++ toString n.natAbs

namespace Standing

/-- Whose turn it is, or how the game ended. -/
def turnLine (s : Standing) : String :=
  match s.phase with
  | .werera => "turn:    both players (werera)\n"
  | .normal => "turn:    " ++ s.turn.name ++ (if s.check then " (in check)" else "") ++ "\n"
  | .complete _ =>
    match s.ending with
    | some e => "result:  " ++ e.message ++ "\n"
    | none => ""

/-- The side that has taken more, and by how much; nothing before the first capture. -/
def materialLine (s : Standing) : String :=
  let balance := s.captures.balance s.variant
  let leader :=
    if 0 < balance then Side.white.name else if balance < 0 then Side.black.name else "even"
  if s.captures.total = 0 then "" else "material: " ++ leader ++ " (" ++ signed balance ++ ")\n"

def skippedLine (s : Standing) : String :=
  if s.skipped = [] then "" else "skipped: " ++ toString s.skipped.length ++ " move(s)\n"

def summary (s : Standing) : String :=
  "variant: " ++ s.variant.name ++ "\n" ++ "phase:   " ++ s.phase.text ++ "\n" ++ s.turnLine
    ++ "moves:   " ++ toString s.moveCount.toNat ++ "\n" ++ s.materialLine ++ s.skippedLine

def report (s : Standing) (a : Alphabet) : String :=
  s.board.diagram a ++ "\n" ++ s.summary ++ "fen:     " ++ (s.fen a).line ++ "\n"

end Standing

end WereraChess
