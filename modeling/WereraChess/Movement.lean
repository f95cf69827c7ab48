import WereraChess.Board
/-!
# Movement

How each kind of piece moves in each variant, and the squares that it reaches on a board. A leaper
goes to fixed displacements whatever stands between; a slider goes along open lines and takes the
first opposing piece on them; a pawn steps forward to an empty square and takes diagonally forward.
-/

namespace WereraChess

/-- A change of row and a change of column. -/
abbrev Displacement := Int × Int

inductive Gait where
  | leaps (ds : List Displacement)
  | slides (ds : List Displacement)
  | pawn

def orthogonals : List Displacement := [(0, 1), (0, -1), (1, 0), (-1, 0)]

def diagonals : List Displacement := [(1, 1), (1, -1), (-1, 1), (-1, -1)]

def knightJumps : List Displacement :=
  [(2, 1), (2, -1), (-2, 1), (-2, -1), (1, 2), (1, -2), (-1, 2), (-1, -2)]

/-- The jump of the Senterej elephant to the second square on a diagonal. -/
def elephantJumps : List Displacement := [(2, 2), (2, -2), (-2, 2), (-2, -2)]

def Kind.gait : Kind → Variant → Gait
  | .king, _ => .leaps (orthogonals ++ diagonals)
  | .minister, .senterej => .leaps diagonals
  | .minister, .standard => .slides (orthogonals ++ diagonals)
  | .elephant, .senterej => .leaps elephantJumps
  | .elephant, .standard => .slides diagonals
  | .knight, _ => .leaps knightJumps
  | .rook, _ => .slides orthogonals
  | .pawn, _ => .pawn

/-- The squares from `s` in direction `d`, nearest first, up to the edge of the board. -/
def Square.ray (s : Square) (d : Displacement) : List Square :=
  (List.range' 1 7).filterMap fun (k : Nat) => s.shift? (k * d.1, k * d.2)

namespace Board

/-- The squares of a line that a piece of `side` reaches from its start: the empty ones up to the
first piece, and that piece's square if the opponent owns it. -/
def slideAlong (b : Board) (side : Side) : List Square → List Square
  | [] => []
  | s :: line =>
    match b.ownerAt s with
    | none => s :: b.slideAlong side line
    | some owner => if owner = side then [] else [s]

/-- The squares that a piece of `side` on `s` reaches by the gait. -/
def reachBy (b : Board) (side : Side) (s : Square) : Gait → List Square
  | .leaps ds => (ds.filterMap s.shift?).filter fun t => b.ownerAt t ≠ some side
  | .slides ds => ds.flatMap fun d => b.slideAlong side (s.ray d)
  | .pawn =>
    ([(side.forward, 0)].filterMap s.shift?).filter (fun t => b.ownerAt t = none)
      ++ ([(side.forward, -1), (side.forward, 1)].filterMap s.shift?).filter
        (fun t => b.ownerAt t = some side.opponent)

/-- The squares that the piece on `s` reaches, own king's safety aside. -/
def reach (b : Board) (v : Variant) (s : Square) : List Square :=
  match b.get s with
  | none => []
  | some p => b.reachBy p.owner s (p.kind.gait v)

def destinations (b : Board) (v : Variant) (s : Square) : List Square :=
  let reached := b.reach v s
  Square.all.filter (· ∈ reached)

theorem mem_destinations {b : Board} {v : Variant} {s t : Square} :
    t ∈ b.destinations v s ↔ t ∈ b.reach v s := by
  simp [destinations, Square.mem_all]

/-- The moves open to a side, own king's safety aside. -/
def movesOf (b : Board) (v : Variant) (side : Side) : List (Square × Square) :=
  (b.piecesOf side).flatMap fun (s, _) => (b.destinations v s).map (s, ·)

/-- Whether a piece of the side reaches the square. A pawn reaches a square diagonally in front of
it only if the opponent stands there. -/
def reachedBy (b : Board) (v : Variant) (side : Side) (t : Square) : Bool :=
  (b.piecesOf side).any fun (s, _) => t ∈ b.reach v s

end Board

end WereraChess
