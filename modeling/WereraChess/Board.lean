import WereraChess.Piece
import WereraChess.Square
/-!
# Boards

A board holds at most one piece on each of its 64 squares. It is read square by square; the lemmas
say what each way of making a board puts where.
-/

namespace WereraChess

structure Board where
  cells : Vector (Option Piece) 64
  deriving DecidableEq

namespace Board

def get (b : Board) (s : Square) : Option Piece := b.cells[s.index]

def set (b : Board) (s : Square) (p : Option Piece) : Board := ⟨b.cells.set s.index p⟩

def ofFn (f : Square → Option Piece) : Board := ⟨Vector.ofFn fun i => f (Square.ofIndex i)⟩

def empty : Board := ofFn fun _ => none

@[simp] theorem get_set_self (b : Board) (s : Square) (p : Option Piece) :
    (b.set s p).get s = p := by simp [get, set]

theorem get_set_ne (b : Board) {s t : Square} (p : Option Piece) (h : s ≠ t) :
    (b.set s p).get t = b.get t := by
  have hi : (s.index : Nat) ≠ t.index := fun he => h (Square.index_injective (Fin.ext he))
  simp [get, set, hi]

theorem get_set (b : Board) (s t : Square) (p : Option Piece) :
    (b.set s p).get t = if s = t then p else b.get t := by
  by_cases h : s = t
  · subst h; simp
  · simp [get_set_ne b p h, h]

@[simp] theorem get_ofFn (f : Square → Option Piece) (s : Square) : (ofFn f).get s = f s := by
  simp [get, ofFn]

@[simp] theorem get_empty (s : Square) : empty.get s = none := get_ofFn _ s

@[ext] theorem ext {a b : Board} (h : ∀ s, a.get s = b.get s) : a = b := by
  obtain ⟨a⟩ := a
  obtain ⟨b⟩ := b
  congr 1
  apply Vector.ext
  intro i hi
  have hs := h (Square.ofIndex ⟨i, hi⟩)
  simpa [get] using hs

/-- The side whose piece stands on the square. -/
def ownerAt (b : Board) (s : Square) : Option Side := (b.get s).map Piece.owner

/-- The occupied squares with their pieces, row by row. -/
def occupied (b : Board) : List (Square × Piece) :=
  Square.all.filterMap fun s => (b.get s).map (s, ·)

theorem mem_occupied {b : Board} {s : Square} {p : Piece} :
    (s, p) ∈ b.occupied ↔ b.get s = some p := by
  simp only [occupied, List.mem_filterMap, Option.map_eq_some_iff, Prod.mk.injEq]
  constructor
  · rintro ⟨t, -, q, hq, rfl, rfl⟩; exact hq
  · intro h; exact ⟨s, s.mem_all, p, h, rfl, rfl⟩

/-- The squares and pieces of one side, row by row. -/
def piecesOf (b : Board) (side : Side) : List (Square × Piece) :=
  b.occupied.filter (·.2.owner = side)

def count (b : Board) (side : Side) : Nat := (b.piecesOf side).length

/-- The first square, row by row, with a king of the side. -/
def king? (b : Board) (side : Side) : Option Square :=
  Square.all.find? fun s => (b.get s).any fun p => p.kind = .king ∧ p.owner = side

/-- The squares whose piece has moved, row by row. -/
def movedSquares (b : Board) : List Square :=
  (b.occupied.filter (·.2.hasMoved)).map Prod.fst

def row (b : Board) (r : Fin 8) : List (Option Piece) :=
  (List.finRange 8).map fun c => b.get ⟨r, c⟩

def rows (b : Board) : List (List (Option Piece)) := (List.finRange 8).map b.row

/-- The board with the given rows; squares that the rows lack are empty. -/
def ofRows (rows : List (List (Option Piece))) : Board :=
  ofFn fun s => (rows[s.row.val]?.bind (·[s.col.val]?)).join

@[simp] theorem ofRows_rows (b : Board) : ofRows b.rows = b := by
  ext1 s
  simp [ofRows, rows, row]

end Board

end WereraChess
