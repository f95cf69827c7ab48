/-!
# Squares

A `Square` lies on the board. A `Coord` is a pair of bytes as a record carries it, on the board or
not; what needs a square asks for one first and reports a `Fault` when there is none. Row 0 is
Black's back row, and squares are listed row by row from there.
-/

namespace WereraChess

structure Coord where
  row : UInt8
  col : UInt8
  deriving DecidableEq

/-- A fact about the data that stops a computation: no rule of the game answers for it. A pair may
be off the board, or so far off that it has no name or a step from it leaves the range of signed
bytes, and the move counter may stand at its largest value. -/
inductive Fault where
  | offBoard (c : Coord)
  | unnamed (c : Coord)
  | stepRange (c : Coord)
  | counterFull
  deriving DecidableEq

structure Square where
  row : Fin 8
  col : Fin 8
  deriving DecidableEq

namespace Square

/-- Every square, row by row. -/
def all : List Square :=
  (List.finRange 8).flatMap fun row => (List.finRange 8).map fun col => ⟨row, col⟩

theorem mem_all (s : Square) : s ∈ all := by
  simp only [all, List.mem_flatMap, List.mem_map, List.mem_finRange, true_and]
  exact ⟨s.row, s.col, rfl⟩

def index (s : Square) : Fin 64 := ⟨8 * s.row + s.col, by omega⟩

def ofIndex (i : Fin 64) : Square := ⟨⟨i / 8, by omega⟩, ⟨i % 8, by omega⟩⟩

@[simp] theorem ofIndex_index (s : Square) : ofIndex s.index = s := by
  obtain ⟨⟨r, hr⟩, ⟨c, hc⟩⟩ := s
  simp only [ofIndex, index, Square.mk.injEq, Fin.mk.injEq]
  omega

@[simp] theorem index_ofIndex (i : Fin 64) : (ofIndex i).index = i := by
  ext; simp only [ofIndex, index]; omega

theorem index_injective {s t : Square} (h : s.index = t.index) : s = t := by
  rw [← ofIndex_index s, h, ofIndex_index]

/-- The square with the given row and column, if they are on the board. -/
def ofInts? (row col : Int) : Option Square :=
  if h : (0 ≤ row ∧ row < 8) ∧ 0 ≤ col ∧ col < 8 then
    some ⟨⟨row.toNat, by omega⟩, ⟨col.toNat, by omega⟩⟩
  else none

/-- The square a displacement leads to, unless it leaves the board. -/
def shift? (s : Square) (d : Int × Int) : Option Square :=
  ofInts? ((s.row : Int) + d.1) ((s.col : Int) + d.2)

theorem shift?_eq_some {s t : Square} {d : Int × Int} :
    s.shift? d = some t ↔ (t.row : Int) = s.row + d.1 ∧ (t.col : Int) = s.col + d.2 := by
  obtain ⟨⟨r, hr⟩, ⟨c, hc⟩⟩ := s
  obtain ⟨⟨r', hr'⟩, ⟨c', hc'⟩⟩ := t
  simp only [shift?, ofInts?]
  constructor
  · intro h
    split at h
    · simp only [Option.some.injEq, Square.mk.injEq, Fin.mk.injEq] at h
      omega
    · simp at h
  · rintro ⟨hrow, hcol⟩
    rw [dif_pos (by omega)]
    simp only [Option.some.injEq, Square.mk.injEq, Fin.mk.injEq]
    omega

def coord (s : Square) : Coord := ⟨s.row.val.toUInt8, s.col.val.toUInt8⟩

end Square

namespace Coord

/-- The square of that row and column, if the board has it. -/
def square? (c : Coord) : Option Square :=
  if h : c.row.toNat < 8 ∧ c.col.toNat < 8 then some ⟨⟨c.row.toNat, h.1⟩, ⟨c.col.toNat, h.2⟩⟩
  else none

@[simp] theorem square?_coord (s : Square) : s.coord.square? = some s := by
  obtain ⟨⟨r, hr⟩, ⟨c, hc⟩⟩ := s
  have hr' : r.toUInt8.toNat = r := by simp; omega
  have hc' : c.toUInt8.toNat = c := by simp; omega
  simp [square?, Square.coord, hr', hc', hr, hc]

theorem coord_of_square? {c : Coord} {s : Square} (h : c.square? = some s) : s.coord = c := by
  obtain ⟨r, k⟩ := c
  simp only [square?] at h
  split at h
  · simp only [Option.some.injEq] at h
    subst h
    simp [Square.coord]
  · simp at h

/-- The square of that row and column; a board asked for any other one faults. -/
def onBoard (c : Coord) : Except Fault Square :=
  match c.square? with
  | some s => .ok s
  | none => .error (.offBoard c)

/-- The square a displacement leads to, unless it leaves the board. Rows and columns from 128 on
count as negative, so a pair just left of the board may step onto it; the sums must be signed
bytes. -/
def shift (c : Coord) (d : Int × Int) : Except Fault (Option Square) :=
  let row := Int.bmod c.row.toNat 256 + d.1
  let col := Int.bmod c.col.toNat 256 + d.2
  if (-128 ≤ row ∧ row ≤ 127) ∧ -128 ≤ col ∧ col ≤ 127 then .ok (Square.ofInts? row col)
  else .error (.stepRange c)

end Coord

end WereraChess
