import WereraChess.Square
import WereraChess.Text.Decimal
import WereraChess.Text.Fields
/-!
# Names of squares

A square is written as its file letter and rank digit, `a8` for row 0 and column 0, and read in that
form or as `row,col`.
-/

namespace WereraChess

structure BadSquare where
  text : String
  deriving DecidableEq

def BadSquare.message (e : BadSquare) : String :=
  "invalid square '" ++ e.text ++ "' (expected a1..h8 or row,col)"

namespace Square

def name (s : Square) : String :=
  String.ofList [Char.ofNat (97 + s.col), Char.ofNat (56 - s.row)]

/-- The column of a file letter, in either case. -/
def fileColumn? (c : Char) : Option (Fin 8) :=
  let n := c.toLower.toNat
  if h : 97 ≤ n ∧ n ≤ 104 then some ⟨n - 97, by omega⟩ else none

def rankRow? (c : Char) : Option (Fin 8) :=
  let n := c.toNat
  if h : 49 ≤ n ∧ n ≤ 56 then some ⟨56 - n, by omega⟩ else none

def indexText? (cs : List Char) : Option (Fin 8) := do
  let n ← Text.plusDecimal? (Text.trim cs)
  if h : n < 8 then some ⟨n, h⟩ else none

/-- A text without blanks at its ends: a comma separates row and column, and without a comma the
text is a file letter and a rank digit. -/
def ofTrimmed? (cs : List Char) : Option Square :=
  if ',' ∈ cs then do
    let row ← indexText? (cs.takeWhile (· ≠ ','))
    let col ← indexText? ((cs.dropWhile (· ≠ ',')).drop 1)
    return ⟨row, col⟩
  else match cs with
    | [file, rank] => do
      let col ← fileColumn? file
      let row ← rankRow? rank
      return ⟨row, col⟩
    | _ => none

/-- Reads a square in either form, blanks around it and around its numbers ignored. -/
def ofText (text : String) : Except BadSquare Square :=
  match ofTrimmed? (Text.trim text.toList) with
  | some s => .ok s
  | none => .error ⟨text⟩

end Square

/-- The name of a pair of bytes: files go on through the characters after `h` up to the last of one
byte, ranks end at 0. -/
def Coord.name (c : Coord) : Except Fault String :=
  if c.col.toNat ≤ 158 ∧ c.row.toNat ≤ 8 then
    .ok (String.ofList [Char.ofNat (97 + c.col.toNat), Char.ofNat (56 - c.row.toNat)])
  else .error (.unnamed c)

theorem Square.name_coord (s : Square) : s.coord.name = .ok s.name := by
  obtain ⟨⟨r, hr⟩, ⟨c, hc⟩⟩ := s
  have hr' : r.toUInt8.toNat = r := by simp; omega
  have hc' : c.toUInt8.toNat = c := by simp; omega
  simp only [Coord.name, Square.coord, Square.name, hr', hc']
  rw [if_pos (by omega)]

end WereraChess
