import WereraChess.Board
/-!
# Boards row by row

The rows of a board list its squares in order, and a board is determined by its eight rows.
-/
namespace WereraChess.Board

theorem rows_flatten (b : Board) : b.rows.flatten = Square.all.map b.get := rfl

theorem length_rows (b : Board) : b.rows.length = 8 := by
  rw [rows, List.length_map, List.length_finRange]

theorem length_of_mem_rows {b : Board} {row : List (Option Piece)} (h : row ∈ b.rows) :
    row.length = 8 := by
  obtain ⟨r, -, rfl⟩ := List.mem_map.mp h
  rw [Board.row, List.length_map, List.length_finRange]

theorem some_mem_rows_flatten {b : Board} {p : Piece} :
    some p ∈ b.rows.flatten ↔ ∃ s, b.get s = some p := by
  rw [rows_flatten, List.mem_map]
  constructor
  · intro ⟨s, _, hs⟩
    exact ⟨s, hs⟩
  · intro ⟨s, hs⟩
    exact ⟨s, s.mem_all, hs⟩

theorem rows_ofRows {rows : List (List (Option Piece))} (hrows : rows.length = 8)
    (hlengths : ∀ row ∈ rows, row.length = 8) : (ofRows rows).rows = rows := by
  apply List.ext_getElem
  · simp [Board.rows, hrows]
  · intro r hr hr'
    have hrow : rows[r].length = 8 := hlengths _ (List.getElem_mem hr')
    apply List.ext_getElem
    · simp [Board.rows, Board.row, hrow]
    · intro c hc hc'
      simp [Board.rows, Board.row, Board.ofRows, hr', hc']

theorem eq_empty_iff {b : Board} : b = empty ↔ ∀ s, b.get s = none := by
  constructor
  · intro h s
    rw [h, get_empty]
  · intro h
    ext1 s
    rw [h s, get_empty]

end WereraChess.Board
