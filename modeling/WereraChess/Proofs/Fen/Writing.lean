import WereraChess.Proofs.Fen.Reading
import WereraChess.Proofs.Unmoved
/-!
# What a position line is written as

The characters of a written rank stand for its squares, with the flags of moved pieces lost. A
reader takes the alphabet from them that they were written in, except where the letters do not tell:
on an empty board, and where a board of knights is written in the shared alphabet.
-/
namespace WereraChess

namespace Alphabet

/-- The kind that the letter N stands for. -/
def kindOfN : Alphabet → Kind
  | shared => .knight
  | senterej => .king

theorem piece?_symbol_unmoved (a : Alphabet) (p : Piece) : a.piece? (a.symbol p) = some p.unmoved :=
  a.piece?_symbol p.kind p.owner

theorem symbol_unmoved (a : Alphabet) (p : Piece) : a.symbol p.unmoved = a.symbol p := rfl

theorem admits_symbol (a : Alphabet) (p : Piece) : Placement.Admits a (a.symbol p) := by
  rw [← symbol_unmoved, Piece.unmoved, Placement.Admits]
  cases a <;> cases p.kind <;> cases p.owner <;> decide

theorem isOwnLetter_symbol (a : Alphabet) (p : Piece) :
    Placement.isOwnLetter a (a.symbol p) = decide (p.kind ≠ a.kindOfN) := by
  rw [← symbol_unmoved, Piece.unmoved]
  cases a <;> cases p.kind <;> cases p.owner <;> decide

theorem not_isDigit_symbol (a : Alphabet) (p : Piece) : (a.symbol p).isDigit = false :=
  not_isDigit_of_piece? (a.piece?_symbol_unmoved p)

private theorem symbol_ne_slash (a : Alphabet) (p : Piece) : a.symbol p ≠ '/' := by
  rw [← symbol_unmoved, Piece.unmoved]
  cases a <;> cases p.kind <;> cases p.owner <;> decide

theorem not_isBlank_symbol (a : Alphabet) (p : Piece) : Text.isBlank (a.symbol p) = false := by
  rw [← symbol_unmoved, Piece.unmoved]
  cases a <;> cases p.kind <;> cases p.owner <;> decide

end Alphabet

private theorem Board.rows_unmoved (b : Board) :
    b.unmoved.rows = b.rows.map (List.map (Option.map Piece.unmoved)) := by
  simp [Board.rows, Board.row, Function.comp_def]

namespace Placement

variable {a : Alphabet} {n : Nat} {squares : List (Option Piece)}

theorem Denotes.append {cs ds : List Char} {xs ys : List (Option Piece)} (h : Denotes a cs xs)
    (h' : Denotes a ds ys) : Denotes a (cs ++ ds) (xs ++ ys) := by
  induction h with
  | nil => exact h'
  | cons hc _ ih =>
    rw [List.cons_append, List.append_assoc]
    exact .cons hc ih

private theorem denotes_run (hn : n ≤ 8) : Denotes a (run n) (List.replicate n none) := by
  cases n with
  | zero => exact .nil
  | succ n =>
    have hrun : Stands a (Nat.digitChar (n + 1)) _ := .run (Nat.le_add_left 1 n) hn
    have hdigit : Denotes a [Nat.digitChar (n + 1)] (List.replicate (n + 1) none ++ []) :=
      .cons hrun .nil
    rwa [List.append_nil] at hdigit

/-- The characters of a written rank stand for its squares. -/
theorem denotes_rankText (h : n + squares.length ≤ 8) :
    Denotes a (rankText a n squares)
      (List.replicate n none ++ squares.map (Option.map Piece.unmoved)) := by
  induction squares generalizing n with
  | nil =>
    rw [List.map_nil, List.append_nil]
    exact denotes_run h
  | cons square squares ih =>
    rw [List.length_cons] at h
    cases square with
    | none =>
      have hrest : Denotes a (rankText a (n + 1) squares) _ := ih (by omega)
      rwa [List.replicate_succ', List.append_assoc] at hrest
    | some p =>
      have hrest : Denotes a (rankText a 0 squares) _ := ih (by omega)
      exact (denotes_run (by omega)).append
        (.cons (.piece (a.piece?_symbol_unmoved p)) hrest)

private theorem isDigit_of_mem_run {c : Char} (hn : n ≤ 8) (hc : c ∈ run n) : c.isDigit = true := by
  cases n with
  | zero => simp [run] at hc
  | succ n =>
    obtain rfl : c = Nat.digitChar (n + 1) := by simpa [run] using hc
    exact Text.isDigit_digitChar (by omega)

private theorem mem_rankText {c : Char} (h : n + squares.length ≤ 8)
    (hc : c ∈ rankText a n squares) :
    c.isDigit = true ∨ ∃ p, some p ∈ squares ∧ c = a.symbol p := by
  induction squares generalizing n with
  | nil => exact .inl (isDigit_of_mem_run h hc)
  | cons square squares ih =>
    rw [List.length_cons] at h
    have hrest {n : Nat} (hn : n + squares.length ≤ 8) (hc : c ∈ rankText a n squares) :
        c.isDigit = true ∨ ∃ p, some p ∈ square :: squares ∧ c = a.symbol p := by
      apply (ih hn hc).imp_right
      intro ⟨p, hp, heq⟩
      exact ⟨p, List.mem_cons_of_mem square hp, heq⟩
    cases square with
    | none => exact hrest (by omega) hc
    | some p =>
      rw [rankText, List.mem_append, List.mem_cons] at hc
      rcases hc with hc | rfl | hc
      · exact .inl (isDigit_of_mem_run (by omega) hc)
      · exact .inr ⟨p, List.mem_cons_self, rfl⟩
      · exact hrest (by omega) hc

private theorem symbol_mem_rankText {p : Piece} (hp : some p ∈ squares) :
    a.symbol p ∈ rankText a n squares := by
  induction squares generalizing n with
  | nil => simp at hp
  | cons square squares ih =>
    cases square with
    | none =>
      have hrest : some p ∈ squares := by simpa using hp
      exact ih hrest
    | some q =>
      rw [rankText, List.mem_append, List.mem_cons]
      rcases List.mem_cons.mp hp with heq | hrest
      · exact .inr (.inl (congrArg a.symbol (Option.some.inj heq)))
      · exact .inr (.inr (ih hrest))

def written (a : Alphabet) (b : Board) : List (List Char) := b.rows.map (rankText a 0)

theorem length_written (a : Alphabet) (b : Board) : (written a b).length = 8 := by
  rw [written, List.length_map, b.length_rows]

theorem mem_written {b : Board} {c : Char} (hc : c ∈ (written a b).flatten) :
    c.isDigit = true ∨ ∃ s p, b.get s = some p ∧ c = a.symbol p := by
  obtain ⟨rank, hrank, hc⟩ := List.mem_flatten.mp hc
  obtain ⟨row, hrow, rfl⟩ := List.mem_map.mp hrank
  have hlength : 0 + row.length ≤ 8 := by
    rw [Board.length_of_mem_rows hrow]
  apply (mem_rankText hlength hc).imp_right
  intro ⟨p, hp, heq⟩
  obtain ⟨s, hs⟩ := Board.some_mem_rows_flatten.mp (List.mem_flatten.mpr ⟨row, hrow, hp⟩)
  exact ⟨s, p, hs, heq⟩

theorem symbol_mem_written {b : Board} {s : Square} {p : Piece} (hp : b.get s = some p) :
    a.symbol p ∈ (written a b).flatten := by
  obtain ⟨row, hrow, hp⟩ := List.mem_flatten.mp (Board.some_mem_rows_flatten.mpr ⟨s, hp⟩)
  exact List.mem_flatten.mpr ⟨_, List.mem_map_of_mem hrow, symbol_mem_rankText hp⟩

theorem splitWhere_text (a : Alphabet) (b : Board) :
    Text.splitWhere (· = '/') (text a b) = written a b := by
  apply Text.splitWhere_intercalate
  · simp [Board.rows]
  · intro rank hrank hslash
    rcases mem_written (List.mem_flatten.mpr ⟨rank, hrank, hslash⟩) with hdigit | ⟨s, p, -, heq⟩
    · simp at hdigit
    · exact a.symbol_ne_slash p heq.symm

theorem denotes_written (a : Alphabet) (b : Board) :
    List.Forall₂ (Denotes a) (written a b) b.unmoved.rows := by
  rw [Board.rows_unmoved, written, List.forall₂_map_left_iff, List.forall₂_map_right_iff,
    List.forall₂_same]
  intro row hrow
  have hlength : 0 + row.length ≤ 8 := by
    rw [Board.length_of_mem_rows hrow]
  simpa using denotes_rankText (a := a) hlength

end Placement

end WereraChess
