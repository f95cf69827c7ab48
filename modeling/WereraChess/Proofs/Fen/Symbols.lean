import Mathlib.Algebra.GroupWithZero.Nat
import WereraChess.Proofs.Fen.Writing
/-!
# What single characters of a placement say

The letters of an alphabet are those of its pieces, and a character comes to as many squares as it
stands for. So the squares of a rank, its pieces and its kings can be told from its characters.
-/
namespace WereraChess

namespace Alphabet

variable {a : Alphabet} {c : Char} {p : Piece}

def letters : Alphabet → List Char
  | shared => ['k', 'q', 'b', 'r', 'p', 'n']
  | senterej => ['d', 'e', 'f', 's', 'm', 'n']

theorem mem_letters_iff : c.toLower ∈ a.letters ↔ Placement.Admits a c := by
  rw [Placement.Admits, Placement.isOwnLetter, decide_eq_true_eq]
  cases a <;> simp only [letters, ownLetters, List.mem_cons, List.not_mem_nil, or_false] <;> tauto

theorem exists_piece?_of_mem_letters (h : c.toLower ∈ a.letters) : ∃ p, a.piece? c = some p := by
  have hletters : a.letters.all (fun d => (a.kind? d).isSome) = true := by
    cases a <;> decide
  have hkind : a.kind? c.toLower = a.kind? c := by
    rw [kind?, kind?, Text.toUpper_toLower]
  obtain ⟨k, hk⟩ := Option.isSome_iff_exists.mp (List.all_eq_true.mp hletters _ h)
  rw [piece?, ← hkind, hk]
  exact ⟨_, rfl⟩

/-- A letter is read as the unmoved piece that it is written for. -/
theorem piece?_eq_some_iff : a.piece? c = some p ↔ p.hasMoved = false ∧ a.symbol p = c := by
  constructor
  · intro h
    obtain ⟨k, hk, rfl⟩ := Option.map_eq_some_iff.mp h
    have hletter : a.letter k = c.toUpper := by simpa using List.find?_some hk
    refine ⟨rfl, ?_⟩
    by_cases hupper : c.isUpper = true
    · rw [if_pos hupper]
      change a.letter k = c
      rw [hletter, Text.toUpper_of_isUpper hupper]
    · rw [if_neg hupper]
      change (a.letter k).toLower = c
      rw [hletter, Text.toLower_toUpper_of_not_isUpper hupper]
  · rintro ⟨hmoved, rfl⟩
    rw [piece?_symbol_unmoved]
    cases p
    cases hmoved
    rfl

private theorem mem_letters_of_piece? (h : a.piece? c = some p) : c.toLower ∈ a.letters := by
  obtain ⟨-, rfl⟩ := piece?_eq_some_iff.mp h
  exact mem_letters_iff.mpr (a.admits_symbol p)

private theorem symbol_ne_digitChar {n : Nat} (h : n < 10) : a.symbol p ≠ Nat.digitChar n := by
  intro heq
  have hdigit := a.not_isDigit_symbol p
  rw [heq, Text.isDigit_digitChar h] at hdigit
  simp at hdigit

private theorem symbol_eq_king_iff {side : Side} :
    a.symbol p = a.symbol (.fresh .king side) ↔ p.kingOf? = some side := by
  constructor
  · intro h
    have hpiece := a.piece?_symbol_unmoved p
    rw [h, piece?_symbol] at hpiece
    obtain ⟨hkind, howner⟩ := Piece.mk.inj (Option.some.inj hpiece)
    simp [Piece.kingOf?, ← hkind, ← howner]
  · intro h
    obtain ⟨hkind, howner⟩ : p.kind = .king ∧ p.owner = side := by simpa [Piece.kingOf?] using h
    rw [← symbol_unmoved, Piece.unmoved, hkind, howner]

end Alphabet

namespace Placement

variable {a : Alphabet} {c : Char} {cs : List Char} {squares : List (Option Piece)}

/-- The digits that may stand in a placement. -/
def runs : List Char := "12345678".toList

/-- The number of squares that a character stands for. -/
def width (c : Char) : Nat := if c.isDigit then c.toNat - 48 else 1

/-- The character is a run or a letter of the alphabet. -/
def IsSymbol (a : Alphabet) (c : Char) : Prop := c ∈ runs ∨ c.toLower ∈ a.letters

theorem mem_runs_iff : c ∈ runs ↔ ∃ n, 1 ≤ n ∧ n ≤ 8 ∧ c = Nat.digitChar n := by
  have hruns : runs = (List.range' 1 8).map Nat.digitChar := by decide
  rw [hruns, List.mem_map]
  constructor
  · rintro ⟨n, hn, rfl⟩
    obtain ⟨hlow, hhigh⟩ := List.mem_range'_1.mp hn
    exact ⟨n, hlow, Nat.le_of_lt_succ hhigh, rfl⟩
  · rintro ⟨n, hlow, hhigh, rfl⟩
    exact ⟨n, List.mem_range'_1.mpr ⟨hlow, Nat.lt_succ_of_le hhigh⟩, rfl⟩

private theorem exists_stands_iff : (∃ squares, Stands a c squares) ↔ IsSymbol a c := by
  constructor
  · rintro ⟨squares, h⟩
    cases h with
    | run h h' => exact .inl (mem_runs_iff.mpr ⟨_, h, h', rfl⟩)
    | piece h => exact .inr (Alphabet.mem_letters_of_piece? h)
  · rintro (h | h)
    · obtain ⟨n, hlow, hhigh, rfl⟩ := mem_runs_iff.mp h
      exact ⟨_, .run hlow hhigh⟩
    · obtain ⟨p, hp⟩ := Alphabet.exists_piece?_of_mem_letters h
      exact ⟨_, .piece hp⟩

private theorem Stands.length_eq (h : Stands a c squares) : squares.length = width c := by
  cases h with
  | @run n h h' =>
    have hdigit : (Nat.digitChar n).isDigit = true := Text.isDigit_digitChar (by omega)
    have hcode : (Nat.digitChar n).toNat = 48 + n := Nat.toNat_digitChar_of_lt_ten (by omega)
    rw [List.length_replicate, width, if_pos hdigit, hcode, Nat.add_sub_cancel_left]
  | piece h => rw [width, Alphabet.not_isDigit_of_piece? h]; rfl

private theorem Stands.width_pos (h : Stands a c squares) : 0 < width c := by
  rw [← h.length_eq]
  cases h with
  | run h _ => rwa [List.length_replicate]
  | piece => exact Nat.one_pos

private theorem Stands.getElem?_eq_some_iff {n : Nat} {p : Piece} (h : Stands a c squares) :
    squares[n]? = some (some p) ↔ n = 0 ∧ p.hasMoved = false ∧ a.symbol p = c := by
  cases h with
  | @run k h h' =>
    have hne : a.symbol p ≠ Nat.digitChar k := Alphabet.symbol_ne_digitChar (by omega)
    simp [List.getElem?_replicate, hne]
  | @piece _ q hq =>
    rw [← Alphabet.piece?_eq_some_iff, hq]
    cases n <;> simp

private theorem Denotes.length_eq (h : Denotes a cs squares) :
    squares.length = (cs.map width).sum := by
  induction h with
  | nil => rfl
  | cons hc _ ih => rw [List.length_append, hc.length_eq, ih, List.map_cons, List.sum_cons]

theorem exists_denotes_iff : (∃ squares, Denotes a cs squares) ↔ ∀ c ∈ cs, IsSymbol a c := by
  induction cs with
  | nil => exact ⟨fun _ => by simp, fun _ => ⟨[], .nil⟩⟩
  | cons c cs ih =>
    rw [List.forall_mem_cons, ← ih, ← exists_stands_iff]
    constructor
    · rintro ⟨squares, h⟩
      cases h with
      | cons hc hrest => exact ⟨⟨_, hc⟩, _, hrest⟩
    · rintro ⟨⟨_, hc⟩, _, hrest⟩
      exact ⟨_, .cons hc hrest⟩

/-- The letter stands in the rank, and the characters before it come to `n` squares. -/
def IsLetterAt (rank : List Char) (n : Nat) (d : Char) : Prop :=
  ∃ pre post, rank = pre ++ d :: post ∧ (pre.map width).sum = n

private theorem isLetterAt_cons {n : Nat} {d : Char} :
    IsLetterAt (c :: cs) n d ↔ c = d ∧ n = 0 ∨ width c ≤ n ∧ IsLetterAt cs (n - width c) d := by
  constructor
  · rintro ⟨pre, post, heq, hsum⟩
    cases pre with
    | nil => exact .inl ⟨(List.cons.inj heq).1, hsum.symm⟩
    | cons x pre =>
      obtain ⟨rfl, rfl⟩ := List.cons.inj heq
      rw [List.map_cons, List.sum_cons] at hsum
      exact .inr ⟨by omega, pre, post, rfl, by omega⟩
  · rintro (⟨rfl, rfl⟩ | ⟨hwidth, pre, post, rfl, hsum⟩)
    · exact ⟨[], cs, rfl, rfl⟩
    · refine ⟨c :: pre, post, rfl, ?_⟩
      rw [List.map_cons, List.sum_cons]
      omega

theorem Denotes.getElem?_eq_some_iff {n : Nat} {p : Piece} (h : Denotes a cs squares) :
    squares[n]? = some (some p) ↔ p.hasMoved = false ∧ IsLetterAt cs n (a.symbol p) := by
  induction h generalizing n with
  | nil => simp [IsLetterAt]
  | @cons c cs xs rest hc hrest ih =>
    have hwidth := hc.width_pos
    have hlength := hc.length_eq
    rw [isLetterAt_cons]
    by_cases hn : n < width c
    · have hfirst : ¬ width c ≤ n := Nat.not_le.mpr hn
      rw [List.getElem?_append_left (hlength ▸ hn), hc.getElem?_eq_some_iff]
      tauto
    · have hle : width c ≤ n := Nat.not_lt.mp hn
      have hne : n ≠ 0 := by omega
      rw [List.getElem?_append_right (by omega), hlength, ih]
      simp only [hne, hle, and_false, false_or, true_and]

private theorem Stands.count_kingsOf (h : Stands a c squares) (side : Side) :
    (kingsOf squares).count side = [c].count (a.symbol (.fresh .king side)) := by
  rw [List.count_singleton]
  cases h with
  | @run n h h' =>
    have hne : a.symbol (.fresh .king side) ≠ Nat.digitChar n :=
      Alphabet.symbol_ne_digitChar (by omega)
    rw [kingsOf_replicate]
    simp [hne.symm]
  | @piece _ p hp =>
    obtain ⟨-, rfl⟩ := Alphabet.piece?_eq_some_iff.mp hp
    simp only [beq_iff_eq, Alphabet.symbol_eq_king_iff]
    cases hking : p.kingOf? with
    | none => simp [kingsOf, hking]
    | some owner => simp [kingsOf, hking, List.count_singleton]

theorem Denotes.count_kingsOf (h : Denotes a cs squares) (side : Side) :
    (kingsOf squares).count side = cs.count (a.symbol (.fresh .king side)) := by
  induction h with
  | nil => rfl
  | cons hc _ ih =>
    rw [kingsOf_append, List.count_append, hc.count_kingsOf, ih, ← List.count_append,
      List.singleton_append]

theorem denotes_flatten {ranks : List (List Char)} {rows : List (List (Option Piece))}
    (h : List.Forall₂ (Denotes a) ranks rows) : Denotes a ranks.flatten rows.flatten := by
  induction h with
  | nil => exact .nil
  | cons hrank _ ih => exact hrank.append ih

theorem forall_length_iff {ranks : List (List Char)} {rows : List (List (Option Piece))} {n : Nat}
    (h : List.Forall₂ (Denotes a) ranks rows) :
    (∀ row ∈ rows, row.length = n) ↔ ∀ rank ∈ ranks, (rank.map width).sum = n := by
  induction h with
  | nil => simp
  | cons hrank _ ih => rw [List.forall_mem_cons, List.forall_mem_cons, ih, hrank.length_eq]

theorem exists_forall₂_denotes {ranks : List (List Char)}
    (h : ∀ c ∈ ranks.flatten, IsSymbol a c) : ∃ rows, List.Forall₂ (Denotes a) ranks rows := by
  induction ranks with
  | nil => exact ⟨[], .nil⟩
  | cons rank ranks ih =>
    rw [List.flatten_cons, List.forall_mem_append] at h
    obtain ⟨squares, hsquares⟩ := exists_denotes_iff.mpr h.1
    obtain ⟨rows, hrows⟩ := ih h.2
    exact ⟨squares :: rows, .cons hsquares hrows⟩

end Placement

end WereraChess
