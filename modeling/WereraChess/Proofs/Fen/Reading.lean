import Mathlib.Data.List.Forall2
import WereraChess.Proofs.Fen.Letters
import WereraChess.Proofs.Kings
/-!
# What a position line is read as

A rank is read if its characters stand for eight squares and no side gets a second king; the board
then has what they stand for. `Placement.read` and `Fen.ofFields` succeed exactly on these ranks and
on the fields that name a side, a phase and a count.
-/
namespace WereraChess

namespace Placement

/-- The squares that one character stands for. -/
inductive Stands (a : Alphabet) : Char → List (Option Piece) → Prop
  | run {n : Nat} (h : 1 ≤ n) (h' : n ≤ 8) : Stands a (Nat.digitChar n) (List.replicate n none)
  | piece {c : Char} {p : Piece} (h : a.piece? c = some p) : Stands a c [some p]

/-- The squares that the characters of a rank stand for. -/
inductive Denotes (a : Alphabet) : List Char → List (Option Piece) → Prop
  | nil : Denotes a [] []
  | cons {c : Char} {cs : List Char} {squares rest : List (Option Piece)}
      (h : Stands a c squares) (hrest : Denotes a cs rest) : Denotes a (c :: cs) (squares ++ rest)

/-- What has been read after further squares. -/
def Reading.add (p : Reading) (squares : List (Option Piece)) : Reading :=
  ⟨p.squares ++ squares, (kingsOf squares).reverse ++ p.kings⟩

/-- No rank is too long and no side has two kings. -/
structure Reading.Fits (p : Reading) : Prop where
  length : p.squares.length ≤ 8
  kings : p.kings.Nodup

private theorem Reading.add_nil (p : Reading) : p.add [] = p := by
  simp [add, kingsOf]

private theorem Reading.add_add (p : Reading) (xs ys : List (Option Piece)) :
    (p.add xs).add ys = p.add (xs ++ ys) := by
  simp only [add, kingsOf_append, List.reverse_append, List.append_assoc]

private theorem Reading.Fits.of_add {p : Reading} {squares : List (Option Piece)}
    (h : (p.add squares).Fits) : p.Fits := by
  refine ⟨?_, (List.nodup_append.mp h.kings).2.1⟩
  have hlength : (p.squares ++ squares).length ≤ 8 := h.length
  rw [List.length_append] at hlength
  omega

variable {a : Alphabet} {number : Nat}

private theorem stands_iff_of_isDigit {c : Char} {squares : List (Option Piece)}
    (hc : c.isDigit = true) : Stands a c squares ↔
      (1 ≤ c.toNat - 48 ∧ c.toNat - 48 ≤ 8) ∧ squares = List.replicate (c.toNat - 48) none := by
  constructor
  · intro h
    cases h with
    | @run n h h' =>
      have hcode : (Nat.digitChar n).toNat = 48 + n := Nat.toNat_digitChar_of_lt_ten (by omega)
      rw [hcode, Nat.add_sub_cancel_left]
      exact ⟨⟨h, h'⟩, rfl⟩
    | piece h => simp [Alphabet.not_isDigit_of_piece? h] at hc
  · rintro ⟨⟨h, h'⟩, rfl⟩
    have hrun : Stands a (Nat.digitChar (c.toNat - 48)) _ := .run h h'
    rwa [Text.digitChar_of_isDigit hc] at hrun

theorem stands_iff_of_not_isDigit {c : Char} {squares : List (Option Piece)}
    (hc : c.isDigit = false) :
    Stands a c squares ↔ ∃ p, a.piece? c = some p ∧ squares = [some p] := by
  constructor
  · intro h
    cases h with
    | run h h' =>
      rw [Nat.isDigit_digitChar, decide_eq_false_iff_not] at hc
      omega
    | piece h => exact ⟨_, h, rfl⟩
  · rintro ⟨p, h, rfl⟩
    exact .piece h

private theorem width_eq_ok {p q : Reading} (hp : p.kings.Nodup) :
    (if p.squares.length ≤ 8 then pure p
      else throw (.rankWidth number p.squares.length) : Except FenError Reading) = .ok q ↔
      q = p ∧ q.Fits := by
  split
  case isTrue h =>
    rw [pure_eq_ok]
    constructor
    · rintro rfl
      exact ⟨rfl, h, hp⟩
    · rintro ⟨rfl, -⟩
      rfl
  case isFalse h =>
    rw [throw_eq_ok, false_iff]
    rintro ⟨rfl, hfits⟩
    exact h hfits.length

private theorem Reading.add_run (p : Reading) (n : Nat) :
    p.add (List.replicate n none) = { p with squares := p.squares ++ List.replicate n none } := by
  rw [add, kingsOf_replicate]
  rfl

private theorem Reading.add_piece (p : Reading) (piece : Piece) :
    p.add [some piece] =
      ⟨p.squares ++ [some piece],
        if piece.kind = .king then piece.owner :: p.kings else p.kings⟩ := by
  by_cases h : piece.kind = .king <;> simp [add, kingsOf, Piece.kingOf?, h]

/-- A character is read exactly if it stands for squares that fit. -/
theorem readChar_eq_ok {p q : Reading} {c : Char} (hp : p.Fits) :
    readChar a number p c = .ok q ↔
      ∃ squares, Stands a c squares ∧ q = p.add squares ∧ q.Fits := by
  unfold readChar
  cases hc : c.isDigit with
  | true =>
    simp only [stands_iff_of_isDigit hc, if_true]
    by_cases hn : 1 ≤ c.toNat - 48 ∧ c.toNat - 48 ≤ 8
    · have hkings : (p.add (List.replicate (c.toNat - 48) none)).kings.Nodup := by
        rw [Reading.add_run]
        exact hp.kings
      simp only [hn, and_self, if_true, pure_bind, ← Reading.add_run, width_eq_ok hkings, true_and,
        exists_eq_left]
    · simp only [hn, if_false, bind_eq_ok, throw_eq_ok, false_and, exists_false]
  | false =>
    simp only [stands_iff_of_not_isDigit hc, Bool.false_eq_true, if_false]
    cases hpiece : a.piece? c with
    | none => simp only [bind_eq_ok, throw_eq_ok, false_and, exists_false, reduceCtorEq]
    | some piece =>
      have hadd := p.add_piece piece
      have hsquares : (∃ squares, (∃ x, some piece = some x ∧ squares = [some x]) ∧
          q = p.add squares ∧ q.Fits) ↔ q = p.add [some piece] ∧ q.Fits := by
        simp only [Option.some.injEq, exists_eq_left', exists_eq_left]
      rw [hsquares]
      by_cases hking : piece.kind = .king
      · rw [if_pos hking] at hadd
        by_cases hsecond : piece.owner ∈ p.kings
        · simp only [hking, hsecond, if_true, bind_eq_ok, throw_eq_ok, false_and, exists_false,
            false_iff]
          rintro ⟨rfl, hfits⟩
          have hkings := hfits.kings
          rw [hadd, List.nodup_cons] at hkings
          exact hkings.1 hsecond
        · have hkings : (p.add [some piece]).kings.Nodup := by
            rw [hadd]
            exact List.nodup_cons.mpr ⟨hsecond, hp.kings⟩
          simp only [hking, hsecond, if_true, if_false, pure_bind, ← hadd, width_eq_ok hkings]
      · rw [if_neg hking] at hadd
        have hkings : (p.add [some piece]).kings.Nodup := by
          rw [hadd]
          exact hp.kings
        simp only [hking, if_false, pure_bind, ← hadd, width_eq_ok hkings]

private theorem foldlM_readChar_eq_ok {p q : Reading} {rank : List Char} (hp : p.Fits) :
    rank.foldlM (readChar a number) p = .ok q ↔
      ∃ squares, Denotes a rank squares ∧ q = p.add squares ∧ q.Fits := by
  induction rank generalizing p with
  | nil =>
    constructor
    · intro h
      obtain rfl := Except.ok.inj h
      exact ⟨[], .nil, p.add_nil.symm, hp⟩
    · rintro ⟨squares, hsquares, rfl, -⟩
      cases hsquares
      rw [Reading.add_nil]
      rfl
  | cons c rank ih =>
    rw [List.foldlM_cons, bind_eq_ok]
    constructor
    · rintro ⟨r, hr, h⟩
      obtain ⟨xs, hxs, rfl, hfits⟩ := (readChar_eq_ok hp).mp hr
      obtain ⟨ys, hys, rfl, hfits'⟩ := (ih hfits).mp h
      exact ⟨xs ++ ys, .cons hxs hys, p.add_add xs ys, hfits'⟩
    · rintro ⟨squares, hsquares, rfl, hfits⟩
      cases hsquares with
      | @cons _ _ xs ys hxs hys =>
        rw [← Reading.add_add] at hfits
        have hfirst : (p.add xs).Fits := hfits.of_add
        exact ⟨p.add xs, (readChar_eq_ok hp).mpr ⟨xs, hxs, rfl, hfirst⟩,
          (ih hfirst).mpr ⟨ys, hys, (p.add_add xs ys).symm, p.add_add xs ys ▸ hfits⟩⟩

private theorem readRank_eq_ok {kings : List Side} {rank : List Char} {p : Reading}
    (hkings : kings.Nodup) :
    readRank a number kings rank = .ok p ↔
      ∃ squares, Denotes a rank squares ∧ squares.length = 8 ∧
        p = ⟨squares, (kingsOf squares).reverse ++ kings⟩ ∧ p.kings.Nodup := by
  have hstart : (Reading.mk [] kings).Fits := ⟨Nat.zero_le 8, hkings⟩
  simp only [readRank, bind_eq_ok, foldlM_readChar_eq_ok hstart]
  constructor
  · rintro ⟨q, ⟨squares, hsquares, rfl, hfits⟩, h⟩
    split at h
    case isTrue hlength =>
      obtain rfl := Except.ok.inj h
      exact ⟨squares, hsquares, hlength, rfl, hfits.kings⟩
    case isFalse => exact (throw_eq_ok.mp h).elim
  · rintro ⟨squares, hsquares, hlength, rfl, hnodup⟩
    refine ⟨_, ⟨squares, hsquares, rfl, Nat.le_of_eq hlength, hnodup⟩, ?_⟩
    exact if_pos hlength

private theorem readRanks_eq_ok {kings : List Side} {ranks : List (List Char)}
    {rows : List (List (Option Piece))} (hkings : kings.Nodup) :
    readRanks a number kings ranks = .ok rows ↔
      List.Forall₂ (Denotes a) ranks rows ∧ (∀ row ∈ rows, row.length = 8) ∧
        ((kingsOf rows.flatten).reverse ++ kings).Nodup := by
  induction ranks generalizing kings number rows with
  | nil =>
    rw [readRanks, pure_eq_ok]
    constructor
    · rintro rfl
      exact ⟨.nil, by simp, by simpa [kingsOf] using hkings⟩
    · rintro ⟨hrows, -⟩
      cases hrows
      rfl
  | cons rank ranks ih =>
    simp only [readRanks, bind_eq_ok, readRank_eq_ok hkings, pure_eq_ok]
    constructor
    · rintro ⟨p, ⟨squares, hsquares, hlength, rfl, hnodup⟩, rest, hrest, rfl⟩
      obtain ⟨hrows, hlengths, hall⟩ := (ih hnodup).mp hrest
      refine ⟨.cons hsquares hrows, ?_, ?_⟩
      · simpa [hlength] using hlengths
      · rwa [List.flatten_cons, kingsOf_append, List.reverse_append, List.append_assoc]
    · rintro ⟨hrows, hlengths, hall⟩
      cases hrows with
      | @cons _ squares _ rest hsquares hrows =>
        obtain ⟨hlength, hlengths⟩ := List.forall_mem_cons.mp hlengths
        rw [List.flatten_cons, kingsOf_append, List.reverse_append, List.append_assoc] at hall
        have hnodup := (List.nodup_append.mp hall).2.1
        exact ⟨_, ⟨squares, hsquares, hlength, rfl, hnodup⟩, rest,
          (ih hnodup).mpr ⟨hrows, hlengths, hall⟩, rfl⟩

/-- A placement is read exactly if it has eight ranks in one alphabet. -/
theorem read_eq_ok {field : List Char} {b : Board} :
    read field = .ok (b, a) ↔
      (Text.splitWhere (· = '/') field).length = 8 ∧
        Selects (Text.splitWhere (· = '/') field).flatten a ∧
        ∃ rows, List.Forall₂ (Denotes a) (Text.splitWhere (· = '/') field) rows ∧
          (∀ row ∈ rows, row.length = 8) ∧ (kingsOf rows.flatten).Nodup ∧ b = .ofRows rows := by
  unfold read
  generalize Text.splitWhere (· = '/') field = ranks
  by_cases hlength : ranks.length = 8
  · simp only [hlength, ne_eq, not_true_eq_false, if_false, true_and, bind_eq_ok, pure_eq_ok,
      alphabetOf_eq_ok, readRanks_eq_ok List.nodup_nil, List.append_nil, List.nodup_reverse,
      Prod.mk.injEq]
    constructor
    · rintro ⟨a', ha, rows, ⟨hrows, hlengths, hkings⟩, rfl, rfl⟩
      exact ⟨ha, rows, hrows, hlengths, hkings, rfl⟩
    · rintro ⟨ha, rows, hrows, hlengths, hkings, rfl⟩
      exact ⟨a, ha, rows, ⟨hrows, hlengths, hkings⟩, rfl, rfl⟩
  · simp only [hlength, ne_eq, not_false_eq_true, if_true, bind_eq_ok, throw_eq_ok, false_and,
      exists_false]

theorem rows_of_read {field : List Char} {b : Board} (h : read field = .ok (b, a)) :
    List.Forall₂ (Denotes a) (Text.splitWhere (· = '/') field) b.rows := by
  obtain ⟨hranks, -, rows, hrows, hlengths, -, rfl⟩ := read_eq_ok.mp h
  rwa [Board.rows_ofRows (hrows.length_eq ▸ hranks) hlengths]

theorem hasLoneKings_of_read {field : List Char} {b : Board} (h : read field = .ok (b, a)) :
    b.HasLoneKings := by
  obtain ⟨hranks, -, rows, hrows, hlengths, hkings, rfl⟩ := read_eq_ok.mp h
  rwa [Board.hasLoneKings_iff, Board.rows_ofRows (hrows.length_eq ▸ hranks) hlengths]

private theorem Denotes.exists_piece? {rank : List Char} {squares : List (Option Piece)} {p : Piece}
    (h : Denotes a rank squares) (hp : some p ∈ squares) : ∃ c ∈ rank, a.piece? c = some p := by
  induction h with
  | nil => simp at hp
  | @cons c cs squares rest hc hrest ih =>
    rcases List.mem_append.mp hp with hp | hp
    · cases hc with
      | run => simp at hp
      | @piece c q hq =>
        obtain rfl : p = q := by simpa using hp
        exact ⟨c, List.mem_cons_self, hq⟩
    · obtain ⟨d, hd, hpiece⟩ := ih hp
      exact ⟨d, List.mem_cons_of_mem c hd, hpiece⟩

theorem exists_piece?_of_read {field : List Char} {b : Board} {s : Square} {p : Piece}
    (h : read field = .ok (b, a)) (hp : b.get s = some p) :
    ∃ c ∈ (Text.splitWhere (· = '/') field).flatten, a.piece? c = some p := by
  have hmem : some p ∈ b.rows.flatten := Board.some_mem_rows_flatten.mpr ⟨s, hp⟩
  have hrows : List.Forall₂ (Denotes a) (Text.splitWhere (· = '/') field) b.rows := rows_of_read h
  generalize Text.splitWhere (· = '/') field = ranks at hrows ⊢
  generalize b.rows = rows at hrows hmem
  induction hrows with
  | nil => simp at hmem
  | cons hrank _ ih =>
    simp only [List.flatten_cons, List.mem_append] at hmem ⊢
    rcases hmem with hmem | hmem
    · obtain ⟨c, hc, hpiece⟩ := hrank.exists_piece? hmem
      exact ⟨c, .inl hc, hpiece⟩
    · obtain ⟨c, hc, hpiece⟩ := ih hmem
      exact ⟨c, .inr hc, hpiece⟩

end Placement

namespace Fen

theorem ofFields_eq_ok {fields : List (List Char)} {f : Fen} :
    ofFields fields = .ok f ↔
      ∃ placement rest, fields = placement :: rest ∧ rest.length ≤ 3 ∧
        Placement.read placement = .ok (f.board, f.alphabet) ∧ readActive rest[0]? = .ok f.active ∧
        readPhase rest[1]? = .ok f.phase ∧ readMoveCount rest[2]? = .ok f.moveCount := by
  cases fields with
  | nil => simp [ofFields, throw_eq_ok]
  | cons placement rest =>
    unfold ofFields
    by_cases hlong : 4 < (placement :: rest).length
    · have hrest : ¬ rest.length ≤ 3 := by
        rw [List.length_cons] at hlong
        omega
      simp only [hlong, if_true, bind_eq_ok, throw_eq_ok, false_and, exists_false, List.cons.injEq,
        false_iff]
      rintro ⟨_, _, ⟨rfl, rfl⟩, h, -⟩
      exact hrest h
    · have hrest : rest.length ≤ 3 := by
        rw [List.length_cons] at hlong
        omega
      simp only [hlong, if_false, bind_eq_ok, pure_eq_ok]
      constructor
      · rintro ⟨⟨board, alphabet⟩, hread, active, hactive, phase, hphase, count, hcount, rfl⟩
        exact ⟨placement, rest, rfl, hrest, hread, hactive, hphase, hcount⟩
      · rintro ⟨_, _, heq, -, hread, hactive, hphase, hcount⟩
        obtain ⟨rfl, rfl⟩ := List.cons.inj heq
        exact ⟨_, hread, _, hactive, _, hphase, _, hcount, rfl⟩

theorem readActive_eq_ok {field : Option (List Char)} {side : Side} :
    readActive field = .ok side ↔ field = some [sideLetter side] := by
  unfold readActive
  split
  case h_1 => simp
  case h_2 => cases side <;> simp [sideLetter]
  case h_3 => cases side <;> simp [sideLetter]
  case h_4 field hw hb =>
    cases side with
    | white => simpa [sideLetter] using hw
    | black => simpa [sideLetter] using hb

theorem readPhase_eq_ok {field : Option (List Char)} {phase : Phase} :
    readPhase field = .ok phase ↔
      (∀ word, field = some word → word = "normal".toList ∨ word = "werera".toList) ∧
        phase = if field = some "werera".toList then .werera else .normal := by
  cases field with
  | none => simp [readPhase, eq_comm]
  | some word =>
    simp only [readPhase, Option.some.injEq, forall_eq']
    generalize hn : "normal".toList = normal
    generalize hw : "werera".toList = werera
    have hne : normal ≠ werera := by
      rw [← hn, ← hw]
      decide
    by_cases hnormal : word = normal
    · simp [hnormal, hne, eq_comm]
    · by_cases hwerera : word = werera
      · simp [hwerera, Ne.symm hne, eq_comm]
      · simp [hnormal, hwerera]

theorem readMoveCount_eq_ok {field : Option (List Char)} {count : UInt32} :
    readMoveCount field = .ok count ↔
      (∀ word, field = some word → word ≠ [] ∧ word.all Char.isDigit = true) ∧
        count.toNat = field.elim 0 fun word => Nat.ofDigitChars 10 word 0 := by
  cases field with
  | none =>
    rw [readMoveCount, Except.ok.injEq, eq_comm, ← UInt32.toNat_inj]
    simp
  | some word =>
    simp only [readMoveCount, Text.decimal?, Option.some.injEq, forall_eq', Option.elim_some]
    generalize Nat.ofDigitChars 10 word 0 = n
    by_cases hdigits : word ≠ [] ∧ word.all Char.isDigit = true
    · rw [if_pos hdigits]
      by_cases hn : n < UInt32.size
      · have hvalue : n.toUInt32.toNat = n := UInt32.toNat_ofNat_of_lt' hn
        simp only [hn, if_true, Except.ok.injEq, ← UInt32.toNat_inj, hvalue]
        constructor
        · intro heq
          exact ⟨hdigits, heq.symm⟩
        · intro h
          exact h.2.symm
      · have hlt := count.toNat_lt_size
        have hne : count.toNat ≠ n := by omega
        simp [hn, hne]
    · rw [if_neg hdigits]
      simp only [hdigits, false_and, reduceCtorEq]

theorem phase_of_readPhase {field : Option (List Char)} {phase : Phase}
    (h : readPhase field = .ok phase) : phase = .werera ∨ phase = .normal := by
  rw [(readPhase_eq_ok.mp h).2]
  split
  case isTrue => exact .inl rfl
  case isFalse => exact .inr rfl

/-- A line describes a position in play, and no side has two kings in it. -/
theorem sound_of_ofText {text : String} {f : Fen} (h : ofText text = .ok f) :
    f.board.HasLoneKings ∧ (f.phase = .werera ∨ f.phase = .normal) := by
  obtain ⟨placement, rest, -, -, hread, -, hphase, -⟩ := ofFields_eq_ok.mp h
  exact ⟨Placement.hasLoneKings_of_read hread, phase_of_readPhase hphase⟩

end Fen

end WereraChess
