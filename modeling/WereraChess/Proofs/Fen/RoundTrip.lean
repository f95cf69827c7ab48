import WereraChess.Proofs.Fen.Writing
/-!
# Reading what was written

A written line is read as the position that it was written from, up to the flags of moved pieces and
the way a game ended, exactly if no side has two kings and the letters do not mislead about the
alphabet, as they do where all pieces are knights in the shared alphabet.
-/
namespace WereraChess

def Board.HasOnlyKnights (b : Board) : Prop := ∀ s p, b.get s = some p → p.kind = .knight

theorem Board.exists_piece {b : Board} (h : b ≠ .empty) : ∃ s p, b.get s = some p := by
  apply Classical.byContradiction
  intro hnone
  apply h
  rw [eq_empty_iff]
  intro s
  rw [← Option.not_isSome_iff_eq_none, Option.isSome_iff_exists]
  exact fun ⟨p, hp⟩ => hnone ⟨s, p, hp⟩

theorem Board.hasLoneKings_unmoved {b : Board} : b.unmoved.HasLoneKings ↔ b.HasLoneKings := by
  have hking (s : Square) : b.unmoved.kingAt s = b.kingAt s := by
    rw [kingAt, kingAt, get_unmoved]
    cases b.get s <;> rfl
  simp only [HasLoneKings, hking]

namespace Placement

variable {a : Alphabet} {b : Board}

private theorem not_all_isDigit_written {s : Square} {p : Piece} (hp : b.get s = some p) :
    (written a b).flatten.all Char.isDigit = false := by
  rw [List.all_eq_false]
  refine ⟨a.symbol p, symbol_mem_written hp, ?_⟩
  rw [a.not_isDigit_symbol p]
  decide

private theorem admits_written {c : Char} (hc : c ∈ (written a b).flatten) :
    c.isDigit = true ∨ Admits a c := by
  apply (mem_written hc).imp_right
  intro ⟨s, p, _, heq⟩
  rw [heq]
  exact a.admits_symbol p

theorem selects_written {s : Square} {p : Piece} (hp : b.get s = some p)
    (hkind : a = .shared → p.kind ≠ .knight) : Selects (written a b).flatten a := by
  refine ⟨fun c => admits_written, ?_⟩
  by_cases hN : p.kind = a.kindOfN
  · right
    rw [not_all_isDigit_written hp]
    cases a with
    | shared => exact absurd hN (hkind rfl)
    | senterej => rfl
  · left
    refine ⟨a.symbol p, symbol_mem_written hp, ?_⟩
    rw [a.isOwnLetter_symbol, decide_eq_true_eq]
    exact hN

theorem selects_written_of_ne_empty (hne : b ≠ .empty)
    (hknights : a = .shared → ¬ b.HasOnlyKnights) : Selects (written a b).flatten a := by
  cases a with
  | senterej =>
    obtain ⟨s, p, hp⟩ := Board.exists_piece hne
    exact selects_written hp nofun
  | shared =>
    have hother := hknights rfl
    simp only [Board.HasOnlyKnights, Classical.not_forall] at hother
    obtain ⟨s, p, hp, hkind⟩ := hother
    exact selects_written hp fun _ => hkind

private theorem selects_written_knights (hne : b ≠ .empty) (hknights : b.HasOnlyKnights) :
    Selects (written .shared b).flatten .senterej := by
  obtain ⟨s, p, hp⟩ := Board.exists_piece hne
  refine ⟨fun c hc => ?_, .inr ?_⟩
  · apply (mem_written hc).imp_right
    intro ⟨t, q, hq, heq⟩
    right
    have hown : isOwnLetter .shared c = false := by
      rw [heq, Alphabet.isOwnLetter_symbol, hknights t q hq]
      decide
    have hadmits : Admits .shared c := heq ▸ Alphabet.admits_symbol .shared q
    exact hadmits.resolve_left (by simp [hown])
  · rw [not_all_isDigit_written hp]
    rfl

theorem selects_written_empty : Selects (written .shared .empty).flatten .shared := by
  have hdigits (c : Char) (hc : c ∈ (written .shared .empty).flatten) : c.isDigit = true := by
    rcases mem_written hc with hdigit | ⟨s, p, hp, -⟩
    · exact hdigit
    · simp at hp
  refine ⟨fun c => admits_written, .inr ?_⟩
  rw [List.all_eq_true.mpr hdigits]
  rfl

private theorem text_empty (a : Alphabet) : text a .empty = text .shared .empty := by
  cases a <;> decide +kernel

/-- A board is read back in the alphabet of its writing. -/
theorem read_text (hking : b.HasLoneKings) (ha : Selects (written a b).flatten a) :
    read (text a b) = .ok (b.unmoved, a) := by
  rw [read_eq_ok, splitWhere_text]
  refine ⟨length_written a b, ha, b.unmoved.rows, denotes_written a b, ?_, ?_, ?_⟩
  · intro row hrow
    exact Board.length_of_mem_rows hrow
  · rwa [← Board.hasLoneKings_iff, Board.hasLoneKings_unmoved]
  · exact b.unmoved.ofRows_rows.symm

private theorem kind_of_read_knights {c : Board} {s : Square} {p : Piece}
    (hknights : b.HasOnlyKnights) (h : read (text .shared b) = .ok (c, .senterej))
    (hp : c.get s = some p) : p.kind = .king := by
  obtain ⟨x, hx, hpiece⟩ := exists_piece?_of_read h hp
  rw [splitWhere_text] at hx
  rcases mem_written hx with hdigit | ⟨t, q, hq, rfl⟩
  · simp [Alphabet.not_isDigit_of_piece? hpiece] at hdigit
  · rw [← Alphabet.symbol_unmoved, Piece.unmoved, hknights t q hq] at hpiece
    have hking : Alphabet.senterej.piece? (Alphabet.shared.symbol (.fresh .knight q.owner)) =
        some (.fresh .king q.owner) := by
      cases q.owner <;> decide
    rw [hking] at hpiece
    rw [← Option.some.inj hpiece]
    rfl

theorem not_isBlank_text {c : Char} (hc : c ∈ text a b) : Text.isBlank c = false := by
  rcases Text.mem_flatten_splitWhere (p := (· = '/')) hc with hslash | hc
  · rw [of_decide_eq_true hslash]
    decide
  · rw [splitWhere_text] at hc
    rcases mem_written hc with hdigit | ⟨s, p, -, rfl⟩
    · exact Text.not_isBlank_of_isDigit hdigit
    · exact a.not_isBlank_symbol p

private theorem text_ne_nil (a : Alphabet) (b : Board) : text a b ≠ [] := by
  intro h
  have hranks : (Text.splitWhere (· = '/') (text a b)).length = 8 := by
    rw [splitWhere_text, length_written]
  rw [h] at hranks
  simp [Text.splitWhere] at hranks

end Placement

namespace Fen

theorem words_chars (f : Fen) :
    Text.words f.chars =
      [Placement.text f.alphabet f.board, [sideLetter f.active], phaseWord f.phase,
        Text.decimal f.moveCount.toNat] := by
  have htext : Text.words (Placement.text f.alphabet f.board) =
      [Placement.text f.alphabet f.board] :=
    Text.words_of_forall_not_isBlank (Placement.text_ne_nil _ _) fun c => Placement.not_isBlank_text
  have hside : Text.words [sideLetter f.active] = [[sideLetter f.active]] := by
    cases f.active <;> decide
  have hphase : Text.words (phaseWord f.phase) = [phaseWord f.phase] := by
    have hword : phaseWord f.phase = "werera".toList ∨ phaseWord f.phase = "normal".toList := by
      cases f.phase with
      | werera => exact .inl rfl
      | normal => exact .inr rfl
      | complete => exact .inr rfl
    rcases hword with hword | hword <;> rw [hword] <;> decide
  have hcount : Text.words (Text.decimal f.moveCount.toNat) = [Text.decimal f.moveCount.toNat] :=
    Text.words_of_forall_not_isBlank Nat.toDigits_ne_nil fun c hc =>
      Text.not_isBlank_of_isDigit (Text.isDigit_of_mem_decimal hc)
  have hblank : Text.isBlank ' ' = true := by decide
  have hmiddle := Text.words_append_blank [sideLetter f.active] (phaseWord f.phase) hblank
  rw [List.singleton_append, hside, hphase] at hmiddle
  rw [chars, Text.words_append_blank _ _ hblank, Text.words_append_blank _ _ hblank, htext, hmiddle,
    hcount]
  rfl

private theorem readMoveCount_decimal (n : UInt32) :
    readMoveCount (some (Text.decimal n.toNat)) = .ok n := by
  have hlt : n.toNat < UInt32.size := n.toNat_lt
  rw [readMoveCount, Text.decimal?_decimal]
  dsimp only
  rw [if_pos hlt, Nat.toUInt32, UInt32.ofNat_toNat]

theorem ofText_line_eq_ok {f g : Fen} :
    ofText f.line = .ok g ↔
      Placement.read (Placement.text f.alphabet f.board) = .ok (g.board, g.alphabet) ∧
        g.active = f.active ∧ g.phase = (if f.phase = .werera then .werera else .normal) ∧
        g.moveCount = f.moveCount := by
  have hactive : readActive (some [sideLetter f.active]) = .ok f.active := readActive_eq_ok.mpr rfl
  have hphase : readPhase (some (phaseWord f.phase)) =
      .ok (if f.phase = .werera then .werera else .normal) := by
    cases f.phase <;> rfl
  rw [ofText, line, String.toList_ofList, words_chars, ofFields_eq_ok]
  constructor
  · rintro ⟨_, _, heq, -, hread, hactive', hphase', hcount⟩
    obtain ⟨rfl, rfl⟩ := List.cons.inj heq
    exact ⟨hread, Except.ok.inj (hactive'.symm.trans hactive),
      Except.ok.inj (hphase'.symm.trans hphase),
      Except.ok.inj (hcount.symm.trans (readMoveCount_decimal _))⟩
  · rintro ⟨hread, hactive', hphase', hcount⟩
    rw [hactive', hphase', hcount]
    exact ⟨_, _, rfl, Nat.le_refl 3, hread, hactive, hphase, readMoveCount_decimal _⟩

/-- The position is what a line can keep of another. -/
structure Recovers (f g : Fen) : Prop where
  board : g.board = f.board.unmoved
  active : g.active = f.active
  phase : g.phase = if f.phase = .werera then .werera else .normal
  moveCount : g.moveCount = f.moveCount

private theorem recovers_of_ofText {f g : Fen} (h : ofText f.line = .ok g)
    (hboard : g.board = f.board.unmoved) : f.Recovers g := by
  obtain ⟨-, hactive, hphase, hcount⟩ := ofText_line_eq_ok.mp h
  exact ⟨hboard, hactive, hphase, hcount⟩

theorem exists_recovers {f : Fen} (hking : f.board.HasLoneKings)
    (ha : Placement.Selects (Placement.written f.alphabet f.board).flatten f.alphabet) :
    ∃ g, ofText f.line = .ok g ∧ f.Recovers g ∧ g.alphabet = f.alphabet := by
  let g : Fen := ⟨f.board.unmoved, f.active, if f.phase = .werera then .werera else .normal,
    f.moveCount, f.alphabet⟩
  have hg : ofText f.line = .ok g :=
    ofText_line_eq_ok.mpr ⟨Placement.read_text hking ha, rfl, rfl, rfl⟩
  exact ⟨g, hg, recovers_of_ofText hg rfl, rfl⟩

/-- On an empty board nothing tells the alphabets apart. -/
theorem exists_recovers_empty {f : Fen} (h : f.board = .empty) :
    ∃ g, ofText f.line = .ok g ∧ f.Recovers g ∧ g.alphabet = .shared := by
  have hking : Board.empty.HasLoneKings := by
    intro s t side hs
    simp [Board.kingAt] at hs
  have hread := Placement.read_text hking Placement.selects_written_empty
  rw [← Placement.text_empty f.alphabet, ← h] at hread
  let g : Fen := ⟨f.board.unmoved, f.active, if f.phase = .werera then .werera else .normal,
    f.moveCount, .shared⟩
  have hg : ofText f.line = .ok g := ofText_line_eq_ok.mpr ⟨hread, rfl, rfl, rfl⟩
  exact ⟨g, hg, recovers_of_ofText hg rfl, rfl⟩

/-- Shared knights are read as Senterej kings. -/
theorem not_recovers_knights {f g : Fen} (ha : f.alphabet = .shared) (hne : f.board ≠ .empty)
    (hknights : f.board.HasOnlyKnights) (h : ofText f.line = .ok g) : ¬ f.Recovers g := by
  intro hg
  obtain ⟨hread, -⟩ := ofText_line_eq_ok.mp h
  rw [ha] at hread
  have hselects := (Placement.read_eq_ok.mp hread).2.1
  rw [Placement.splitWhere_text] at hselects
  have halphabet : g.alphabet = .senterej :=
    hselects.unique (Placement.selects_written_knights hne hknights)
  rw [halphabet] at hread
  obtain ⟨s, p, hp⟩ := Board.exists_piece hne
  have hpiece : g.board.get s = some p.unmoved := by
    rw [hg.board, Board.get_unmoved, hp]
    rfl
  have hkind : p.unmoved.kind = .king := Placement.kind_of_read_knights hknights hread hpiece
  have hknight : p.unmoved.kind = .knight := hknights s p hp
  simp [hknight] at hkind

/-- A written position is recovered exactly if no side has two kings and the board is not one of
knights in shared letters; and then its alphabet is, but for an empty board. -/
theorem ofText_line (f : Fen) :
    ((∃ g, ofText f.line = .ok g ∧ f.Recovers g) ↔
      f.board.HasLoneKings ∧
        ¬ (f.alphabet = .shared ∧ f.board ≠ .empty ∧ f.board.HasOnlyKnights)) ∧
    ∀ g, ofText f.line = .ok g → f.Recovers g →
      g.alphabet = if f.board = .empty then .shared else f.alphabet := by
  have hback (hking : f.board.HasLoneKings)
      (hclear : ¬ (f.alphabet = .shared ∧ f.board ≠ .empty ∧ f.board.HasOnlyKnights)) :
      ∃ g, ofText f.line = .ok g ∧ f.Recovers g ∧
        g.alphabet = if f.board = .empty then .shared else f.alphabet := by
    by_cases hempty : f.board = .empty
    · rw [if_pos hempty]
      exact exists_recovers_empty hempty
    · rw [if_neg hempty]
      apply exists_recovers hking
      apply Placement.selects_written_of_ne_empty hempty
      exact fun ha hknights => hclear ⟨ha, hempty, hknights⟩
  have hforth {g : Fen} (h : ofText f.line = .ok g) (hg : f.Recovers g) :
      f.board.HasLoneKings ∧
        ¬ (f.alphabet = .shared ∧ f.board ≠ .empty ∧ f.board.HasOnlyKnights) := by
    have hking := Placement.hasLoneKings_of_read (ofText_line_eq_ok.mp h).1
    rw [hg.board, Board.hasLoneKings_unmoved] at hking
    exact ⟨hking, fun ⟨ha, hne, hknights⟩ => not_recovers_knights ha hne hknights h hg⟩
  constructor
  · constructor
    · rintro ⟨g, h, hg⟩
      exact hforth h hg
    · intro ⟨hking, hclear⟩
      obtain ⟨g, h, hg, -⟩ := hback hking hclear
      exact ⟨g, h, hg⟩
  · intro g h hg
    obtain ⟨hking, hclear⟩ := hforth h hg
    obtain ⟨g', h', -, ha⟩ := hback hking hclear
    rw [h] at h'
    rwa [Except.ok.inj h']

example : (Placement.read (Placement.text .shared
    (Board.empty.set ⟨4, 4⟩ (some (.fresh .knight .white))))).toOption =
      some (Board.empty.set ⟨4, 4⟩ (some (.fresh .king .white)), .senterej) := by
  decide +kernel

end Fen

end WereraChess
