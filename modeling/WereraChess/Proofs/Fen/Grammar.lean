import WereraChess.Proofs.Fen.Symbols
/-!
# The grammar of position lines

Which lines are read, and what they say, told from their characters alone. A placement is eight
ranks of digits and letters that come to eight squares each, in one alphabet and with at most one
king a side; the fields after it are a side, a phase and a count.
-/
namespace WereraChess

namespace Placement

variable {a : Alphabet} {c : Char} {cs : List Char}

/-- The alphabet by the letters alone: Senterej if one of them is d, e, f, s or m, or if there are
letters and all are n. -/
def alphabetFor (cs : List Char) : Alphabet :=
  if (cs.any fun c => c.toLower ∈ ['d', 'e', 'f', 's', 'm']) ∨
      (cs.any fun c => !c.isDigit) ∧ cs.all fun c => c.isDigit ∨ c.toLower = 'n' then
    .senterej
  else .shared

private theorem alphabetFor_eq_senterej_iff : alphabetFor cs = .senterej ↔
    (∃ c ∈ cs, c.toLower ∈ ['d', 'e', 'f', 's', 'm']) ∨
      (∃ c ∈ cs, c.isDigit = false) ∧ ∀ c ∈ cs, c.isDigit = false → c.toLower = 'n' := by
  have hall (c : Char) : c.isDigit = true ∨ c.toLower = 'n' ↔
      c.isDigit = false → c.toLower = 'n' := by
    cases c.isDigit <;> simp
  rw [alphabetFor, ite_eq_left_iff]
  simp only [reduceCtorEq, imp_false, not_not, List.any_eq_true, List.all_eq_true,
    decide_eq_true_eq, Bool.not_eq_true', hall]

private theorem Selects.alphabetFor_eq (h : Selects cs a) : alphabetFor cs = a := by
  cases a with
  | senterej =>
    rw [alphabetFor_eq_senterej_iff]
    by_cases hown : ∃ c ∈ cs, isOwnLetter .senterej c = true
    · obtain ⟨c, hc, hown⟩ := hown
      exact .inl ⟨c, hc, of_decide_eq_true hown⟩
    · right
      constructor
      · simpa using h.own.resolve_left hown
      · intro c hc hdigit
        have hadmits := (h.admits c hc).resolve_left (by simp [hdigit])
        exact hadmits.resolve_left fun hletter => hown ⟨c, hc, hletter⟩
  | shared =>
    cases hfor : alphabetFor cs with
    | shared => rfl
    | senterej =>
      rcases alphabetFor_eq_senterej_iff.mp hfor with ⟨c, hc, hletter⟩ | ⟨⟨c, hc, hdigit⟩, hall⟩
      · have hown : isOwnLetter .senterej c = true := decide_eq_true hletter
        have heq := h.eq_of_isOwnLetter hc hown
        simp at heq
      · rcases h.own with ⟨d, hd, hown⟩ | hnone
        · have hn := hall d hd (not_isDigit_of_isOwnLetter hown)
          simp [isOwnLetter, hn, Alphabet.ownLetters] at hown
        · have hdigits : ∀ c ∈ cs, c.isDigit = true := by simpa using hnone
          simp [hdigits c hc] at hdigit

private theorem exists_selects (h : ∀ c ∈ cs, c.isDigit = true ∨ c.toLower ∈ a.letters) :
    ∃ a', Selects cs a' := by
  have hadmits (c : Char) (hc : c ∈ cs) : c.isDigit = true ∨ Admits a c :=
    (h c hc).imp_right Alphabet.mem_letters_iff.mp
  by_cases hown : ∃ c ∈ cs, isOwnLetter a c = true
  · exact ⟨a, hadmits, .inl hown⟩
  · refine ⟨_, fun c hc => (hadmits c hc).imp_right fun hletter => ?_, .inr rfl⟩
    exact .inr (hletter.resolve_left fun hletter => hown ⟨c, hc, hletter⟩)

/-- The ranks of a placement: eight, each of runs and letters that come to eight squares, in one
alphabet and with at most one king a side. -/
structure IsGrammatical (ranks : List (List Char)) : Prop where
  length : ranks.length = 8
  symbols : ∃ a : Alphabet, ∀ c ∈ ranks.flatten, IsSymbol a c
  widths : ∀ rank ∈ ranks, (rank.map width).sum = 8
  kings : ∀ side,
    ranks.flatten.count ((alphabetFor ranks.flatten).symbol (.fresh .king side)) ≤ 1

/-- The board has what the letters of the ranks stand for, unmoved, and nothing else. -/
structure Describes (ranks : List (List Char)) (a : Alphabet) (b : Board) : Prop where
  alphabet : a = alphabetFor ranks.flatten
  squares : ∀ s p, b.get s = some p ↔
    p.hasMoved = false ∧ ∃ rank, ranks[s.row.val]? = some rank ∧ IsLetterAt rank s.col (a.symbol p)

private theorem isDigit_or_mem_letters (h : IsSymbol a c) :
    c.isDigit = true ∨ c.toLower ∈ a.letters := by
  apply h.imp_left
  intro hrun
  obtain ⟨n, -, hn, rfl⟩ := mem_runs_iff.mp hrun
  exact Text.isDigit_digitChar (by omega)

private theorem Selects.isSymbol {a' : Alphabet} (h : Selects cs a) (hc : c ∈ cs)
    (hsymbol : IsSymbol a' c) : IsSymbol a c := by
  rcases hsymbol with hrun | hletter
  · exact .inl hrun
  · obtain ⟨p, hp⟩ := Alphabet.exists_piece?_of_mem_letters hletter
    have hdigit := Alphabet.not_isDigit_of_piece? hp
    have hadmits := (h.admits c hc).resolve_left (by simp [hdigit])
    exact .inr (Alphabet.mem_letters_iff.mpr hadmits)

variable {field : List Char}

/-- The placements of the grammar are the ones that are read. -/
theorem exists_read_iff :
    (∃ b a, read field = .ok (b, a)) ↔ IsGrammatical (Text.splitWhere (· = '/') field) := by
  generalize hranks : Text.splitWhere (· = '/') field = ranks
  constructor
  · rintro ⟨b, a, h⟩
    obtain ⟨hlength, hselects, rows, hrows, hlengths, hkings, rfl⟩ := read_eq_ok.mp h
    rw [hranks] at hlength hselects hrows
    have hdenotes := denotes_flatten hrows
    refine ⟨hlength, ⟨a, exists_denotes_iff.mp ⟨_, hdenotes⟩⟩, ?_, ?_⟩
    · exact (forall_length_iff hrows).mp hlengths
    · intro side
      rw [hselects.alphabetFor_eq, ← hdenotes.count_kingsOf]
      exact List.nodup_iff_count_le_one.mp hkings side
  · intro h
    obtain ⟨a', hsymbols⟩ := h.symbols
    obtain ⟨a, hselects⟩ := exists_selects fun c hc => isDigit_or_mem_letters (hsymbols c hc)
    obtain ⟨rows, hrows⟩ := exists_forall₂_denotes
      fun c hc => hselects.isSymbol hc (hsymbols c hc)
    refine ⟨.ofRows rows, a, read_eq_ok.mpr ?_⟩
    rw [hranks]
    refine ⟨h.length, hselects, rows, hrows, ?_, ?_, rfl⟩
    · exact (forall_length_iff hrows).mpr h.widths
    · rw [List.nodup_iff_count_le_one]
      intro side
      rw [(denotes_flatten hrows).count_kingsOf, ← hselects.alphabetFor_eq]
      exact h.kings side

private theorem describes_of_read {b : Board} (h : read field = .ok (b, a)) :
    Describes (Text.splitWhere (· = '/') field) a b := by
  obtain ⟨hlength, hselects, -⟩ := read_eq_ok.mp h
  have hrows := rows_of_read h
  generalize Text.splitWhere (· = '/') field = ranks at *
  refine ⟨hselects.alphabetFor_eq.symm, ?_⟩
  intro s p
  have hi : s.row.val < ranks.length := by omega
  have hi' : s.row.val < b.rows.length := hrows.length_eq ▸ hi
  have hrank : Denotes a ranks[s.row.val] b.rows[s.row.val] := hrows.get hi hi'
  have hsquare : b.rows[s.row.val][s.col.val]? = some (b.get s) := by
    simp [Board.rows, Board.row]
  rw [List.getElem?_eq_getElem hi, ← Option.some_inj, ← hsquare, hrank.getElem?_eq_some_iff]
  simp

variable {r n : Nat} {d : Char}

private theorem width_ne_unknownPiece (p : Reading) :
    (if p.squares.length ≤ 8 then pure p
      else throw (.rankWidth n p.squares.length) : Except FenError Reading) ≠
      .error (.unknownPiece r d) := by
  split <;> nofun

private theorem readChar_ne_unknownPiece {p : Reading} (hc : c.isDigit = true ∨ Admits a c) :
    readChar a n p c ≠ .error (.unknownPiece r d) := by
  intro h
  unfold readChar at h
  cases hdigit : c.isDigit with
  | true =>
    simp only [hdigit, if_true] at h
    split at h
    case isTrue => exact width_ne_unknownPiece _ h
    case isFalse => simp [bind_eq_error, throw_eq_error, throw_eq_ok] at h
  | false =>
    have hadmits : Admits a c := hc.resolve_left (by simp [hdigit])
    obtain ⟨piece, hpiece⟩ :=
      Alphabet.exists_piece?_of_mem_letters (Alphabet.mem_letters_iff.mpr hadmits)
    simp only [hdigit, Bool.false_eq_true, if_false, hpiece] at h
    split at h
    case isFalse => exact width_ne_unknownPiece _ h
    case isTrue =>
      split at h
      case isFalse => exact width_ne_unknownPiece _ h
      case isTrue => simp [bind_eq_error, throw_eq_error, throw_eq_ok] at h

private theorem foldlM_readChar_ne_unknownPiece {p : Reading}
    (h : ∀ c ∈ cs, c.isDigit = true ∨ Admits a c) :
    cs.foldlM (readChar a n) p ≠ .error (.unknownPiece r d) := by
  induction cs generalizing p with
  | nil => nofun
  | cons c cs ih =>
    obtain ⟨hc, hcs⟩ := List.forall_mem_cons.mp h
    intro herror
    rw [List.foldlM_cons] at herror
    rcases bind_eq_error.mp herror with herror | ⟨q, -, herror⟩
    · exact readChar_ne_unknownPiece hc herror
    · exact ih hcs herror

private theorem readRank_ne_unknownPiece {kings : List Side}
    (h : ∀ c ∈ cs, c.isDigit = true ∨ Admits a c) :
    readRank a n kings cs ≠ .error (.unknownPiece r d) := by
  intro herror
  rcases bind_eq_error.mp herror with herror | ⟨q, -, herror⟩
  · exact foldlM_readChar_ne_unknownPiece h herror
  · split at herror
    case isTrue => exact pure_eq_error.mp herror
    case isFalse => simp [throw_eq_error] at herror

private theorem readRanks_ne_unknownPiece {kings : List Side} {ranks : List (List Char)}
    (h : ∀ c ∈ ranks.flatten, c.isDigit = true ∨ Admits a c) :
    readRanks a n kings ranks ≠ .error (.unknownPiece r d) := by
  induction ranks generalizing n kings with
  | nil => nofun
  | cons rank ranks ih =>
    rw [List.flatten_cons, List.forall_mem_append] at h
    intro herror
    rcases bind_eq_error.mp herror with herror | ⟨p, -, herror⟩
    · exact readRank_ne_unknownPiece h.1 herror
    · rcases bind_eq_error.mp herror with herror | ⟨rows, -, herror⟩
      · exact ih h.2 herror
      · exact pure_eq_error.mp herror

end Placement

namespace Fen

/-- The fields of a line: a placement and a side, and a phase and a count if they are there. -/
structure IsGrammatical (fields : List (List Char)) : Prop where
  length : 2 ≤ fields.length ∧ fields.length ≤ 4
  placement : ∀ field, fields[0]? = some field →
    Placement.IsGrammatical (Text.splitWhere (· = '/') field)
  active : ∀ field, fields[1]? = some field → field = ['w'] ∨ field = ['b']
  phase : ∀ field, fields[2]? = some field → field = "normal".toList ∨ field = "werera".toList
  moveCount : ∀ field, fields[3]? = some field →
    field.all Char.isDigit = true ∧ Nat.ofDigitChars 10 field 0 ≤ 4294967295

/-- What the fields of a line say. A line without a phase is in normal play, one without a count has
no moves behind it. -/
structure Describes (fields : List (List Char)) (f : Fen) : Prop where
  placement : ∀ field, fields[0]? = some field →
    Placement.Describes (Text.splitWhere (· = '/') field) f.alphabet f.board
  active : fields[1]? = some [sideLetter f.active]
  phase : f.phase = if fields[2]? = some "werera".toList then .werera else .normal
  moveCount : f.moveCount.toNat = fields[3]?.elim 0 fun field => Nat.ofDigitChars 10 field 0

variable {text : String} {f : Fen}

theorem describes_of_ofText (h : ofText text = .ok f) : Describes (Text.words text.toList) f := by
  obtain ⟨placement, rest, hfields, -, hread, hactive, hphase, hcount⟩ := ofFields_eq_ok.mp h
  rw [hfields]
  refine ⟨?_, readActive_eq_ok.mp hactive, (readPhase_eq_ok.mp hphase).2,
    (readMoveCount_eq_ok.mp hcount).2⟩
  intro field hfield
  obtain rfl := Option.some.inj hfield
  exact Placement.describes_of_read hread

private theorem isGrammatical_of_ofText (h : ofText text = .ok f) :
    IsGrammatical (Text.words text.toList) := by
  obtain ⟨placement, rest, hfields, hlength, hread, hactive, hphase, hcount⟩ := ofFields_eq_ok.mp h
  rw [hfields]
  rw [readActive_eq_ok] at hactive
  obtain ⟨hdigits, hvalue⟩ := readMoveCount_eq_ok.mp hcount
  have hrest : 0 < rest.length := (List.getElem?_eq_some_iff.mp hactive).1
  refine ⟨⟨Nat.succ_le_succ hrest, Nat.succ_le_succ hlength⟩, ?_, ?_, (readPhase_eq_ok.mp hphase).1,
    ?_⟩
  · intro field hfield
    obtain rfl := Option.some.inj hfield
    exact Placement.exists_read_iff.mp ⟨_, _, hread⟩
  · intro field hfield
    obtain rfl := Option.some.inj (hactive.symm.trans hfield)
    cases f.active with
    | white => exact .inl rfl
    | black => exact .inr rfl
  · intro field hfield
    have hfield : rest[2]? = some field := hfield
    rw [hfield] at hdigits hvalue
    have hlt := f.moveCount.toNat_lt_size
    refine ⟨(hdigits field rfl).2, Nat.le_of_lt_succ ?_⟩
    rwa [hvalue] at hlt

private theorem exists_of_isGrammatical (h : IsGrammatical (Text.words text.toList)) :
    ∃ f, ofText text = .ok f := by
  generalize hfields : Text.words text.toList = fields at h
  obtain ⟨⟨hlow, hhigh⟩, hplacement, hactive, hphase, hcount⟩ := h
  obtain ⟨placement, rest, rfl⟩ := List.exists_cons_of_length_pos (Nat.zero_lt_of_lt hlow)
  obtain ⟨board, alphabet, hread⟩ := Placement.exists_read_iff.mpr (hplacement placement rfl)
  obtain ⟨active, rest, rfl⟩ := List.exists_cons_of_length_pos (Nat.lt_of_succ_lt_succ hlow)
  obtain ⟨side, rfl⟩ : ∃ side, active = [sideLetter side] := by
    rcases hactive active rfl with hwhite | hblack
    · exact ⟨.white, hwhite⟩
    · exact ⟨.black, hblack⟩
  have hread_count : ∃ count, readMoveCount rest[1]? = .ok count := by
    refine ⟨(rest[1]?.elim 0 fun word => Nat.ofDigitChars 10 word 0).toUInt32,
      readMoveCount_eq_ok.mpr ⟨?_, UInt32.toNat_ofNat_of_lt' ?_⟩⟩
    · intro word hword
      have hmem : word ∈ Text.words text.toList := by
        rw [hfields]
        exact List.mem_cons_of_mem _ (List.mem_cons_of_mem _ (List.mem_of_getElem? hword))
      exact ⟨Text.ne_nil_of_mem_words hmem, (hcount word hword).1⟩
    · cases hword : rest[1]? with
      | none => decide
      | some word => exact Nat.lt_succ_of_le (hcount word hword).2
  obtain ⟨count, hcount⟩ := hread_count
  exact ⟨⟨board, side, _, count, alphabet⟩, ofFields_eq_ok.mpr ⟨placement, _, hfields,
    Nat.le_of_succ_le_succ hhigh, hread, readActive_eq_ok.mpr rfl,
    readPhase_eq_ok.mpr ⟨hphase, rfl⟩, hcount⟩⟩

/-- The lines of the grammar are the ones that are read, as what they say, and no letter is unknown
any more once the alphabet of a placement has been found. -/
theorem ofText_grammar (text : String) :
    ((∃ f, ofText text = .ok f) ↔ IsGrammatical (Text.words text.toList)) ∧
      (∀ f, ofText text = .ok f → Describes (Text.words text.toList) f) ∧
      ∀ ranks a, Placement.alphabetOf ranks = .ok a →
        ∀ number letter, Placement.readRanks a 1 [] ranks ≠ .error (.unknownPiece number letter) := by
  refine ⟨⟨?_, exists_of_isGrammatical⟩, fun f h => describes_of_ofText h, ?_⟩
  · rintro ⟨f, h⟩
    exact isGrammatical_of_ofText h
  · intro ranks a ha number letter
    apply Placement.readRanks_ne_unknownPiece
    exact (Placement.alphabetOf_eq_ok.mp ha).admits

/-- Two kings and a pawn in the letters of Senterej. -/
theorem ofText_grammar_kings :
    ∃ f, ofText "4n3/8/8/3M4/8/8/8/4N3 b werera 07" = .ok f ∧
      IsGrammatical (Text.words "4n3/8/8/3M4/8/8/8/4N3 b werera 07".toList) ∧
      Describes (Text.words "4n3/8/8/3M4/8/8/8/4N3 b werera 07".toList) f ∧
      f.alphabet = .senterej ∧ f.board.get ⟨3, 3⟩ = some (.fresh .pawn .white) := by
  obtain ⟨haccepts, hsays, -⟩ := ofText_grammar "4n3/8/8/3M4/8/8/8/4N3 b werera 07"
  have hread : (ofText "4n3/8/8/3M4/8/8/8/4N3 b werera 07").toOption.map
      (fun f => (f.alphabet, f.board.get ⟨3, 3⟩)) =
        some (.senterej, some (.fresh .pawn .white)) := by decide +kernel
  cases hf : ofText "4n3/8/8/3M4/8/8/8/4N3 b werera 07" with
  | error e => simp [hf, Except.toOption] at hread
  | ok f =>
    rw [hf] at hread
    obtain ⟨halphabet, hpawn⟩ := Prod.mk.inj (Option.some.inj hread)
    exact ⟨f, rfl, haccepts.mp ⟨f, hf⟩, hsays f hf, halphabet, hpawn⟩

end Fen

end WereraChess
