import Mathlib.Data.List.Chain
import WereraChess.Proofs.Fen.RoundTrip
import WereraChess.Proofs.Fen.Symbols
/-!
# The normal form of position lines

A line that is read and written again says the same in the same alphabet. It comes out as it was
exactly if it has all four fields with one space between two of them and nothing else, takes every
run of empty squares together, and writes its count without needless zeros.
-/
namespace WereraChess

namespace Placement

variable {a : Alphabet} {b : Board} {n k : Nat} {rank field : List Char}
  {squares : List (Option Piece)}

/-- No run of empty squares is cut into two. -/
def HasWholeRuns (rank : List Char) : Prop :=
  rank.IsChain fun c d => ¬ (c.isDigit = true ∧ d.isDigit = true)

private theorem hasWholeRuns_cons_of_not_isDigit {c : Char} (hc : c.isDigit = false) :
    HasWholeRuns (c :: rank) ↔ HasWholeRuns rank := by
  simp [HasWholeRuns, List.isChain_cons, hc]

private theorem hasWholeRuns_rankText (a : Alphabet) (n : Nat) (squares : List (Option Piece)) :
    HasWholeRuns (rankText a n squares) := by
  induction squares generalizing n with
  | nil => cases n <;> simp [rankText, run, HasWholeRuns]
  | cons square squares ih =>
    cases square with
    | none => exact ih (n + 1)
    | some p =>
      have hrest : HasWholeRuns (a.symbol p :: rankText a 0 squares) :=
        (hasWholeRuns_cons_of_not_isDigit (a.not_isDigit_symbol p)).mpr (ih 0)
      cases n with
      | zero => exact hrest
      | succ n =>
        have hrun : run (n + 1) = [Nat.digitChar (n + 1)] := rfl
        rw [rankText, hrun, List.singleton_append, HasWholeRuns, List.isChain_cons_cons]
        exact ⟨by simp [a.not_isDigit_symbol p], hrest⟩

private theorem rankText_replicate (a : Alphabet) (n k : Nat) (squares : List (Option Piece)) :
    rankText a n (List.replicate k none ++ squares) = rankText a (n + k) squares := by
  induction k generalizing n with
  | zero => rfl
  | succ k ih =>
    rw [List.replicate_succ, List.cons_append, rankText, ih, Nat.add_right_comm, Nat.add_assoc]

private theorem Denotes.rankText_eq (h : Denotes a rank squares) (hruns : HasWholeRuns rank)
    (hn : n = 0 ∨ ∀ c ∈ rank.head?, c.isDigit = false) :
    rankText a n squares = run n ++ rank := by
  induction h generalizing n with
  | nil => rw [List.append_nil]; rfl
  | @cons c cs squares rest hc hrest ih =>
    obtain ⟨hhead, htail⟩ := List.isChain_cons.mp hruns
    cases hc with
    | @run k hlow hhigh =>
      have hdigit : (Nat.digitChar k).isDigit = true := Text.isDigit_digitChar (by omega)
      obtain rfl : n = 0 := by simpa [hdigit] using hn
      have hnext : ∀ d ∈ cs.head?, d.isDigit = false := by simpa [hdigit] using hhead
      rw [rankText_replicate, ih htail (.inr hnext), Nat.zero_add]
      cases k with
      | zero => omega
      | succ k => rfl
    | piece hpiece =>
      obtain ⟨-, rfl⟩ := Alphabet.piece?_eq_some_iff.mp hpiece
      rw [List.singleton_append, rankText, ih htail (.inl rfl)]
      rfl

private theorem Denotes.rankText_eq_iff (h : Denotes a rank squares) :
    rankText a 0 squares = rank ↔ HasWholeRuns rank := by
  constructor
  · intro heq
    rw [← heq]
    exact hasWholeRuns_rankText a 0 squares
  · intro hruns
    exact h.rankText_eq hruns (.inl rfl)

/-- A placement is written as it was read exactly if its ranks have whole runs. -/
theorem text_eq_iff (h : read field = .ok (b, a)) :
    text a b = field ↔ ∀ rank ∈ Text.splitWhere (· = '/') field, HasWholeRuns rank := by
  constructor
  · intro heq rank hrank
    rw [← heq, splitWhere_text] at hrank
    obtain ⟨row, -, rfl⟩ := List.mem_map.mp hrank
    exact hasWholeRuns_rankText a 0 row
  · intro hruns
    have hranks : written a b = Text.splitWhere (· = '/') field := by
      have hrows := rows_of_read h
      rw [written]
      generalize Text.splitWhere (· = '/') field = ranks at hrows hruns
      generalize b.rows = rows at hrows
      induction hrows with
      | nil => rfl
      | cons hrank _ ih =>
        rw [List.forall_mem_cons] at hruns
        rw [List.map_cons, hrank.rankText_eq_iff.mpr hruns.1, ih hruns.2]
    rw [text, ← written, hranks, Text.splitWhere_eq_splitOnP]
    exact List.intercalate_splitOn '/'

private theorem unmoved_of_read (h : read field = .ok (b, a)) : b.unmoved = b := by
  ext1 s
  rw [Board.get_unmoved]
  cases hp : b.get s with
  | none => rfl
  | some p =>
    obtain ⟨c, -, hpiece⟩ := exists_piece?_of_read h hp
    obtain ⟨hmoved, -⟩ := Alphabet.piece?_eq_some_iff.mp hpiece
    cases p
    cases hmoved
    rfl

private theorem Denotes.some_mem {c : Char} {p : Piece} (h : Denotes a rank squares) (hc : c ∈ rank)
    (hp : a.piece? c = some p) : some p ∈ squares := by
  induction h with
  | nil => simp at hc
  | @cons d cs squares rest hd _ ih =>
    rw [List.mem_append]
    rcases List.mem_cons.mp hc with rfl | hc
    · rw [stands_iff_of_not_isDigit (Alphabet.not_isDigit_of_piece? hp)] at hd
      obtain ⟨q, hq, rfl⟩ := hd
      rw [hp] at hq
      exact .inl (hq ▸ List.mem_singleton_self _)
    · exact .inr (ih hc)

private theorem exists_symbol_of_read {c : Char} (h : read field = .ok (b, a))
    (hc : c ∈ (Text.splitWhere (· = '/') field).flatten) (hdigit : c.isDigit = false) :
    ∃ s p, b.get s = some p ∧ a.symbol p = c := by
  have hadmits : Admits a c := ((read_eq_ok.mp h).2.1.admits c hc).resolve_left (by simp [hdigit])
  obtain ⟨p, hp⟩ := Alphabet.exists_piece?_of_mem_letters (Alphabet.mem_letters_iff.mpr hadmits)
  have hmem := (denotes_flatten (rows_of_read h)).some_mem hc hp
  obtain ⟨s, hs⟩ := Board.some_mem_rows_flatten.mp hmem
  exact ⟨s, p, hs, (Alphabet.piece?_eq_some_iff.mp hp).2⟩

private theorem not_hasOnlyKnights_of_read (h : read field = .ok (b, .shared)) (hne : b ≠ .empty) :
    ¬ b.HasOnlyKnights := by
  intro hknights
  obtain ⟨s, p, hp⟩ := Board.exists_piece hne
  obtain ⟨c, hc, hpiece⟩ := exists_piece?_of_read h hp
  have hdigit := Alphabet.not_isDigit_of_piece? hpiece
  have hmixed : (Text.splitWhere (· = '/') field).flatten.all Char.isDigit = false :=
    List.all_eq_false.mpr ⟨c, hc, by simp [hdigit]⟩
  rcases (read_eq_ok.mp h).2.1.own with ⟨d, hd, hown⟩ | hshared
  · obtain ⟨t, q, hq, rfl⟩ := exists_symbol_of_read h hd (not_isDigit_of_isOwnLetter hown)
    rw [Alphabet.isOwnLetter_symbol, decide_eq_true_eq] at hown
    exact hown (hknights t q hq)
  · rw [hmixed] at hshared
    simp at hshared

private theorem eq_shared_of_read_empty (h : read field = .ok (.empty, a)) : a = .shared := by
  have hdigits (c : Char) (hc : c ∈ (Text.splitWhere (· = '/') field).flatten) :
      c.isDigit = true := by
    by_contra hdigit
    obtain ⟨s, p, hp, -⟩ := exists_symbol_of_read h hc (by simpa using hdigit)
    simp at hp
  rcases (read_eq_ok.mp h).2.1.own with ⟨c, hc, hown⟩ | hshared
  · have hdigit := hdigits c hc
    simp [not_isDigit_of_isOwnLetter hown] at hdigit
  · rwa [if_pos (List.all_eq_true.mpr hdigits)] at hshared

/-- A placement that was read is read again from its writing, in the same alphabet. -/
theorem read_text_of_read (h : read field = .ok (b, a)) : read (text a b) = .ok (b, a) := by
  have hselects : Selects (written a b).flatten a := by
    by_cases hempty : b = .empty
    · rw [hempty] at h ⊢
      rw [eq_shared_of_read_empty h]
      exact selects_written_empty
    · apply selects_written_of_ne_empty hempty
      rintro rfl
      exact not_hasOnlyKnights_of_read h hempty
  rw [read_text (hasLoneKings_of_read h) hselects, unmoved_of_read h]

end Placement

namespace Fen

variable {f : Fen}

/-- The line has four fields with a space between two of them and no other blanks, it has whole
runs, and its count has no leading zeros but where it is zero. -/
structure IsNormal (line : List Char) : Prop where
  four : (Text.words line).length = 4
  spaced : [' '].intercalate (Text.words line) = line
  runs : ∀ field ∈ (Text.words line)[0]?, ∀ rank ∈ Text.splitWhere (· = '/') field,
    Placement.HasWholeRuns rank
  count : ∀ field ∈ (Text.words line)[3]?, field.head? = some '0' → field = ['0']

private theorem intercalate_words_chars (f : Fen) :
    [' '].intercalate (Text.words f.chars) = f.chars := by
  rw [words_chars, chars]
  simp [List.intercalate]

private theorem isNormal_chars (f : Fen) : IsNormal f.chars := by
  constructor
  case four => rw [words_chars]; rfl
  case spaced => exact intercalate_words_chars f
  case runs =>
    rw [words_chars]
    intro field hfield rank hrank
    obtain rfl : Placement.text f.alphabet f.board = field := Option.some.inj hfield
    rw [Placement.splitWhere_text] at hrank
    obtain ⟨row, -, rfl⟩ := List.mem_map.mp hrank
    exact Placement.hasWholeRuns_rankText f.alphabet 0 row
  case count =>
    rw [words_chars]
    intro field hfield hzero
    obtain rfl : Text.decimal f.moveCount.toNat = field := Option.some.inj hfield
    rw [Text.eq_zero_of_head?_toDigits hzero]
    rfl

private theorem words_eq_of_isNormal {line : List Char} (h : ofFields (Text.words line) = .ok f)
    (hline : IsNormal line) : Text.words line = Text.words f.chars := by
  obtain ⟨hfour, -, hruns, hcount⟩ := hline
  obtain ⟨placement, rest, hwords, -, hread, hside, hphase, hmoves⟩ := ofFields_eq_ok.mp h
  rw [hwords] at hfour hruns hcount ⊢
  match rest, hfour with
  | [side, phase, count], _ =>
    have hplacement : Placement.text f.alphabet f.board = placement :=
      (Placement.text_eq_iff hread).mpr (hruns placement rfl)
    have hsideWord : side = [sideLetter f.active] := Option.some.inj (readActive_eq_ok.mp hside)
    have hphaseWord : phase = phaseWord f.phase := by
      change readPhase (some phase) = .ok f.phase at hphase
      obtain ⟨hword, hvalue⟩ := readPhase_eq_ok.mp hphase
      rcases hword phase rfl with rfl | rfl <;> rw [hvalue] <;> decide
    have hcountWord : count = Text.decimal f.moveCount.toNat := by
      obtain ⟨hword, hvalue⟩ := readMoveCount_eq_ok.mp hmoves
      obtain ⟨hne, hdigits⟩ := hword count rfl
      rw [hvalue]
      exact (Text.decimal_ofDigitChars hne hdigits (hcount count rfl)).symm
    rw [words_chars, hplacement, hsideWord, hphaseWord, hcountWord]

/-- What is read from a line is read again from its writing, and this is the line exactly if it is
normal. -/
theorem line_of_ofText {text : String} (h : ofText text = .ok f) :
    ofText f.line = .ok f ∧ (f.line = text ↔ IsNormal text.toList) := by
  constructor
  · obtain ⟨placement, rest, -, -, hread, -, hphase, -⟩ := ofFields_eq_ok.mp h
    apply ofText_line_eq_ok.mpr
    refine ⟨Placement.read_text_of_read hread, rfl, ?_, rfl⟩
    rcases phase_of_readPhase hphase with heq | heq <;> rw [heq] <;> rfl
  · constructor
    · rintro rfl
      rw [line, String.toList_ofList]
      exact isNormal_chars f
    · intro hnormal
      have hwords := words_eq_of_isNormal h hnormal
      have hchars : f.chars = text.toList := by
        rw [← intercalate_words_chars, ← hwords, hnormal.spaced]
      rw [line, hchars, String.ofList_toList]

/-- A line with a run cut in two, a second space and a leading zero is read, and not normal. -/
theorem line_of_ofText_kings :
    ∃ f, ofText "13n3/8/8/8/8/8/8/4N3  b werera 07" = .ok f ∧ ofText f.line = .ok f ∧
      f.line = "4n3/8/8/8/8/8/8/4N3 b werera 7" ∧
      ¬ IsNormal "13n3/8/8/8/8/8/8/4N3  b werera 07".toList := by
  have hread : (ofText "13n3/8/8/8/8/8/8/4N3  b werera 07").toOption.map line =
      some "4n3/8/8/8/8/8/8/4N3 b werera 7" := by decide +kernel
  cases hf : ofText "13n3/8/8/8/8/8/8/4N3  b werera 07" with
  | error e => simp [hf, Except.toOption] at hread
  | ok f =>
    obtain ⟨hback, hnormal⟩ := line_of_ofText hf
    rw [hf] at hread
    have hline : f.line = "4n3/8/8/8/8/8/8/4N3 b werera 7" := Option.some.inj hread
    refine ⟨f, rfl, hback, hline, ?_⟩
    rw [← hnormal, hline]
    decide

end Fen

end WereraChess
