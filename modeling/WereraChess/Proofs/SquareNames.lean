import Mathlib.Data.List.DropRight
import Mathlib.Data.Nat.Digits.Defs
import WereraChess.Proofs.Text
import WereraChess.Square.Name
/-!
# Reading the names of squares

Which texts name a square, said without the reader: a file letter and a rank digit, or two numbers
on both sides of the first comma. The reader takes exactly these, whatever blanks stand around the text
and around its numbers, and it reads what is written.
-/
namespace WereraChess

namespace Text

/-- The text has blanks, and nothing else, around `inner`, which neither begins nor ends with
one. -/
structure IsTrimmed (cs inner : List Char) : Prop where
  parts : ∃ front back, cs = front ++ inner ++ back ∧
    (∀ c ∈ front, isBlank c = true) ∧ ∀ c ∈ back, isBlank c = true
  first : ∀ c ∈ inner.head?, isBlank c = false
  last : ∀ c ∈ inner.getLast?, isBlank c = false

private theorem trim_eq_rdropWhile (cs : List Char) :
    trim cs = (cs.dropWhile isBlank).rdropWhile isBlank := rfl

private theorem dropWhile_append_of_first {p : Char → Bool} {front cs : List Char}
    (hfront : ∀ c ∈ front, p c = true) (hfirst : ∀ c ∈ cs.head?, p c = false) :
    (front ++ cs).dropWhile p = cs := by
  rw [List.dropWhile_append_of_pos hfront]
  cases cs with
  | nil => rfl
  | cons c cs => exact List.dropWhile_cons_of_neg (by simp [hfirst c rfl])

private theorem isTrimmed_trim (cs : List Char) : IsTrimmed cs (trim cs) := by
  have hback : (cs.dropWhile isBlank).rdropWhile isBlank ++
      (cs.dropWhile isBlank).rtakeWhile isBlank = cs.dropWhile isBlank :=
    List.rdropWhile_append_rtakeWhile
  refine ⟨⟨cs.takeWhile isBlank, (cs.dropWhile isBlank).rtakeWhile isBlank, ?_, ?_, ?_⟩, ?_, ?_⟩
  · rw [trim_eq_rdropWhile, List.append_assoc, hback, List.takeWhile_append_dropWhile]
  · exact fun c hc => List.mem_takeWhile_imp hc
  · exact fun c hc => List.mem_rtakeWhile_imp hc
  · intro c hc
    have hfirst : trim cs <+: cs.dropWhile isBlank := List.rdropWhile_prefix isBlank _
    have hhead : (cs.dropWhile isBlank).head? = some c := by
      obtain ⟨rest, hrest⟩ := hfirst
      rw [← hrest, List.head?_append_of_ne_nil _ (List.ne_nil_of_mem (List.mem_of_mem_head? hc))]
      exact hc
    have hnot := List.head?_dropWhile_not isBlank cs
    rw [hhead] at hnot
    simpa using hnot
  · intro c hc
    obtain ⟨hne, rfl⟩ := List.mem_getLast?_eq_getLast hc
    exact Bool.eq_false_of_not_eq_true
      (List.rdropWhile_last_not isBlank (cs.dropWhile isBlank) hne)

/-- Trimming leaves what stands between the blanks. -/
theorem trim_eq_iff {cs inner : List Char} : trim cs = inner ↔ IsTrimmed cs inner := by
  constructor
  · rintro rfl
    exact isTrimmed_trim cs
  · rintro ⟨⟨front, back, rfl, hfront, hback⟩, hfirst, hlast⟩
    have hback' : ∀ c ∈ back.reverse, isBlank c = true :=
      fun c hc => hback c (List.mem_reverse.mp hc)
    have hlast' : ∀ c ∈ inner.reverse.head?, isBlank c = false := by
      rwa [List.head?_reverse]
    cases inner with
    | nil =>
      have hall : ∀ c ∈ front ++ back, isBlank c = true :=
        List.forall_mem_append.mpr ⟨hfront, hback⟩
      rw [List.append_nil, trim, List.dropWhile_eq_nil_iff.mpr hall]
      rfl
    | cons c inner =>
      rw [List.append_assoc, trim, dropWhile_append_of_first hfront (by simpa using hfirst),
        List.reverse_append, dropWhile_append_of_first hback' hlast', List.reverse_reverse]

private theorem toNat_ofNat_of_lt {n : Nat} (h : n < 128) : (Char.ofNat n).toNat = n := by
  have hvalid : n.isValidChar := .inl (by omega)
  rw [Char.ofNat, dif_pos hvalid]
  rfl

/-- The text is the number in decimal digits. Zeros may stand in front of them, and one plus sign in
front of all. -/
def IsNumeral (cs : List Char) (n : Nat) : Prop :=
  ∃ digits, (cs = digits ∨ cs = '+' :: digits) ∧ digits ≠ [] ∧
    (∀ c ∈ digits, '0'.toNat ≤ c.toNat ∧ c.toNat ≤ '9'.toNat) ∧
    Nat.ofDigits 10 (digits.reverse.map fun c => c.toNat - '0'.toNat) = n

private theorem ofDigitChars_eq_ofDigits (cs : List Char) :
    Nat.ofDigitChars 10 cs 0 =
      Nat.ofDigits 10 (cs.reverse.map fun c => c.toNat - '0'.toNat) := by
  induction cs using List.reverseRecOn with
  | nil => rfl
  | append_singleton cs c ih =>
    have hvalue : Nat.ofDigitChars 10 (cs ++ [c]) 0 =
        10 * Nat.ofDigitChars 10 cs 0 + (c.toNat - '0'.toNat) := by
      rw [Nat.ofDigitChars_append]
      rfl
    rw [hvalue, ih, List.reverse_append, List.reverse_singleton, List.singleton_append,
      List.map_cons, Nat.ofDigits_cons]
    exact Nat.add_comm _ _

private theorem decimal?_eq_some_iff {cs : List Char} {n : Nat} :
    decimal? cs = some n ↔ cs ≠ [] ∧
      (∀ c ∈ cs, '0'.toNat ≤ c.toNat ∧ c.toNat ≤ '9'.toNat) ∧
      Nat.ofDigits 10 (cs.reverse.map fun c => c.toNat - '0'.toNat) = n := by
  have hdigits : cs.all Char.isDigit = true ↔
      ∀ c ∈ cs, '0'.toNat ≤ c.toNat ∧ c.toNat ≤ '9'.toNat := by
    rw [List.all_eq_true]
    exact forall₂_congr fun c _ => isDigit_iff
  rw [decimal?, Option.ite_none_right_eq_some, hdigits, Option.some.injEq,
    ofDigitChars_eq_ofDigits, and_assoc]

private theorem plusDecimal?_eq_some_iff {cs : List Char} {n : Nat} :
    plusDecimal? cs = some n ↔ IsNumeral cs n := by
  have hplus (cs : List Char) : decimal? ('+' :: cs) ≠ some n := by
    intro h
    have hsign := (decimal?_eq_some_iff.mp h).2.1 '+' List.mem_cons_self
    exact absurd hsign (by decide)
  unfold IsNumeral
  simp only [← decimal?_eq_some_iff]
  constructor
  · intro h
    unfold plusDecimal? at h
    split at h
    case h_1 digits => exact ⟨digits, .inr rfl, h⟩
    case h_2 => exact ⟨cs, .inl rfl, h⟩
  · rintro ⟨digits, rfl | rfl, h⟩
    · unfold plusDecimal?
      split
      case h_1 => exact absurd h (hplus _)
      case h_2 => exact h
    · exact h

end Text

namespace Square

/-- The texts without blanks around them that name a square, by a letter and a digit or by two
numbers. Files are counted from `a` on, in either case, and ranks from White's back row on. -/
inductive Spells (s : Square) : List Char → Prop
  | letters {file rank : Char}
      (hfile : file.toNat = 'a'.toNat + s.col ∨ file.toNat = 'A'.toNat + s.col)
      (hrank : rank.toNat = '0'.toNat + (8 - s.row)) : Spells s [file, rank]
  | numbers {row col row' col' : List Char} (hcomma : ',' ∉ row)
      (hrow : Text.IsTrimmed row row') (hcol : Text.IsTrimmed col col')
      (hrow' : Text.IsNumeral row' s.row) (hcol' : Text.IsNumeral col' s.col) :
      Spells s (row ++ ',' :: col)

private theorem fileColumn?_eq_some_iff {c : Char} {col : Fin 8} :
    fileColumn? c = some col ↔ c.toNat = 'a'.toNat + col ∨ c.toNat = 'A'.toNat + col := by
  have hcodes : 'a'.toNat = 97 ∧ 'A'.toNat = 65 := by decide
  have hcol := col.isLt
  have hlower := Text.toNat_toLower c
  simp only [hcodes, fileColumn?, Option.dite_none_right_eq_some, Option.some.injEq, Fin.ext_iff]
  constructor
  · rintro ⟨h, hvalue⟩
    split at hlower <;> omega
  · intro h
    split at hlower <;> exact ⟨by omega, by omega⟩

private theorem rankRow?_eq_some_iff {c : Char} {row : Fin 8} :
    rankRow? c = some row ↔ c.toNat = '0'.toNat + (8 - row) := by
  have hcode : '0'.toNat = 48 := by decide
  have hrow := row.isLt
  simp only [hcode, rankRow?, Option.dite_none_right_eq_some, Option.some.injEq, Fin.ext_iff]
  constructor
  · rintro ⟨h, hvalue⟩
    omega
  · intro h
    exact ⟨by omega, by omega⟩

private theorem indexText?_eq_some_iff {cs : List Char} {i : Fin 8} :
    indexText? cs = some i ↔ ∃ inner, Text.IsTrimmed cs inner ∧ Text.IsNumeral inner i := by
  have hread : indexText? cs = some i ↔ Text.plusDecimal? (Text.trim cs) = some i.val := by
    rw [indexText?, Option.bind_eq_bind, Option.bind_eq_some_iff]
    constructor
    · rintro ⟨n, hn, h⟩
      rw [Option.dite_none_right_eq_some] at h
      obtain ⟨hlt, h⟩ := h
      rw [hn, ← Option.some.inj h]
    · intro h
      exact ⟨i, h, dif_pos i.isLt⟩
  rw [hread, Text.plusDecimal?_eq_some_iff]
  constructor
  · intro h
    exact ⟨_, Text.isTrimmed_trim cs, h⟩
  · rintro ⟨inner, htrimmed, h⟩
    rwa [Text.trim_eq_iff.mpr htrimmed]

private theorem cut_at_comma {row col : List Char} (h : ',' ∉ row) :
    (row ++ ',' :: col).takeWhile (· ≠ ',') = row ∧
      ((row ++ ',' :: col).dropWhile (· ≠ ',')).drop 1 = col := by
  have hrow : ∀ c ∈ row, (decide (c ≠ ',')) = true := by
    intro c hc
    rw [decide_eq_true_eq]
    rintro rfl
    exact h hc
  constructor
  · rw [List.takeWhile_append_of_pos hrow, List.takeWhile_cons_of_neg (by decide), List.append_nil]
  · rw [List.dropWhile_append_of_pos hrow, List.dropWhile_cons_of_neg (by decide)]
    rfl

private theorem ofTrimmed?_eq_some_iff {s : Square} {cs : List Char} :
    ofTrimmed? cs = some s ↔ s.Spells cs := by
  constructor
  · intro h
    unfold ofTrimmed? at h
    split at h
    case isTrue hcomma =>
      obtain ⟨row, col, rfl, hrow⟩ := List.eq_append_cons_of_mem hcomma
      rw [(cut_at_comma hrow).1, (cut_at_comma hrow).2] at h
      obtain ⟨r, hr, h⟩ := Option.bind_eq_some_iff.mp h
      obtain ⟨c, hc, h⟩ := Option.bind_eq_some_iff.mp h
      obtain rfl := Option.some.inj h
      obtain ⟨row', hrow', hr⟩ := indexText?_eq_some_iff.mp hr
      obtain ⟨col', hcol', hc⟩ := indexText?_eq_some_iff.mp hc
      exact .numbers hrow hrow' hcol' hr hc
    case isFalse =>
      split at h
      case h_1 file rank =>
        obtain ⟨c, hc, h⟩ := Option.bind_eq_some_iff.mp h
        obtain ⟨r, hr, h⟩ := Option.bind_eq_some_iff.mp h
        obtain rfl := Option.some.inj h
        exact .letters (fileColumn?_eq_some_iff.mp hc) (rankRow?_eq_some_iff.mp hr)
      case h_2 => exact absurd h nofun
  · intro h
    cases h with
    | @letters file rank hfile hrank =>
      have hnot : ',' ∉ [file, rank] := by
        have hcodes : 'a'.toNat = 97 ∧ 'A'.toNat = 65 ∧ '0'.toNat = 48 ∧ ','.toNat = 44 := by decide
        simp only [List.mem_cons, List.not_mem_nil, or_false, not_or, ← Char.toNat_inj]
        omega
      rw [ofTrimmed?, if_neg hnot, fileColumn?_eq_some_iff.mpr hfile,
        rankRow?_eq_some_iff.mpr hrank]
      rfl
    | @numbers row col row' col' hcomma hrow hcol hrow' hcol' =>
      have hmem : ',' ∈ row ++ ',' :: col := List.mem_append_right row List.mem_cons_self
      unfold ofTrimmed?
      rw [if_pos hmem, (cut_at_comma hcomma).1, (cut_at_comma hcomma).2,
        indexText?_eq_some_iff.mpr ⟨row', hrow, hrow'⟩,
        indexText?_eq_some_iff.mpr ⟨col', hcol, hcol'⟩]
      rfl

private theorem ofText_eq_ok_iff {text : String} {s : Square} :
    ofText text = .ok s ↔ ∃ cs, Text.IsTrimmed text.toList cs ∧ s.Spells cs := by
  have hread : ofText text = .ok s ↔ ofTrimmed? (Text.trim text.toList) = some s := by
    rw [ofText]
    cases ofTrimmed? (Text.trim text.toList) <;> simp
  rw [hread, ofTrimmed?_eq_some_iff]
  constructor
  · intro h
    exact ⟨_, Text.isTrimmed_trim _, h⟩
  · rintro ⟨cs, htrimmed, h⟩
    rwa [Text.trim_eq_iff.mpr htrimmed]

/-- The name of a square has no blanks around it and spells the square. -/
theorem spells_name (s : Square) : Text.IsTrimmed s.name.toList s.name.toList ∧
    s.Spells s.name.toList := by
  have hcol := s.col.isLt
  have hrow := s.row.isLt
  have hfile : (Char.ofNat (97 + s.col)).toNat = 97 + s.col := Text.toNat_ofNat_of_lt (by omega)
  have hrank : (Char.ofNat (56 - s.row)).toNat = 56 - s.row := Text.toNat_ofNat_of_lt (by omega)
  have hvisible {c : Char} (h : 33 ≤ c.toNat ∧ c.toNat < 128) : Text.isBlank c = false := by
    simp only [Text.isBlank, Bool.or_eq_false_iff, Bool.and_eq_false_iff, decide_eq_false_iff_not,
      beq_eq_false_iff_ne]
    omega
  rw [name, String.toList_ofList]
  refine ⟨⟨⟨[], [], rfl, List.forall_mem_nil _, List.forall_mem_nil _⟩, ?_, ?_⟩, .letters ?_ ?_⟩
  · intro c hc
    rw [← Option.some.inj hc]
    exact hvisible (by omega)
  · intro c hc
    rw [← Option.some.inj hc]
    change Text.isBlank (Char.ofNat (56 - s.row)) = false
    exact hvisible (by omega)
  · exact .inl hfile
  · have hcode : '0'.toNat = 48 := by decide
    omega

/-- A text is read as a square exactly if it spells the square between its blanks. Any other text is
what the error carries. A square is read back from its name. -/
theorem ofText_spelling (text : String) (s : Square) :
    (ofText text = .ok s ↔ ∃ cs, Text.IsTrimmed text.toList cs ∧ s.Spells cs) ∧
      (ofText text = .error ⟨text⟩ ↔
        ∀ (cs : List Char) (t : Square), Text.IsTrimmed text.toList cs → ¬ t.Spells cs) ∧
      ∃ name, s.coord.name = .ok name ∧ ofText name = .ok s := by
  refine ⟨ofText_eq_ok_iff, ?_, s.name, s.name_coord, ofText_eq_ok_iff.mpr ⟨_, s.spells_name⟩⟩
  constructor
  · intro h cs t htrimmed hspells
    rw [ofText_eq_ok_iff.mpr ⟨cs, htrimmed, hspells⟩] at h
    exact absurd h nofun
  · intro h
    cases hread : ofText text with
    | ok t =>
      obtain ⟨cs, htrimmed, hspells⟩ := ofText_eq_ok_iff.mp hread
      exact absurd hspells (h cs t htrimmed)
    | error e =>
      unfold ofText at hread
      split at hread
      case h_1 => exact absurd hread nofun
      case h_2 => rw [← hread]

end Square

end WereraChess
