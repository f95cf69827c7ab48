import Mathlib.Data.List.Basic
import Mathlib.Data.List.Induction
import WereraChess.Text.Decimal
import WereraChess.Text.Fields
/-!
# Digits, fields and words

Digits by their code points, and texts taken apart into the pieces that they were put together from.
-/
namespace WereraChess.Text

theorem isDigit_iff {c : Char} : c.isDigit = true ↔ 48 ≤ c.toNat ∧ c.toNat ≤ 57 := by
  simp only [Char.isDigit, Bool.and_eq_true, decide_eq_true_eq, ge_iff_le, UInt32.le_iff_toNat_le]
  exact Iff.rfl

private theorem isUpper_iff {c : Char} : c.isUpper = true ↔ 65 ≤ c.toNat ∧ c.toNat ≤ 90 :=
  decide_eq_true_iff.trans (and_congr UInt32.le_iff_toNat_le UInt32.le_iff_toNat_le)

private theorem toNat_toUpper (c : Char) : c.toUpper.toNat =
    if 97 ≤ c.toNat ∧ c.toNat ≤ 122 then c.toNat - 32 else c.toNat := by
  unfold Char.toUpper
  simp only [UInt32.le_iff_toNat_le]
  change (if h : 97 ≤ c.toNat ∧ c.toNat ≤ 122 then (⟨c.val + (65 - 97), _⟩ : Char) else c).toNat = _
  split
  case isTrue h =>
    change (c.val + (65 - 97)).toNat = _
    rw [UInt32.toNat_add]
    change (c.toNat + 4294967264) % 2 ^ 32 = _
    omega
  case isFalse => rfl

theorem toNat_toLower (c : Char) : c.toLower.toNat =
    if 65 ≤ c.toNat ∧ c.toNat ≤ 90 then c.toNat + 32 else c.toNat := by
  unfold Char.toLower
  simp only [ge_iff_le, UInt32.le_iff_toNat_le]
  change (if h : 65 ≤ c.toNat ∧ c.toNat ≤ 90 then (⟨c.val + (97 - 65), _⟩ : Char) else c).toNat = _
  split
  case isTrue h =>
    change (c.val + (97 - 65)).toNat = _
    rw [UInt32.toNat_add]
    change (c.toNat + 32) % 2 ^ 32 = _
    omega
  case isFalse => rfl

theorem toUpper_toLower (c : Char) : c.toLower.toUpper = c.toUpper := by
  rw [← Char.toNat_inj, toNat_toUpper, toNat_toUpper, toNat_toLower]
  split_ifs <;> omega

theorem toUpper_of_isUpper {c : Char} (h : c.isUpper = true) : c.toUpper = c := by
  rw [isUpper_iff] at h
  rw [← Char.toNat_inj, toNat_toUpper, if_neg (by omega)]

theorem toLower_toUpper_of_not_isUpper {c : Char} (h : ¬c.isUpper = true) :
    c.toUpper.toLower = c := by
  rw [isUpper_iff] at h
  rw [← Char.toNat_inj, toNat_toLower, toNat_toUpper]
  split_ifs <;> omega

theorem toUpper_of_isDigit {c : Char} (h : c.isDigit = true) : c.toUpper = c := by
  rw [isDigit_iff] at h
  rw [← Char.toNat_inj, toNat_toUpper, if_neg (by omega)]

theorem toLower_of_isDigit {c : Char} (h : c.isDigit = true) : c.toLower = c := by
  rw [isDigit_iff] at h
  rw [← Char.toNat_inj, toNat_toLower, if_neg (by omega)]

theorem isDigit_digitChar {n : Nat} (h : n < 10) : (Nat.digitChar n).isDigit = true := by
  rwa [Nat.isDigit_digitChar, decide_eq_true_eq]

theorem digitChar_of_isDigit {c : Char} (h : c.isDigit = true) :
    Nat.digitChar (c.toNat - 48) = c := by
  obtain ⟨hlow, hhigh⟩ := isDigit_iff.mp h
  have hlt : c.toNat - 48 < 10 := by omega
  have hcode : (Nat.digitChar (c.toNat - 48)).toNat = 48 + (c.toNat - 48) :=
    Nat.toNat_digitChar_of_lt_ten hlt
  exact Char.toNat_inj.mp (by omega)

theorem not_isBlank_of_isDigit {c : Char} (h : c.isDigit = true) : isBlank c = false := by
  rw [isDigit_iff] at h
  simp only [isBlank, Bool.or_eq_false_iff, Bool.and_eq_false_iff, decide_eq_false_iff_not,
    beq_eq_false_iff_ne]
  omega

theorem isDigit_of_mem_decimal {n : Nat} {c : Char} (hc : c ∈ decimal n) : c.isDigit = true :=
  Nat.isDigit_of_mem_toDigits (by decide) (by decide) hc

theorem eq_zero_of_head?_toDigits {n : Nat} (h : (Nat.toDigits 10 n).head? = some '0') : n = 0 := by
  induction n using Nat.strongRecOn with
  | ind n ih =>
    by_cases hn : n < 10
    · rw [Nat.toDigits_of_lt_base hn, List.head?_cons, Option.some.injEq,
        Nat.digitChar_eq_zero] at h
      exact h
    · rw [Nat.toDigits_of_base_le (by decide) (by omega),
        List.head?_append_of_ne_nil _ Nat.toDigits_ne_nil] at h
      have hzero := ih (n / 10) (by omega) h
      omega

/-- Digits without needless zeros are those of their number. -/
theorem decimal_ofDigitChars {cs : List Char} (hne : cs ≠ []) (hdigits : cs.all Char.isDigit = true)
    (hzero : cs.head? = some '0' → cs = ['0']) : decimal (Nat.ofDigitChars 10 cs 0) = cs := by
  induction cs using List.reverseRecOn with
  | nil => exact absurd rfl hne
  | append_singleton cs c ih =>
    simp only [List.all_append, List.all_cons, List.all_nil, Bool.and_true, Bool.and_eq_true]
      at hdigits
    obtain ⟨hlow, hhigh⟩ := isDigit_iff.mp hdigits.2
    have hlt : c.toNat - 48 < 10 := by omega
    have hlast : Nat.toDigits 10 (c.toNat - 48) = [c] := by
      rw [Nat.toDigits_of_lt_base hlt, digitChar_of_isDigit hdigits.2]
    have hvalue : Nat.ofDigitChars 10 (cs ++ [c]) 0 =
        10 * Nat.ofDigitChars 10 cs 0 + (c.toNat - 48) := by
      rw [Nat.ofDigitChars_append]
      rfl
    by_cases hcs : cs = []
    · rw [hvalue, hcs]
      simpa [decimal, Nat.ofDigitChars] using hlast
    · have hhead : cs.head? ≠ some '0' := by
        intro h
        have hsingle := hzero (by rw [List.head?_append_of_ne_nil _ hcs, h])
        simpa [hcs] using congrArg List.length hsingle
      have hfront := ih hcs hdigits.1 fun h => absurd h hhead
      have hpos : 0 < Nat.ofDigitChars 10 cs 0 := by
        rw [Nat.pos_iff_ne_zero]
        intro h
        rw [h] at hfront
        rw [← hfront] at hhead
        exact hhead rfl
      calc decimal (Nat.ofDigitChars 10 (cs ++ [c]) 0)
          = Nat.toDigits 10 (10 * Nat.ofDigitChars 10 cs 0 + (c.toNat - 48)) := by
            rw [decimal, hvalue]
        _ = Nat.toDigits 10 (Nat.ofDigitChars 10 cs 0) ++ Nat.toDigits 10 (c.toNat - 48) :=
            (Nat.toDigits_append_toDigits (by decide) hpos hlt).symm
        _ = cs ++ [c] := by rw [hlast]; exact congrArg (· ++ [c]) hfront

theorem mem_flatten_splitWhere {p : Char → Bool} {cs : List Char} {c : Char} (hc : c ∈ cs) :
    p c = true ∨ c ∈ (splitWhere p cs).flatten := by
  induction cs with
  | nil => simp at hc
  | cons d cs ih =>
    rw [splitWhere]
    obtain ⟨piece, pieces, hpieces⟩ := List.exists_cons_of_ne_nil (splitWhere_ne_nil p cs)
    rw [hpieces, List.flatten_cons] at ih
    rw [hpieces, List.modifyHead_cons]
    by_cases hd : p d = true
    · rw [if_pos hd, List.flatten_cons, List.nil_append, List.flatten_cons]
      rcases List.mem_cons.mp hc with rfl | hc
      · exact .inl hd
      · exact ih hc
    · rw [if_neg hd, List.flatten_cons, List.cons_append]
      rcases List.mem_cons.mp hc with rfl | hc
      · exact .inr List.mem_cons_self
      · exact (ih hc).imp_right (List.mem_cons_of_mem d)

theorem splitWhere_eq_splitOnP (p : Char → Bool) (cs : List Char) :
    splitWhere p cs = cs.splitOnP p := by
  induction cs with
  | nil => rfl
  | cons c cs ih => rw [splitWhere, List.splitOnP_cons_eq_if_modifyHead, ih]

theorem splitWhere_intercalate {c : Char} {fields : List (List Char)} (hne : fields ≠ [])
    (h : ∀ field ∈ fields, c ∉ field) : splitWhere (· = c) ([c].intercalate fields) = fields := by
  rw [splitWhere_eq_splitOnP]
  exact List.splitOn_intercalate c h hne

theorem words_of_forall_not_isBlank {word : List Char} (hne : word ≠ [])
    (h : ∀ c ∈ word, isBlank c = false) : words word = [word] := by
  rw [words, splitWhere_eq_splitOnP, List.splitOnP_eq_singleton h]
  simp [hne]

theorem ne_nil_of_mem_words {word cs : List Char} (h : word ∈ words cs) : word ≠ [] :=
  of_decide_eq_true (List.mem_filter.mp h).2

theorem words_append_blank (cs ds : List Char) {c : Char} (hc : isBlank c = true) :
    words (cs ++ c :: ds) = words cs ++ words ds := by
  simp only [words, splitWhere_eq_splitOnP, List.splitOnP_append_cons cs ds hc, List.filter_append]

end WereraChess.Text
