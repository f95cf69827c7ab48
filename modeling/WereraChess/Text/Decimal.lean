/-!
# Decimal numbers

Digit strings are read and written without sign, blank or separator; leading zeros are read and
never written. Of other numbers it is only told whether a text is one.
-/

namespace WereraChess.Text

/-- The number that a nonempty run of ASCII digits denotes. -/
def decimal? (cs : List Char) : Option Nat :=
  if cs ≠ [] ∧ cs.all Char.isDigit then some (Nat.ofDigitChars 10 cs 0) else none

/-- A digit run that may follow one plus sign. -/
def plusDecimal? : List Char → Option Nat
  | '+' :: cs => decimal? cs
  | cs => decimal? cs

/-- Digits with at most one point, before an exponent if there is one. -/
def isReal (cs : List Char) : Bool :=
  let whole := cs.takeWhile Char.isDigit
  let rest := cs.dropWhile Char.isDigit
  let fraction := if rest.head? = some '.' then (rest.drop 1).takeWhile Char.isDigit else []
  let rest := if rest.head? = some '.' then (rest.drop 1).dropWhile Char.isDigit else rest
  (whole ++ fraction ≠ []) && match rest with
    | [] => true
    | e :: exponent => (e = 'e' || e = 'E') && match exponent with
      | '+' :: digits | '-' :: digits => (decimal? digits).isSome
      | digits => (decimal? digits).isSome

/-- Whether the text is a number, which may have a sign: a decimal one, infinity, or none. -/
def isNumber (cs : List Char) : Bool :=
  let unsigned := match cs with
    | '+' :: rest | '-' :: rest => rest
    | rest => rest
  isReal unsigned || (String.ofList unsigned).toLower ∈ ["inf", "infinity", "nan"]

/-- The digits of `n` without leading zeros. -/
def decimal (n : Nat) : List Char := Nat.toDigits 10 n

theorem decimal?_decimal (n : Nat) : decimal? (decimal n) = some n := by
  have digits : (decimal n).all Char.isDigit = true :=
    List.all_eq_true.2 fun c hc => Nat.isDigit_of_mem_toDigits (by decide) (by decide) hc
  have nonempty : decimal n ≠ [] := Nat.toDigits_ne_nil
  have value : Nat.ofDigitChars 10 (decimal n) 0 = n :=
    Nat.ofDigitChars_toDigits (by decide) (by decide)
  simp only [decimal?, nonempty, digits, value, ne_eq, not_false_eq_true, and_self, if_true]

end WereraChess.Text
