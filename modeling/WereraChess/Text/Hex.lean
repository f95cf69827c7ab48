/-!
# Hexadecimal digits

Digits are read in either case and written with small letters.
-/

namespace WereraChess.Text

def hexDigit (n : Nat) : Char := if n < 10 then Char.ofNat (48 + n) else Char.ofNat (87 + n)

def hexValue? (c : Char) : Option Nat :=
  let n := c.toNat
  if 48 ≤ n ∧ n ≤ 57 then some (n - 48)
  else if 65 ≤ n ∧ n ≤ 70 then some (n - 55)
  else if 97 ≤ n ∧ n ≤ 102 then some (n - 87)
  else none

private theorem hexValue?_hexDigit : ∀ n < 16, hexValue? (hexDigit n) = some n := by decide

/-- The lowest `count` digits of `n`, the highest first. -/
def hexDigits : (count n : Nat) → List Char
  | 0, _ => []
  | count + 1, n => hexDigits count (n / 16) ++ [hexDigit (n % 16)]

def hex? (cs : List Char) : Option Nat :=
  cs.foldlM (fun n c => (hexValue? c).map (16 * n + ·)) 0

theorem hex?_hexDigits (count n : Nat) : hex? (hexDigits count n) = some (n % Nat.pow 16 count) := by
  induction count generalizing n with
  | zero => simp [hex?, hexDigits, Nat.mod_one]
  | succ count ih =>
    have digit : hexValue? (hexDigit (n % 16)) = some (n % 16) :=
      hexValue?_hexDigit _ (Nat.mod_lt _ (by decide))
    have high : List.foldlM (fun n c => (hexValue? c).map (16 * n + ·)) 0 (hexDigits count (n / 16))
        = some (n / 16 % Nat.pow 16 count) := ih (n / 16)
    have split : n % Nat.pow 16 (count + 1) = 16 * (n / 16 % Nat.pow 16 count) + n % 16 := by
      rw [show Nat.pow 16 (count + 1) = 16 * Nat.pow 16 count from Nat.mul_comm _ 16,
        Nat.mod_mul, Nat.add_comm]
    simpa [hex?, hexDigits, high, digit] using split.symm

end WereraChess.Text
