/-!
# Keys

A key is a row of numbers. Keys are compared as words are in a dictionary, by the first number in
which they differ; a key that ends first comes first. The lemmas say that this is a linear order.
-/

namespace WereraChess

abbrev Key := List Nat

namespace Key

/-- Whether the first key does not come after the second. -/
def le : Key → Key → Bool
  | [], _ => true
  | _ :: _, [] => false
  | a :: as, b :: bs => if a = b then le as bs else decide (a < b)

def lt (a b : Key) : Bool := !le b a

theorem le_refl (a : Key) : le a a = true := by
  induction a with
  | nil => rfl
  | cons a as ih => simp [le, ih]

theorem le_total (a b : Key) : (le a b || le b a) = true := by
  induction a generalizing b with
  | nil => simp [le]
  | cons a as ih =>
    cases b with
    | nil => simp [le]
    | cons b bs =>
      by_cases hab : a = b
      · subst hab
        simpa [le] using ih bs
      · have hba : b ≠ a := fun h => hab h.symm
        simp only [le, hab, hba, if_false, Bool.or_eq_true, decide_eq_true_eq]
        omega

theorem le_trans (a b c : Key) (hab : le a b = true) (hbc : le b c = true) : le a c = true := by
  induction a generalizing b c with
  | nil => rfl
  | cons a as ih =>
    cases b with
    | nil => simp [le] at hab
    | cons b bs =>
      cases c with
      | nil => simp [le] at hbc
      | cons c cs =>
        simp only [le] at hab hbc ⊢
        split at hab <;> split at hbc <;> split <;> simp_all
        · exact ih bs cs hab hbc
        all_goals omega

theorem le_antisymm (a b : Key) (hab : le a b = true) (hba : le b a = true) : a = b := by
  induction a generalizing b with
  | nil =>
    cases b with
    | nil => rfl
    | cons b bs => simp [le] at hba
  | cons a as ih =>
    cases b with
    | nil => simp [le] at hab
    | cons b bs =>
      by_cases heq : a = b
      · subst heq
        have htail : as = bs := ih bs (by simpa [le] using hab) (by simpa [le] using hba)
        rw [htail]
      · have hne : b ≠ a := fun h => heq h.symm
        simp only [le, heq, hne, if_false, decide_eq_true_eq] at hab hba
        omega

end Key

end WereraChess
