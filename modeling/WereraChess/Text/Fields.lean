/-!
# Fields of a line

Blank characters, trimming, and the two ways a text is cut into fields: at blanks, where runs of
blanks count once, and at a separator, where empty fields are kept.
-/

namespace WereraChess.Text

/-- The characters with the Unicode property `White_Space`. -/
def isBlank (c : Char) : Bool :=
  let n := c.toNat
  (9 ≤ n && n ≤ 13) || n == 0x20 || n == 0x85 || n == 0xA0 || n == 0x1680
    || (0x2000 ≤ n && n ≤ 0x200A) || n == 0x2028 || n == 0x2029 || n == 0x202F || n == 0x205F
    || n == 0x3000

/-- The text without the blanks at its two ends. -/
def trim (cs : List Char) : List Char :=
  ((cs.dropWhile isBlank).reverse.dropWhile isBlank).reverse

/-- The pieces between the characters that satisfy `p`; neighbouring ones enclose an empty piece. -/
def splitWhere (p : Char → Bool) : List Char → List (List Char)
  | [] => [[]]
  | c :: cs => if p c then [] :: splitWhere p cs else (splitWhere p cs).modifyHead (c :: ·)

/-- The maximal runs of characters that are not blank. -/
def words (cs : List Char) : List (List Char) :=
  (splitWhere isBlank cs).filter (· ≠ [])

theorem splitWhere_ne_nil (p : Char → Bool) (cs : List Char) : splitWhere p cs ≠ [] := by
  induction cs with
  | nil => simp [splitWhere]
  | cons c cs ih =>
    cases hc : p c with
    | true => simp [splitWhere, hc]
    | false =>
      obtain ⟨w, ws, hw⟩ := List.exists_cons_of_ne_nil ih
      simp [splitWhere, hc, hw]

end WereraChess.Text
