import WereraChess.Name
/-!
# The two sides

White starts on the high rows and walks toward row 0, Black starts on the low rows and walks toward
row 7.
-/

namespace WereraChess

inductive Side where
  | white
  | black
  deriving DecidableEq

namespace Side

def opponent : Side → Side
  | white => black
  | black => white

@[simp] theorem opponent_opponent (s : Side) : s.opponent.opponent = s := by cases s <;> rfl

theorem opponent_ne (s : Side) : s.opponent ≠ s := by cases s <;> decide

theorem eq_opponent_of_ne {s t : Side} (h : s ≠ t) : s = t.opponent := by
  cases s <;> cases t <;> simp_all [opponent]

/-- The row step of a pawn. -/
def forward : Side → Int
  | white => -1
  | black => 1

/-- The row on which a pawn of this side is promoted. -/
def promotionRow : Side → Fin 8
  | white => 0
  | black => 7

/-- White precedes Black wherever sides are ordered. -/
def ordinal : Side → Nat
  | white => 0
  | black => 1

theorem ordinal_injective {s t : Side} (h : s.ordinal = t.ordinal) : s = t := by
  cases s <;> cases t <;> simp_all [ordinal]

def name : Side → String
  | white => "white"
  | black => "black"

/-- Reads the name of a side or its first letter. -/
def ofName : String → Except UnknownName Side :=
  Vocabulary.side.find [("white", white), ("w", white), ("black", black), ("b", black)]

end Side

end WereraChess
