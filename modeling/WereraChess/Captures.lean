import WereraChess.Piece
/-!
# Captured pieces

What each side has taken, in the order of taking, and the balance of material in pawns.
-/

namespace WereraChess

structure Captures where
  byWhite : List Kind
  byBlack : List Kind
  deriving DecidableEq

namespace Captures

def none : Captures := ⟨[], []⟩

/-- Records that a piece of `owner` was taken by the other side. -/
def add (c : Captures) (owner : Side) (kind : Kind) : Captures :=
  match owner with
  | .white => { c with byBlack := c.byBlack ++ [kind] }
  | .black => { c with byWhite := c.byWhite ++ [kind] }

def takenBy (c : Captures) : Side → List Kind
  | .white => c.byWhite
  | .black => c.byBlack

theorem takenBy_add (c : Captures) (owner side : Side) (kind : Kind) :
    (c.add owner kind).takenBy side =
      if side = owner then c.takenBy side else c.takenBy side ++ [kind] := by
  cases owner <;> cases side <;> rfl

def total (c : Captures) : Nat := c.byWhite.length + c.byBlack.length

def worth (v : Variant) (kinds : List Kind) : Int := kinds.foldr (fun k n => k.value v + n) 0

/-- The value of what White has taken less the value of what Black has taken. -/
def balance (c : Captures) (v : Variant) : Int := worth v c.byWhite - worth v c.byBlack

end Captures

end WereraChess
