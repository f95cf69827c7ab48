import WereraChess.Name
/-!
# The two variants

Senterej, the Ethiopian game, opens with a phase in which both sides move at once (the werera) and
has short-range counsellors and elephants. Standard chess is played here without castling, without
the double step and without capture in passing.
-/

namespace WereraChess

inductive Variant where
  | senterej
  | standard
  deriving DecidableEq

namespace Variant

/-- Whether games of the variant open with the simultaneous phase. -/
def hasWerera : Variant → Bool
  | senterej => true
  | standard => false

def name : Variant → String
  | senterej => "senterej"
  | standard => "standard"

def ofName : String → Except UnknownName Variant :=
  Vocabulary.variant.find [("senterej", senterej), ("standard", standard), ("chess", standard)]

end Variant

end WereraChess
