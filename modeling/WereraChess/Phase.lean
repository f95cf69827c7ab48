import WereraChess.Ending
/-!
# Phases of a game

A Senterej game opens with the werera, in which both sides move freely, and passes to alternating
play at the first capture. Standard chess alternates from the start.
-/

namespace WereraChess

/-- In the werera both sides move at will, and in normal play they take turns. -/
inductive Phase where
  | werera
  | normal
  | complete (reason : EndReason)
  deriving DecidableEq

namespace Phase

def initial (v : Variant) : Phase := if v.hasWerera then werera else normal

def isComplete : Phase → Bool
  | complete _ => true
  | _ => false

def text : Phase → String
  | werera => "werera"
  | normal => "normal"
  | complete reason => "complete(" ++ reason.name ++ ")"

end Phase

end WereraChess
