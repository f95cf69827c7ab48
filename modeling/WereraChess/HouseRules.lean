/-!
# House rules

What the players of a game may agree on.
-/

namespace WereraChess

/-- For how many milliseconds a repeated submission counts as the same click, and whether a move in
the werera may leave the mover's own king in check. -/
structure HouseRules where
  dedupWindow : UInt64 := 500
  selfCheckInWerera : Bool := true
  deriving DecidableEq

end WereraChess
