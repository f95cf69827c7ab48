import WereraChess.Check
/-!
# How games end

A game ends on the board (mate, no move left, a bare or a lost king) or by a declaration
(resignation, timeout). `Board.ending?` says whether and how a position has ended.
-/

namespace WereraChess

inductive EndReason where
  | checkmate
  | stalemate
  | bareKing
  | kingCaptured
  | resignation
  | timeout
  deriving DecidableEq

namespace EndReason

def all : List EndReason := [checkmate, stalemate, bareKing, kingCaptured, resignation, timeout]

def name : EndReason → String
  | checkmate => "checkmate"
  | stalemate => "stalemate"
  | bareKing => "bare-king"
  | kingCaptured => "king-captured"
  | resignation => "resignation"
  | timeout => "timeout"

/-- Whether the reason is declared by a player and not read off the board. -/
def isDeclared : EndReason → Bool
  | resignation | timeout => true
  | _ => false

end EndReason

/-- The end of a game; without a winner it is a draw. -/
structure Ending where
  reason : EndReason
  winner : Option Side
  deriving DecidableEq

namespace Ending

def resignation (side : Side) : Ending := ⟨.resignation, some side.opponent⟩

def timeout (side : Side) : Ending := ⟨.timeout, some side.opponent⟩

def message (e : Ending) : String :=
  match e.winner with
  | some side => side.name ++ " wins by " ++ e.reason.name
  | none => "draw by " ++ e.reason.name

end Ending

namespace Board

/-- A side that has lost its king has lost; when both have, nobody wins. -/
def lostKing? (b : Board) : Option Ending :=
  match (b.king? .white).isSome, (b.king? .black).isSome with
  | true, true => none
  | true, false => some ⟨.kingCaptured, some .white⟩
  | false, true => some ⟨.kingCaptured, some .black⟩
  | false, false => some ⟨.kingCaptured, none⟩

/-- In Senterej a side left with its bare king has lost; two bare kings draw. -/
def bareKing? (b : Board) : Variant → Option Ending
  | .standard => none
  | .senterej =>
    match b.isBareKing .white, b.isBareKing .black with
    | false, false => none
    | true, true => some ⟨.bareKing, none⟩
    | true, false => some ⟨.bareKing, some .black⟩
    | false, true => some ⟨.bareKing, some .white⟩

/-- A side that cannot move is mated in check. Out of check it has lost in Senterej and drawn in
standard chess. With `selfCheck` a move that leaves the own king in check counts as a move. -/
def noMove? (b : Board) (v : Variant) (side : Side) (selfCheck : Bool) : Option Ending :=
  if (if selfCheck then b.hasMove v side else b.hasSafeMove v side) then none
  else if b.inCheck v side then some ⟨.checkmate, some side.opponent⟩
  else match v with
    | .senterej => some ⟨.stalemate, some side.opponent⟩
    | .standard => some ⟨.stalemate, none⟩

/-- Whether and how the game has ended with `side` to move. -/
def ending? (b : Board) (v : Variant) (side : Side) (selfCheck : Bool) : Option Ending :=
  (b.lostKing?).or ((b.bareKing? v).or (b.noMove? v side selfCheck))

end Board

end WereraChess
