import WereraChess.Proofs.Bytes.Movement
/-!
# Judging a position on pairs of bytes

Check, the safety of a king and the ending of a position, found by asking a board for pairs of
bytes. Only pairs of the board are ever asked for, so none of it faults, and it says of a position
what is said of its squares.
-/
namespace WereraChess

def Coord.all : List Coord :=
  (List.range 8).flatMap fun row => (List.range 8).map fun col => ⟨row.toUInt8, col.toUInt8⟩

private theorem Coord.all_eq : Coord.all = Square.all.map Square.coord := by decide

theorem Square.coord_injective : Function.Injective Square.coord := by
  intro s t h
  have hsquare := congrArg Coord.square? h
  rwa [Coord.square?_coord, Coord.square?_coord, Option.some.injEq] at hsquare

namespace Board

def piecesOn (b : Board) (side : Side) : Attempt (List (Coord × Piece)) := do
  let occupied ← Coord.all.filterMapM fun c => return (← b.pieceOn c).map (c, ·)
  return occupied.filter (·.2.owner = side)

def kingOn (b : Board) (side : Side) : Attempt (Option Coord) :=
  Coord.all.findM? fun c => return (← b.pieceOn c).any fun p => p.kind = .king ∧ p.owner = side

def reachedOn (b : Board) (v : Variant) (side : Side) (c : Coord) : Attempt Bool := do
  (← b.piecesOn side).anyM fun (source, _) => return c ∈ (← b.reachOn v source)

def checkOn (b : Board) (v : Variant) (side : Side) : Attempt Bool := do
  match ← b.kingOn side with
  | some c => b.reachedOn v side.opponent c
  | none => return false

def exposesOn (b : Board) (v : Variant) (source target : Coord) : Attempt Bool := do
  match ← b.pieceOn source with
  | none => return false
  | some p =>
    match ← b.relocateCoord source target with
    | none => b.checkOn v p.owner
    | some r => r.board.checkOn v p.owner

def hasSafeMoveOn (b : Board) (v : Variant) (side : Side) : Attempt Bool := do
  (← b.piecesOn side).anyM fun (c, _) => do
    (← b.reachOn v c).anyM fun t => return !(← b.exposesOn v c t)

def hasMoveOn (b : Board) (v : Variant) (side : Side) : Attempt Bool := do
  (← b.piecesOn side).anyM fun (c, _) => return !(← b.reachOn v c).isEmpty

def isBareKingOn (b : Board) (side : Side) : Attempt Bool := do
  match ← b.piecesOn side with
  | [(_, p)] => return p.kind = .king
  | _ => return false

def lostKingOn (b : Board) : Attempt (Option Ending) := do
  match (← b.kingOn .white).isSome, (← b.kingOn .black).isSome with
  | true, true => return none
  | true, false => return some ⟨.kingCaptured, some .white⟩
  | false, true => return some ⟨.kingCaptured, some .black⟩
  | false, false => return some ⟨.kingCaptured, none⟩

def bareKingOn (b : Board) : Variant → Attempt (Option Ending)
  | .standard => return none
  | .senterej => do
    match ← b.isBareKingOn .white, ← b.isBareKingOn .black with
    | false, false => return none
    | true, true => return some ⟨.bareKing, none⟩
    | true, false => return some ⟨.bareKing, some .black⟩
    | false, true => return some ⟨.bareKing, some .white⟩

/-- Whether the side has a move; with `selfCheck` one that leaves its king in check counts. -/
def mayMoveOn (b : Board) (v : Variant) (side : Side) (selfCheck : Bool) : Attempt Bool :=
  if selfCheck then b.hasMoveOn v side else b.hasSafeMoveOn v side

def noMoveOn (b : Board) (v : Variant) (side : Side) (selfCheck : Bool) :
    Attempt (Option Ending) := do
  if ← b.mayMoveOn v side selfCheck then return none
  else if ← b.checkOn v side then return some ⟨.checkmate, some side.opponent⟩
  else match v with
    | .senterej => return some ⟨.stalemate, some side.opponent⟩
    | .standard => return some ⟨.stalemate, none⟩

def endingOn (b : Board) (v : Variant) (side : Side) (selfCheck : Bool) :
    Attempt (Option Ending) := do
  match ← b.lostKingOn with
  | some e => return some e
  | none =>
    match ← b.bareKingOn v with
    | some e => return some e
    | none => b.noMoveOn v side selfCheck

variable (b : Board) (v : Variant) (side : Side)

@[simp] theorem piecesOn_eq :
    b.piecesOn side = pure ((b.piecesOf side).map (Prod.map Square.coord id)) := by
  have hpiece (s : Square) (_ : s ∈ Square.all) :
      (do return (← b.pieceOn s.coord).map (s.coord, ·) : Attempt (Option (Coord × Piece))) =
        pure (((b.get s).map (s, ·)).map (Prod.map Square.coord id)) := by
    rw [pieceOn_coord, pure_bind, Option.map_map]
    rfl
  rw [piecesOn, Coord.all_eq, filterMapM_map_eq_pure _ hpiece, pure_bind, ← List.map_filterMap,
    List.filter_map]
  rfl

@[simp] theorem kingOn_eq : b.kingOn side = pure ((b.king? side).map Square.coord) := by
  rw [kingOn, Coord.all_eq]
  apply findM?_map_eq_pure
  intro s _
  rw [pieceOn_coord, pure_bind]

private theorem reachedOn_coord (s : Square) :
    b.reachedOn v side s.coord = pure (b.reachedBy v side s) := by
  rw [reachedOn, piecesOn_eq, pure_bind]
  apply anyM_map_eq_pure
  intro (t, p) _
  simp [List.mem_map_of_injective Square.coord_injective]

@[simp] theorem checkOn_eq : b.checkOn v side = pure (b.inCheck v side) := by
  rw [checkOn, kingOn_eq, pure_bind, inCheck]
  cases b.king? side with
  | none => rfl
  | some s => exact b.reachedOn_coord v side.opponent s

theorem relocateCoord_coord (s t : Square) :
    b.relocateCoord s.coord t.coord = .ok (b.relocate s t) := by
  have hs := Coord.onBoard_eq_ok.mpr (Coord.square?_coord s)
  have ht := Coord.onBoard_eq_ok.mpr (Coord.square?_coord t)
  cases hp : b.get s <;>
    simp [relocateCoord, hs, ht, hp, relocate, bind, Except.bind, pure, Except.pure]

@[simp] theorem exposesOn_coord (s t : Square) :
    b.exposesOn v s.coord t.coord = pure (b.exposesKing v s t) := by
  rw [exposesOn, pieceOn_coord, pure_bind, exposesKing, relocateCoord_coord, liftAttempt_ok, after]
  cases b.get s with
  | none => rfl
  | some p =>
    simp only [pure_bind]
    cases b.relocate s t with
    | none => exact b.checkOn_eq v p.owner
    | some r => exact r.board.checkOn_eq v p.owner

@[simp] theorem hasSafeMoveOn_eq : b.hasSafeMoveOn v side = pure (b.hasSafeMove v side) := by
  rw [hasSafeMoveOn, piecesOn_eq, pure_bind]
  apply anyM_map_eq_pure
  intro (s, p) _
  simp only [Prod.map_apply, reachOn_coord, pure_bind]
  apply anyM_map_eq_pure
  intro t _
  simp only [exposesOn_coord, pure_bind]

@[simp] theorem hasMoveOn_eq : b.hasMoveOn v side = pure (b.hasMove v side) := by
  rw [hasMoveOn, piecesOn_eq, pure_bind]
  apply anyM_map_eq_pure
  intro (s, p) _
  simp

@[simp] theorem isBareKingOn_eq : b.isBareKingOn side = pure (b.isBareKing side) := by
  rw [isBareKingOn, piecesOn_eq, pure_bind, isBareKing]
  match b.piecesOf side with
  | [] => rfl
  | [_] => rfl
  | _ :: _ :: _ => rfl

@[simp] theorem lostKingOn_eq : b.lostKingOn = pure b.lostKing? := by
  simp only [lostKingOn, kingOn_eq, pure_bind, Option.isSome_map, lostKing?]
  cases (b.king? .white).isSome <;> cases (b.king? .black).isSome <;> rfl

@[simp] theorem bareKingOn_eq : b.bareKingOn v = pure (b.bareKing? v) := by
  cases v with
  | standard => rfl
  | senterej =>
    simp only [bareKingOn, isBareKingOn_eq, pure_bind, bareKing?]
    cases b.isBareKing .white <;> cases b.isBareKing .black <;> rfl

@[simp] theorem noMoveOn_eq (selfCheck : Bool) :
    b.noMoveOn v side selfCheck = pure (b.noMove? v side selfCheck) := by
  have hmoves : b.mayMoveOn v side selfCheck =
      pure (if selfCheck then b.hasMove v side else b.hasSafeMove v side) := by
    cases selfCheck <;> simp [mayMoveOn]
  unfold noMoveOn noMove?
  rw [hmoves, pure_bind, checkOn_eq]
  by_cases hmove : (if selfCheck then b.hasMove v side else b.hasSafeMove v side) = true
  · rw [if_pos hmove, if_pos hmove]
  · rw [if_neg hmove, if_neg hmove, pure_bind]
    by_cases hcheck : b.inCheck v side = true
    · rw [if_pos hcheck, if_pos hcheck]
    · rw [if_neg hcheck, if_neg hcheck]
      cases v <;> rfl

/-- The ending of a position is found without a fault. -/
@[simp] theorem endingOn_eq (selfCheck : Bool) :
    b.endingOn v side selfCheck = pure (b.ending? v side selfCheck) := by
  simp only [endingOn, lostKingOn_eq, bareKingOn_eq, noMoveOn_eq, pure_bind, ending?]
  cases b.lostKing? with
  | some e => rfl
  | none => cases b.bareKing? v <;> rfl

end Board

end WereraChess
