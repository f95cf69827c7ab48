import WereraChess.Proofs.Bytes.Judgement
import WereraChess.Proofs.Submission
/-!
# Replay and submission on pairs of bytes

A replay that asks its board for the pairs of its records, and a submission that is checked on the
pairs that it names, do what replay and submission do; where these fault, so do they, and nowhere
else. So on records of the board nothing faults while the counter has room.
-/
namespace WereraChess

namespace Course

variable (v : Variant) (rules : HouseRules)

def settleOn (c : Course) (side : Side) : Attempt Course := do
  let ending ← c.board.endingOn v side (rules.allowsSelfCheck c.progress.phase)
  return { c with progress := c.progress.finish? ending }

def startOn (o : Opening) : Attempt Course :=
  settleOn v rules ⟨o.board, .resume o.phase o.turn, .none, o.moveCount, []⟩ o.turn

def playOn (c : Course) (m : Move) : Attempt Course := do
  if c.progress.phase.isComplete then return c.skip m
  let source ← c.board.ownerOn m.source
  let target ← c.board.ownerOn m.target
  if !(source = some m.mover && target ≠ some m.mover) then return c.skip m
  match ← c.board.relocateCoord m.source m.target with
  | none => return c.skip m
  | some r => (← c.advance m.mover r).settleOn v rules m.mover.opponent

def standingOn (c : Course) : Attempt Standing := do
  return { c.standing v with check := ← c.board.checkOn v c.progress.turn }

variable {v rules}

private theorem settleOn_eq (c : Course) (side : Side) :
    c.settleOn v rules side = pure (c.settle v rules side) := by
  rw [settleOn, Board.endingOn_eq, pure_bind]
  rfl

private theorem standingOn_eq (c : Course) : c.standingOn v = pure (c.standing v) := by
  rw [standingOn, Board.checkOn_eq, pure_bind]
  rfl

/-- A record is played as on squares; one that is not on the board faults as it does there. -/
theorem playOn_eq (c : Course) (m : Move) : c.playOn v rules m = liftM (c.play v rules m) := by
  unfold playOn play
  by_cases hended : c.progress.phase.isComplete = true
  · rw [if_pos hended, if_pos hended]
    rfl
  · rw [if_neg hended, if_neg hended]
    cases hs : m.source.onBoard with
    | error f =>
      rw [Board.ownerOn_error hs, throw_bind]
      rfl
    | ok s =>
      have hsource : s.coord = m.source := Coord.coord_of_square? (Coord.onBoard_eq_ok.mp hs)
      rw [← hsource, Board.ownerOn_coord, pure_bind]
      cases ht : m.target.onBoard with
      | error f =>
        rw [Board.ownerOn_error ht, throw_bind]
        rfl
      | ok t =>
        have htarget : t.coord = m.target := Coord.coord_of_square? (Coord.onBoard_eq_ok.mp ht)
        rw [← htarget, Board.ownerOn_coord, pure_bind, Board.relocateCoord_coord, liftAttempt_ok,
          pure_bind]
        change (if !c.applies m s t then pure (c.skip m) else _) =
          liftM (if !c.applies m s t then pure (c.skip m) else _)
        cases c.applies m s t with
        | false => rfl
        | true =>
          cases c.board.relocate s t with
          | none => rfl
          | some r =>
            simp only [Bool.not_true, Bool.false_eq_true, if_false, liftAttempt_bind, settleOn_eq]
            rfl

end Course

def replayOn (v : Variant) (rules : HouseRules) (o : Opening) (ms : List Move) :
    Attempt Standing := do
  let c ← (Move.canonical ms).foldlM (Course.playOn v rules) (← Course.startOn v rules o)
  c.standingOn v

theorem replayOn_eq (v : Variant) (rules : HouseRules) (o : Opening) (ms : List Move) :
    replayOn v rules o ms = liftM (replay v rules o ms) := by
  have hrun (c : Course) (ms : List Move) : ms.foldlM (Course.playOn v rules) c =
      liftM (ms.foldlM (Course.play v rules) c) := by
    induction ms generalizing c with
    | nil => rfl
    | cons m ms ih => simp only [List.foldlM_cons, Course.playOn_eq, liftAttempt_bind, ih]
  have hstart : Course.startOn v rules o = pure (Course.start v rules o) := Course.settleOn_eq _ _
  rw [replayOn, hstart, pure_bind, hrun, replay, liftAttempt_bind]
  simp only [Course.standingOn_eq]
  rfl

/-- A computation that may also refuse. -/
abbrev Judged := ExceptT Refusal Attempt

/-- The refusal or the fault of a failure. -/
def judged {α : Type} : Except Failure α → Judged α
  | .ok a => pure a
  | .error (.refused r) => throw r
  | .error (.fault f) => (throw f : Attempt α)

section

variable {α β : Type}

private theorem liftJudged_throw_bind (f : Fault) (k : α → Judged β) :
    (liftM (throw f : Attempt α) : Judged α) >>= k = liftM (throw f : Attempt β) := by
  apply ExceptT.ext
  refine (ExceptT.run_bind_lift (throw f : Attempt α) k).trans ?_
  rw [throw_bind]
  exact (throw_bind f fun b => pure (Except.ok b)).symm

private theorem judged_bind (x : Except Failure α) (g : α → Except Failure β) :
    judged (x >>= g) = judged x >>= fun a => judged (g a) := by
  cases x with
  | ok a => exact (pure_bind a fun a => judged (g a)).symm
  | error e =>
    cases e with
    | refused r => exact (throw_bind r fun a => judged (g a)).symm
    | fault f => exact (liftJudged_throw_bind f fun a => judged (g a)).symm

private theorem liftJudged_pure (a : α) : (liftM (pure a : Attempt α) : Judged α) = pure a := by
  apply ExceptT.ext
  show Except.ok <$> (pure a : Attempt α) = pure (.ok a)
  exact map_pure Except.ok a

private theorem judged_liftFault (x : Except Fault α) :
    judged (liftM x) = (liftM (liftM x : Attempt α) : Judged α) := by
  cases x with
  | error f => rfl
  | ok a => exact (liftJudged_pure a).symm

private theorem judged_liftRefusal (x : Except Refusal α) :
    judged (liftM x) = (liftM x : Judged α) := by
  cases x <;> rfl

end

namespace Session

def standingOn (s : Session) : Attempt Standing := do
  let st ← replayOn s.variant s.rules s.opening s.log.moves
  return match s.resolution with
    | some e => st.declare e
    | none => st

def checkMovementOn (s : Session) (st : Standing) (side : Side) (source target : Coord) :
    Judged (Kind × Option Kind) := do
  match ← st.board.pieceOn source with
  | none => throw (.illegalMove source target .noPiece)
  | some piece =>
    if piece.owner ≠ side then throw (.illegalMove source target .opposingPiece)
    else if target ∉ (← st.board.reachOn s.variant source) then
      throw (.illegalMove source target .unreachable)
    else if !s.rules.allowsSelfCheck st.phase && (← st.board.exposesOn s.variant source target) then
      throw (.illegalMove source target .exposesKing)
    else return (piece.kind, (← st.board.pieceOn target).map Piece.kind)

def submitOn (s : Session) (id : Uuid) (side : Side) (source target : Coord) (timestamp : UInt64) :
    Judged (Accepted × Session) := do
  if !s.seats.areFull then throw .waitingForOpponent
  let before ← s.standingOn
  (Progress.resume before.phase before.turn).permit side
  s.checkTime before.phase timestamp
  let (piece, captured) ← s.checkMovementOn before side source target
  let move : Move := { id, source, target, mover := side, piece, captured, timestamp }
  let next := { s with log := s.log.insert move }
  let after ← next.standingOn
  let ending := if before.ending.isNone then after.ending else none
  return ({ move, phase := after.phase, turn := after.turn, ending }, next)

theorem standingOn_eq (s : Session) : s.standingOn = liftM s.standing := by
  rw [standingOn, replayOn_eq, standing, liftAttempt_bind]
  rfl

theorem checkMovementOn_eq (s : Session) (st : Standing) (side : Side) (source target : Coord) :
    s.checkMovementOn st side source target = judged (s.checkMovement st side source target) := by
  unfold checkMovementOn checkMovement
  cases hs : source.onBoard with
  | error f =>
    rw [Board.pieceOn_error hs, liftJudged_throw_bind]
    rfl
  | ok origin =>
    obtain rfl : origin.coord = source := Coord.coord_of_square? (Coord.onBoard_eq_ok.mp hs)
    rw [Board.pieceOn_coord, liftJudged_pure, pure_bind]
    simp only [liftFault_ok, pure_bind]
    cases st.board.get origin with
    | none => rfl
    | some p =>
      by_cases howner : p.owner = side
      · simp only [howner, ne_eq, not_true_eq_false, if_false]
        rw [Board.reachOn_coord, liftJudged_pure, pure_bind]
        cases ht : target.square? with
        | none =>
          have hfar : target ∉ (st.board.reach s.variant origin).map Square.coord := by
            intro hmem
            obtain ⟨goal, -, rfl⟩ := List.mem_map.mp hmem
            simp at ht
          rw [if_pos hfar]
          rfl
        | some goal =>
          obtain rfl := Coord.coord_of_square? ht
          simp only [Board.exposesOn_coord, Board.pieceOn_coord, liftJudged_pure, pure_bind,
            List.mem_map_of_injective Square.coord_injective]
          split
          case isTrue => rfl
          case isFalse =>
            split
            case isTrue => rfl
            case isFalse => rfl
      · simp only [howner, ne_eq, not_false_eq_true, if_true]
        rfl

theorem submitOn_eq (s : Session) (id : Uuid) (side : Side) (source target : Coord)
    (timestamp : UInt64) : s.submitOn id side source target timestamp =
      judged (s.submit id side source target timestamp) := by
  unfold submitOn submit
  cases s.seats.areFull with
  | false => exact throw_bind _ _
  | true =>
    simp only [Bool.not_true, Bool.false_eq_true, if_false, judged_bind, judged_liftFault,
      judged_liftRefusal, standingOn_eq, checkMovementOn_eq]
    rfl

end Session

end WereraChess
