import WereraChess.Proofs.Checkpoint
import WereraChess.Proofs.Unmoved
/-!
# Outlooks

The outlook of a game is all that matters to how it goes on: neither what was captured, nor what was
skipped, nor which pieces have moved. Replays from one outlook keep having one outlook, and a
position that is opened again, in play or as the end of the game that it was, has its outlook back.
-/
namespace WereraChess

namespace Course

variable {v : Variant} {rules : HouseRules} {c d : Course}

/-- The course without its history. -/
def outlook (c : Course) : Course := { c.unmoved with captures := .none, skipped := [] }

private theorem outlook_unmoved (c : Course) : c.unmoved.outlook = c.outlook := by
  simp only [outlook, unmoved_unmoved]

private theorem outlook_followedBy (c d : Course) : (c.followedBy d).outlook = d.outlook := rfl

private theorem followedBy_outlook (c : Course) : c.followedBy c.outlook = c.unmoved := by
  simp only [followedBy, outlook, Captures.append_none, List.append_nil]
  rfl

/-- History has no part in a replay. -/
theorem run_outlook (c : Course) (ms : List Move) :
    (ms.foldlM (play v rules) c.outlook).map outlook =
      (ms.foldlM (play v rules) c).map outlook := by
  have hunmoved (x : Except Fault Course) : (x.map unmoved).map outlook = x.map outlook := by
    cases x with
    | error f => rfl
    | ok d => exact congrArg Except.ok d.outlook_unmoved
  have hfollowed (x : Except Fault Course) :
      (x.map c.followedBy).map outlook = x.map outlook := by
    cases x with
    | error f => rfl
    | ok d => exact congrArg Except.ok (c.outlook_followedBy d)
  calc (ms.foldlM (play v rules) c.outlook).map outlook
      = (ms.foldlM (play v rules) c.unmoved).map outlook := by
        rw [← hfollowed, ← run_followedBy, followedBy_outlook]
    _ = ((ms.foldlM (play v rules) c.unmoved).map unmoved).map outlook := (hunmoved _).symm
    _ = ((ms.foldlM (play v rules) c).map unmoved).map outlook := by
        rw [run_unmoved c.unmoved_unmoved]
    _ = (ms.foldlM (play v rules) c).map outlook := hunmoved _

theorem run_congr (h : c.outlook = d.outlook) (ms : List Move) :
    (ms.foldlM (play v rules) c).map outlook = (ms.foldlM (play v rules) d).map outlook := by
  rw [← run_outlook c, h, run_outlook]

/-- The position of a replay as an opening. The end of a game is opened in normal play. -/
def reopening (c : Course) : Opening where
  board := c.board.unmoved
  phase := if c.progress.phase = .werera then .werera else .normal
  turn := c.progress.turn
  moveCount := c.moveCount

private theorem progress_start_reopening (c : Course) :
    (start v rules c.reopening).progress =
      (Progress.resume c.reopening.phase c.progress.turn).finish?
        (c.board.ending? v c.progress.turn (rules.allowsSelfCheck c.reopening.phase)) := by
  simp only [start, settle, reopening, Progress.resume, Board.ending?_unmoved]

/-- The evaluation finds in a position that is opened again what it found when it was reached. -/
theorem outlook_start_reopening (hc : Settled v rules c) :
    (start v rules c.reopening).outlook = c.outlook := by
  have hprogress : (start v rules c.reopening).progress = c.progress := by
    rw [progress_start_reopening]
    obtain ⟨board, ⟨phase, turn, ending⟩, captures, moveCount, skipped⟩ := c
    cases phase with
    | werera =>
      obtain ⟨hending, hnone⟩ := hc.live rfl
      obtain rfl : ending = none := hending
      exact congrArg (Progress.finish? _) hnone
    | normal =>
      obtain ⟨hending, hnone⟩ := hc.live rfl
      obtain rfl : ending = none := hending
      exact congrArg (Progress.finish? _) hnone
    | complete r =>
      -- The game may have ended in the werera under the lenient rule for self-check; the strict
      -- rule of normal play finds the same ending.
      obtain ⟨e, hending, rfl, hstrict⟩ := hc.ended r rfl
      obtain rfl : ending = some e := hending
      exact congrArg (Progress.finish? _) hstrict
  have hboard : (start v rules c.reopening).board = c.board.unmoved := rfl
  have hcount : (start v rules c.reopening).moveCount = c.moveCount := rfl
  simp only [outlook, unmoved, hboard, hprogress, hcount, Board.unmoved_unmoved]

end Course

def Standing.outlook (s : Standing) : Standing :=
  { s.unmoved with captures := .none, skipped := [] }

theorem Course.standing_outlook (v : Variant) (c : Course) :
    c.outlook.standing v = (c.standing v).outlook := by
  have hstanding := c.standing_unmoved v
  simp only [outlook, Standing.outlook, ← hstanding]
  rfl

end WereraChess
