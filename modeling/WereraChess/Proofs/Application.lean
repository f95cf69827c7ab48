import WereraChess.Proofs.Conservation
import WereraChess.Proofs.Line
/-!
# What becomes of a record

A record is refused if the game is over, if its source does not hold a piece of its mover or if its
target does. A replay notes the record then, and nothing else changes. Of any other record it moves
the piece, takes what stands on the target, counts the move and passes the turn.
-/
namespace WereraChess

/-- Whether the pair is a square that a piece of the side stands on. -/
def Board.holds (b : Board) (side : Side) (c : Coord) : Bool :=
  c.square?.any fun s => b.ownerAt s = some side

/-- Whether the record cannot be applied to the board in the phase. -/
def Move.isRefused (m : Move) (phase : Phase) (b : Board) : Bool :=
  phase.isComplete || !b.holds m.mover m.source || b.holds m.mover m.target

/-- The captures with what stood on a target. -/
def Captures.take (c : Captures) : Option Piece → Captures
  | .some p => c.add p.owner p.kind
  | .none => c

theorem Captures.take_eq_none_iff {c : Captures} {p : Option Piece} :
    c.take p = none ↔ c = none ∧ p = Option.none := by
  cases p with
  | none => simp [take]
  | some p =>
    obtain ⟨kind, owner, -⟩ := p
    cases owner <;> simp [take, add, none]

private theorem Board.holds_of_square? {c : Coord} {s : Square} (h : c.square? = some s) (b : Board)
    (side : Side) : b.holds side c = decide (b.ownerAt s = some side) := by
  rw [holds, h, Option.any_some]

private theorem Progress.finish?_of_live {p : Progress} {e : Option Ending}
    (h : (p.finish? e).phase.isComplete = false) : p.finish? e = p := by
  cases e with
  | none => rfl
  | some e =>
    rw [finish?, finish] at h ⊢
    split at h
    case isTrue hover => rw [if_pos hover]
    case isFalse => exact absurd h Bool.noConfusion

namespace Course

variable {v : Variant} {rules : HouseRules} {c c' : Course} {m : Move} {s t : Square}

theorem progress_start_of_live {o : Opening}
    (h : (start v rules o).progress.phase.isComplete = false) :
    (start v rules o).progress = .resume o.phase o.turn :=
  Progress.finish?_of_live h

/-- The record has moved its piece from the one square to the other. -/
structure Played (c : Course) (m : Move) (s t : Square) (c' : Course) : Prop where
  source : m.source.square? = some s
  target : m.target.square? = some t
  relocated : (c.board.relocate s t).isSome = true
  board : c'.board = c.board.after s t
  captures : c'.captures = c.captures.take (c.board.get t)
  moveCount : c'.moveCount.toNat = c.moveCount.toNat + 1
  skipped : c'.skipped = c.skipped
  turn : c'.progress.turn = m.mover.opponent
  phase : c'.progress.phase.isComplete = false → c'.progress.phase =
    if c.progress.phase = .werera ∧ c.board.get t = none then .werera else .normal

theorem isRefused_eq (c : Course) (hs : m.source.square? = some s)
    (ht : m.target.square? = some t) : m.isRefused c.progress.phase c.board =
      (c.progress.phase.isComplete || !c.applies m s t) := by
  rw [Move.isRefused, Board.holds_of_square? hs, Board.holds_of_square? ht, applies]
  simp only [ne_eq, decide_not, Bool.not_and, Bool.not_not, Bool.or_assoc]

private theorem captures_of_advance {d : Course} {side : Side} {r : Relocation}
    (h : c.advance side r = .ok d) : d.captures = c.captures.take r.captured := by
  rw [advance] at h
  split at h
  case isTrue =>
    obtain rfl := Except.ok.inj h
    cases r.captured <;> rfl
  case isFalse => simp at h

private theorem phase_record {p : Progress} (h : p.phase.isComplete = false) (mover : Side)
    (captured : Option Piece) : (p.record mover captured.isSome).phase =
      if p.phase = .werera ∧ captured = none then .werera else .normal := by
  obtain ⟨phase, turn, ending⟩ := p
  cases phase with
  | werera => cases captured <;> rfl
  | normal => rfl
  | complete => simp [Phase.isComplete] at h

theorem Step.eq_skip (h : Step v rules c m c')
    (hrefused : m.isRefused c.progress.phase c.board = true) : c' = c.skip m := by
  cases h with
  | ended => rfl
  | blocked => rfl
  | applied hlive hs ht happ => simp [isRefused_eq c hs ht, hlive, happ] at hrefused

theorem Step.exists_played (h : Step v rules c m c')
    (hrefused : m.isRefused c.progress.phase c.board = false) : ∃ s t, c.Played m s t c' := by
  cases h with
  | ended hover => simp [Move.isRefused, hover] at hrefused
  | blocked _ hs ht happ => simp [isRefused_eq c hs ht, happ] at hrefused
  | @applied s t r d hlive hs ht happ hr hd =>
    have htaken := captured_of_applies happ hr
    obtain ⟨hboard, hprogress, hskipped, hcount⟩ := advance_eq_ok hd
    rw [htaken] at hprogress
    refine ⟨s, t, hs, ht, by rw [hr]; rfl, ?_, ?_, hcount, hskipped, ?_, ?_⟩
    · rw [Board.after, hr]
      exact hboard
    · have hcaptures := captures_of_advance hd
      rwa [htaken] at hcaptures
    · rw [settle, Progress.turn_finish?, hprogress]
      exact (Progress.record_live hlive m.mover _).2.1
    · intro hlive'
      rw [settle] at hlive' ⊢
      rw [Progress.finish?_of_live hlive', hprogress]
      exact phase_record hlive m.mover _

theorem run_append_cons {pre post : List Move} :
    (pre ++ m :: post).foldlM (play v rules) c = .ok c' ↔
      ∃ d e, pre.foldlM (play v rules) c = .ok d ∧ Step v rules d m e ∧
        post.foldlM (play v rules) e = .ok c' := by
  simp only [List.foldlM_append, List.foldlM_cons, bind_eq_ok, play_eq_ok_iff]
  constructor
  · intro ⟨d, hd, e, he, h⟩
    exact ⟨d, e, hd, he, h⟩
  · intro ⟨d, e, hd, he, h⟩
    exact ⟨d, hd, e, he, h⟩

theorem run_concat {ms : List Move} :
    (ms ++ [m]).foldlM (play v rules) c = .ok c' ↔
      ∃ d, ms.foldlM (play v rules) c = .ok d ∧ Step v rules d m c' := by
  rw [run_append_cons]
  constructor
  · intro ⟨d, e, hd, he, h⟩
    obtain rfl := Except.ok.inj h
    exact ⟨d, hd, he⟩
  · intro ⟨d, hd, h⟩
    exact ⟨d, c', hd, h, rfl⟩

end Course

end WereraChess
