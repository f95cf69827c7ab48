import WereraChess.Command
import WereraChess.Proofs.Application
import WereraChess.Proofs.Printout
/-!
# Listed moves

The moves command lists the moves of a position by its phase and the side to move. A session that
begins with the position checks a submission against its standing. Both come to the same moves.
-/
namespace WereraChess

private theorem Board.map_fst_occupied (b : Board) (q : Piece → Bool) :
    (b.occupied.filter fun (_, p) => q p).map Prod.fst =
      Square.all.filter fun s => (b.get s).any q := by
  rw [occupied]
  induction Square.all with
  | nil => rfl
  | cons s squares ih =>
    cases hs : b.get s with
    | none => simp [hs, ih]
    | some p => cases hp : q p <;> simp [hs, hp, ih]

private theorem Progress.permit_resume {phase : Phase} {turn side : Side}
    (h : phase.isComplete = false) :
    (resume phase turn).permit side = .ok () ↔ phase = .werera ∨ side = turn := by
  rw [permit_eq_ok, eq_comm (a := side)]
  rcases Phase.isComplete_eq_false.mp h with h | h <;> simp [resume, h]

namespace Session

variable {s : Session} {origin goal : Square} {p : Piece}

/-- Whether the session accepts the move from the owner of the piece. -/
def accepts (s : Session) (id : Uuid) (timestamp : UInt64) (origin goal : Square) : Bool :=
  (s.opening.board.get origin).any fun p =>
    (s.submit id p.owner origin.coord goal.coord timestamp).isOk

/-- The squares to which a session accepts a move of the piece, row by row. -/
def targets (s : Session) (id : Uuid) (timestamp : UInt64) (origin : Square) : List Square :=
  Square.all.filter (s.accepts id timestamp origin)

private theorem checks_of_submit_first {id : Uuid} {timestamp : UInt64} {a : Accepted}
    {s' : Session} (hlog : s.log = .empty) (hnone : s.resolution = none)
    (h : s.submit id p.owner origin.coord goal.coord timestamp = .ok (a, s')) :
    (Course.start s.variant s.rules s.opening).progress.permit p.owner = .ok () ∧
      goal ∈ s.opening.board.reach s.variant origin ∧
      (s.rules.allowsSelfCheck (Course.start s.variant s.rules s.opening).progress.phase = true ∨
        s.opening.board.exposesKing s.variant origin goal = false) := by
  obtain ⟨-, before, kind, captured, -, hst, hpermit, -, hmove, -⟩ := submit_eq_ok.mp h
  obtain rfl := Except.ok.inj ((standing_of_log_empty hlog hnone).symm.trans hst)
  obtain ⟨o, g, q, ho, hg, -, -, hreach, hking, -⟩ := checkMovement_eq_ok.mp hmove
  rw [Coord.square?_coord, Option.some.injEq] at ho hg
  subst ho hg
  exact ⟨hpermit, hreach, hking⟩

private theorem accepts_iff (id : Uuid) (timestamp : UInt64) (hfull : s.seats.areFull = true)
    (hlog : s.log = .empty) (hnone : s.resolution = none)
    (hroom : s.opening.moveCount.toNat + 1 < UInt32.size) :
    s.accepts id timestamp origin goal = true ↔ ∃ p, s.opening.board.get origin = some p ∧
      (Course.start s.variant s.rules s.opening).progress.permit p.owner = .ok () ∧
      goal ∈ s.opening.board.reach s.variant origin ∧
      (s.rules.allowsSelfCheck (Course.start s.variant s.rules s.opening).progress.phase = true ∨
        s.opening.board.exposesKing s.variant origin goal = false) := by
  rw [accepts, Option.any_eq_true]
  apply exists_congr
  intro p
  apply and_congr_right
  intro hp
  constructor
  · intro h
    cases hsubmit : s.submit id p.owner origin.coord goal.coord timestamp with
    | error f => rw [hsubmit] at h; exact absurd h Bool.noConfusion
    | ok a => exact checks_of_submit_first hlog hnone hsubmit
  · intro ⟨hpermit, hreach, hking⟩
    obtain ⟨a, m, h, -⟩ :=
      submit_first id timestamp hfull hlog hnone hroom hpermit hp rfl hreach hking
    rw [h]
    rfl

private theorem status_eq_active :
    s.status = .ok .active ↔ s.seats.areFull = true ∧
      ∃ st, s.standing = .ok st ∧ st.phase.isComplete = false := by
  unfold status
  cases s.seats.areFull with
  | false => exact ⟨nofun, nofun⟩
  | true =>
    simp only [Bool.not_true, Bool.false_eq_true, if_false, bind_eq_ok, true_and]
    apply exists_congr
    intro st
    apply and_congr_right
    intro _
    cases st.phase <;> simp [pure, Except.pure, Phase.isComplete]

end Session

namespace Text

private theorem oneLine_intercalate {sep : String} {fields : List String} (hsep : OneLine sep)
    (hfields : ∀ field ∈ fields, OneLine field) : OneLine (sep.intercalate fields) := by
  induction fields with
  | nil => exact (by decide : OneLine "")
  | cons field fields ih =>
    obtain ⟨hfield, hrest⟩ := List.forall_mem_cons.mp hfields
    cases fields with
    | nil => simpa using hfield
    | cons next fields =>
      rw [String.intercalate_cons_cons, oneLine_append, oneLine_append]
      exact ⟨⟨hfield, hsep⟩, ih hrest⟩

private theorem lines_join {ls : List String} (hls : ∀ l ∈ ls, OneLine l) :
    lines (String.join (ls.map (· ++ "\n"))) = ls ++ [""] := by
  have hall := lines_join_append hls ""
  rwa [String.append_empty] at hall

end Text

namespace Command

def movesRow (s : Square) (targets : List Square) : String :=
  s.name ++ ": " ++ " ".intercalate (targets.map Square.name)

private theorem oneLine_movesRow (s : Square) (targets : List Square) :
    Text.OneLine (movesRow s targets) := by
  have hnames (field : String) (h : field ∈ targets.map Square.name) : Text.OneLine field := by
    obtain ⟨t, -, rfl⟩ := List.mem_map.mp h
    exact Square.oneLine_name t
  rw [movesRow, Text.oneLine_append, Text.oneLine_append]
  exact ⟨⟨Square.oneLine_name s, by decide⟩, Text.oneLine_intercalate (by decide) hnames⟩

variable {f : Fen} {s t : Square}

def mayLeave (f : Fen) (s : Square) : Bool :=
  (f.board.get s).any fun p => f.phase = .werera || p.owner = f.active

private theorem sourcesIn_eq_filter (f : Fen) : sourcesIn f = Square.all.filter (mayLeave f) :=
  f.board.map_fst_occupied fun p => f.phase = .werera || p.owner = f.active

private theorem destinationsIn_eq_filter (f : Fen) (s : Square) :
    destinationsIn f s = Square.all.filter fun t => t ∈ f.board.reach f.variant s &&
      (f.phase = .werera || !f.board.exposesKing f.variant s t) := by
  unfold destinationsIn
  by_cases h : f.phase = .werera
  · simp [h, Board.destinations]
  · simp [h, Board.safeDestinations, Board.destinations, List.filter_filter, Bool.and_comm]

/-- The moves of a position are one line for each square that can be left. -/
theorem moves_eq_join {text : String} (hf : Fen.ofText text = .ok f)
    {targets : Square → List Square}
    (htargets : ∀ s, targets s = if mayLeave f s then destinationsIn f s else []) :
    moves text none = .ok (String.join
      ((Square.all.filter fun s => !(targets s).isEmpty).map fun s => movesLine s (targets s))) := by
  have hrows : ((sourcesIn f).filter fun s => !(destinationsIn f s).isEmpty) =
      Square.all.filter fun s => !(targets s).isEmpty := by
    rw [sourcesIn_eq_filter, List.filter_filter]
    apply List.filter_congr
    intro s _
    rw [htargets]
    cases mayLeave f s <;> simp
  have hline (s : Square) (hs : s ∈ Square.all.filter fun s => !(targets s).isEmpty) :
      movesLine s (destinationsIn f s) = movesLine s (targets s) := by
    rw [← hrows, sourcesIn_eq_filter, List.mem_filter, List.mem_filter] at hs
    rw [htargets, if_pos hs.1.2]
  rw [moves, hf]
  simp only [bind, Except.bind, pure, Except.pure, List.filter_map, List.map_map]
  exact congrArg (Except.ok ∘ String.join) ((congrArg _ hrows).trans (List.map_congr_left hline))

variable {name : Uuid} {seats : Seats}

private theorem accepts_start (hroom : f.moveCount.toNat + 1 < UInt32.size)
    (hactive : (Session.start name f.variant seats (.ofFen f)).status = .ok .active) (id : Uuid)
    (timestamp : UInt64) :
    (Session.start name f.variant seats (.ofFen f)).accepts id timestamp s t =
      (mayLeave f s && (t ∈ f.board.reach f.variant s &&
        (f.phase = .werera || !f.board.exposesKing f.variant s t))) := by
  obtain ⟨hfull, st, hst, hlive⟩ := Session.status_eq_active.mp hactive
  obtain rfl := Except.ok.inj ((Session.standing_of_log_empty rfl rfl).symm.trans hst)
  have hstart : (Course.start f.variant {} (.ofFen f)).progress = .resume f.phase f.active :=
    Course.progress_start_of_live hlive
  have hphase : f.phase.isComplete = false := by
    change (Course.start f.variant {} (.ofFen f)).progress.phase.isComplete = false at hlive
    rwa [hstart] at hlive
  have hselfCheck : HouseRules.allowsSelfCheck {} (Progress.resume f.phase f.active).phase =
      decide (f.phase = .werera) := Bool.and_true _
  rw [Bool.eq_iff_iff, Session.accepts_iff id timestamp hfull rfl rfl hroom]
  change (∃ p, f.board.get s = some p ∧
    (Course.start f.variant {} (.ofFen f)).progress.permit p.owner = .ok () ∧
    t ∈ f.board.reach f.variant s ∧ (HouseRules.allowsSelfCheck {}
      (Course.start f.variant {} (.ofFen f)).progress.phase = true ∨
      f.board.exposesKing f.variant s t = false)) ↔ _
  simp only [hselfCheck, hstart, Progress.permit_resume hphase, mayLeave, Bool.and_eq_true,
    Bool.or_eq_true, decide_eq_true_eq, Option.any_eq_true, Bool.not_eq_true', ← and_assoc,
    exists_and_right]

private theorem targets_start (hroom : f.moveCount.toNat + 1 < UInt32.size)
    (hactive : (Session.start name f.variant seats (.ofFen f)).status = .ok .active) (id : Uuid)
    (timestamp : UInt64) (s : Square) :
    (Session.start name f.variant seats (.ofFen f)).targets id timestamp s =
      if mayLeave f s then destinationsIn f s else [] := by
  have haccepts := funext fun t => accepts_start (s := s) (t := t) hroom hactive id timestamp
  rw [Session.targets, haccepts, destinationsIn_eq_filter]
  cases mayLeave f s <;> simp

/-- The moves of a position in play take one line for each square from which a new session accepts
a move of its piece's owner, and the line lists the targets that are accepted. -/
theorem lines_moves {text : String} {s : Session} (hf : Fen.ofText text = .ok f)
    (hroom : f.moveCount.toNat + 1 < UInt32.size)
    (hs : Session.ofFen name text none seats = .ok s) (hactive : s.status = .ok .active) (id : Uuid)
    (timestamp : UInt64) :
    ∃ out, moves text none = .ok out ∧ Text.lines out =
      ((Square.all.filter fun origin => !(s.targets id timestamp origin).isEmpty).map
        fun origin => movesRow origin (s.targets id timestamp origin)) ++ [""] := by
  rw [Session.ofFen, hf] at hs
  obtain rfl := Except.ok.inj hs
  refine ⟨_, moves_eq_join hf (targets_start hroom hactive id timestamp), ?_⟩
  rw [← Text.lines_join, List.map_map]
  · rfl
  · intro row hrow
    obtain ⟨origin, -, rfl⟩ := List.mem_map.mp hrow
    exact oneLine_movesRow origin _

/-- White's king may leave the corner, but not along the line of the rook, and it is not Black's
turn. -/
theorem lines_moves_cornered :
    ∃ s, Session.ofFen (.numbered 1) "7k/8/8/8/8/8/8/K6r w normal 3" none
        (Session.friendly .standard).seats = .ok s ∧
      moves "7k/8/8/8/8/8/8/K6r w normal 3" none = .ok "a1: a2 b2\n" ∧
      ["a1: a2 b2", ""] =
        ((Square.all.filter fun origin => !(s.targets (.numbered 4) 100 origin).isEmpty).map
          fun origin => movesRow origin (s.targets (.numbered 4) 100 origin)) ++ [""] := by
  have hmoves : moves "7k/8/8/8/8/8/8/K6r w normal 3" none = .ok "a1: a2 b2\n" := by
    decide
  have hread : (Fen.ofText "7k/8/8/8/8/8/8/K6r w normal 3").toOption.map (fun f =>
      (f.moveCount, (Course.start f.variant {} (.ofFen f)).progress.phase)) =
        some (3, .normal) := by decide
  cases hf : Fen.ofText "7k/8/8/8/8/8/8/K6r w normal 3" with
  | error e => simp [hf, Except.toOption] at hread
  | ok f =>
    rw [hf] at hread
    obtain ⟨hcount, hphase⟩ := Prod.mk.inj (Option.some.inj hread)
    have hs : Session.ofFen (.numbered 1) "7k/8/8/8/8/8/8/K6r w normal 3" none
        (Session.friendly .standard).seats =
          .ok (.start (.numbered 1) f.variant (Session.friendly .standard).seats (.ofFen f)) := by
      rw [Session.ofFen, hf]
    have hactive : (Session.start (.numbered 1) f.variant (Session.friendly .standard).seats
        (.ofFen f)).status = .ok .active :=
      Session.status_eq_active.mpr ⟨rfl, _, Session.standing_of_log_empty rfl rfl,
        congrArg Phase.isComplete hphase⟩
    obtain ⟨out, hout, hlines⟩ :=
      lines_moves hf (by rw [hcount]; decide) hs hactive (.numbered 4) 100
    obtain rfl := Except.ok.inj (hmoves.symm.trans hout)
    refine ⟨_, hs, hmoves, Eq.trans ?_ hlines⟩
    decide

end Command
end WereraChess
