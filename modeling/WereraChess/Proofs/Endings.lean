import WereraChess.Proofs.Liveness
import WereraChess.Proofs.Reached
/-!
# Ends of games

A game ends on the board, by its log, or by a declaration. A log that has ended it counts for more
than a declaration, and a declaration is taken only by a game that is live.
-/
namespace WereraChess.Session

variable {s : Session} {r : Standing} {n : Nat}

/-- Whether the log alone has ended the game. -/
def isOver (s : Session) : Bool := s.replayed.toOption.any (·.phase.isComplete)

/-- The session after a declaration, which is taken if the game is live. -/
def declared (s : Session) (e : Ending) : Session :=
  if s.resolution.isSome || s.isOver then s else { s with resolution := some e }

theorem isOver_of_replayed (h : s.replayed = .ok r) : s.isOver = r.phase.isComplete := by
  rw [isOver, h]
  rfl

theorem replayed_eq_ok :
    s.replayed = .ok r ↔ ∃ c, (Move.canonical s.log.moves).foldlM (Course.play s.variant s.rules)
      (Course.start s.variant s.rules s.opening) = .ok c ∧ c.standing s.variant = r :=
  replay_eq_ok

private theorem replayed_of_opening (ho : s.opening.phase.isComplete = true) :
    ∃ r, s.replayed = .ok r ∧ r.phase.isComplete = true ∧ r.ending = none := by
  have hstart : (Course.start s.variant s.rules s.opening).progress =
      .resume s.opening.phase s.opening.turn := by
    change Progress.finish? _ _ = _
    cases s.opening.board.ending? s.variant s.opening.turn _ with
    | none => rfl
    | some e => simp [Progress.finish?, Progress.finish, Progress.resume, ho]
  have hcomplete : (Course.start s.variant s.rules s.opening).progress.phase.isComplete = true := by
    rw [hstart]
    exact ho
  refine ⟨_, replayed_eq_ok.mpr ⟨_, Course.run_ended hcomplete _, rfl⟩, hcomplete, ?_⟩
  exact congrArg Progress.ending hstart

/-- From an opening in play the log has ended the game exactly if the standing has an ending. -/
theorem isComplete_eq_isSome_ending (ho : s.opening.phase.isComplete = false)
    (h : s.replayed = .ok r) : r.phase.isComplete = r.ending.isSome := by
  obtain ⟨c, hc, rfl⟩ := replayed_eq_ok.mp h
  have hsettled := Course.settled_run (Phase.isComplete_eq_false.mp ho) hc
  change c.progress.phase.isComplete = c.progress.ending.isSome
  cases hphase : c.progress.phase with
  | complete reason =>
    obtain ⟨e, he, -⟩ := hsettled.ended reason hphase
    rw [he]
    rfl
  | werera | normal =>
    obtain ⟨hnone, -⟩ := hsettled.live (by rw [hphase]; rfl)
    rw [hnone]
    rfl

theorem ending_of_not_isOver (h : s.replayed = .ok r) (hlive : s.isOver = false) : r.ending = none := by
  rw [isOver_of_replayed h] at hlive
  cases ho : s.opening.phase.isComplete with
  | true =>
    obtain ⟨r', hr', -, hnone⟩ := replayed_of_opening ho
    rwa [Except.ok.inj (h.symm.trans hr')]
  | false => simpa [isComplete_eq_isSome_ending ho h] using hlive

theorem standing_of_replayed (h : s.replayed = .ok r) :
    s.standing = .ok (s.resolution.elim r r.declare) :=
  standing_eq_ok.mpr ⟨r, h, rfl⟩

theorem isComplete_standing (h : s.replayed = .ok r) :
    (s.resolution.elim r r.declare).phase.isComplete = (s.resolution.isSome || s.isOver) := by
  cases hresolution : s.resolution with
  | none => exact (isOver_of_replayed h).symm
  | some e =>
    simp only [Option.elim_some, Standing.declare]
    split
    case isTrue hending =>
      cases hover : s.isOver with
      | true => rw [← isOver_of_replayed h, hover]; rfl
      | false => simp [ending_of_not_isOver h hover] at hending
    case isFalse => rfl

theorem elim_declare_of_ending (h : r.ending.isSome = true) (o : Option Ending) :
    o.elim r r.declare = r := by
  cases o with
  | none => rfl
  | some e => simp [Standing.declare, h]

theorem ending_elim_declare (h : r.ending = none) (o : Option Ending) :
    (o.elim r r.declare).ending = o := by
  cases o with
  | none => exact h
  | some e => simp [Standing.declare, h]

theorem isOver_of_opening (ho : s.opening.phase.isComplete = true) : s.isOver = true := by
  obtain ⟨r, hr, hover, -⟩ := replayed_of_opening ho
  rw [isOver_of_replayed hr, hover]

theorem declared_eq (s : Session) (e : Ending) :
    s.declared e = { s with resolution := (s.declared e).resolution } := by
  unfold declared
  split <;> rfl

theorem declare_of_isComplete {st : Standing} {e : Ending} (hst : s.standing = .ok st)
    (h : st.phase.isComplete = true) : ∃ r, s.declare e = .error (.refused r) := by
  cases hphase : st.phase with
  | complete reason =>
    have hlift : (liftM s.standing : Except Failure Standing) = .ok st := liftFault_eq_ok.mpr hst
    refine ⟨.gameOver reason, ?_⟩
    simp only [declare, hlift, bind, Except.bind, hphase, refuse]
  | werera | normal => simp [hphase, Phase.isComplete] at h

theorem declare_of_replayed {e : Ending} (h : s.replayed = .ok r) :
    s.declare e = .ok (e, s.declared e) ∨
      (∃ refusal, s.declare e = .error (.refused refusal)) ∧ s.declared e = s := by
  have hst := standing_of_replayed h
  have hcomplete := isComplete_standing h
  cases hlive : s.resolution.isSome || s.isOver with
  | true =>
    exact .inr ⟨declare_of_isComplete hst (hcomplete.trans hlive), if_pos hlive⟩
  | false =>
    refine .inl (declare_eq_ok.mpr ⟨_, hst, hcomplete.trans hlive, rfl, ?_⟩)
    rw [declared, if_neg (by simp [hlive])]

/-- The records are on the board, and the counter has room for them and `n` more. -/
structure Playable (s : Session) (n : Nat) : Prop where
  onBoard : ∀ m ∈ s.log.moves, m.OnBoard
  room : s.opening.moveCount.toNat + s.log.moves.length + n < UInt32.size

theorem playable_of_log_empty (hlog : s.log = .empty)
    (hroom : s.opening.moveCount.toNat + n < UInt32.size) : s.Playable n := by
  refine ⟨fun m hm => ?_, ?_⟩
  · rw [hlog] at hm
    exact absurd hm List.not_mem_nil
  · rwa [hlog]

theorem Playable.of_le {k : Nat} (h : s.Playable n) (hk : k ≤ n) : s.Playable k := by
  have hroom := h.room
  exact ⟨h.onBoard, by omega⟩

theorem Playable.replayed (h : s.Playable n) : ∃ r, s.replayed = .ok r := by
  have hroom := h.room
  obtain ⟨st, hst⟩ := standing_total h.onBoard (by omega)
  obtain ⟨r, hr, -⟩ := standing_eq_ok.mp hst
  exact ⟨r, hr⟩

theorem Playable.standing (h : s.Playable n) : ∃ st, s.standing = .ok st := by
  obtain ⟨r, hr⟩ := h.replayed
  exact ⟨_, standing_of_replayed hr⟩

theorem Playable.logged {x : Move} (h : s.Playable (n + 1)) (hx : x.OnBoard) :
    (s.logged x).Playable n := by
  have hroom := h.room
  have hlen := MoveLog.length_insert_le s.log x
  refine ⟨fun y hy => ?_, ?_⟩
  · rcases MoveLog.mem_of_mem_insert hy with rfl | hy
    · exact hx
    · exact h.onBoard y hy
  · change s.opening.moveCount.toNat + (s.log.insert x).moves.length + n < UInt32.size
    omega

end WereraChess.Session
