import WereraChess.Proofs.Application
import WereraChess.Proofs.Liveness
import WereraChess.Proofs.Reimport
/-!
# The newest move

A session replays its whole log after each move. A move that is newer than all others comes last
there: what was checked on the standing before it is what happens to that standing.
-/
namespace WereraChess

private theorem Captures.takenBy_take {p : Option Piece} {side : Side}
    (h : p.map Piece.owner ≠ some side) (c : Captures) :
    (c.take p).takenBy side = c.takenBy side ++ (p.map Piece.kind).toList ∧
      (c.take p).takenBy side.opponent = c.takenBy side.opponent := by
  cases p with
  | none => simp [take]
  | some p =>
    have hne : p.owner ≠ side := fun howner => h (congrArg some howner)
    have howner := Side.eq_opponent_of_ne hne
    rw [take, takenBy_add, takenBy_add, if_neg hne.symm, if_pos howner.symm]
    exact ⟨rfl, rfl⟩

/-- The side's move from `s` to `t` has led from one standing to the other. The side has taken what
stood on the target, and its king is safe unless it need not be. -/
structure Standing.Moved (v : Variant) (rules : HouseRules) (side : Side) (s t : Square)
    (before after : Standing) : Prop where
  board : after.board = before.board.after s t
  moveCount : after.moveCount.toNat = before.moveCount.toNat + 1
  skipped : after.skipped = before.skipped
  turn : after.turn = side.opponent
  taken : after.captures.takenBy side =
    before.captures.takenBy side ++ ((before.board.get t).map Piece.kind).toList
  kept : after.captures.takenBy side.opponent = before.captures.takenBy side.opponent
  live : after.ending = none → after.phase =
    if before.phase = .normal ∨ (before.board.get t).isSome then .normal else .werera
  ended (e : Ending) (h : after.ending = some e) : after.phase = .complete e.reason
  safe : after.board.inCheck v side = false ∨
    before.phase = .werera ∧ rules.selfCheckInWerera = true

namespace Course

variable {v : Variant} {rules : HouseRules} {c c' : Course} {m : Move} {s t : Square}

private theorem Settled.live_of_ending (hc : c.Settled v rules) (hnone : c.progress.ending = none) :
    c.progress.phase.isComplete = false := by
  cases hphase : c.progress.phase with
  | werera => rfl
  | normal => rfl
  | complete r =>
    obtain ⟨e, he, -⟩ := hc.ended r hphase
    simp [hnone] at he

/-- The standing moves as its board admits, if the king is safe or need not be. -/
theorem moved_standing (hc : c.Settled v rules) (hlive : c.progress.phase.isComplete = false)
    (hs : m.source.square? = some s) (ht : m.target.square? = some t)
    (happlies : c.applies m s t = true)
    (hking : (c.board.after s t).inCheck v m.mover = false ∨
      rules.allowsSelfCheck c.progress.phase = true)
    (hstep : Step v rules c m c') :
    (c.standing v).Moved v rules m.mover s t (c'.standing v) := by
  have hrefused : m.isRefused c.progress.phase c.board = false := by
    rw [isRefused_eq c hs ht, hlive, happlies]
    rfl
  obtain ⟨s', t', hplayed⟩ := hstep.exists_played hrefused
  obtain rfl := Option.some.inj (hs.symm.trans hplayed.source)
  obtain rfl := Option.some.inj (ht.symm.trans hplayed.target)
  have hsettled := settled_step hc hstep
  obtain ⟨htaken, hkept⟩ := Captures.takenBy_take (applies_iff.mp happlies).2 c.captures
  rw [← hplayed.captures] at htaken hkept
  refine ⟨hplayed.board, hplayed.moveCount, hplayed.skipped, hplayed.turn, htaken, hkept, ?_, ?_,
    ?_⟩
  · intro hnone
    refine (hplayed.phase (hsettled.live_of_ending hnone)).trans ?_
    change _ = if c.progress.phase = .normal ∨ (c.board.get t).isSome then Phase.normal else .werera
    rcases Phase.isComplete_eq_false.mp hlive with hphase | hphase
    · cases c.board.get t <;> simp [hphase]
    · simp [hphase]
  · intro e he
    apply (ending_any_iff hsettled e.reason).mp
    have he' : c'.progress.ending = some e := he
    simp [he']
  · rw [HouseRules.allowsSelfCheck, Bool.and_eq_true, decide_eq_true_eq, ← hplayed.board] at hking
    exact hking

end Course

namespace Session

variable {s s' : Session} {before : Standing} {id : Uuid} {side : Side} {source target : Coord}
  {timestamp : UInt64} {a : Accepted}

private theorem exists_step_logged {c : Course} {m : Move} {after : Standing}
    (hc : Move.IsCanonical s.log.moves) (hnone : s.resolution = none) (hcourse : s.course = .ok c)
    (hid : s.log.contains m.id = false) (hlast : ∀ n ∈ s.log.moves, n.timestamp < m.timestamp)
    (hafter : (s.logged m).standing = .ok after) :
    ∃ c', Course.Step s.variant s.rules c m c' ∧ c'.standing s.variant = after := by
  have hmoves := MoveLog.moves_insert_last hc hid
    fun n hn => Move.key_lt_of_timestamp_lt (hlast n hn)
  obtain ⟨c', hcourse', hst⟩ := exists_course_of_standing (s := s.logged m) hnone
    (MoveLog.isCanonical_insert hc m) hafter
  rw [logged, course_append hmoves, hcourse] at hcourse'
  have hrun : ([] ++ [m]).foldlM (Course.play s.variant s.rules) c = .ok c' := hcourse'
  obtain ⟨d, hd, hstep⟩ := Course.run_concat.mp hrun
  obtain rfl := Except.ok.inj hd
  exact ⟨c', hstep, hst⟩

/-- An accepted move that is newer than the log, as every move in normal play is, has the effect on
the standing that it was checked for, and announces the ending that it brings. -/
theorem submit_newest (hs : s.Reached) (hid : s.log.contains id = false)
    (hbefore : s.standing = .ok before)
    (hnewest : before.phase = .normal ∨ ∀ m ∈ s.log.moves, m.timestamp < timestamp)
    (h : s.submit id side source target timestamp = .ok (a, s')) :
    ∃ after origin goal, s'.standing = .ok after ∧ source.square? = some origin ∧
      target.square? = some goal ∧ before.Moved s.variant s.rules side origin goal after ∧
      a.ending = after.ending := by
  have ho := hs.sound.inPlay
  have hc := hs.isCanonical
  have hlive := live_of_submit hbefore h
  have hnone := resolution_of_live ho hbefore hlive
  obtain ⟨-, before', kind, captured, after, hbefore', -, htime, hmove, hafter, rfl, rfl⟩ :=
    submit_eq_ok.mp h
  obtain rfl := Except.ok.inj (hbefore.symm.trans hbefore')
  obtain ⟨c, hcourse, rfl⟩ := exists_course_of_standing hnone hc hbefore
  have hsettled := Course.settled_run ho hcourse
  have hlast : ∀ m ∈ s.log.moves, m.timestamp < timestamp := by
    rcases hnewest with hnormal | hlast
    · rw [hnormal] at htime
      intro m hm
      exact newer_of_checkTime hc htime hm
    · exact hlast
  obtain ⟨origin, goal, p, horigin, hgoal, hp, howner, hreach, hking, -⟩ :=
    checkMovement_eq_ok.mp hmove
  obtain ⟨c', hstep, rfl⟩ := exists_step_logged
    (m := ⟨id, source, target, side, kind, captured, timestamp⟩) hc hnone hcourse hid hlast hafter
  have happlies : c.applies ⟨id, source, target, side, kind, captured, timestamp⟩ origin goal =
      true := by
    refine Course.applies_iff.mpr ⟨Board.ownerAt_eq_some.mpr ⟨p, hp, howner⟩, ?_⟩
    rw [← howner]
    exact Board.ownerAt_of_mem_reach hp hreach
  have hsafe : (c.board.after origin goal).inCheck s.variant side = false ∨
      s.rules.allowsSelfCheck c.progress.phase = true := by
    rw [← howner]
    refine hking.symm.imp_left fun hexposes => ?_
    have hp' : c.board.get origin = some p := hp
    change c.board.exposesKing s.variant origin goal = false at hexposes
    rwa [Board.exposesKing, hp'] at hexposes
  have hending : (c.standing s.variant).ending = none := (hsettled.live hlive).1
  refine ⟨_, origin, goal, hafter, horigin, hgoal,
    Course.moved_standing hsettled hlive horigin hgoal happlies hsafe hstep, ?_⟩
  rw [hending]
  rfl

/-- Black answers White's first move. -/
theorem submit_newest_begun :
    ∃ before a s' after, begun.standing = .ok before ∧ before.phase = .normal ∧
      begun.log.contains reply.id = false ∧
      begun.submit reply.id .black reply.source reply.target 200 = .ok (a, s') ∧
      s'.standing = .ok after ∧ before.Moved .standard {} .black ⟨1, 4⟩ ⟨2, 4⟩ after := by
  have hlog : ∀ m ∈ [opener, reply], m.OnBoard := by decide
  have hid : begun.log.contains reply.id = false := by
    rw [MoveLog.contains_eq_false_iff, log_begun]
    decide
  have hlogged : (begun.logged reply).log.moves = [opener, reply] := by
    have hlast := MoveLog.moves_insert_last reached_begun.isCanonical hid
    rw [log_begun] at hlast
    exact hlast (by decide)
  obtain ⟨before, hbefore⟩ := standing_total (s := begun)
    (by rw [log_begun]; decide) (by rw [log_begun]; decide)
  obtain ⟨after, hafter⟩ := standing_total (s := begun.logged reply)
    (by rwa [hlogged]) (by rw [hlogged]; decide)
  have hchecks : begun.standing.toOption.map (fun st => (st.phase, st.turn,
      (begun.checkMovement st .black reply.source reply.target).toOption)) =
        some (.normal, .black, some (.pawn, none)) := by
    rw [standing, replayed_begun]
    decide +kernel
  rw [hbefore] at hchecks
  obtain ⟨hphase, hrest⟩ := Prod.mk.inj (Option.some.inj hchecks)
  obtain ⟨hturn, hmove⟩ := Prod.mk.inj hrest
  have hpermit : (Progress.resume before.phase before.turn).permit .black = .ok () := by
    rw [hphase, hturn]
    rfl
  have htime : begun.checkTime before.phase 200 = .ok () := by
    apply checkTime_eq_ok.mpr
    intro _ latest h
    rw [MoveLog.latest?, log_begun] at h
    rw [← Option.some.inj h]
    decide
  have hmovement : begun.checkMovement before .black reply.source reply.target =
      .ok (.pawn, none) := by
    cases h : begun.checkMovement before .black reply.source reply.target with
    | error f => simp [h, Except.toOption] at hmove
    | ok r =>
      rw [h] at hmove
      rw [Option.some.inj hmove]
  have hsubmit := submit_eq_ok.mpr ⟨rfl, before, .pawn, none, after, hbefore, hpermit, htime,
    hmovement, hafter, rfl, rfl⟩
  obtain ⟨after', origin, goal, hafter', horigin, hgoal, hmoved, -⟩ :=
    submit_newest reached_begun hid hbefore (.inl hphase) hsubmit
  obtain rfl : ⟨1, 4⟩ = origin := Option.some.inj horigin
  obtain rfl : ⟨2, 4⟩ = goal := Option.some.inj hgoal
  exact ⟨before, _, _, after', hbefore, hphase, hid, hsubmit, hafter', hmoved⟩

end Session
end WereraChess
