import WereraChess.Proofs.Convergence
import WereraChess.Proofs.Line
/-!
# Linear play

Two peers that begin a game of alternating moves without records keep one line of play between them.
At any time both have the whole line, or the opponent of the side that moved last lacks the last
move. While that move is under way neither peer can submit another: it is not the turn of the one,
and the other does not know yet that it is its turn.
-/
namespace WereraChess.Duel

variable {s : Session} {d d' : Duel}

/-- Both logs hold one line of play, but that the last move may not have arrived. -/
inductive Linear (s : Session) (d : Duel) : Prop
  | level {ms : List Move} {c : Course} (h : Line s.variant s.rules s.opening ms c)
      (hlog : ∀ side, (d side).log = ⟨ms⟩) : Linear s d
  | ahead {ms : List Move} {c : Course} {m : Move}
      (h : Line s.variant s.rules s.opening (ms ++ [m]) c)
      (hlog : (d m.mover).log = ⟨ms ++ [m]⟩) (hbehind : (d m.mover.opponent).log = ⟨ms⟩) :
      Linear s d

theorem consistent_of_empty (hlog : s.log = .empty) (hd : Run (ofSession s) d) :
    Consistent s d := by
  refine consistent_of_run ?_ hd
  rw [hlog]
  exact MoveLog.isCanonical_empty

private theorem linear_ofSession (hlog : s.log = .empty) : Linear s (ofSession s) :=
  .level .start fun _ => hlog

private theorem Linear.of_log_eq (h : Linear s d) (hlog : ∀ side, (d' side).log = (d side).log) :
    Linear s d' := by
  cases h with
  | level h heq => exact .level h fun side => (hlog side).trans (heq side)
  | ahead h heq hbehind => exact .ahead h ((hlog _).trans heq) ((hlog _).trans hbehind)

theorem Consistent.submit_line (hc : Consistent s d) {side : Side} {ms : List Move} {c : Course}
    {id : Uuid} {source target : Coord} {timestamp : UInt64} {m : Move} {p : Peer}
    (h : Line s.variant s.rules s.opening ms c) (ho : s.opening.phase = .normal)
    (hlog : (d side).log = ⟨ms⟩) (hnone : s.resolution = none) (hid : d.Fresh id)
    (hp : (d side).peer.submit id source target timestamp = .ok (some m, p)) :
    c.progress.turn = side ∧ m.mover = side ∧ p.session.log = ⟨ms ++ [m]⟩ ∧
      ∃ c', Line s.variant s.rules s.opening (ms ++ [m]) c' := by
  obtain ⟨-, a, s', hs, rfl, rfl⟩ := Peer.submit_eq_some.mp hp
  rw [(hc.sound side).side, (hc.sound side).frame, hlog] at hs
  have hfresh : (MoveLog.mk ms).contains id = false := hlog ▸ hid side
  exact Session.submit_line (s := { s with log := ⟨ms⟩ }) h ho rfl hnone hfresh hs

/-- A move can be published only while both peers have the whole line. -/
theorem Linear.publish (h : Linear s d) (hc : Consistent s d) (ho : s.opening.phase = .normal)
    (hnone : s.resolution = none) {side : Side} {id : Uuid} {source target : Coord}
    {timestamp : UInt64} {m : Move} {p : Peer} (hid : d.Fresh id)
    (hp : (d side).peer.submit id source target timestamp = .ok (some m, p)) :
    Linear s (Function.update d side ((d side).publish p m)) := by
  cases h with
  | level h hlog =>
    obtain ⟨-, rfl, hm, c', h'⟩ := hc.submit_line h ho (hlog side) hnone hid hp
    refine .ahead h' ?_ ?_
    · rw [Function.update_self]
      exact hm
    · rw [Function.update_of_ne m.mover.opponent_ne]
      exact hlog m.mover.opponent
  | @ahead ms c n h hlog hbehind =>
    exfalso
    by_cases heq : side = n.mover
    · subst heq
      obtain ⟨hturn, -⟩ := hc.submit_line h ho hlog hnone hid hp
      rw [h.turn_last] at hturn
      exact n.mover.opponent_ne hturn
    · obtain rfl := Side.eq_opponent_of_ne heq
      obtain ⟨c₀, h₀, -, hturn₀, -⟩ := h.of_append
      obtain ⟨hturn, -⟩ := hc.submit_line h₀ ho hbehind hnone hid hp
      exact heq (hturn.symm.trans hturn₀)

theorem log_receive {side : Side} {m : Move} {new : Bool} {p : Peer}
    (hp : (d side).peer.receive m = .ok (new, p)) :
    ((d side).receive p m).log = (d side).log.insert m := by
  obtain ⟨-, -, rfl⟩ := Peer.receive_eq_ok.mp hp
  rfl

/-- The one move that can be new to a peer is the last of the line, which its opponent has made. -/
theorem Linear.arrival (h : Linear s d) (hc : Consistent s d) {side sender : Side} {m : Move}
    (hm : m ∈ (d sender).published) (hnew : m ∉ (d side).log.moves) :
    side = m.mover.opponent ∧ ∃ ms c, Line s.variant s.rules s.opening (ms ++ [m]) c ∧
      (d m.mover).log = ⟨ms ++ [m]⟩ ∧ (d side).log = ⟨ms⟩ := by
  have hsent : m ∈ (d sender).log.moves := (hc.sound sender).mem_log_of_published hm
  cases h with
  | level h hlog =>
    rw [hlog] at hnew hsent
    exact absurd hsent hnew
  | @ahead ms c n h hlog hbehind =>
    -- The sender has the record and the receiver does not, so it is the move under way.
    have hline : m ∈ ms ++ [n] := by
      by_cases heq : sender = n.mover
      · rwa [heq, hlog] at hsent
      · rw [Side.eq_opponent_of_ne heq, hbehind] at hsent
        exact List.mem_append_left [n] hsent
    have hside : side = n.mover.opponent := by
      apply Side.eq_opponent_of_ne
      rintro rfl
      rw [hlog] at hnew
      exact hnew hline
    subst hside
    rw [hbehind] at hnew
    obtain rfl : m = n := by simpa [hnew] using hline
    exact ⟨rfl, ms, c, h, hlog, hbehind⟩

private theorem Linear.receive (h : Linear s d) (hc : Consistent s d) {side sender : Side}
    {m : Move} {new : Bool} {p : Peer} (hm : m ∈ (d sender).published)
    (hp : (d side).peer.receive m = .ok (new, p)) :
    Linear s (Function.update d side ((d side).receive p m)) := by
  by_cases hknown : m ∈ (d side).log.moves
  · have hcontains := MoveLog.contains_iff.mpr ⟨m, hknown, rfl⟩
    refine h.of_log_eq fun side' => apply_update_of_eq Replica.log ?_ side'
    rw [log_receive hp, MoveLog.insert_of_contains hcontains]
  · obtain ⟨rfl, ms, c, hline, hlog, hbehind⟩ := h.arrival hc hm hknown
    refine .level hline fun side' => ?_
    by_cases heq : side' = m.mover.opponent
    · rw [heq, Function.update_self, log_receive hp, hbehind]
      exact hline.insert_last
    · rw [Function.update_of_ne heq, Side.eq_opponent_of_ne heq, Side.opponent_opponent]
      exact hlog

theorem Linear.step (h : Linear s d) (hc : Consistent s d) (ho : s.opening.phase = .normal)
    (hnone : s.resolution = none) (hstep : Step d d') : Linear s d' := by
  cases hstep with
  | publish hid hp => exact h.publish hc ho hnone hid hp
  | drop hp => rwa [update_drop hp]
  | fail => exact h
  | receive hm hp => exact h.receive hc hm hp

theorem linear_of_run (ho : s.opening.phase = .normal) (hlog : s.log = .empty)
    (hnone : s.resolution = none) (hd : Run (ofSession s) d) : Linear s d := by
  induction hd with
  | refl => exact linear_ofSession hlog
  | tail hd hstep ih => exact ih.step (consistent_of_empty hlog hd) ho hnone hstep

theorem Linear.exists_line (h : Linear s d) (side : Side) :
    ∃ ms c, (d side).log = ⟨ms⟩ ∧ Line s.variant s.rules s.opening ms c := by
  cases h with
  | level h hlog => exact ⟨_, _, hlog side, h⟩
  | @ahead ms c m h hlog hbehind =>
    by_cases heq : side = m.mover
    · exact ⟨_, _, heq ▸ hlog, h⟩
    · obtain ⟨c₀, h₀, -⟩ := h.of_append
      exact ⟨_, _, Side.eq_opponent_of_ne heq ▸ hbehind, h₀⟩

/-- The move that a peer lacks was published by its mover and has not been received. -/
theorem Linear.equal_or_ahead (h : Linear s d) (hc : Consistent s d) (hempty : s.log = .empty) :
    (d .white).log = (d .black).log ∨ ∃ m, m ∈ (d m.mover).published ∧
      m ∉ (d m.mover.opponent).received ∧
      (d m.mover).log.moves = (d m.mover.opponent).log.moves ++ [m] := by
  cases h with
  | level h hlog => exact .inl ((hlog .white).trans (hlog .black).symm)
  | @ahead ms c m h hlog hbehind =>
    obtain ⟨-, -, -, -, -, hid, -⟩ := h.of_append
    have hnew : m ∉ (d m.mover.opponent).log.moves := by
      rw [hbehind]
      exact fun hm => hid m hm rfl
    have hmem : m ∈ (d m.mover).log.moves := by simp [hlog]
    refine .inr ⟨m, ?_, fun hm => hnew ?_, by rw [hlog, hbehind]⟩
    · obtain hm | ⟨sender, hm⟩ := hc.known_of_mem_log hmem
      · simp [hempty, MoveLog.empty] at hm
      · by_cases heq : sender = m.mover
        · exact heq ▸ hm
        · have hown := (hc.sound sender).mem_log_of_published hm
          exact absurd (Side.eq_opponent_of_ne heq ▸ hown) hnew
    · exact ((hc.sound m.mover.opponent).mem_log m).mpr (.inr (.inr hm))

/-- Two peers that begin without records in normal play always have the same log, or one of them has
one last move more, made and published by itself and not yet received by the other. No record is
ever skipped, the sides alternate from the opening's turn on, and every record was a legal move in
the standing after the records before it. -/
theorem run_linear (ho : s.opening.phase = .normal) (hlog : s.log = .empty)
    (hnone : s.resolution = none) (hd : Run (ofSession s) d) :
    ((d .white).log = (d .black).log ∨ ∃ m, m ∈ (d m.mover).published ∧
      m ∉ (d m.mover.opponent).received ∧
      (d m.mover).log.moves = (d m.mover.opponent).log.moves ++ [m]) ∧
    ∀ side, (∃ st, (d side).peer.session.standing = .ok st ∧ st.skipped = []) ∧
      ∀ pre m post, (d side).log.moves = pre ++ m :: post →
        m.mover = Side.opponent^[pre.length] s.opening.turn ∧
        ∃ st, replay s.variant s.rules s.opening pre = .ok st ∧ st.phase = .normal ∧
          st.turn = m.mover ∧ m.IsLegal s.variant st.board := by
  have hc : Consistent s d := consistent_of_empty hlog hd
  have hlinear : Linear s d := linear_of_run ho hlog hnone hd
  refine ⟨hlinear.equal_or_ahead hc hlog, fun side => ?_⟩
  obtain ⟨ms, c, hms, hline⟩ := hlinear.exists_line side
  constructor
  · rw [(hc.sound side).frame, hms]
    exact ⟨_, Session.standing_of_line (s := { s with log := ⟨ms⟩ }) hline rfl hnone,
      hline.skipped⟩
  · intro pre m post heq
    obtain rfl : ms = pre ++ m :: post := by rwa [hms] at heq
    obtain ⟨c₀, hpre, hphase, hturn, hlegal, -⟩ := hline.of_append
    refine ⟨?_, _, hpre.replay, hphase, hturn, hlegal⟩
    rw [← hturn, hpre.turn]

/-- The first move of a standard game is on its way to Black. -/
theorem run_linear_first_move :
    ∃ d m, Run (ofSession (.friendly .standard)) d ∧ (d .white).log ≠ (d .black).log ∧
      (d .white).log.moves = (d .black).log.moves ++ [m] ∧ m.mover = .white ∧
      m.IsLegal .standard (.initial .standard) := by
  have hpermit : (Course.start .standard {} (.initial .standard)).progress.permit .white =
      .ok () := by
    rw [Progress.permit_eq_ok]
    right
    decide +kernel
  obtain ⟨m, p, hp⟩ := Peer.friendly_submit (p := .fresh .pawn .white) (.numbered 4)
    ⟨6, 4⟩ ⟨5, 4⟩ 100 hpermit (by decide +kernel) rfl (by decide +kernel) (by decide +kernel)
  obtain ⟨d, hstep, hwhite, hblack⟩ := exists_publish (d := ofSession (.friendly .standard))
    (fresh_ofSession rfl _) hp
  have hd : Run (ofSession (.friendly .standard)) d := .single hstep
  have hwlog : (d .white).log = ⟨[m]⟩ := by
    obtain ⟨-, hsession, -⟩ := Peer.submit_accepted hp
    rw [hwhite, Replica.log, Replica.publish, hsession]
    exact MoveLog.insert_empty m
  have hblog : (d .black).log = .empty := congrArg Replica.log hblack
  obtain ⟨-, hline⟩ := run_linear rfl rfl rfl hd
  obtain ⟨-, hsplit⟩ := hline .white
  obtain ⟨hmover, st, hst, -, -, hlegal⟩ := hsplit [] m [] (by rw [hwlog]; rfl)
  obtain rfl := Except.ok.inj ((replay_nil _ _ _).symm.trans hst)
  refine ⟨d, m, hd, ?_, ?_, hmover, hlegal⟩
  · rw [hwlog, hblog]
    simp [MoveLog.empty]
  · rw [hwlog, hblog]
    rfl

end WereraChess.Duel
