import WereraChess.Proofs.Course
import WereraChess.Proofs.Insertion
import WereraChess.Peer
/-!
# Accepted submissions

A submission is accepted exactly if it passes the checks on turn, time and movement in the standing
before it and the log with its record still has a standing. Nothing but the log changes then.
-/
namespace WereraChess

theorem Move.OnBoard.text {m : Move} (hm : m.OnBoard) : ∃ text, m.text = .ok text := by
  obtain ⟨s, t, hs, ht⟩ := hm.squares
  rw [Move.text, ← Coord.coord_of_square? hs, ← Coord.coord_of_square? ht, s.name_coord,
    t.name_coord]
  exact ⟨_, rfl⟩

theorem Progress.permit_eq_ok {p : Progress} {side : Side} :
    p.permit side = .ok () ↔ p.phase = .werera ∨ p.phase = .normal ∧ p.turn = side := by
  rw [permit]
  cases p.phase with
  | werera => simp
  | normal => by_cases h : side = p.turn <;> simp [h, eq_comm]
  | complete r => simp

namespace Session

def logged (s : Session) (m : Move) : Session := { s with log := s.log.insert m }

theorem checkTime_eq_ok {s : Session} {phase : Phase} {timestamp : UInt64} :
    s.checkTime phase timestamp = .ok () ↔
      (phase = .normal → ∀ latest, s.log.latest? = some latest → latest < timestamp) := by
  unfold checkTime
  cases phase with
  | werera => simp
  | complete r => simp
  | normal =>
    cases s.log.latest? with
    | none => simp
    | some latest => simp

theorem checkMovement_eq_ok {s : Session} {st : Standing} {side : Side} {source target : Coord}
    {kind : Kind} {captured : Option Kind} :
    s.checkMovement st side source target = .ok (kind, captured) ↔
      ∃ origin goal p, source.square? = some origin ∧ target.square? = some goal ∧
        st.board.get origin = some p ∧ p.owner = side ∧ goal ∈ st.board.reach s.variant origin ∧
        (s.rules.allowsSelfCheck st.phase = true ∨
          st.board.exposesKing s.variant origin goal = false) ∧
        p.kind = kind ∧ (st.board.get goal).map Piece.kind = captured := by
  unfold checkMovement
  simp only [bind_eq_ok, liftFault_eq_ok, Coord.onBoard_eq_ok]
  constructor
  · rintro ⟨origin, ho, h⟩
    split at h
    case h_1 => simp [refuse] at h
    case h_2 p hp =>
      split at h
      case isTrue => simp [refuse] at h
      case isFalse howner =>
        split at h
        case h_1 => simp [refuse] at h
        case h_2 goal hg =>
          split at h
          case isTrue => simp [refuse] at h
          case isFalse hreach =>
            split at h
            case isTrue => simp [refuse] at h
            case isFalse hking =>
              have hpair := Prod.mk.inj (Except.ok.inj h)
              refine ⟨origin, goal, p, ho, hg, hp, by simpa using howner, by simpa using hreach, ?_,
                hpair⟩
              simpa [or_iff_not_imp_left] using hking
  · rintro ⟨origin, goal, p, ho, hg, hp, howner, hreach, hking, rfl, rfl⟩
    refine ⟨origin, ho, ?_⟩
    have hking : ¬ (!s.rules.allowsSelfCheck st.phase &&
        st.board.exposesKing s.variant origin goal) = true := by
      rcases hking with h | h <;> simp [h]
    simp only [hp, hg, howner, hreach, ne_eq, not_true_eq_false, if_false, if_neg hking]
    rfl

theorem submit_eq_ok {s s' : Session} {id : Uuid} {side : Side} {source target : Coord}
    {timestamp : UInt64} {a : Accepted} :
    s.submit id side source target timestamp = .ok (a, s') ↔
      s.seats.areFull = true ∧ ∃ before kind captured after, s.standing = .ok before ∧
        (Progress.resume before.phase before.turn).permit side = .ok () ∧
        s.checkTime before.phase timestamp = .ok () ∧
        s.checkMovement before side source target = .ok (kind, captured) ∧
        (s.logged ⟨id, source, target, side, kind, captured, timestamp⟩).standing = .ok after ∧
        a = ⟨⟨id, source, target, side, kind, captured, timestamp⟩, after.phase, after.turn,
          if before.ending.isNone then after.ending else none⟩ ∧
        s' = s.logged ⟨id, source, target, side, kind, captured, timestamp⟩ := by
  unfold submit
  cases hfull : s.seats.areFull with
  | false => exact ⟨nofun, nofun⟩
  | true =>
    simp only [Bool.not_true, Bool.false_eq_true, if_false, bind_eq_ok, liftFault_eq_ok,
      liftRefusal_eq_ok, true_and]
    constructor
    · rintro ⟨before, hbefore, _, hpermit, _, htime, ⟨kind, captured⟩, hmove, after, hafter, h⟩
      obtain ⟨rfl, rfl⟩ := Prod.mk.inj (Except.ok.inj h)
      exact ⟨before, kind, captured, after, hbefore, hpermit, htime, hmove, hafter, rfl, rfl⟩
    · rintro ⟨before, kind, captured, after, hbefore, hpermit, htime, hmove, hafter, rfl, rfl⟩
      exact ⟨before, hbefore, (), hpermit, (), htime, (kind, captured), hmove, after, hafter, rfl⟩

theorem standing_eq_ok {s : Session} {st : Standing} :
    s.standing = .ok st ↔ ∃ r, s.replayed = .ok r ∧ s.resolution.elim r r.declare = st := by
  rw [standing, bind_eq_ok]
  cases s.resolution <;> simp [pure, Except.pure]

/-- Where the log leads as it stands. -/
def course (s : Session) : Except Fault Course :=
  s.log.moves.foldlM (Course.play s.variant s.rules) (Course.start s.variant s.rules s.opening)

theorem course_append {s : Session} {log : MoveLog} {ms : List Move}
    (h : log.moves = s.log.moves ++ ms) :
    ({ s with log } : Session).course =
      s.course >>= ms.foldlM (Course.play s.variant s.rules) := by
  rw [course, h, List.foldlM_append]
  rfl

theorem standing_eq_course {s : Session} (hnone : s.resolution = none)
    (hc : Move.IsCanonical s.log.moves) :
    s.standing = s.course.map (Course.standing s.variant) := by
  rw [standing, hnone, replayed, replay_of_isCanonical _ _ _ hc]
  exact bind_pure _

theorem standing_total {s : Session} (hlog : ∀ m ∈ s.log.moves, m.OnBoard)
    (hroom : s.opening.moveCount.toNat + s.log.moves.length < UInt32.size) :
    ∃ st, s.standing = .ok st := by
  rcases replay_total s.variant s.rules s.opening hlog with ⟨r, hr⟩ | ⟨-, hfull⟩
  · exact ⟨_, standing_eq_ok.mpr ⟨r, hr, rfl⟩⟩
  · omega

theorem checkMovement_ne_fault {s : Session} {st : Standing} {side : Side} {source target : Coord}
    {origin : Square} {f : Fault} (hs : source.square? = some origin) :
    s.checkMovement st side source target ≠ .error (.fault f) := by
  unfold checkMovement
  have hlift : (liftM source.onBoard : Except Failure Square) = .ok origin :=
    liftFault_eq_ok.mpr (Coord.onBoard_eq_ok.mpr hs)
  simp only [hlift, bind, Except.bind, refuse, pure, Except.pure]
  repeat' split
  all_goals nofun

/-- A submission of a piece on the board never faults while the counter has room for it. -/
theorem submit_ne_fault {s : Session} {id : Uuid} {side : Side} {source target : Coord}
    {timestamp : UInt64} {origin : Square} (f : Fault) (hlog : ∀ m ∈ s.log.moves, m.OnBoard)
    (hroom : s.opening.moveCount.toNat + s.log.moves.length + 1 < UInt32.size)
    (hs : source.square? = some origin) :
    s.submit id side source target timestamp ≠ .error (.fault f) := by
  intro h
  unfold submit at h
  cases hfull : s.seats.areFull with
  | false => simp [hfull, refuse, bind, Except.bind] at h
  | true =>
    simp only [hfull, Bool.not_true, Bool.false_eq_true, if_false, bind_eq_error,
      liftFault_eq_fault, liftFault_eq_ok, liftRefusal_ne_fault, false_or] at h
    rcases h with h | ⟨before, -, _, -, _, -, h | ⟨⟨kind, captured⟩, hmove, h | ⟨after, -, h⟩⟩⟩
    · obtain ⟨st, hst⟩ := standing_total hlog (by omega)
      simp [hst] at h
    · exact checkMovement_ne_fault hs h
    · obtain ⟨origin', goal, p, ho, hg, -⟩ := checkMovement_eq_ok.mp hmove
      let m : Move := ⟨id, source, target, side, kind, captured, timestamp⟩
      have hlogged (x : Move) (hx : x ∈ (s.log.insert m).moves) : x.OnBoard := by
        rcases MoveLog.mem_of_mem_insert hx with rfl | hx
        · exact ⟨by simp [m, ho], by simp [m, hg]⟩
        · exact hlog x hx
      have hlen := MoveLog.length_insert_le s.log m
      have hnext : s.opening.moveCount.toNat + (s.log.insert m).moves.length < UInt32.size := by
        omega
      obtain ⟨st, hst⟩ := standing_total (s := s.logged m) hlogged hnext
      change (s.logged m).standing = _ at h
      simp [hst] at h
    · simp [pure, Except.pure] at h

theorem submit_eq_refused {s : Session} {before : Standing} {id : Uuid} {side : Side}
    {source target : Coord} {timestamp : UInt64} (hst : s.standing = .ok before)
    (h : (∃ r, (Progress.resume before.phase before.turn).permit side = .error r) ∨
      ∃ r, s.checkMovement before side source target = .error (.refused r)) :
    ∃ r, s.submit id side source target timestamp = .error (.refused r) := by
  unfold submit
  cases s.seats.areFull with
  | false => exact ⟨.waitingForOpponent, rfl⟩
  | true =>
    simp only [Bool.not_true, Bool.false_eq_true, if_false, bind_eq_error, liftFault_eq_ok, hst,
      liftRefusal_eq_refused, liftRefusal_eq_ok]
    cases hpermit : (Progress.resume before.phase before.turn).permit side with
    | error r => exact ⟨r, .inr ⟨before, rfl, .inl hpermit⟩⟩
    | ok =>
      obtain ⟨r, hmove⟩ := h.resolve_left (by simp [hpermit])
      cases htime : s.checkTime before.phase timestamp with
      | error q => exact ⟨q, .inr ⟨before, rfl, .inr ⟨(), hpermit, .inl htime⟩⟩⟩
      | ok => exact ⟨r, .inr ⟨before, rfl, .inr ⟨(), hpermit, .inr ⟨(), htime, .inl hmove⟩⟩⟩⟩

theorem standing_of_log_empty {s : Session} (hlog : s.log = .empty) (hnone : s.resolution = none) :
    s.standing = .ok ((Course.start s.variant s.rules s.opening).standing s.variant) := by
  refine standing_eq_ok.mpr ⟨_, ?_, by rw [hnone]; rfl⟩
  rw [replayed, hlog]
  exact replay_nil s.variant s.rules s.opening

theorem replayed_logged_of_log_empty {s : Session} (hlog : s.log = .empty) (m : Move) :
    (s.logged m).replayed =
      ((Course.start s.variant s.rules s.opening).play s.variant s.rules m).map
        (Course.standing s.variant) := by
  have hlogged : (s.logged m).log = ⟨[m]⟩ := by
    change s.log.insert m = _
    rw [hlog]
    exact MoveLog.insert_empty m
  rw [replayed, hlogged, replay_of_isCanonical _ _ _ (.singleton m), List.foldlM_cons]
  exact congrArg _ (bind_pure _)

/-- The first move of a session needs the turn, a piece that reaches the target, and a king that is
safe or need not be. -/
theorem submit_first {s : Session} {side : Side} {origin goal : Square} {p : Piece} (id : Uuid)
    (timestamp : UInt64) (hfull : s.seats.areFull = true) (hlog : s.log = .empty)
    (hnone : s.resolution = none) (hroom : s.opening.moveCount.toNat + 1 < UInt32.size)
    (hpermit : (Course.start s.variant s.rules s.opening).progress.permit side = .ok ())
    (hp : s.opening.board.get origin = some p) (howner : p.owner = side)
    (hreach : goal ∈ s.opening.board.reach s.variant origin)
    (hking : s.rules.allowsSelfCheck (Course.start s.variant s.rules s.opening).progress.phase =
      true ∨ s.opening.board.exposesKing s.variant origin goal = false) :
    ∃ a m, s.submit id side origin.coord goal.coord timestamp = .ok (a, s.logged m) ∧
      a.move = m ∧ m = ⟨id, origin.coord, goal.coord, side, p.kind,
        (s.opening.board.get goal).map Piece.kind, timestamp⟩ := by
  let m : Move := ⟨id, origin.coord, goal.coord, side, p.kind,
    (s.opening.board.get goal).map Piece.kind, timestamp⟩
  have hboard (x : Move) (hx : x ∈ (s.log.insert m).moves) : x.OnBoard := by
    rcases MoveLog.mem_of_mem_insert hx with rfl | hx
    · exact ⟨by simp [m], by simp [m]⟩
    · simp [hlog, MoveLog.empty] at hx
  have hlen := MoveLog.length_insert_le s.log m
  simp only [hlog, MoveLog.empty, List.length_nil] at hlen
  have hnext : s.opening.moveCount.toNat + (s.log.insert m).moves.length < UInt32.size := by
    simp only [hlog, MoveLog.empty]
    omega
  obtain ⟨after, hafter⟩ := standing_total (s := s.logged m) hboard hnext
  have htime : s.checkTime (Course.start s.variant s.rules s.opening).progress.phase timestamp =
      .ok () := by
    refine checkTime_eq_ok.mpr fun _ latest h => ?_
    simp [hlog, MoveLog.latest?, MoveLog.empty] at h
  have hmove : s.checkMovement ((Course.start s.variant s.rules s.opening).standing s.variant) side
      origin.coord goal.coord = .ok (p.kind, (s.opening.board.get goal).map Piece.kind) :=
    checkMovement_eq_ok.mpr ⟨origin, goal, p, Coord.square?_coord origin, Coord.square?_coord goal,
      hp, howner, hreach, hking, rfl, rfl⟩
  exact ⟨_, m, submit_eq_ok.mpr ⟨hfull, _, _, _, after, standing_of_log_empty hlog hnone, hpermit,
    htime, hmove, hafter, rfl, rfl⟩, rfl, rfl⟩

theorem receive_eq_ok {s s' : Session} {m : Move} {new : Bool} :
    s.receive m = .ok (new, s') ↔
      (∃ t, m.text = .ok t) ∧ (!s.log.contains m.id) = new ∧ s.logged m = s' := by
  simp only [receive, bind_eq_ok, pure, Except.pure, Except.ok.injEq, Prod.mk.injEq, logged,
    exists_and_right]

end Session

namespace Peer

theorem submit_eq_some {p p' : Peer} {id : Uuid} {source target : Coord} {timestamp : UInt64}
    {m : Move} :
    p.submit id source target timestamp = .ok (some m, p') ↔
      (p.last.any fun last =>
        Click.repeats p.session.rules.dedupWindow last ⟨source, target, timestamp⟩) = false ∧
      ∃ a s', p.session.submit id p.side source target timestamp = .ok (a, s') ∧ a.move = m ∧
        p' = ⟨p.side, s', some ⟨source, target, timestamp⟩⟩ := by
  dsimp only [submit]
  split
  case isTrue hrepeat => simp [hrepeat, pure, Except.pure]
  case isFalse hrepeat =>
    simp only [Bool.not_eq_true] at hrepeat
    simp only [hrepeat, true_and, bind_eq_ok]
    constructor
    · rintro ⟨⟨a, s'⟩, hs, h⟩
      obtain ⟨hm, rfl⟩ := Prod.mk.inj (Except.ok.inj h)
      exact ⟨a, s', hs, Option.some.inj hm, rfl⟩
    · rintro ⟨a, s', hs, rfl, rfl⟩
      exact ⟨(a, s'), hs, rfl⟩

theorem submit_accepted {p p' : Peer} {id : Uuid} {source target : Coord} {timestamp : UInt64}
    {m : Move} (h : p.submit id source target timestamp = .ok (some m, p')) :
    p'.side = p.side ∧ p'.session = p.session.logged m ∧ m.id = id ∧ m.OnBoard := by
  obtain ⟨-, a, s', hs, rfl, rfl⟩ := submit_eq_some.mp h
  obtain ⟨-, _, _, _, _, -, -, -, hmove, -, rfl, rfl⟩ := Session.submit_eq_ok.mp hs
  obtain ⟨origin, goal, -, ho, hg, -⟩ := Session.checkMovement_eq_ok.mp hmove
  exact ⟨rfl, rfl, rfl, by simp [ho], by simp [hg]⟩

theorem submit_eq_none {p p' : Peer} {id : Uuid} {source target : Coord} {timestamp : UInt64}
    (h : p.submit id source target timestamp = .ok (none, p')) : p' = p := by
  dsimp only [submit] at h
  split at h
  case isTrue => exact (Prod.mk.inj (Except.ok.inj h)).2.symm
  case isFalse =>
    obtain ⟨⟨a, s'⟩, -, h⟩ := bind_eq_ok.mp h
    simp [pure, Except.pure] at h

theorem receive_eq_ok {p p' : Peer} {m : Move} {new : Bool} :
    p.receive m = .ok (new, p') ↔
      (∃ t, m.text = .ok t) ∧ (!p.session.log.contains m.id) = new ∧
        p' = { p with session := p.session.logged m } := by
  unfold receive
  simp only [bind_eq_ok]
  constructor
  · rintro ⟨⟨new', s'⟩, hs, h⟩
    obtain ⟨rfl, rfl⟩ := Prod.mk.inj (Except.ok.inj h)
    obtain ⟨htext, hnew, rfl⟩ := Session.receive_eq_ok.mp hs
    exact ⟨htext, hnew, rfl⟩
  · rintro ⟨htext, hnew, rfl⟩
    exact ⟨(new, p.session.logged m), Session.receive_eq_ok.mpr ⟨htext, hnew, rfl⟩, rfl⟩

theorem receive_total (p : Peer) {m : Move} (hm : m.OnBoard) :
    ∃ new p', p.receive m = .ok (new, p') :=
  ⟨_, _, receive_eq_ok.mpr ⟨hm.text, rfl, rfl⟩⟩

theorem submit_ne_fault {p : Peer} {id : Uuid} {source target : Coord} {timestamp : UInt64}
    {origin : Square} (f : Fault) (hlog : ∀ m ∈ p.session.log.moves, m.OnBoard)
    (hroom : p.session.opening.moveCount.toNat + p.session.log.moves.length + 1 < UInt32.size)
    (hs : source.square? = some origin) :
    p.submit id source target timestamp ≠ .error (.fault f) := by
  intro h
  dsimp only [submit] at h
  split at h
  case isTrue => simp [pure, Except.pure] at h
  case isFalse =>
    rcases bind_eq_error.mp h with h | ⟨⟨a, s'⟩, -, h⟩
    · exact Session.submit_ne_fault f hlog hroom hs h
    · simp [pure, Except.pure] at h

end Peer

def Session.friendly (v : Variant) : Session :=
  create (.numbered 1) v ⟨.numbered 2, "Abebe"⟩ ⟨.numbered 3, "Sara"⟩

theorem Peer.friendly_submit {v : Variant} {side : Side} {p : Piece} (id : Uuid)
    (origin goal : Square) (timestamp : UInt64)
    (hpermit : (Course.start v {} (.initial v)).progress.permit side = .ok ())
    (hp : (Board.initial v).get origin = some p) (howner : p.owner = side)
    (hreach : goal ∈ (Board.initial v).reach v origin)
    (hking : (Board.initial v).exposesKing v origin goal = false) :
    ∃ m q, (Peer.ofSession side (.friendly v)).submit id origin.coord goal.coord timestamp =
      .ok (some m, q) := by
  obtain ⟨a, m, hs, hm, -⟩ := Session.submit_first (s := .friendly v) id timestamp rfl rfl rfl
    (show 0 + 1 < UInt32.size by decide) hpermit hp howner hreach (.inr hking)
  exact ⟨m, _, Peer.submit_eq_some.mpr ⟨rfl, a, _, hs, hm, rfl⟩⟩

end WereraChess
