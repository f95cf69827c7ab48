import WereraChess.Proofs.Checkpoint
import WereraChess.Proofs.Line
import WereraChess.Proofs.Openings
/-!
# Live games

As long as a game is in play its evaluation has found a move for the side to move, and a submission
of that move at a time after all others is accepted. Once the game has ended nothing is.
-/
namespace WereraChess

theorem Phase.isComplete_eq_false {p : Phase} :
    p.isComplete = false ↔ p = .werera ∨ p = .normal := by
  cases p <;> simp [isComplete]

namespace Board

variable {b : Board} {v : Variant} {side : Side} {s t : Square}

theorem mem_piecesOf {p : Piece} :
    (s, p) ∈ b.piecesOf side ↔ b.get s = some p ∧ p.owner = side := by
  rw [piecesOf, List.mem_filter, mem_occupied, decide_eq_true_eq]

theorem reachedBy_iff :
    b.reachedBy v side t = true ↔ ∃ s, b.ownerAt s = some side ∧ t ∈ b.reach v s := by
  simp only [reachedBy, List.any_eq_true, Prod.exists, mem_piecesOf, decide_eq_true_eq,
    ownerAt_eq_some, exists_and_right]

theorem hasMove_iff :
    b.hasMove v side = true ↔ ∃ s, b.ownerAt s = some side ∧ ∃ t, t ∈ b.reach v s := by
  simp only [hasMove, List.any_eq_true, Prod.exists, mem_piecesOf, Bool.not_eq_true',
    List.isEmpty_eq_false_iff_exists_mem, ownerAt_eq_some, exists_and_right]

theorem hasSafeMove_iff :
    b.hasSafeMove v side = true ↔ ∃ s, b.ownerAt s = some side ∧
      ∃ t, t ∈ b.reach v s ∧ b.exposesKing v s t = false := by
  simp only [hasSafeMove, List.any_eq_true, Prod.exists, mem_piecesOf, Bool.not_eq_true',
    ownerAt_eq_some, exists_and_right]

private theorem exists_reach_of_noMove?_eq_none {selfCheck : Bool}
    (h : b.noMove? v side selfCheck = none) :
    ∃ s t p, b.get s = some p ∧ p.owner = side ∧ t ∈ b.reach v s ∧
      (selfCheck = true ∨ b.exposesKing v s t = false) := by
  have hable : (if selfCheck = true then b.hasMove v side else b.hasSafeMove v side) = true := by
    unfold noMove? at h
    generalize (if selfCheck = true then b.hasMove v side else b.hasSafeMove v side) = able at h ⊢
    cases able with
    | true => rfl
    | false => cases hcheck : b.inCheck v side <;> cases v <;> simp [hcheck] at h
  cases selfCheck with
  | true =>
    have hmove : b.hasMove v side = true := hable
    obtain ⟨s, hs, t, ht⟩ := hasMove_iff.mp hmove
    obtain ⟨p, hp, howner⟩ := ownerAt_eq_some.mp hs
    exact ⟨s, t, p, hp, howner, ht, .inl rfl⟩
  | false =>
    have hmove : b.hasSafeMove v side = true := hable
    obtain ⟨s, hs, t, ht, hking⟩ := hasSafeMove_iff.mp hmove
    obtain ⟨p, hp, howner⟩ := ownerAt_eq_some.mp hs
    exact ⟨s, t, p, hp, howner, ht, .inr hking⟩

private theorem noMove?_of_ending?_eq_none {selfCheck : Bool}
    (h : b.ending? v side selfCheck = none) : b.noMove? v side selfCheck = none := by
  rw [ending?, Option.or_eq_none_iff, Option.or_eq_none_iff] at h
  exact h.2.2

end Board

namespace MoveLog

variable {log : MoveLog}

private theorem exists_later (hc : Move.IsCanonical log.moves)
    (hlatest : ∀ latest, log.latest? = some latest → latest.toNat + 1 < UInt64.size) :
    ∃ timestamp : UInt64, ∀ a ∈ log.moves, a.timestamp < timestamp := by
  cases h : log.latest? with
  | none =>
    have hempty : log.moves = [] := by simpa [latest?] using h
    refine ⟨0, ?_⟩
    simp [hempty]
  | some latest =>
    refine ⟨latest + 1, fun a ha => ?_⟩
    have hle := UInt64.le_iff_toNat_le.mp (timestamp_le_latest hc ha h)
    have hsucc : (latest + 1).toNat = latest.toNat + 1 := by
      rw [UInt64.toNat_add, UInt64.toNat_one, Nat.mod_eq_of_lt (hlatest latest h)]
    rw [UInt64.lt_iff_toNat_lt, hsucc]
    omega

end MoveLog

namespace Session

variable {s : Session} {st : Standing}

theorem resolution_of_live (ho : s.opening.phase = .werera ∨ s.opening.phase = .normal)
    (hst : s.standing = .ok st) (hlive : st.phase.isComplete = false) : s.resolution = none := by
  obtain ⟨r, hr, hst⟩ := standing_eq_ok.mp hst
  obtain ⟨c, hrun, rfl⟩ := replay_eq_ok.mp hr
  have hsettled := Course.settled_run ho hrun
  cases hresolution : s.resolution with
  | none => rfl
  | some e =>
    exfalso
    rw [hresolution] at hst
    change (c.standing s.variant).declare e = st at hst
    rw [Standing.declare] at hst
    split at hst
    case isTrue hended =>
      rw [← hst] at hlive
      have hnone : c.progress.ending = none := (hsettled.live hlive).1
      change c.progress.ending.isSome = true at hended
      simp [hnone] at hended
    case isFalse => simp [← hst, Phase.isComplete] at hlive

theorem exists_course_of_standing (hnone : s.resolution = none)
    (hc : Move.IsCanonical s.log.moves) (hst : s.standing = .ok st) :
    ∃ c, s.course = .ok c ∧ c.standing s.variant = st := by
  rw [standing_eq_course hnone hc] at hst
  cases hcourse : s.course with
  | error f => simp [hcourse, Except.map] at hst
  | ok c =>
    rw [hcourse] at hst
    exact ⟨c, rfl, Except.ok.inj hst⟩

private theorem exists_standing_logged {c : Course} {m : Move} (hnone : s.resolution = none)
    (hc : Move.IsCanonical s.log.moves) (hcourse : s.course = .ok c) (hm : m.OnBoard)
    (hlast : ∀ a ∈ s.log.moves, a.key.lt m.key = true)
    (hroom : c.moveCount.toNat + 1 < UInt32.size) :
    ∃ after, (s.logged m).standing = .ok after := by
  have hstanding := standing_eq_course (s := s.logged m) hnone (MoveLog.isCanonical_insert hc m)
  cases hid : s.log.contains m.id with
  | true =>
    have hsame : (s.logged m).course = .ok c := by
      rw [logged, MoveLog.insert_of_contains hid, hcourse]
    rw [hsame] at hstanding
    exact ⟨_, hstanding⟩
  | false =>
    rcases Course.play_total s.variant s.rules c hm with ⟨d, hd⟩ | ⟨-, hfull⟩
    · have hnext : (s.logged m).course = .ok d := by
        rw [logged, course_append (MoveLog.moves_insert_last hc hid hlast), hcourse]
        exact bind_eq_ok.mpr ⟨c, rfl, bind_eq_ok.mpr ⟨d, hd, rfl⟩⟩
      rw [hnext] at hstanding
      exact ⟨_, hstanding⟩
    · omega

private theorem exists_submit_of_live (hfull : s.seats.areFull = true)
    (ho : s.opening.phase = .werera ∨ s.opening.phase = .normal) (hc : Move.IsCanonical s.log.moves)
    (hlatest : ∀ latest, s.log.latest? = some latest → latest.toNat + 1 < UInt64.size)
    (hst : s.standing = .ok st) (hlive : st.phase.isComplete = false)
    (hroom : st.moveCount.toNat + 1 < UInt32.size) (id : Uuid) :
    ∃ source target timestamp a s', s.submit id st.turn source target timestamp = .ok (a, s') := by
  have hnone := resolution_of_live ho hst hlive
  obtain ⟨c, hcourse, rfl⟩ := exists_course_of_standing hnone hc hst
  have hsettled := Course.settled_run ho hcourse
  obtain ⟨origin, goal, p, hp, howner, hreach, hking⟩ := Board.exists_reach_of_noMove?_eq_none
    (Board.noMove?_of_ending?_eq_none (hsettled.live hlive).2)
  obtain ⟨timestamp, hlater⟩ := MoveLog.exists_later hc hlatest
  have hmove : s.checkMovement (c.standing s.variant) c.progress.turn origin.coord goal.coord =
      .ok (p.kind, (c.board.get goal).map Piece.kind) :=
    checkMovement_eq_ok.mpr ⟨origin, goal, p, Coord.square?_coord origin, Coord.square?_coord goal,
      hp, howner, hreach, hking, rfl, rfl⟩
  have hpermit : c.progress.permit c.progress.turn = .ok () := by
    rw [Progress.permit_eq_ok]
    exact (Phase.isComplete_eq_false.mp hlive).imp_right fun hphase => ⟨hphase, rfl⟩
  have htime : s.checkTime c.progress.phase timestamp = .ok () := by
    apply checkTime_eq_ok.mpr
    intro _ latest h
    obtain ⟨last, hlast, rfl⟩ := Option.map_eq_some_iff.mp h
    exact hlater last (List.mem_of_getLast? hlast)
  obtain ⟨after, hafter⟩ := exists_standing_logged
    (m := ⟨id, origin.coord, goal.coord, c.progress.turn, p.kind,
      (c.board.get goal).map Piece.kind, timestamp⟩) hnone hc hcourse
    ⟨by simp, by simp⟩ (fun a ha => Move.key_lt_of_timestamp_lt (hlater a ha)) hroom
  exact ⟨origin.coord, goal.coord, timestamp, _, _, submit_eq_ok.mpr ⟨hfull, _, _, _, after, hst,
    hpermit, htime, hmove, hafter, rfl, rfl⟩⟩

theorem live_of_submit {s' : Session} {id : Uuid} {side : Side} {source target : Coord}
    {timestamp : UInt64} {a : Accepted} (hst : s.standing = .ok st)
    (h : s.submit id side source target timestamp = .ok (a, s')) : st.phase.isComplete = false := by
  obtain ⟨-, before, -, -, -, hbefore, hpermit, -⟩ := submit_eq_ok.mp h
  obtain rfl := Except.ok.inj (hst.symm.trans hbefore)
  exact Phase.isComplete_eq_false.mpr ((Progress.permit_eq_ok.mp hpermit).imp_right And.left)

/-- A session with both seats filled is in play exactly if the side to move can submit something,
as long as neither the time nor the counter runs out. -/
theorem live_iff_exists_submit (hs : s.Reached) (hfull : s.seats.areFull = true)
    (hlog : ∀ m ∈ s.log.moves, m.OnBoard)
    (hlatest : ∀ latest, s.log.latest? = some latest → latest.toNat + 1 < UInt64.size)
    (id : Uuid) :
    (∃ st, s.standing = .ok st ∧
      (st.moveCount.toNat + 1 < UInt32.size →
        (st.phase.isComplete = false ↔ ∃ source target timestamp a s',
          s.submit id st.turn source target timestamp = .ok (a, s')))) ∨
    s.standing = .error .counterFull ∧
      UInt32.size ≤ s.opening.moveCount.toNat + s.log.moves.length := by
  have ho := hs.sound.inPlay
  have hc := hs.isCanonical
  rcases replay_total s.variant s.rules s.opening hlog with ⟨r, hr⟩ | ⟨hr, hfull⟩
  · left
    have hst := standing_eq_ok.mpr ⟨r, hr, rfl⟩
    refine ⟨_, hst, fun hroom => ⟨fun hlive => ?_, ?_⟩⟩
    · exact exists_submit_of_live hfull ho hc hlatest hst hlive hroom id
    · intro ⟨source, target, timestamp, a, s', h⟩
      exact live_of_submit hst h
  · right
    exact ⟨bind_eq_error.mpr (.inl hr), hfull⟩

theorem live_begun :
    ∃ st, begun.standing = .ok st ∧ st.phase = .normal ∧ st.turn = .black ∧
      ∃ source target timestamp a s',
        begun.submit (.numbered 5) .black source target timestamp = .ok (a, s') := by
  have hlog : ∀ m ∈ begun.log.moves, m.OnBoard := by
    rw [log_begun]
    decide
  have hlatest : ∀ latest, begun.log.latest? = some latest →
      latest.toNat + 1 < UInt64.size := by
    intro latest h
    rw [MoveLog.latest?, log_begun] at h
    rw [← Option.some.inj h]
    decide
  have hstanding : begun.standing.toOption.map (fun st => (st.phase, st.turn, st.moveCount)) =
      some (.normal, .black, 1) := by
    rw [standing, replayed_begun]
    decide +kernel
  rcases live_iff_exists_submit reached_begun rfl hlog hlatest (.numbered 5) with
    ⟨st, hst, h⟩ | ⟨-, hfull⟩
  · rw [hst] at hstanding
    obtain ⟨hphase, hrest⟩ := Prod.mk.inj (Option.some.inj hstanding)
    obtain ⟨hturn, hcount⟩ := Prod.mk.inj hrest
    have hroom : st.moveCount.toNat + 1 < UInt32.size := by
      rw [hcount]
      decide
    have hsubmit := (h hroom).mp (by rw [hphase]; rfl)
    rw [hturn] at hsubmit
    exact ⟨st, hst, hphase, hturn, hsubmit⟩
  · rw [log_begun] at hfull
    exact absurd hfull (by decide)

end Session

end WereraChess
