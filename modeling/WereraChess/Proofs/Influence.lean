import WereraChess.Proofs.Arrivals
import WereraChess.Proofs.Checkpoint
import WereraChess.Proofs.KingSafety
import WereraChess.Proofs.Unmoved
/-!
# What has no influence

A record claims which piece it moved and what it took, and a board which of its pieces have moved.
Replay takes neither on trust: records that claim otherwise lead to the same standing, and a board
that shows other flags to the same one but for the flags. Nor does a submission depend on the flags.
-/
namespace WereraChess

private theorem Move.canonical_map_unclaimed {ms : List Move} (hid : (ms.map Move.id).Nodup) :
    canonical (ms.map unclaimed) = (canonical ms).map unclaimed := by
  have hid' : ((ms.map unclaimed).map Move.id).Nodup := by rwa [List.map_map]
  apply (isCanonical_canonical _).ext (isCanonical_canonical ms).map_unclaimed
  intro m
  simp only [mem_canonical_of_nodup hid', List.mem_map, mem_canonical_of_nodup hid]

section

variable (v : Variant) (rules : HouseRules) (o : Opening) {ms ns : List Move}

private theorem replay_map_unclaimed_of_nodup (hid : (ms.map Move.id).Nodup) :
    replay v rules o (ms.map Move.unclaimed) = replay v rules o ms := by
  rw [replay, replay, Move.canonical_map_unclaimed hid, Course.run_map_unclaimed]

private theorem replay_congr_unclaimed (hid : (ms.map Move.id).Nodup)
    (h : ns.map Move.unclaimed = ms.map Move.unclaimed) :
    replay v rules o ns = replay v rules o ms := by
  have hsame : ns.map Move.id = ms.map Move.id := by
    have hclaims := congrArg (List.map Move.id) h
    rwa [List.map_map, List.map_map] at hclaims
  rw [← replay_map_unclaimed_of_nodup v rules o (hsame ▸ hid), h,
    replay_map_unclaimed_of_nodup _ _ _ hid]

end

private theorem Standing.course_eq_of_unmoved {st st' : Standing} (h : st.unmoved = st'.unmoved) :
    st.phase = st'.phase ∧ st.turn = st'.turn ∧ st.ending = st'.ending := by
  have hphase : st.unmoved.phase = st'.unmoved.phase := by rw [h]
  have hturn : st.unmoved.turn = st'.unmoved.turn := by rw [h]
  have hending : st.unmoved.ending = st'.unmoved.ending := by rw [h]
  exact ⟨hphase, hturn, hending⟩

private theorem Standing.declare_unmoved (st : Standing) (e : Ending) :
    st.unmoved.declare e = (st.declare e).unmoved := by
  cases h : st.ending <;> simp [declare, unmoved, h]

namespace Session

variable {s : Session} {o : Opening}

def reopened (s : Session) (o : Opening) : Session := { s with opening := o }

private theorem standing_reopened (h : o.unmoved = s.opening.unmoved) :
    (s.reopened o).standing.map Standing.unmoved = s.standing.map Standing.unmoved := by
  have hreplayed :
      (s.reopened o).replayed.map Standing.unmoved = s.replayed.map Standing.unmoved := by
    rw [replayed, replayed, ← replay_unmoved s.variant s.rules s.opening, ← h, replay_unmoved]
    rfl
  rw [standing, standing, map_bind_eq, map_bind_eq]
  apply bind_congr_of_map hreplayed
  intro st st' hst
  apply congrArg Except.ok
  simp only [reopened]
  cases s.resolution with
  | none => exact hst
  | some e =>
    change (st.declare e).unmoved = (st'.declare e).unmoved
    rw [← Standing.declare_unmoved, hst, Standing.declare_unmoved]

private theorem checkMovement_unmoved (s : Session) (st : Standing) (side : Side)
    (source target : Coord) :
    s.checkMovement st.unmoved side source target = s.checkMovement st side source target := by
  unfold checkMovement
  have hboard : st.unmoved.board = st.board.unmoved := rfl
  have hphase : st.unmoved.phase = st.phase := rfl
  simp only [hboard, hphase, Board.get_unmoved, Board.reach_unmoved, Board.exposesKing_unmoved]
  congr 1
  funext origin
  cases st.board.get origin with
  | none => rfl
  | some p =>
    simp only [Option.map_some, Option.map_map]
    rfl

/-- A submission is accepted or refused whatever the flags of the opening. -/
theorem submit_reopened (h : o.unmoved = s.opening.unmoved) (id : Uuid) (side : Side)
    (source target : Coord) (timestamp : UInt64) :
    (s.reopened o).submit id side source target timestamp =
      (s.submit id side source target timestamp).map fun (a, t) => (a, t.reopened o) := by
  have hstanding (t : Session) (ht : t.opening = s.opening) :
      (liftM (t.reopened o).standing : Except Failure Standing).map Standing.unmoved =
        (liftM t.standing : Except Failure Standing).map Standing.unmoved := by
    rw [map_liftFault, map_liftFault, standing_reopened (ht ▸ h)]
  unfold submit
  change (if !s.seats.areFull then _ else _) = _
  cases s.seats.areFull with
  | false => rfl
  | true =>
    simp only [Bool.not_true, Bool.false_eq_true, if_false, map_bind_eq]
    apply bind_congr_of_map (hstanding s rfl)
    intro before before' hbefore
    obtain ⟨hphase, hturn, hending⟩ := Standing.course_eq_of_unmoved hbefore
    have hmove : (s.reopened o).checkMovement before side source target =
        s.checkMovement before' side source target := by
      rw [← checkMovement_unmoved, ← checkMovement_unmoved s, hbefore]
      rfl
    rw [hphase, hturn, hending, hmove]
    congr 1
    funext _
    congr 1
    funext _
    congr 1
    funext (piece, captured)
    apply bind_congr_of_map
      (hstanding (s.logged ⟨id, source, target, side, piece, captured, timestamp⟩) rfl)
    intro after after' hafter
    obtain ⟨hphase, hturn, hending⟩ := Standing.course_eq_of_unmoved hafter
    rw [hphase, hturn, hending]
    rfl

end Session

/-- Records with other claims lead to the same standing, and an opening with other flags to the same
but for the flags on its board. In a session with such an opening the same submissions are accepted,
and the others are refused for the same reason. -/
theorem replay_submit_congr (v : Variant) (rules : HouseRules) {o o' : Opening} {ms ns : List Move}
    (hid : (ms.map Move.id).Nodup) (hclaims : ns.map Move.unclaimed = ms.map Move.unclaimed)
    (hflags : o'.unmoved = o.unmoved) :
    replay v rules o ns = replay v rules o ms ∧
      (replay v rules o' ms).map Standing.unmoved = (replay v rules o ms).map Standing.unmoved ∧
      ∀ s : Session, s.opening = o → ∀ id side source target timestamp,
        (s.reopened o').submit id side source target timestamp =
          (s.submit id side source target timestamp).map fun (a, t) => (a, t.reopened o') := by
  refine ⟨replay_congr_unclaimed v rules o hid hclaims, ?_, ?_⟩
  · rw [← replay_unmoved, hflags, replay_unmoved]
  · rintro s rfl id side source target timestamp
    exact Session.submit_reopened hflags id side source target timestamp

@[irreducible] def Board.worn (b : Board) : Board :=
  ofFn fun s => (b.get s).map fun p => { p with hasMoved := true }

private theorem Board.unmoved_worn (b : Board) : b.worn.unmoved = b.unmoved := by
  rw [unmoved_eq_iff]
  intro s
  rw [worn, get_ofFn, Option.map_map]
  rfl

def Opening.worn (o : Opening) : Opening := { o with board := o.board.worn }

private theorem Opening.unmoved_worn (o : Opening) : o.worn.unmoved = o.unmoved :=
  congrArg (fun b => { o with board := b }) o.board.unmoved_worn

/-- The approach of a rook that claims to be a king and to have captured one. -/
def Move.boast : List Move :=
  Move.approach.map fun m => { m with piece := .king, captured := some .king }

theorem replay_submit_congr_boast :
    Move.boast ≠ Move.approach ∧ Opening.backRow.worn ≠ .backRow ∧
      replay .standard {} .backRow Move.boast = replay .standard {} .backRow Move.approach ∧
      (replay .standard {} Opening.backRow.worn Move.approach).map Standing.unmoved =
        (replay .standard {} .backRow Move.approach).map Standing.unmoved ∧
      ∃ a t, (Session.backRow.reopened Opening.backRow.worn).submit (.numbered 4) .white
        ⟨5, 0⟩ ⟨0, 0⟩ 10 = .ok (a, t) := by
  have hid : (Move.approach.map Move.id).Nodup := by decide
  have hboast : Move.boast.map Move.unclaimed = Move.approach.map Move.unclaimed := by decide
  obtain ⟨hclaims, hflags, hsessions⟩ := replay_submit_congr .standard {} hid hboast
    Opening.backRow.unmoved_worn
  have hrook : Session.backRow.opening.board.get ⟨5, 0⟩ = some (.fresh .rook .white) := by
    decide +kernel
  have hreach : (⟨0, 0⟩ : Square) ∈ Session.backRow.opening.board.reach .standard ⟨5, 0⟩ := by
    decide +kernel
  have hking : Session.backRow.opening.board.exposesKing .standard ⟨5, 0⟩ ⟨0, 0⟩ = false := by
    decide +kernel
  obtain ⟨a, m, hsubmit, -⟩ := Session.submit_first (s := Session.backRow) (.numbered 4) 10 rfl rfl
    rfl (by decide) (by decide +kernel) hrook rfl hreach (.inr hking)
  have haccepted : Session.backRow.submit (.numbered 4) .white ⟨5, 0⟩ ⟨0, 0⟩ 10 =
      .ok (a, Session.backRow.logged m) := hsubmit
  have hsame := hsessions Session.backRow rfl (.numbered 4) .white ⟨5, 0⟩ ⟨0, 0⟩ 10
  rw [haccepted] at hsame
  exact ⟨by decide, by decide +kernel, hclaims, hflags, a, _, hsame⟩

end WereraChess
