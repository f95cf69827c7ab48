import Mathlib.Logic.Function.Iterate
import WereraChess.Proofs.Reach
import WereraChess.Proofs.Submission
/-!
# Lines of play

A line of play is a list of records, each of which was a legal move of the side to move, newer than
all before it, when it was made. A replay applies every record of a line, and a session whose log is
a line accepts only such moves as continue it.
-/
namespace WereraChess

namespace Board

theorem ownerAt_of_mem_reach {b : Board} {v : Variant} {s t : Square} {p : Piece}
    (hp : b.get s = some p) (h : t ∈ b.reach v s) : b.ownerAt t ≠ some p.owner := by
  rw [reach, hp] at h
  exact ((mem_reachBy_gait hp).mp h).1

end Board

/-- The record moves a piece of its mover to a square that the piece reaches, and the mover is not
in check afterwards. -/
def Move.IsLegal (v : Variant) (b : Board) (m : Move) : Prop :=
  ∃ s t p, m.source.square? = some s ∧ m.target.square? = some t ∧ b.get s = some p ∧
    p.owner = m.mover ∧ t ∈ b.reach v s ∧ (b.after s t).inCheck v m.mover = false

namespace Progress

theorem turn_finish? (p : Progress) (e : Option Ending) : (p.finish? e).turn = p.turn := by
  cases e with
  | none => rfl
  | some e =>
    simp only [finish?, finish]
    split <;> rfl

theorem phase_finish? {p : Progress} (h : p.phase ≠ .werera) (e : Option Ending) :
    (p.finish? e).phase ≠ .werera := by
  cases e with
  | none => exact h
  | some e =>
    simp only [finish?, finish]
    split
    case isTrue => exact h
    case isFalse => nofun

end Progress

namespace Course

variable {v : Variant} {rules : HouseRules} {c : Course}

theorem exists_advance_of_isLegal {c' : Course} {m : Move} (hphase : c.progress.phase = .normal)
    (hlegal : m.IsLegal v c.board) (hplay : c.play v rules m = .ok c') :
    ∃ s t r d, m.source.square? = some s ∧ m.target.square? = some t ∧
      c.board.relocate s t = some r ∧ c.advance m.mover r = .ok d ∧
      c' = d.settle v rules m.mover.opponent := by
  cases play_eq_ok_iff.mp hplay with
  | ended h => simp [hphase, Phase.isComplete] at h
  | blocked _ hs ht h =>
    obtain ⟨s, t, p, hs', ht', hp, howner, hreach, -⟩ := hlegal
    obtain rfl := Option.some.inj (hs.symm.trans hs')
    obtain rfl := Option.some.inj (ht.symm.trans ht')
    have happlies : c.applies m _ _ = true := applies_iff.mpr
      ⟨Board.ownerAt_eq_some.mpr ⟨p, hp, howner⟩, howner ▸ Board.ownerAt_of_mem_reach hp hreach⟩
    simp [happlies] at h
  | applied _ hs ht _ hr hd => exact ⟨_, _, _, _, hs, ht, hr, hd, rfl⟩

/-- A legal move is applied, and passes the turn. -/
theorem play_isLegal {c' : Course} {m : Move} (hphase : c.progress.phase = .normal)
    (hlegal : m.IsLegal v c.board) (hplay : c.play v rules m = .ok c') :
    c'.skipped = c.skipped ∧ c'.progress.turn = m.mover.opponent ∧
      c'.progress.phase ≠ .werera := by
  obtain ⟨-, -, r, d, -, -, -, hd, rfl⟩ := exists_advance_of_isLegal hphase hlegal hplay
  obtain ⟨-, hprogress, hskipped, -⟩ := advance_eq_ok hd
  have hrecord : d.progress = ⟨.normal, m.mover.opponent, c.progress.ending⟩ := by
    simp only [hprogress, Progress.record, hphase]
  refine ⟨hskipped, ?_, ?_⟩
  · rw [settle, Progress.turn_finish?, hrecord]
  · apply Progress.phase_finish?
    rw [hrecord]
    nofun

end Course

/-- The records of a line of play from an opening, and the course that they have led to. -/
inductive Line (v : Variant) (rules : HouseRules) (o : Opening) : List Move → Course → Prop
  | start : Line v rules o [] (.start v rules o)
  | move {ms : List Move} {c c' : Course} {m : Move} (h : Line v rules o ms c)
      (hphase : c.progress.phase = .normal) (hturn : c.progress.turn = m.mover)
      (hlegal : m.IsLegal v c.board) (hid : ∀ a ∈ ms, a.id ≠ m.id)
      (htime : ∀ a ∈ ms, a.timestamp < m.timestamp) (hplay : c.play v rules m = .ok c') :
      Line v rules o (ms ++ [m]) c'

namespace Line

variable {v : Variant} {rules : HouseRules} {o : Opening} {ms : List Move} {c : Course}

private theorem isCanonical (h : Line v rules o ms c) : Move.IsCanonical ms := by
  induction h with
  | start => exact .nil
  | move _ _ _ _ hid htime _ ih =>
    exact ih.concat hid fun a ha => Move.key_lt_of_timestamp_lt (htime a ha)

theorem run (h : Line v rules o ms c) :
    ms.foldlM (Course.play v rules) (Course.start v rules o) = .ok c := by
  induction h with
  | start => rfl
  | move _ _ _ _ _ _ hplay ih =>
    rw [List.foldlM_append]
    refine bind_eq_ok.mpr ⟨_, ih, ?_⟩
    rw [List.foldlM_cons]
    exact bind_eq_ok.mpr ⟨_, hplay, rfl⟩

theorem replay (h : Line v rules o ms c) : replay v rules o ms = .ok (c.standing v) := by
  refine replay_eq_ok.mpr ⟨c, ?_, rfl⟩
  rw [h.isCanonical.canonical_eq]
  exact h.run

theorem skipped (h : Line v rules o ms c) : c.skipped = [] := by
  induction h with
  | start => rfl
  | move _ hphase _ hlegal _ _ hplay ih => rw [(Course.play_isLegal hphase hlegal hplay).1, ih]

private theorem phase_ne_werera (h : Line v rules o ms c) (ho : o.phase = .normal) :
    c.progress.phase ≠ .werera := by
  cases h with
  | start =>
    apply Progress.phase_finish?
    rw [Progress.resume, ho]
    nofun
  | move _ hphase _ hlegal _ _ hplay => exact (Course.play_isLegal hphase hlegal hplay).2.2

theorem turn (h : Line v rules o ms c) : c.progress.turn = Side.opponent^[ms.length] o.turn := by
  induction h with
  | start => exact Progress.turn_finish? _ _
  | move _ hphase hturn hlegal _ _ hplay ih =>
    rw [(Course.play_isLegal hphase hlegal hplay).2.1, ← hturn, ih, List.length_append,
      List.length_singleton, Function.iterate_succ_apply']

/-- Every record of a line was a legal move of the side to move after the records before it. -/
theorem of_append {pre post : List Move} {m : Move} (h : Line v rules o (pre ++ m :: post) c) :
    ∃ d, Line v rules o pre d ∧ d.progress.phase = .normal ∧ d.progress.turn = m.mover ∧
      m.IsLegal v d.board ∧ (∀ a ∈ pre, a.id ≠ m.id) ∧ ∀ a ∈ pre, a.timestamp < m.timestamp := by
  generalize heq : pre ++ m :: post = ns at h
  induction h generalizing post with
  | start => simp at heq
  | move h hphase hturn hlegal hid htime _ ih =>
    rcases post.eq_nil_or_concat with rfl | ⟨post, n, rfl⟩
    · obtain ⟨rfl, hlast⟩ := List.append_inj' heq rfl
      obtain rfl := List.singleton_inj.mp hlast
      exact ⟨_, h, hphase, hturn, hlegal, hid, htime⟩
    · rw [List.concat_eq_append, ← List.cons_append, ← List.append_assoc] at heq
      exact ih (List.append_inj' heq rfl).1

/-- A newer record goes to the end of the line. -/
theorem insert (h : Line v rules o ms c) {m : Move} (hid : ∀ a ∈ ms, a.id ≠ m.id)
    (htime : ∀ a ∈ ms, a.timestamp < m.timestamp) :
    (MoveLog.mk ms).insert m = ⟨ms ++ [m]⟩ := by
  have hmoves := MoveLog.moves_insert_last h.isCanonical (MoveLog.contains_eq_false_iff.mpr hid)
    fun a ha => Move.key_lt_of_timestamp_lt (htime a ha)
  rw [← hmoves]

theorem insert_last {m : Move} (h : Line v rules o (ms ++ [m]) c) :
    (MoveLog.mk ms).insert m = ⟨ms ++ [m]⟩ := by
  obtain ⟨d, hd, -, -, -, hid, htime⟩ := h.of_append
  exact hd.insert hid htime

theorem turn_last {m : Move} (h : Line v rules o (ms ++ [m]) c) :
    c.progress.turn = m.mover.opponent := by
  obtain ⟨d, hd, -, hturn, -⟩ := h.of_append
  rw [h.turn, List.length_append, List.length_singleton, Function.iterate_succ_apply', ← hd.turn,
    hturn]

private theorem play_of_replay (h : Line v rules o ms c) {m : Move} {st : Standing}
    (hcanonical : Move.IsCanonical (ms ++ [m]))
    (hst : WereraChess.replay v rules o (ms ++ [m]) = .ok st) :
    ∃ c', c.play v rules m = .ok c' := by
  obtain ⟨c', hrun, -⟩ := replay_eq_ok.mp hst
  rw [hcanonical.canonical_eq, List.foldlM_append] at hrun
  obtain ⟨d, hd, hplay⟩ := bind_eq_ok.mp hrun
  obtain rfl := Except.ok.inj (h.run.symm.trans hd)
  rw [List.foldlM_cons] at hplay
  obtain ⟨d', hd', -⟩ := bind_eq_ok.mp hplay
  exact ⟨d', hd'⟩

end Line

namespace Session

variable {s s' : Session} {ms : List Move} {c : Course}

theorem standing_of_line (h : Line s.variant s.rules s.opening ms c) (hlog : s.log = ⟨ms⟩)
    (hnone : s.resolution = none) : s.standing = .ok (c.standing s.variant) := by
  refine standing_eq_ok.mpr ⟨_, ?_, by rw [hnone]; rfl⟩
  rw [replayed, hlog]
  exact h.replay

private theorem isLegal_of_checkMovement {st : Standing} {m : Move} (hphase : st.phase = .normal)
    (h : s.checkMovement st m.mover m.source m.target = .ok (m.piece, m.captured)) :
    m.IsLegal s.variant st.board := by
  obtain ⟨origin, goal, p, horigin, hgoal, hp, howner, hreach, hking, -⟩ :=
    checkMovement_eq_ok.mp h
  have hsafe : st.board.exposesKing s.variant origin goal = false := by
    refine hking.resolve_left ?_
    simp [HouseRules.allowsSelfCheck, hphase]
  rw [Board.exposesKing, hp] at hsafe
  exact ⟨origin, goal, p, horigin, hgoal, hp, howner, hreach, howner ▸ hsafe⟩

theorem newer_of_checkTime {timestamp : UInt64} (hc : Move.IsCanonical s.log.moves)
    (h : s.checkTime .normal timestamp = .ok ()) {m : Move} (hm : m ∈ s.log.moves) :
    m.timestamp < timestamp := by
  cases hlatest : s.log.latest? with
  | none =>
    have hempty : s.log.moves = [] := by simpa [MoveLog.latest?] using hlatest
    simp [hempty] at hm
  | some latest =>
    have hle := MoveLog.timestamp_le_latest hc hm hlatest
    exact UInt64.lt_of_le_of_lt hle (checkTime_eq_ok.mp h rfl latest hlatest)

/-- A session whose log is a line accepts a move only from the side to move, and its log is a line
again. -/
theorem submit_line {id : Uuid} {side : Side} {source target : Coord} {timestamp : UInt64}
    {a : Accepted} (h : Line s.variant s.rules s.opening ms c) (ho : s.opening.phase = .normal)
    (hlog : s.log = ⟨ms⟩) (hnone : s.resolution = none) (hid : s.log.contains id = false)
    (hs : s.submit id side source target timestamp = .ok (a, s')) :
    c.progress.turn = side ∧ a.move.mover = side ∧ s'.log = ⟨ms ++ [a.move]⟩ ∧
      ∃ c', Line s.variant s.rules s.opening (ms ++ [a.move]) c' := by
  obtain ⟨-, before, kind, captured, after, hbefore, hpermit, htime, hmove, hafter, rfl, rfl⟩ :=
    submit_eq_ok.mp hs
  let m : Move := ⟨id, source, target, side, kind, captured, timestamp⟩
  obtain rfl := Except.ok.inj ((standing_of_line h hlog hnone).symm.trans hbefore)
  obtain ⟨hphase, hturn⟩ : c.progress.phase = .normal ∧ c.progress.turn = side :=
    (Progress.permit_eq_ok.mp hpermit).resolve_left (h.phase_ne_werera ho)
  have hlegal : m.IsLegal s.variant c.board := isLegal_of_checkMovement (m := m) hphase hmove
  have hmoves : s.log.moves = ms := by rw [hlog]
  have hc : Move.IsCanonical s.log.moves := by
    rw [hmoves]
    exact h.isCanonical
  have hnewer (b : Move) (hb : b ∈ ms) : b.timestamp < m.timestamp :=
    newer_of_checkTime hc (hphase ▸ htime) (hmoves ▸ hb)
  have hfresh (b : Move) (hb : b ∈ ms) : b.id ≠ m.id := by
    rw [hlog, MoveLog.contains_eq_false_iff] at hid
    exact hid b hb
  have hinsert : s.log.insert m = ⟨ms ++ [m]⟩ := by
    rw [hlog]
    exact h.insert hfresh hnewer
  have hcanonical : Move.IsCanonical (ms ++ [m]) :=
    h.isCanonical.concat hfresh fun b hb => Move.key_lt_of_timestamp_lt (hnewer b hb)
  obtain ⟨r, hr, -⟩ := standing_eq_ok.mp hafter
  simp only [replayed, logged] at hr
  rw [hinsert] at hr
  obtain ⟨c', hplay⟩ := h.play_of_replay hcanonical hr
  exact ⟨hturn, rfl, hinsert, c', .move h hphase hturn hlegal hfresh hnewer hplay⟩

end Session

end WereraChess
