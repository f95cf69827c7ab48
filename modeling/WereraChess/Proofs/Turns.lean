import Mathlib.Data.List.Induction
import WereraChess.Proofs.Accounts
import WereraChess.Proofs.Reimport
/-!
# Turn and phase of a replay

The turn is that of the opponent of whoever made the last move that was applied. The werera lasts
until such a move takes a piece, normal play until the end of the game, and what comes after the end
is only noted.
-/
namespace WereraChess

/-- The records that the standing has not skipped, in canonical order. -/
def Standing.applied (st : Standing) (ms : List Move) : List Move :=
  (Move.canonical ms).filter fun m => m.id ∉ st.skipped

namespace Course

variable {v : Variant} {rules : HouseRules} {o : Opening} {c c' d : Course} {m : Move}
  {ms : List Move}

/-- What the record takes from the board, if it is applied. -/
def taken (c : Course) (m : Move) : Option Piece :=
  if m.isRefused c.progress.phase c.board then none else m.target.square?.bind c.board.get

private theorem Played.taken {s t : Square} (h : c.Played m s t c')
    (hrefused : m.isRefused c.progress.phase c.board = false) : c.taken m = c.board.get t := by
  rw [Course.taken, hrefused, if_neg Bool.false_ne_true, h.target, Option.bind_some]

private theorem taken_of_refused (h : m.isRefused c.progress.phase c.board = true) :
    c.taken m = none :=
  if_pos h

private theorem captures_step (h : Step v rules c m c') :
    c'.captures = .none ↔ c.captures = .none ∧ c.taken m = none := by
  cases hrefused : m.isRefused c.progress.phase c.board with
  | true =>
    rw [h.eq_skip hrefused, taken_of_refused hrefused, and_iff_left rfl]
    rfl
  | false =>
    obtain ⟨s, t, hplayed⟩ := h.exists_played hrefused
    rw [hplayed.captures, hplayed.taken hrefused, Captures.take_eq_none_iff]

private theorem captures_run (h : ms.foldlM (play v rules) c = .ok c') :
    c'.captures = .none ↔ c.captures = .none ∧
      ∀ pre m post d, ms = pre ++ m :: post → pre.foldlM (play v rules) c = .ok d →
        d.taken m = none := by
  induction ms generalizing c with
  | nil =>
    obtain rfl := Except.ok.inj h
    simp
  | cons n ms ih =>
    rw [List.foldlM_cons] at h
    obtain ⟨d, hd, h⟩ := bind_eq_ok.mp h
    rw [ih h, captures_step (play_eq_ok_iff.mp hd), and_assoc]
    apply and_congr_right
    intro _
    constructor
    · intro ⟨hfirst, hrest⟩ pre m post e hcut he
      cases pre with
      | nil =>
        obtain ⟨rfl, -⟩ := List.cons.inj hcut
        obtain rfl := Except.ok.inj he
        exact hfirst
      | cons _ pre =>
        obtain ⟨rfl, htail⟩ := List.cons.inj hcut
        rw [List.foldlM_cons, hd] at he
        exact hrest pre m post e htail he
    · intro hall
      refine ⟨hall [] n ms c rfl rfl, ?_⟩
      intro pre m post e hcut he
      apply hall (n :: pre) m post e (congrArg (n :: ·) hcut)
      rw [List.foldlM_cons, hd]
      exact he

/-- While the game is live, it is in the werera if nothing has been captured, and in normal play
otherwise. -/
def Opened (c : Course) : Prop :=
  c.progress.phase.isComplete = false →
    c.progress.phase = if c.captures = .none then .werera else .normal

private theorem opened_start (ho : o.phase = .werera) : (start v rules o).Opened := by
  intro hlive
  rw [progress_start_of_live hlive]
  exact ho

private theorem opened_step (hc : c.Opened) (h : Step v rules c m c') : c'.Opened := by
  cases hrefused : m.isRefused c.progress.phase c.board with
  | true =>
    rw [h.eq_skip hrefused]
    exact hc
  | false =>
    obtain ⟨s, t, hplayed⟩ := h.exists_played hrefused
    have hlive : c.progress.phase.isComplete = false := by
      simp only [Move.isRefused, Bool.or_eq_false_iff] at hrefused
      exact hrefused.1.1
    have hwerera : c.progress.phase = .werera ↔ c.captures = .none := by
      rw [hc hlive]
      split <;> simp_all
    intro hlive'
    rw [hplayed.phase hlive', hplayed.captures]
    simp only [hwerera, Captures.take_eq_none_iff]

/-- The turn follows the last record that the run has applied. -/
theorem turn_run (hid : (ms.map Move.id).Nodup) (hc : c.skipped = [])
    (h : ms.foldlM (play v rules) c = .ok c') :
    c'.progress.turn =
      (ms.filter fun m => m.id ∉ c'.skipped).getLast?.elim c.progress.turn (·.mover.opponent) := by
  induction ms using List.reverseRecOn generalizing c' with
  | nil =>
    obtain rfl := Except.ok.inj h
    rfl
  | append_singleton ms m ih =>
    obtain ⟨d, hd, hstep⟩ := run_concat.mp h
    have hlast : m.id ∈ c'.skipped ↔ m.isRefused d.progress.phase d.board = true :=
      mem_skipped_iff hid hc hd hstep rfl
    have hnodup := hid
    rw [List.map_append, List.map_singleton, List.nodup_append] at hnodup
    obtain ⟨hms, -, hfresh⟩ := hnodup
    cases hrefused : m.isRefused d.progress.phase d.board with
    | true =>
      have hsame : (ms.filter fun n => n.id ∉ c'.skipped) =
          ms.filter fun n => n.id ∉ d.skipped := by
        apply List.filter_congr
        intro n hn
        have hne : n.id ≠ m.id :=
          hfresh n.id (List.mem_map_of_mem hn) m.id (List.mem_singleton_self _)
        simp [hstep.eq_skip hrefused, skip, hne]
      have hskipped : m.id ∈ c'.skipped := hlast.mpr hrefused
      rw [List.filter_append, hsame, List.filter_cons_of_neg (by simpa using hskipped),
        List.filter_nil, List.append_nil, ← ih hms hd, hstep.eq_skip hrefused]
      rfl
    | false =>
      obtain ⟨s, t, hplayed⟩ := hstep.exists_played hrefused
      have hskipped : m.id ∉ c'.skipped := by simp [hlast, hrefused]
      rw [List.filter_append, List.filter_cons_of_pos (by simpa using hskipped),
        List.filter_nil, List.getLast?_append, List.getLast?_singleton, hplayed.turn]
      rfl

end Course

/-- Turn and phase of the standing follow the records that were applied. -/
structure Standing.Alternates (v : Variant) (rules : HouseRules) (o : Opening) (ms : List Move)
    (st : Standing) : Prop where
  turn : st.turn = (st.applied ms).getLast?.elim o.turn (·.mover.opponent)
  normal : o.phase = .normal → st.phase ≠ .werera
  werera : o.phase = .werera → st.phase.isComplete = false →
    st.phase = if st.captures = .none then .werera else .normal
  captures : st.captures = .none ↔ ∀ pre m post before t,
    Move.canonical ms = pre ++ m :: post → replay v rules o pre = .ok before →
      m.id ∉ st.skipped → m.target.square? = some t → before.board.get t = none
  ended (pre post : List Move) (before : Standing) (hcut : Move.canonical ms = pre ++ post)
    (hbefore : replay v rules o pre = .ok before) (h : before.phase.isComplete = true) :
    st = { before with skipped := before.skipped ++ post.map Move.id }

namespace Course

variable {v : Variant} {rules : HouseRules} {o : Opening} {c c' d : Course} {m : Move}
  {ms pre post : List Move}

private theorem captures_standing
    (h : (Move.canonical ms).foldlM (play v rules) (start v rules o) = .ok c) :
    c.captures = .none ↔ ∀ pre m post before t, Move.canonical ms = pre ++ m :: post →
      replay v rules o pre = .ok before → m.id ∉ c.skipped → m.target.square? = some t →
      before.board.get t = none := by
  have hnone : (start v rules o).captures = .none := rfl
  rw [captures_run h, and_iff_right hnone]
  constructor
  · intro hall pre m post before t hcut hbefore hskipped ht
    obtain ⟨d, e, hd, hstep, hreplay, -, hmem⟩ := exists_step_of_cut h hcut
    obtain rfl := Except.ok.inj (hreplay.symm.trans hbefore)
    have hrefused : m.isRefused d.progress.phase d.board = false := by
      rw [hmem] at hskipped
      simpa using hskipped
    obtain ⟨s, t', hplayed⟩ := hstep.exists_played hrefused
    obtain rfl := Option.some.inj (hplayed.target.symm.trans ht)
    rw [← hall pre m post d hcut hd, hplayed.taken hrefused]
    rfl
  · intro hall pre m post d hcut hd
    obtain ⟨d', e, hd', hstep, hreplay, -, hmem⟩ := exists_step_of_cut h hcut
    obtain rfl := Except.ok.inj (hd'.symm.trans hd)
    cases hrefused : m.isRefused d'.progress.phase d'.board with
    | true => exact taken_of_refused hrefused
    | false =>
      obtain ⟨s, t, hplayed⟩ := hstep.exists_played hrefused
      have hskipped : m.id ∉ c.skipped := by simp [hmem, hrefused]
      rw [hplayed.taken hrefused]
      exact hall pre m post _ t hcut hreplay hskipped hplayed.target

theorem alternates_standing
    (h : (Move.canonical ms).foldlM (play v rules) (start v rules o) = .ok c) :
    (c.standing v).Alternates v rules o ms := by
  have hcanonical := Move.isCanonical_canonical ms
  constructor
  · have hstart : (start v rules o).progress.turn = o.turn := Progress.turn_finish? _ _
    rw [← hstart]
    exact turn_run hcanonical.distinct rfl h
  · intro ho
    have hne : o.phase ≠ .werera := by
      rw [ho]
      nofun
    exact phase_ne_werera_run hne h
  · intro ho
    exact run_induction (P := Opened) (fun _ _ _ hc hstep => opened_step hc hstep) h
      (opened_start ho)
  · exact captures_standing h
  · intro pre post before hcut hbefore hover
    obtain ⟨d, hd, rfl⟩ := replay_eq_ok.mp hbefore
    rw [hcut] at h hcanonical
    rw [hcanonical.of_append.canonical_eq] at hd
    rw [List.foldlM_append, hd] at h
    obtain rfl := Except.ok.inj ((run_ended hover post).symm.trans h)
    rfl

end Course

private theorem Standing.phase_declare {st : Standing} (h : st.phase ≠ .werera) (e : Ending) :
    (st.declare e).phase ≠ .werera := by
  rw [declare]
  split
  case isTrue => exact h
  case isFalse => nofun

/-- A reached game of a variant without werera is never in it. -/
theorem Session.Reached.phase_ne_werera {s : Session} {st : Standing} (hs : s.Reached)
    (hv : s.variant.hasWerera = false) (hst : s.standing = .ok st) : st.phase ≠ .werera := by
  have ho : s.opening.phase = .normal := by
    rcases hs.sound.phase with ⟨-, hwerera⟩ | hnormal
    · simp [hv] at hwerera
    · exact hnormal
  obtain ⟨r, hr, rfl⟩ := standing_eq_ok.mp hst
  obtain ⟨c, hc, rfl⟩ := replay_eq_ok.mp hr
  have hphase := (Course.alternates_standing hc).normal ho
  cases s.resolution with
  | none => exact hphase
  | some e => exact Standing.phase_declare hphase e

/-- Records on the board have a replay whose turn and phase follow the records that it applies,
unless the counter runs out of room for them; a reached game of standard chess is never in the
werera. -/
theorem replay_alternates (v : Variant) (rules : HouseRules) (o : Opening) {ms : List Move}
    (hms : ∀ m ∈ ms, m.OnBoard) :
    ((∃ st, replay v rules o ms = .ok st ∧ st.Alternates v rules o ms) ∨
      replay v rules o ms = .error .counterFull ∧
        UInt32.size ≤ o.moveCount.toNat + ms.length) ∧
    ∀ s : Session, s.Reached → s.variant = .standard → ∀ st, s.standing = .ok st →
      st.phase ≠ .werera := by
  constructor
  · rcases replay_total v rules o hms with ⟨st, hst⟩ | hfull
    · obtain ⟨c, hc, rfl⟩ := replay_eq_ok.mp hst
      exact .inl ⟨_, hst, Course.alternates_standing hc⟩
    · exact .inr hfull
  · intro s hs hv st hst
    exact hs.phase_ne_werera (by rw [hv]; rfl) hst

def Opening.backRowWerera : Opening := { Opening.backRow with phase := .werera }

theorem replay_tangled_alternates :
    (∀ m ∈ Move.tangled, m.OnBoard) ∧
      (∃ st, replay .senterej {} .backRowWerera Move.tangled = .ok st ∧
        st.Alternates .senterej {} .backRowWerera Move.tangled ∧ st.phase = .normal ∧
        st.turn = .white ∧ st.skipped = [.numbered 5, .numbered 3]) ∧
      ∃ st, Session.begun.standing = .ok st ∧ st.phase ≠ .werera := by
  have hms : ∀ m ∈ Move.tangled, m.OnBoard := by decide
  have hreplay : (replay .senterej {} .backRowWerera Move.tangled).toOption.map
      (fun st => (st.phase, st.turn, st.skipped)) =
        some (.normal, .white, [.numbered 5, .numbered 3]) := by
    rw [replay, Move.canonical_tangled]
    decide +kernel
  obtain ⟨halternates, hsession⟩ := replay_alternates .senterej {} .backRowWerera hms
  have hlog : ∀ m ∈ Session.begun.log.moves, m.OnBoard := by
    rw [Session.log_begun]
    decide
  have hroom : Session.begun.opening.moveCount.toNat + Session.begun.log.moves.length <
      UInt32.size := by
    rw [Session.log_begun]
    decide
  obtain ⟨now, hnow⟩ := Session.standing_total hlog hroom
  refine ⟨hms, ?_, now, hnow, hsession _ Session.reached_begun rfl now hnow⟩
  rcases halternates with ⟨st, hst, halternates⟩ | ⟨-, hfull⟩
  · rw [hst] at hreplay
    obtain ⟨hphase, hrest⟩ := Prod.mk.inj (Option.some.inj hreplay)
    obtain ⟨hturn, hskipped⟩ := Prod.mk.inj hrest
    exact ⟨st, hst, halternates, hphase, hturn, hskipped⟩
  · exact absurd hfull (by decide)

end WereraChess
