import Mathlib.Logic.Relation
import WereraChess.Proofs.Liveness
/-!
# Kings in alternating play

In a game of alternating moves the side that has moved is not in check. So no piece of the side to
move reaches the other king, and both kings stay on the board for as long as moves are only submitted.
-/
namespace WereraChess

namespace Board

variable {b : Board} {v : Variant} {side : Side} {s t : Square} {p : Piece}

private theorem kingAt_ne_of_mem_reach (hb : b.HasLoneKings) (hsafe : b.inCheck v side = false)
    (hp : b.get s = some p) (howner : p.owner = side.opponent) (ht : t ∈ b.reach v s) :
    b.kingAt t ≠ some side := by
  intro hking
  have hreached : b.reachedBy v side.opponent t = true :=
    reachedBy_iff.mpr ⟨s, ownerAt_eq_some.mpr ⟨p, hp, howner⟩, ht⟩
  have hcheck : b.inCheck v side = true := by
    rw [inCheck, hb.king?_eq hking]
    exact hreached
  simp [hsafe] at hcheck

private theorem hasLoneKings_of_existsUnique (h : ∀ side, ∃! u, b.kingAt u = some side) :
    b.HasLoneKings := by
  intro s t side hs ht
  exact (h side).unique hs ht

private theorem reason_ne_kingCaptured {selfCheck : Bool} {e : Ending}
    (hkings : ∀ side, ∃ u, b.kingAt u = some side) (h : b.ending? v side selfCheck = some e) :
    e.reason ≠ .kingCaptured := by
  simp only [ending?, lostKing?_eq_none_iff.mpr hkings, Option.none_or,
    Option.or_eq_some_iff] at h
  rcases h with h | ⟨-, h⟩
  · simp [bareKing?_reason h]
  · rw [noMove?_reason h]
    split <;> simp

end Board

/-- An opening of alternating play in which each side has one king and the side that is not to move
is not in check. -/
structure Opening.Guarded (v : Variant) (o : Opening) : Prop where
  phase : o.phase = .normal
  kings : ∀ side, ∃! u, o.board.kingAt u = some side
  safe : o.board.inCheck v o.turn.opponent = false

namespace Course

variable {v : Variant} {rules : HouseRules} {c c' : Course} {m : Move}

/-- Each side has one king, and the side that is not to move is not in check. -/
structure Guarded (v : Variant) (c : Course) : Prop where
  lone : c.board.HasLoneKings
  kings : ∀ side, ∃ u, c.board.kingAt u = some side
  safe : c.board.inCheck v c.progress.turn.opponent = false

/-- A legal move takes no king and leaves its mover out of check. -/
theorem Guarded.play (hc : c.Guarded v) (hphase : c.progress.phase = .normal)
    (hturn : c.progress.turn = m.mover) (hlegal : m.IsLegal v c.board)
    (hplay : c.play v rules m = .ok c') : c'.Guarded v := by
  have hturn' : c'.progress.turn = m.mover.opponent := (play_isLegal hphase hlegal hplay).2.1
  obtain ⟨s, t, r, d, hs, ht, hr, hd, rfl⟩ := exists_advance_of_isLegal hphase hlegal hplay
  obtain ⟨s', t', p, hs', ht', hp, howner, hreach, hsafe⟩ := hlegal
  obtain rfl := Option.some.inj (hs.symm.trans hs')
  obtain rfl := Option.some.inj (ht.symm.trans ht')
  have hboard : d.board = r.board := (advance_eq_ok hd).1
  have htarget (side : Side) : c.board.kingAt t ≠ some side := by
    by_cases hside : side = m.mover
    · intro hking
      apply Board.ownerAt_of_mem_reach hp hreach
      rw [Board.ownerAt_of_kingAt hking, hside, howner]
    · have hopponent : side = c.progress.turn.opponent := by
        rw [hturn]
        exact Side.eq_opponent_of_ne hside
      apply Board.kingAt_ne_of_mem_reach hc.lone (hopponent ▸ hc.safe) hp _ hreach
      rw [howner, hopponent, Side.opponent_opponent, hturn]
  constructor
  · change d.board.HasLoneKings
    rw [hboard]
    exact hc.lone.relocate hr
  · intro side
    change ∃ u, d.board.kingAt u = some side
    rw [hboard]
    exact Board.exists_kingAt_relocate hr (htarget side) (hc.kings side)
  · have hafter : c.board.after s t = d.board := by
      rw [Board.after, hr, hboard]
    rw [hturn', Side.opponent_opponent]
    exact hafter ▸ hsafe

end Course

private theorem Line.guarded {v : Variant} {rules : HouseRules} {o : Opening} {ms : List Move}
    {c : Course} (ho : o.Guarded v) (h : Line v rules o ms c) : c.Guarded v := by
  induction h with
  | start =>
    refine ⟨Board.hasLoneKings_of_existsUnique ho.kings, fun side => (ho.kings side).exists, ?_⟩
    have hturn : (Course.start v rules o).progress.turn = o.turn := Progress.turn_finish? _ _
    rw [hturn]
    exact ho.safe
  | move _ hphase hturn hlegal _ _ hplay ih => exact ih.play hphase hturn hlegal hplay

namespace Session

/-- What the players of a session do to it themselves. -/
inductive Act (s : Session) : Session → Prop
  | submit {s' : Session} {id : Uuid} {side : Side} {source target : Coord} {timestamp : UInt64}
      {a : Accepted} (h : s.submit id side source target timestamp = .ok (a, s')) : Act s s'
  | resign {s' : Session} {side : Side} {e : Ending} (h : s.resign side = .ok (e, s')) : Act s s'
  | timeOut {s' : Session} {side : Side} {e : Ending} (h : s.timeOut side = .ok (e, s')) : Act s s'

/-- The log is a line of play from a guarded opening, and a resolution is a declared one. -/
structure Guarded (s : Session) : Prop where
  opening : s.opening.Guarded s.variant
  line : ∃ ms c, s.log = ⟨ms⟩ ∧ Line s.variant s.rules s.opening ms c
  declared : ∀ e, s.resolution = some e → e.reason.isDeclared = true

variable {s s' : Session}

private theorem Guarded.declare {e e' : Ending} (hs : s.Guarded) (he : e.reason.isDeclared = true)
    (h : s.declare e = .ok (e', s')) : s'.Guarded := by
  obtain ⟨-, -, -, -, rfl⟩ := declare_eq_ok.mp h
  refine ⟨hs.opening, hs.line, ?_⟩
  intro d hd
  rwa [← Option.some.inj hd]

private theorem Guarded.submit {id : Uuid} {side : Side} {source target : Coord}
    {timestamp : UInt64} {a : Accepted} (hs : s.Guarded)
    (h : s.submit id side source target timestamp = .ok (a, s')) :
    s'.Guarded := by
  obtain ⟨ms, c, hlog, hline⟩ := hs.line
  obtain ⟨-, before, kind, captured, -, hbefore, -, -, -, -, -, rfl⟩ := submit_eq_ok.mp h
  refine ⟨hs.opening, ?_, hs.declared⟩
  cases hid : s.log.contains id with
  | true =>
    refine ⟨ms, c, ?_, hline⟩
    change s.log.insert ⟨id, source, target, side, kind, captured, timestamp⟩ = ⟨ms⟩
    rw [MoveLog.insert_of_contains hid, hlog]
  | false =>
    have hnone : s.resolution = none :=
      resolution_of_live (.inr hs.opening.phase) hbefore (live_of_submit hbefore h)
    obtain ⟨-, -, hlog', c', hline'⟩ := submit_line hline hs.opening.phase hlog hnone hid h
    exact ⟨_, c', hlog', hline'⟩

theorem Guarded.act (hs : s.Guarded) (h : s.Act s') : s'.Guarded := by
  cases h with
  | submit h => exact hs.submit h
  | resign h => exact hs.declare rfl h
  | timeOut h => exact hs.declare rfl h

theorem Guarded.run (hs : s.Guarded) (h : Relation.ReflTransGen Act s s') : s'.Guarded := by
  induction h with
  | refl => exact hs
  | tail _ h ih => exact ih.act h

end Session

/-- Both sides have one king, the side that is not to move is not in check, and no king was
captured. -/
structure Standing.KingsSafe (v : Variant) (st : Standing) : Prop where
  kings : ∀ side, ∃! u, st.board.kingAt u = some side
  safe : st.board.inCheck v st.turn.opponent = false
  ending : ∀ e, st.ending = some e → e.reason ≠ .kingCaptured
  phase : st.phase ≠ .complete .kingCaptured

namespace Course

variable {v : Variant} {rules : HouseRules} {c : Course}

private theorem Settled.ending?_eq {e : Ending} (hc : c.Settled v rules)
    (he : c.progress.ending = some e) : c.board.ending? v c.progress.turn false = some e := by
  cases hphase : c.progress.phase with
  | complete r =>
    obtain ⟨e', he', -, hending⟩ := hc.ended r hphase
    obtain rfl := Option.some.inj (he.symm.trans he')
    exact hending
  | werera =>
    have hnone := (hc.live (by rw [hphase]; rfl)).1
    simp [hnone] at he
  | normal =>
    have hnone := (hc.live (by rw [hphase]; rfl)).1
    simp [hnone] at he

private theorem Guarded.standing (hc : c.Guarded v) (hsettled : c.Settled v rules) :
    (c.standing v).KingsSafe v where
  kings side := by
    obtain ⟨u, hu⟩ := hc.kings side
    exact ⟨u, hu, fun w hw => hc.lone w u side hw hu⟩
  safe := hc.safe
  ending := by
    intro e he
    exact Board.reason_ne_kingCaptured hc.kings (hsettled.ending?_eq he)
  phase := by
    intro hphase
    obtain ⟨e, -, hreason, hending⟩ := hsettled.ended _ hphase
    exact Board.reason_ne_kingCaptured hc.kings hending hreason

end Course

private theorem Standing.KingsSafe.declare {v : Variant} {st : Standing} {e : Ending}
    (hst : st.KingsSafe v) (he : e.reason.isDeclared = true) : (st.declare e).KingsSafe v := by
  have hreason : e.reason ≠ .kingCaptured := by
    intro h
    simp [h, EndReason.isDeclared] at he
  unfold Standing.declare
  split
  case isTrue => exact hst
  case isFalse =>
    refine ⟨hst.kings, hst.safe, ?_, ?_⟩
    · intro d hd
      rwa [← Option.some.inj hd]
    · intro hphase
      exact hreason (Phase.complete.inj hphase)

namespace Session

/-- As long as moves are only submitted to a session that is played by turns, no king is captured:
both stay on the board, and the side that is not to move is not in check. -/
theorem kings_stand {s s' : Session} (ho : s.opening.Guarded s.variant) (hlog : s.log = .empty)
    (hnone : s.resolution = none) (h : Relation.ReflTransGen Act s s') :
    ∃ st, s'.standing = .ok st ∧ st.KingsSafe s'.variant := by
  have hs : s.Guarded := ⟨ho, ⟨[], _, hlog, .start⟩, by simp [hnone]⟩
  have hs' := hs.run h
  obtain ⟨ms, c, hlog', hline⟩ := hs'.line
  have hreplayed : s'.replayed = .ok (c.standing s'.variant) := by
    rw [replayed, hlog']
    exact hline.replay
  have hsafe : (c.standing s'.variant).KingsSafe s'.variant :=
    (hline.guarded hs'.opening).standing (Course.settled_run (.inr hs'.opening.phase) hline.run)
  refine ⟨_, standing_eq_ok.mpr ⟨_, hreplayed, rfl⟩, ?_⟩
  cases hresolution : s'.resolution with
  | none => exact hsafe
  | some e => exact hsafe.declare (hs'.declared e hresolution)

def backRow : Session := start (.numbered 1) .standard (friendly .standard).seats .backRow

private theorem guarded_backRow : Opening.backRow.Guarded .standard where
  phase := rfl
  kings := by
    have hlone : Opening.backRow.board.HasLoneKings :=
      Board.hasLoneKings_iff.mpr (by decide +kernel)
    have hwhite : Opening.backRow.board.kingAt ⟨7, 1⟩ = some .white := by decide +kernel
    have hblack : Opening.backRow.board.kingAt ⟨0, 7⟩ = some .black := by decide +kernel
    intro side
    cases side with
    | white => exact ⟨⟨7, 1⟩, hwhite, fun u hu => hlone u _ .white hu hwhite⟩
    | black => exact ⟨⟨0, 7⟩, hblack, fun u hu => hlone u _ .black hu hblack⟩
  safe := by decide +kernel

theorem kings_stand_backRow :
    ∃ s' st, Relation.ReflTransGen Act backRow s' ∧ s'.standing = .ok st ∧
      st.KingsSafe .standard ∧ st.phase = .complete .checkmate := by
  have hrook : backRow.opening.board.get ⟨5, 0⟩ = some (.fresh .rook .white) := by decide +kernel
  have hreach : (⟨0, 0⟩ : Square) ∈ backRow.opening.board.reach .standard ⟨5, 0⟩ := by
    decide +kernel
  have hking : backRow.opening.board.exposesKing .standard ⟨5, 0⟩ ⟨0, 0⟩ = false := by
    decide +kernel
  obtain ⟨a, m, hsubmit, -, hm⟩ := submit_first (s := backRow) (.numbered 4) 10 rfl rfl rfl
    (by decide) (by decide +kernel) hrook rfl hreach (.inr hking)
  have hplay : Relation.ReflTransGen Act backRow (backRow.logged m) := .single (.submit hsubmit)
  have hphase : (backRow.logged m).standing.toOption.map (·.phase) =
      some (.complete .checkmate) := by
    rw [standing, replayed_logged_of_log_empty rfl, hm]
    decide +kernel
  obtain ⟨st, hst, hsafe⟩ := kings_stand guarded_backRow rfl rfl hplay
  rw [hst] at hphase
  exact ⟨_, st, hplay, hst, hsafe, Option.some.inj hphase⟩

end Session

end WereraChess
