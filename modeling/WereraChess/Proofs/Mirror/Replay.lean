import WereraChess.Proofs.Conservation
import WereraChess.Proofs.Mirror.Board
/-!
# Games seen from the other side

White and Black are treated alike. If the opening and the records of a game are mirrored, its replay
leads to the mirrored standing, as long as the records come in the same order: of two records of one
time, White's precedes Black's, so the times have to differ.
-/
namespace WereraChess

/-- The row turned over. One that is off the board wraps around and stays off it. -/
def Coord.mirror (c : Coord) : Coord := ⟨7 - c.row, c.col⟩

private theorem Coord.square?_mirror (c : Coord) :
    c.mirror.square? = c.square?.map Square.mirror := by
  have hrow : c.mirror.row.toNat = (256 - c.row.toNat + 7) % 256 := UInt8.toNat_sub 7 c.row
  have hlt := c.row.toNat_lt
  by_cases h : c.row.toNat < 8 ∧ c.col.toNat < 8
  · have h' : c.mirror.row.toNat < 8 ∧ c.mirror.col.toNat < 8 := ⟨by omega, h.2⟩
    rw [square?, square?, dif_pos h, dif_pos h', Option.map_some]
    apply congrArg some
    rw [Square.eq_iff_val, Square.row_mirror]
    exact ⟨by dsimp only; omega, rfl⟩
  · have h' : ¬ (c.mirror.row.toNat < 8 ∧ c.mirror.col.toNat < 8) := by
      intro h'
      exact h ⟨by omega, h'.2⟩
    rw [square?, square?, dif_neg h, dif_neg h', Option.map_none]

namespace Move

variable {m : Move} {ms : List Move}

def mirror (m : Move) : Move :=
  { m with source := m.source.mirror, target := m.target.mirror, mover := m.mover.opponent }

private theorem map_id_mirror (ms : List Move) : (ms.map mirror).map id = ms.map id := by
  rw [List.map_map]
  rfl

private theorem IsCanonical.mirror (hms : IsCanonical ms) (htime : (ms.map timestamp).Nodup) :
    IsCanonical (ms.map Move.mirror) := by
  constructor
  · have hboth := hms.ascending.and (List.pairwise_map.mp htime)
    apply List.pairwise_map.mpr
    apply hboth.imp
    intro a b ⟨hkey, hne⟩
    have hlt : a.timestamp < b.timestamp :=
      UInt64.lt_of_le_of_ne (timestamp_le_of_key_lt hkey) hne
    exact key_lt_of_timestamp_lt (a := a.mirror) (b := b.mirror) hlt
  · rw [map_id_mirror]
    exact hms.distinct

private theorem canonical_mirror (hid : (ms.map id).Nodup) (htime : (ms.map timestamp).Nodup) :
    canonical (ms.map mirror) = (canonical ms).map mirror := by
  have htime' : ((canonical ms).map timestamp).Nodup := by
    apply (isCanonical_canonical ms).nodup.map_on
    intro a ha b hb
    exact List.inj_on_of_nodup_map htime (mem_canonical.mp ha).1 (mem_canonical.mp hb).1
  have hid' : ((ms.map mirror).map id).Nodup := by rwa [map_id_mirror]
  apply (isCanonical_canonical _).ext ((isCanonical_canonical ms).mirror htime')
  intro m
  simp only [mem_canonical_of_nodup hid', List.mem_map, mem_canonical_of_nodup hid]

end Move

namespace Captures

def mirror (c : Captures) : Captures := ⟨c.byBlack, c.byWhite⟩

private theorem add_mirror (c : Captures) (owner : Side) (kind : Kind) :
    c.mirror.add owner.opponent kind = (c.add owner kind).mirror := by
  cases owner <;> rfl

end Captures

namespace Progress

def mirror (p : Progress) : Progress := ⟨p.phase, p.turn.opponent, p.ending.map Ending.mirror⟩

private theorem record_mirror (p : Progress) (mover : Side) (captured : Bool) :
    p.mirror.record mover.opponent captured = (p.record mover captured).mirror := by
  obtain ⟨phase, turn, ending⟩ := p
  cases phase <;> rfl

private theorem finish?_mirror (p : Progress) (e : Option Ending) :
    p.mirror.finish? (e.map Ending.mirror) = (p.finish? e).mirror := by
  cases e with
  | none => rfl
  | some e =>
    rw [Option.map_some, finish?, finish?, finish, finish]
    change (if p.phase.isComplete = true then _ else _) = _
    split <;> rfl

end Progress

namespace Course

variable {v : Variant} {rules : HouseRules} {c : Course} {m : Move} {side : Side}

def mirror (c : Course) : Course :=
  ⟨c.board.mirror, c.progress.mirror, c.captures.mirror, c.moveCount, c.skipped⟩

private theorem settle_mirror (hc : c.board.HasLoneKings) :
    c.mirror.settle v rules side.opponent = (c.settle v rules side).mirror := by
  let selfCheck := rules.allowsSelfCheck c.progress.phase
  have hending : c.board.mirror.ending? v side.opponent selfCheck =
      (c.board.ending? v side selfCheck).map Ending.mirror := Board.ending?_mirror hc
  have hprogress := c.progress.finish?_mirror (c.board.ending? v side selfCheck)
  rw [← hending] at hprogress
  exact congrArg (fun p => { c.mirror with progress := p }) hprogress

private theorem applies_mirror (s t : Square) :
    c.mirror.applies m.mirror s.mirror t.mirror = c.applies m s t := by
  rw [Bool.eq_iff_iff, applies_iff, applies_iff]
  exact and_congr Board.ownerAt_mirror_eq_some Board.ownerAt_mirror_eq_some.not

private theorem advance_mirror (c : Course) (mover : Side) (r : Relocation) :
    c.mirror.advance mover.opponent r.mirror = (c.advance mover r).map mirror := by
  have hcount : c.mirror.moveCount = c.moveCount := rfl
  have hcaptured : r.mirror.captured = r.captured.map Piece.mirror := rfl
  have hprogress : c.mirror.progress.record mover.opponent r.captured.isSome =
      (c.progress.record mover r.captured.isSome).mirror := c.progress.record_mirror mover _
  simp only [advance, hcount, hcaptured, Option.isSome_map, hprogress]
  split
  case isTrue =>
    cases r.captured with
    | none => rfl
    | some p =>
      have hcaptures : c.mirror.captures.add p.mirror.owner p.mirror.kind =
          (c.captures.add p.owner p.kind).mirror := c.captures.add_mirror p.owner p.kind
      simp only [Option.map_some, hcaptures]
      rfl
  case isFalse => rfl

/-- A mirrored record does to a mirrored course what the record does to the course. -/
theorem play_mirror (hc : c.board.HasLoneKings) (hm : m.OnBoard) :
    c.mirror.play v rules m.mirror = (c.play v rules m).map mirror := by
  cases hlive : c.progress.phase.isComplete with
  | true =>
    rw [play_ended m hlive, play_ended (c := c.mirror) m.mirror hlive]
    rfl
  | false =>
    obtain ⟨s, t, hs, ht⟩ := hm.squares
    have hs' : m.mirror.source.square? = some s.mirror := by
      rw [← Option.map_some, ← hs]
      exact m.source.square?_mirror
    have ht' : m.mirror.target.square? = some t.mirror := by
      rw [← Option.map_some, ← ht]
      exact m.target.square?_mirror
    rw [play_live hlive hs ht, play_live (c := c.mirror) hlive hs' ht', applies_mirror]
    cases happ : c.applies m s t with
    | false => rfl
    | true =>
      obtain ⟨r, hr⟩ := relocate_of_applies happ
      have hr' : c.mirror.board.relocate s.mirror t.mirror = some r.mirror := by
        rw [← Option.map_some, ← hr]
        exact c.board.relocate_mirror s t
      have hadvance : c.mirror.advance m.mirror.mover r.mirror = (c.advance m.mover r).map mirror :=
        c.advance_mirror m.mover r
      simp only [if_true, hr, hr', hadvance]
      cases hd : c.advance m.mover r with
      | error f => rfl
      | ok d =>
        have hd' : d.board.HasLoneKings := by
          rw [(advance_eq_ok hd).1]
          exact hc.relocate hr
        exact congrArg Except.ok (settle_mirror hd')

theorem run_mirror {ms : List Move} (hc : c.board.HasLoneKings) (hms : ∀ m ∈ ms, m.OnBoard) :
    (ms.map Move.mirror).foldlM (play v rules) c.mirror =
      (ms.foldlM (play v rules) c).map mirror := by
  induction ms generalizing c with
  | nil => rfl
  | cons m ms ih =>
    obtain ⟨hm, hms⟩ := List.forall_mem_cons.mp hms
    rw [List.map_cons, List.foldlM_cons, List.foldlM_cons, play_mirror hc hm]
    cases hd : c.play v rules m with
    | error f => rfl
    | ok d => exact ih (hasLoneKings_step hc (play_eq_ok_iff.mp hd)) hms

end Course

def Opening.mirror (o : Opening) : Opening :=
  { o with board := o.board.mirror, turn := o.turn.opponent }

/-- The board is mirrored, and so are the turn, the winner and what either side has taken. The rest
stays as it is. -/
def Standing.mirror (st : Standing) : Standing :=
  { st with
    board := st.board.mirror
    turn := st.turn.opponent
    captures := st.captures.mirror
    winner := st.winner.map Side.opponent
    ending := st.ending.map Ending.mirror }

namespace Course

variable {v : Variant} {rules : HouseRules} {c : Course} {o : Opening}

private theorem start_mirror (ho : o.board.HasLoneKings) :
    start v rules o.mirror = (start v rules o).mirror :=
  settle_mirror (c := ⟨o.board, .resume o.phase o.turn, .none, o.moveCount, []⟩) ho

theorem standing_mirror (hc : c.board.HasLoneKings) :
    c.mirror.standing v = (c.standing v).mirror := by
  have hcheck : c.board.mirror.inCheck v c.progress.turn.opponent =
      c.board.inCheck v c.progress.turn := Board.inCheck_mirror hc
  have hany (r : EndReason) : (c.progress.ending.map Ending.mirror).any (·.reason = r) =
      c.progress.ending.any (·.reason = r) := by
    cases c.progress.ending <;> rfl
  have hwinner : (c.progress.ending.map Ending.mirror).bind Ending.winner =
      (c.progress.ending.bind Ending.winner).map Side.opponent := by
    cases c.progress.ending <;> rfl
  simp only [standing, mirror, Standing.mirror, Progress.mirror, hcheck, hany, hwinner]

end Course

/-- White and Black are treated alike: mirrored records lead from the mirrored opening to the
mirrored standing, if neither side opens with two kings and no two records are of one identifier or
of one time. -/
theorem replay_mirror (v : Variant) (rules : HouseRules) {o : Opening} {ms : List Move}
    (ho : o.board.HasLoneKings) (hid : (ms.map Move.id).Nodup)
    (htime : (ms.map Move.timestamp).Nodup) (hms : ∀ m ∈ ms, m.OnBoard) :
    (∃ st, replay v rules o ms = .ok st ∧
      replay v rules o.mirror (ms.map Move.mirror) = .ok st.mirror) ∨
    replay v rules o ms = .error .counterFull ∧
      replay v rules o.mirror (ms.map Move.mirror) = .error .counterFull ∧
      UInt32.size ≤ o.moveCount.toNat + ms.length := by
  have hboard (m : Move) (hm : m ∈ Move.canonical ms) : m.OnBoard :=
    hms m (Move.mem_canonical.mp hm).1
  have hrun : ((Move.canonical ms).map Move.mirror).foldlM (Course.play v rules)
      (Course.start v rules o).mirror = ((Move.canonical ms).foldlM (Course.play v rules)
        (Course.start v rules o)).map Course.mirror := Course.run_mirror ho hboard
  rw [← Move.canonical_mirror hid htime, ← Course.start_mirror ho] at hrun
  rcases replay_total v rules o hms with ⟨st, hst⟩ | ⟨hst, hfull⟩
  · left
    obtain ⟨c, hc, rfl⟩ := replay_eq_ok.mp hst
    rw [hc] at hrun
    exact ⟨_, hst, replay_eq_ok.mpr
      ⟨c.mirror, hrun, Course.standing_mirror (Course.hasLoneKings_run ho hc)⟩⟩
  · right
    refine ⟨hst, ?_, hfull⟩
    cases hc : (Move.canonical ms).foldlM (Course.play v rules) (Course.start v rules o) with
    | ok c => simp [replay_eq_ok.mpr ⟨c, hc, rfl⟩] at hst
    | error f =>
      rw [replay, hc] at hst
      rw [hc] at hrun
      rw [replay, hrun]
      exact congrArg Except.error (Except.error.inj hst)

/-- In the mirror a white pawn is promoted and a black rook jumps. -/
theorem replay_mirror_forged :
    Opening.backRow.board.HasLoneKings ∧ (Move.forged.map Move.id).Nodup ∧
      (Move.forged.map Move.timestamp).Nodup ∧ (∀ m ∈ Move.forged, m.OnBoard) ∧
      ∃ st, replay .senterej {} .backRow Move.forged = .ok st ∧
        replay .senterej {} Opening.backRow.mirror (Move.forged.map Move.mirror) = .ok st.mirror ∧
        st.captures = ⟨[.pawn], []⟩ ∧ st.mirror.captures = ⟨[], [.pawn]⟩ ∧
        st.board.get ⟨7, 4⟩ = some ⟨.minister, .black, true⟩ ∧
        st.mirror.board.get ⟨0, 4⟩ = some ⟨.minister, .white, true⟩ ∧
        st.mirror.skipped = [.numbered 3] := by
  have ho : Opening.backRow.board.HasLoneKings := by
    rw [Board.hasLoneKings_iff]
    decide +kernel
  have hid : (Move.forged.map Move.id).Nodup := by decide
  have htime : (Move.forged.map Move.timestamp).Nodup := by decide
  have hms : ∀ m ∈ Move.forged, m.OnBoard := by decide
  have hcanonical : Move.IsCanonical Move.forged := ⟨by decide, hid⟩
  have hreplay : (replay .senterej {} .backRow Move.forged).toOption.map
      (fun st => (st.captures, st.board.get ⟨7, 4⟩, st.skipped)) =
        some (⟨[.pawn], []⟩, some ⟨.minister, .black, true⟩, [.numbered 3]) := by
    rw [replay_of_isCanonical _ _ _ hcanonical]
    decide +kernel
  rcases replay_mirror .senterej {} ho hid htime hms with ⟨st, hst, hmirror⟩ | ⟨-, -, hfull⟩
  · rw [hst] at hreplay
    obtain ⟨hcaptures, hrest⟩ := Prod.mk.inj (Option.some.inj hreplay)
    obtain ⟨hminister, hskipped⟩ := Prod.mk.inj hrest
    have hcaptures' : st.mirror.captures = ⟨[], [.pawn]⟩ := congrArg Captures.mirror hcaptures
    have hminister' : st.mirror.board.get ⟨0, 4⟩ = some ⟨.minister, .white, true⟩ := by
      have hget := st.board.get_mirror ⟨7, 4⟩
      rwa [hminister] at hget
    exact ⟨ho, hid, htime, hms, st, hst, hmirror, hcaptures, hcaptures', hminister, hminister',
      hskipped⟩
  · exact absurd hfull (by decide)

end WereraChess
