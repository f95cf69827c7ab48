import WereraChess.Proofs.Canonical
import WereraChess.Proofs.Results
/-!
# The steps of a replay

A replay skips every record after the end of the game, skips a record that its board does not admit,
and applies any other. `Course.Step` lists these three cases; `Course.play` takes exactly such
steps. Of records on the board it fails at none but for a full counter.
-/
namespace WereraChess

namespace Coord

theorem onBoard_eq_ok {c : Coord} {s : Square} : c.onBoard = .ok s ↔ c.square? = some s := by
  rw [onBoard]
  cases c.square? <;> simp

end Coord

namespace Board

theorem ownerAt_eq_some {b : Board} {s : Square} {side : Side} :
    b.ownerAt s = some side ↔ ∃ p, b.get s = some p ∧ p.owner = side := by
  rw [ownerAt, Option.map_eq_some_iff]

end Board

/-- Both squares of the record are on the board. -/
def Move.OnBoard (m : Move) : Prop :=
  m.source.square?.isSome = true ∧ m.target.square?.isSome = true

instance : DecidablePred Move.OnBoard := fun _ => inferInstanceAs (Decidable (_ ∧ _))

theorem Move.OnBoard.squares {m : Move} (h : m.OnBoard) :
    ∃ s t, m.source.square? = some s ∧ m.target.square? = some t := by
  obtain ⟨hs, ht⟩ := h
  obtain ⟨s, hs⟩ := Option.isSome_iff_exists.mp hs
  obtain ⟨t, ht⟩ := Option.isSome_iff_exists.mp ht
  exact ⟨s, t, hs, ht⟩

namespace Course

variable {v : Variant} {rules : HouseRules}

/-- What one record does to a replay. -/
inductive Step (v : Variant) (rules : HouseRules) (c : Course) (m : Move) : Course → Prop
  | ended (h : c.progress.phase.isComplete = true) : Step v rules c m (c.skip m)
  | blocked {s t : Square} (hlive : c.progress.phase.isComplete = false)
      (hs : m.source.square? = some s) (ht : m.target.square? = some t)
      (h : c.applies m s t = false) : Step v rules c m (c.skip m)
  | applied {s t : Square} {r : Relocation} {d : Course}
      (hlive : c.progress.phase.isComplete = false)
      (hs : m.source.square? = some s) (ht : m.target.square? = some t)
      (h : c.applies m s t = true) (hr : c.board.relocate s t = some r)
      (hd : c.advance m.mover r = .ok d) : Step v rules c m (d.settle v rules m.mover.opponent)

theorem applies_iff {c : Course} {m : Move} {s t : Square} :
    c.applies m s t = true ↔
      c.board.ownerAt s = some m.mover ∧ c.board.ownerAt t ≠ some m.mover := by
  simp only [applies, Bool.and_eq_true, decide_eq_true_eq]

theorem relocate_of_applies {c : Course} {m : Move} {s t : Square} (h : c.applies m s t = true) :
    ∃ r, c.board.relocate s t = some r := by
  obtain ⟨p, hp, -⟩ := Board.ownerAt_eq_some.mp (applies_iff.mp h).1
  rw [Board.relocate, hp]
  exact ⟨_, rfl⟩

theorem play_ended {c : Course} (m : Move) (h : c.progress.phase.isComplete = true) :
    play v rules c m = .ok (c.skip m) := if_pos h

theorem play_live {c : Course} {m : Move} {s t : Square}
    (h : c.progress.phase.isComplete = false) (hs : m.source.square? = some s)
    (ht : m.target.square? = some t) :
    play v rules c m =
      if c.applies m s t then
        match c.board.relocate s t with
        | none => .ok (c.skip m)
        | some r => return (← c.advance m.mover r).settle v rules m.mover.opponent
      else .ok (c.skip m) := by
  have hs' := Coord.onBoard_eq_ok.mpr hs
  have ht' := Coord.onBoard_eq_ok.mpr ht
  simp only [play, h, hs', ht', bind, Except.bind, Bool.false_eq_true, if_false]
  cases c.applies m s t <;> rfl

theorem play_eq_ok_iff {c c' : Course} {m : Move} :
    play v rules c m = .ok c' ↔ Step v rules c m c' := by
  constructor
  · intro h
    cases hlive : c.progress.phase.isComplete with
    | true =>
      obtain rfl : c.skip m = c' := by simpa [play_ended m hlive] using h
      exact .ended hlive
    | false =>
      have hsquares : ∃ s t, m.source.square? = some s ∧ m.target.square? = some t := by
        simp only [play, hlive] at h
        obtain ⟨s, hs, h⟩ := bind_eq_ok.mp h
        obtain ⟨t, ht, -⟩ := bind_eq_ok.mp h
        exact ⟨s, t, Coord.onBoard_eq_ok.mp hs, Coord.onBoard_eq_ok.mp ht⟩
      obtain ⟨s, t, hs, ht⟩ := hsquares
      rw [play_live hlive hs ht] at h
      cases happ : c.applies m s t with
      | false =>
        obtain rfl : c.skip m = c' := by simpa [happ] using h
        exact .blocked hlive hs ht happ
      | true =>
        obtain ⟨r, hr⟩ := relocate_of_applies happ
        simp only [happ, hr, if_true] at h
        obtain ⟨d, hd, h⟩ := bind_eq_ok.mp h
        obtain rfl := Except.ok.inj h
        exact .applied hlive hs ht happ hr hd
  · intro h
    cases h with
    | ended h => exact play_ended m h
    | blocked hlive hs ht h => simp [play_live hlive hs ht, h]
    | applied hlive hs ht h hr hd =>
      simp only [play_live hlive hs ht, h, hr, if_true]
      exact bind_eq_ok.mpr ⟨_, hd, rfl⟩

theorem play_congr {c d : Course} {m : Move} {φ ψ : Course → Course}
    (hphase : c.progress.phase = d.progress.phase)
    (happlies : ∀ s t, c.applies m s t = d.applies m s t)
    (hskip : φ (c.skip m) = ψ (d.skip m))
    (hadvance : ∀ s t r r', c.board.relocate s t = some r → d.board.relocate s t = some r' →
      (c.advance m.mover r).map (fun x => φ (x.settle v rules m.mover.opponent)) =
        (d.advance m.mover r').map (fun x => ψ (x.settle v rules m.mover.opponent))) :
    (c.play v rules m).map φ = (d.play v rules m).map ψ := by
  have hskipped : (Except.ok (c.skip m) : Except Fault Course).map φ =
      (Except.ok (d.skip m)).map ψ := congrArg Except.ok hskip
  cases hlive : d.progress.phase.isComplete with
  | true => rwa [play_ended m hlive, play_ended m (hphase ▸ hlive)]
  | false =>
    have hlive' : c.progress.phase.isComplete = false := by rw [hphase, hlive]
    cases hs : m.source.onBoard with
    | error f => simp [play, hlive, hlive', hs, bind, Except.bind, Except.map]
    | ok s =>
      cases ht : m.target.onBoard with
      | error f => simp [play, hlive, hlive', hs, ht, bind, Except.bind, Except.map]
      | ok t =>
        rw [Coord.onBoard_eq_ok] at hs ht
        rw [play_live hlive' hs ht, play_live hlive hs ht, happlies]
        cases happ : d.applies m s t with
        | false => exact hskipped
        | true =>
          obtain ⟨r, hr⟩ := relocate_of_applies ((happlies s t).trans happ)
          obtain ⟨r', hr'⟩ := relocate_of_applies happ
          have hmap {χ : Course → Course} (x : Except Fault Course) :
              (x >>= fun d => pure (d.settle v rules m.mover.opponent)).map χ =
                x.map fun d => χ (d.settle v rules m.mover.opponent) := by
            cases x <;> rfl
          simp only [hr, hr', if_true]
          rw [hmap, hmap]
          exact hadvance s t r r' hr hr'

theorem advance_eq_ok {c d : Course} {side : Side} {r : Relocation}
    (h : c.advance side r = .ok d) :
    d.board = r.board ∧ d.progress = c.progress.record side r.captured.isSome ∧
      d.skipped = c.skipped ∧ d.moveCount.toNat = c.moveCount.toNat + 1 := by
  rw [advance] at h
  split at h
  case isTrue hroom =>
    obtain rfl := Except.ok.inj h
    refine ⟨rfl, rfl, rfl, ?_⟩
    rw [UInt32.toNat_add, UInt32.toNat_one, Nat.mod_eq_of_lt hroom]
  case isFalse => simp at h

theorem moveCount_le_of_step {c c' : Course} {m : Move} (h : Step v rules c m c') :
    c'.moveCount.toNat ≤ c.moveCount.toNat + 1 := by
  cases h with
  | ended => exact Nat.le_succ _
  | blocked => exact Nat.le_succ _
  | applied _ _ _ _ _ hd => exact Nat.le_of_eq (advance_eq_ok hd).2.2.2

theorem play_total (v : Variant) (rules : HouseRules) (c : Course) {m : Move} (hm : m.OnBoard) :
    (∃ c', play v rules c m = .ok c') ∨
      play v rules c m = .error .counterFull ∧ UInt32.size ≤ c.moveCount.toNat + 1 := by
  cases hlive : c.progress.phase.isComplete with
  | true => exact .inl ⟨_, play_ended m hlive⟩
  | false =>
    obtain ⟨s, t, hs, ht⟩ := hm.squares
    cases happ : c.applies m s t with
    | false => exact .inl ⟨_, play_eq_ok_iff.mpr (.blocked hlive hs ht happ)⟩
    | true =>
      obtain ⟨r, hr⟩ := relocate_of_applies happ
      by_cases hroom : c.moveCount.toNat + 1 < UInt32.size
      · exact .inl ⟨_, play_eq_ok_iff.mpr (.applied hlive hs ht happ hr (if_pos hroom))⟩
      · refine .inr ⟨?_, by omega⟩
        simp only [play_live hlive hs ht, happ, hr, if_true, advance, if_neg hroom]
        rfl

/-- What every step keeps, a whole replay keeps. -/
theorem run_induction {P : Course → Prop} (hstep : ∀ c m c', P c → Step v rules c m c' → P c')
    {ms : List Move} {c c' : Course} (h : ms.foldlM (play v rules) c = .ok c') (hc : P c) :
    P c' := by
  induction ms generalizing c with
  | nil =>
    obtain rfl := Except.ok.inj h
    exact hc
  | cons m ms ih =>
    rw [List.foldlM_cons] at h
    obtain ⟨d, hd, h⟩ := bind_eq_ok.mp h
    exact ih h (hstep c m d hc (play_eq_ok_iff.mp hd))

theorem run_total (v : Variant) (rules : HouseRules) (c : Course) {ms : List Move}
    (hms : ∀ m ∈ ms, m.OnBoard) :
    (∃ c', ms.foldlM (play v rules) c = .ok c') ∨
      ms.foldlM (play v rules) c = .error .counterFull ∧
        UInt32.size ≤ c.moveCount.toNat + ms.length := by
  induction ms generalizing c with
  | nil => exact .inl ⟨c, rfl⟩
  | cons m ms ih =>
    obtain ⟨hm, hms⟩ := List.forall_mem_cons.mp hms
    rw [List.foldlM_cons, List.length_cons]
    rcases play_total v rules c hm with ⟨d, hd⟩ | ⟨hd, hfull⟩
    · have hcount := moveCount_le_of_step (play_eq_ok_iff.mp hd)
      rcases ih d hms with ⟨c', h⟩ | ⟨h, hfull⟩
      · exact .inl ⟨c', bind_eq_ok.mpr ⟨d, hd, h⟩⟩
      · exact .inr ⟨bind_eq_error.mpr (.inr ⟨d, hd, h⟩), by omega⟩
    · exact .inr ⟨bind_eq_error.mpr (.inl hd), by omega⟩

end Course

theorem replay_eq_ok {v : Variant} {rules : HouseRules} {o : Opening} {ms : List Move}
    {s : Standing} :
    replay v rules o ms = .ok s ↔
      ∃ c, (Move.canonical ms).foldlM (Course.play v rules) (Course.start v rules o) = .ok c ∧
        c.standing v = s := by
  rw [replay, bind_eq_ok]
  simp only [pure, Except.pure, Except.ok.injEq]

theorem replay_of_isCanonical (v : Variant) (rules : HouseRules) (o : Opening) {ms : List Move}
    (h : Move.IsCanonical ms) :
    replay v rules o ms =
      (ms.foldlM (Course.play v rules) (Course.start v rules o)).map (Course.standing v) := by
  rw [replay, h.canonical_eq]
  cases ms.foldlM (Course.play v rules) (Course.start v rules o) <;> rfl

theorem replay_nil (v : Variant) (rules : HouseRules) (o : Opening) :
    replay v rules o [] = .ok ((Course.start v rules o).standing v) := by
  rw [replay, Move.IsCanonical.nil.canonical_eq]
  rfl

/-- Records on the board have a replay, unless the counter runs out of room for them. -/
theorem replay_total (v : Variant) (rules : HouseRules) (o : Opening) {ms : List Move}
    (hms : ∀ m ∈ ms, m.OnBoard) :
    (∃ s, replay v rules o ms = .ok s) ∨
      replay v rules o ms = .error .counterFull ∧
        UInt32.size ≤ o.moveCount.toNat + ms.length := by
  have hmem (m : Move) (hm : m ∈ Move.canonical ms) : m.OnBoard :=
    hms m (Move.mem_canonical.mp hm).1
  have hlen := Move.canonical_length_le ms
  rcases Course.run_total v rules (Course.start v rules o) hmem with ⟨c, h⟩ | ⟨h, hfull⟩
  · exact .inl ⟨_, replay_eq_ok.mpr ⟨c, h, rfl⟩⟩
  · refine .inr ⟨bind_eq_error.mpr (.inl h), ?_⟩
    have hcount : (Course.start v rules o).moveCount = o.moveCount := rfl
    rw [hcount] at hfull
    omega

end WereraChess
