import WereraChess.Proofs.Verdict
/-!
# Checkpoints

A replay can be cut between any two records. While the game is live, the board, the phase, the turn
and the counter at the cut are an opening from which the later records lead to the same standing;
only what was captured and skipped before has to be kept. After the end of the game the later records
are skipped.
-/
namespace WereraChess

namespace Move

theorem mem_canonical_of_nodup {ms : List Move} (h : (ms.map Move.id).Nodup) {m : Move} :
    m ∈ canonical ms ↔ m ∈ ms := by
  rw [mem_canonical]
  refine ⟨And.left, fun hm => ⟨hm, fun n hn hid => ?_⟩⟩
  have heq : n = m := List.inj_on_of_nodup_map h hn hm hid
  rw [heq]
  exact Key.le_refl _

private theorem canonical_append {ms ns : List Move} (hid : ((ms ++ ns).map Move.id).Nodup)
    (hsort : ∀ a ∈ ms, ∀ b ∈ ns, a.key.lt b.key = true) :
    canonical (ms ++ ns) = canonical ms ++ canonical ns := by
  have hparts := hid
  rw [List.map_append, List.nodup_append] at hparts
  obtain ⟨hms, hns, hcross⟩ := hparts
  have hmem {ls : List Move} {a : Move} (ha : a ∈ canonical ls) : a ∈ ls := (mem_canonical.mp ha).1
  have happend : IsCanonical (canonical ms ++ canonical ns) := by
    apply (isCanonical_canonical ms).append (isCanonical_canonical ns)
    · intro a ha b hb
      exact hcross a.id (List.mem_map_of_mem (hmem ha)) b.id (List.mem_map_of_mem (hmem hb))
    · intro a ha b hb
      exact hsort a (hmem ha) b (hmem hb)
  apply (isCanonical_canonical _).ext happend
  intro m
  rw [mem_canonical_of_nodup hid, List.mem_append, List.mem_append, mem_canonical_of_nodup hms,
    mem_canonical_of_nodup hns]

end Move

def Captures.append (c d : Captures) : Captures := ⟨c.byWhite ++ d.byWhite, c.byBlack ++ d.byBlack⟩

private theorem Captures.append_add (c d : Captures) (owner : Side) (kind : Kind) :
    c.append (d.add owner kind) = (c.append d).add owner kind := by
  cases owner <;> simp [append, add]

theorem Captures.append_none (c : Captures) : c.append .none = c := by
  simp [append, none]

namespace Course

variable {v : Variant} {rules : HouseRules} {c : Course}

/-- The position of a replay as the opening of another game. -/
def opening (c : Course) : Opening := ⟨c.board, c.progress.phase, c.progress.turn, c.moveCount⟩

/-- The replay `d` with what `c` has captured and skipped before. -/
def followedBy (c d : Course) : Course :=
  { d with captures := c.captures.append d.captures, skipped := c.skipped ++ d.skipped }

private theorem skip_followedBy (d : Course) (m : Move) :
    (c.followedBy d).skip m = c.followedBy (d.skip m) := by
  simp only [skip, followedBy, List.append_assoc]

private theorem advance_followedBy (d : Course) (mover : Side) (r : Relocation) :
    (c.followedBy d).advance mover r = (d.advance mover r).map c.followedBy := by
  have hcount : (c.followedBy d).moveCount = d.moveCount := rfl
  simp only [advance, hcount]
  split
  case isTrue =>
    cases hcaptured : r.captured with
    | none => rfl
    | some p => simp only [Except.map, followedBy, Captures.append_add]
  case isFalse => rfl

/-- What was captured and skipped before has no part in a step. -/
theorem play_followedBy (d : Course) (m : Move) :
    (c.followedBy d).play v rules m = (d.play v rules m).map c.followedBy := by
  have hid (x : Except Fault Course) : x.map id = x := by cases x <;> rfl
  rw [← hid ((c.followedBy d).play v rules m)]
  apply play_congr
  · rfl
  · intro s t
    rfl
  · exact skip_followedBy d m
  · intro s t r r' hr hr'
    obtain rfl : r = r' := Option.some.inj (hr.symm.trans hr')
    rw [advance_followedBy]
    cases d.advance m.mover r <;> rfl

theorem run_followedBy (d : Course) (ms : List Move) :
    ms.foldlM (play v rules) (c.followedBy d) =
      (ms.foldlM (play v rules) d).map c.followedBy := by
  induction ms generalizing d with
  | nil => rfl
  | cons m ms ih =>
    simp only [List.foldlM_cons, play_followedBy]
    cases d.play v rules m with
    | error f => rfl
    | ok e => exact ih e

private theorem followedBy_start (hc : Settled v rules c)
    (hlive : c.progress.phase.isComplete = false) : c.followedBy (start v rules c.opening) = c := by
  obtain ⟨hending, hnone⟩ := hc.live hlive
  obtain ⟨board, ⟨phase, turn, ending⟩, captures, moveCount, skipped⟩ := c
  obtain rfl : ending = none := hending
  simp only at hnone
  simp only [followedBy, start, opening, settle, Progress.resume, hnone, Progress.finish?,
    Captures.append_none, List.append_nil]

theorem run_ended (h : c.progress.phase.isComplete = true) (ms : List Move) :
    ms.foldlM (play v rules) c = .ok { c with skipped := c.skipped ++ ms.map Move.id } := by
  induction ms generalizing c with
  | nil => simp [pure, Except.pure]
  | cons m ms ih =>
    have hrest := ih (c := c.skip m) h
    rw [List.foldlM_cons, play_ended m h]
    refine hrest.trans ?_
    simp only [skip, List.map_cons, List.append_assoc, List.singleton_append]

end Course

namespace Standing

/-- The position of a standing as the opening of another game. -/
def opening (s : Standing) : Opening := ⟨s.board, s.phase, s.turn, s.moveCount⟩

/-- The standing `t` with what `s` has captured and skipped before. -/
def followedBy (s t : Standing) : Standing :=
  { t with captures := s.captures.append t.captures, skipped := s.skipped ++ t.skipped }

/-- The standing with further records skipped. -/
def skipping (s : Standing) (ms : List Move) : Standing :=
  { s with skipped := s.skipped ++ (Move.canonical ms).map Move.id }

end Standing

/-- Records that come after all others can be replayed from the standing before them: they are
skipped if it is the end of the game, and otherwise it is the opening from which they lead to the
same standing. -/
theorem replay_append (v : Variant) (rules : HouseRules) {o : Opening} {ms ns : List Move}
    (ho : o.phase = .werera ∨ o.phase = .normal) (hid : ((ms ++ ns).map Move.id).Nodup)
    (hsort : ∀ a ∈ ms, ∀ b ∈ ns, a.key.lt b.key = true) :
    (replay v rules o (ms ++ ns) = do
      let s ← replay v rules o ms
      if s.phase.isComplete then return s.skipping ns
      else return s.followedBy (← replay v rules s.opening ns)) ∧
    ((∀ m ∈ ms ++ ns, m.OnBoard) → o.moveCount.toNat + (ms ++ ns).length < UInt32.size →
      ∃ s, replay v rules o (ms ++ ns) = .ok s) := by
  constructor
  · simp only [replay, Move.canonical_append hid hsort, List.foldlM_append]
    cases hrun : (Move.canonical ms).foldlM (Course.play v rules) (Course.start v rules o) with
    | error f => rfl
    | ok c =>
      have hsettled : Course.Settled v rules c := Course.settled_run ho hrun
      have hopening : (c.standing v).opening = c.opening := rfl
      have hphase : (c.standing v).phase = c.progress.phase := rfl
      simp only [bind, Except.bind, pure, Except.pure, hphase, hopening]
      cases hlive : c.progress.phase.isComplete with
      | true =>
        rw [Course.run_ended hlive]
        rfl
      | false =>
        have hcut : (Move.canonical ns).foldlM (Course.play v rules) c =
            ((Move.canonical ns).foldlM (Course.play v rules) (Course.start v rules c.opening)).map
              c.followedBy := by
          rw [← Course.run_followedBy, Course.followedBy_start hsettled hlive]
        rw [hcut]
        cases (Move.canonical ns).foldlM (Course.play v rules) (Course.start v rules c.opening) <;>
          rfl
  · intro hboard hroom
    rcases replay_total v rules o hboard with h | ⟨-, hfull⟩
    · exact h
    · omega

def Move.approach : List Move :=
  [⟨.numbered 1, ⟨5, 0⟩, ⟨4, 0⟩, .white, .rook, none, 10⟩,
    ⟨.numbered 2, ⟨3, 3⟩, ⟨4, 0⟩, .black, .pawn, none, 15⟩]

def Move.mate : List Move :=
  [⟨.numbered 3, ⟨4, 0⟩, ⟨0, 0⟩, .white, .rook, none, 20⟩,
    ⟨.numbered 4, ⟨1, 7⟩, ⟨2, 7⟩, .black, .pawn, none, 30⟩]

theorem replay_backRow_append :
    ((Move.approach ++ Move.mate).map Move.id).Nodup ∧
      (∀ a ∈ Move.approach, ∀ b ∈ Move.mate, a.key.lt b.key = true) ∧
      ∃ s t, replay .standard {} .backRow Move.approach = .ok s ∧ s.phase = .normal ∧
        replay .standard {} s.opening Move.mate = .ok t ∧
        replay .standard {} .backRow (Move.approach ++ Move.mate) = .ok (s.followedBy t) ∧
        t.phase = .complete .checkmate ∧
        (s.followedBy t).skipped = [.numbered 2, .numbered 4] := by
  have ho : Opening.backRow.phase = .werera ∨ Opening.backRow.phase = .normal := .inr rfl
  have hid : ((Move.approach ++ Move.mate).map Move.id).Nodup := by decide
  have hsort : ∀ a ∈ Move.approach, ∀ b ∈ Move.mate, a.key.lt b.key = true := by decide
  obtain ⟨happend, htotal⟩ := replay_append .standard {} ho hid hsort
  obtain ⟨u, hu⟩ := htotal (by decide) (by decide)
  have hcanonical : Move.IsCanonical Move.approach := ⟨by decide, by decide⟩
  have hcanonical' : Move.IsCanonical (Move.approach ++ Move.mate) := ⟨by decide, by decide⟩
  have happroach : (replay .standard {} .backRow Move.approach).toOption.map
      (fun s => s.phase) = some .normal := by
    rw [replay_of_isCanonical _ _ _ hcanonical]
    decide +kernel
  have hmate : (replay .standard {} .backRow (Move.approach ++ Move.mate)).toOption.map
      (fun s => (s.phase, s.skipped)) =
        some (.complete .checkmate, [.numbered 2, .numbered 4]) := by
    rw [replay_of_isCanonical _ _ _ hcanonical']
    decide +kernel
  rw [hu] at happend hmate
  obtain ⟨s, hs, happend⟩ := bind_eq_ok.mp happend.symm
  rw [hs] at happroach
  have hphase : s.phase = .normal := Option.some.inj happroach
  have hlive : ¬ s.phase.isComplete = true := by simp [hphase, Phase.isComplete]
  rw [if_neg hlive] at happend
  obtain ⟨t, ht, happend⟩ := bind_eq_ok.mp happend
  obtain rfl : s.followedBy t = u := Except.ok.inj happend
  obtain ⟨hend, hskipped⟩ := Prod.mk.inj (Option.some.inj hmate)
  exact ⟨hid, hsort, s, t, hs, hphase, ht, hu, hend, hskipped⟩

end WereraChess
