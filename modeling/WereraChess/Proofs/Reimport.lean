import WereraChess.Proofs.Fen.RoundTrip
import WereraChess.Proofs.Line
import WereraChess.Proofs.Openings
import WereraChess.Proofs.Outlook
/-!
# Games that go on from a line

A game can be left as a line and taken up again by a session that was read from it: the standing of
the new session has the outlook of the old one, and so have the standings of the two after any
records that are received later.
-/
namespace WereraChess

namespace Course

variable {v : Variant} {rules : HouseRules} {o : Opening} {c : Course}

private theorem phase_ne_werera_step {c' : Course} {m : Move} (hc : c.progress.phase ≠ .werera)
    (h : Step v rules c m c') : c'.progress.phase ≠ .werera := by
  cases h with
  | ended => exact hc
  | blocked => exact hc
  | applied hlive _ _ _ _ hd =>
    apply Progress.phase_finish?
    rw [(advance_eq_ok hd).2.1, Progress.record]
    cases hphase : c.progress.phase with
    | werera => exact absurd hphase hc
    | normal => simp
    | complete r => simp [hphase, Phase.isComplete] at hlive

theorem phase_ne_werera_run {ms : List Move} (ho : o.phase ≠ .werera)
    (h : ms.foldlM (play v rules) (start v rules o) = .ok c) : c.progress.phase ≠ .werera := by
  have hstart : (start v rules o).progress.phase ≠ .werera :=
    Progress.phase_finish? (p := .resume o.phase o.turn) ho _
  exact run_induction (P := fun c => c.progress.phase ≠ .werera)
    (fun _ _ _ hc hstep => phase_ne_werera_step hc hstep) h hstart

private theorem sound_reopening {ms : List Move} (ho : o.Sound v)
    (h : ms.foldlM (play v rules) (start v rules o) = .ok c) : c.reopening.Sound v := by
  constructor
  · exact Board.hasLoneKings_unmoved.mpr (hasLoneKings_run ho.kings h)
  · by_cases hphase : c.progress.phase = .werera
    · left
      refine ⟨if_pos hphase, ?_⟩
      rcases ho.phase with ⟨-, hv⟩ | hnormal
      · exact hv
      · have hne : o.phase ≠ .werera := by
          rw [hnormal]
          nofun
        exact absurd hphase (phase_ne_werera_run hne h)
    · right
      exact if_neg hphase

end Course

namespace Session

variable {s : Session} {c : Course}

def receiveAll (s : Session) (ms : List Move) : Except Fault Session :=
  ms.foldlM (fun s m => do return (← s.receive m).2) s

private theorem receiveAll_eq_ok {ms : List Move} (hms : ∀ m ∈ ms, m.OnBoard) :
    s.receiveAll ms = .ok { s with log := ms.foldl MoveLog.insert s.log } := by
  induction ms generalizing s with
  | nil => rfl
  | cons m ms ih =>
    obtain ⟨hm, hms⟩ := List.forall_mem_cons.mp hms
    have hreceive : s.receive m = .ok (!s.log.contains m.id, s.logged m) :=
      receive_eq_ok.mpr ⟨hm.text, rfl, rfl⟩
    rw [receiveAll, List.foldlM_cons, hreceive]
    exact ih (s := s.logged m) hms

/-- Both sessions stand alike, and go on alike with any records that come after all that the first
has. -/
structure ContinuedBy (s t : Session) : Prop where
  now : ∃ st st', s.standing = .ok st ∧ t.standing = .ok st' ∧ st'.outlook = st.outlook
  later : ∀ ms : List Move, (∀ m ∈ ms, m.OnBoard ∧ s.log.Precedes m) →
    ∃ s' t', s.receiveAll ms = .ok s' ∧ t.receiveAll ms = .ok t' ∧
      t'.standing.map Standing.outlook = s'.standing.map Standing.outlook

private theorem map_outlook_standing {v : Variant} (x : Except Fault Course) :
    (x.map (Course.standing v)).map Standing.outlook =
      (x.map Course.outlook).map (Course.standing v) := by
  cases x with
  | error f => rfl
  | ok c => exact congrArg Except.ok (c.standing_outlook v).symm

private theorem ofFen_line {v : Variant} (hc : c.reopening.Sound v)
    (hking : ∃ u side, c.board.kingAt u = some side) (a : Alphabet) (id : Uuid) (seats : Seats) :
    ofFen id ((c.standing v).fen a).line (some v) seats = .ok (start id v seats c.reopening) := by
  obtain ⟨u, side, hu⟩ := hking
  obtain ⟨p, hp, hkind⟩ := Option.bind_eq_some_iff.mp hu
  have hselects : Placement.Selects (Placement.written a c.board).flatten a := by
    apply Placement.selects_written hp
    intro _ hknight
    simp [Piece.kingOf?, hknight] at hkind
  obtain ⟨g, hg, hrecovers, -⟩ := Fen.exists_recovers (f := (c.standing v).fen a)
    (Board.hasLoneKings_unmoved.mp hc.kings) hselects
  have hphase : (if (!v.hasWerera && decide (g.phase = .werera)) = true then .normal else g.phase) =
      c.reopening.phase := by
    have hrecovered : g.phase = c.reopening.phase := hrecovers.phase
    rw [hrecovered]
    rcases hc.phase with ⟨-, hv⟩ | hnormal
    · simp [hv]
    · simp [hnormal]
  have hopening : { Opening.ofFen g with phase := c.reopening.phase } = c.reopening := by
    simp only [Opening.ofFen, hrecovers.board, hrecovers.active, hrecovers.moveCount]
    rfl
  simp only [ofFen, hg, hphase, hopening]

/-- Records that come after the log are played from where the log leads. -/
theorem outlook_received (hnone : s.resolution = none) (hc : Move.IsCanonical s.log.moves)
    (hcourse : s.course = .ok c) (ms : List Move) (hms : ∀ m ∈ ms, s.log.Precedes m) :
    ({ s with log := ms.foldl MoveLog.insert s.log } : Session).standing.map Standing.outlook =
      (((MoveLog.ofList ms).moves.foldlM (Course.play s.variant s.rules) c).map
        Course.outlook).map (Course.standing s.variant) := by
  have hstanding := standing_eq_course (s := { s with log := ms.foldl MoveLog.insert s.log })
    hnone (MoveLog.isCanonical_foldl_insert hc ms)
  rw [course_append (MoveLog.moves_foldl_insert hc hms), hcourse] at hstanding
  rw [hstanding]
  exact map_outlook_standing _

/-- The session that opens where the log of another has led goes on like it. -/
theorem continuedBy_reopening (hnone : s.resolution = none) (hc : Move.IsCanonical s.log.moves)
    (hcourse : s.course = .ok c) (hsettled : Course.Settled s.variant s.rules c) (id : Uuid)
    (seats : Seats) :
    s.ContinuedBy { start id s.variant seats c.reopening with rules := s.rules } := by
  let t : Session := { start id s.variant seats c.reopening with rules := s.rules }
  have houtlook := Course.outlook_start_reopening hsettled
  have ht : Move.IsCanonical t.log.moves := MoveLog.isCanonical_empty
  have htcourse : t.course = .ok (Course.start s.variant s.rules c.reopening) := rfl
  constructor
  · have hstanding := standing_eq_course hnone hc
    have htstanding := standing_eq_course (s := t) rfl ht
    rw [hcourse] at hstanding
    rw [htcourse] at htstanding
    refine ⟨_, _, hstanding, htstanding, ?_⟩
    rw [← Course.standing_outlook, ← Course.standing_outlook]
    exact congrArg (Course.standing s.variant) houtlook
  · intro ms hms
    have hboard (m : Move) (hm : m ∈ ms) : m.OnBoard := (hms m hm).1
    refine ⟨_, _, receiveAll_eq_ok hboard, receiveAll_eq_ok (s := t) hboard, ?_⟩
    have hs := outlook_received hnone hc hcourse ms fun m hm => (hms m hm).2
    have ht := outlook_received (s := t) rfl ht htcourse ms fun m _ => MoveLog.precedes_empty m
    rw [hs, ht]
    exact congrArg (Except.map _) (Course.run_congr houtlook _)

/-- A reached game with a king on the board at its opening can be left as a line in either alphabet
and taken up again from it, unless the counter has run out of room. -/
theorem exists_reimport (hs : s.Reached) (hnone : s.resolution = none)
    (hking : ∃ side, (s.opening.board.king? side).isSome = true)
    (hlog : ∀ m ∈ s.log.moves, m.OnBoard) (a : Alphabet) (id : Uuid) (seats : Seats) :
    (∃ text t, s.line a = .ok text ∧ ofFen id text (some s.variant) seats = .ok t ∧
      s.ContinuedBy { t with rules := s.rules }) ∨
    s.standing = .error .counterFull ∧
      UInt32.size ≤ s.opening.moveCount.toNat + s.log.moves.length := by
  have hc := hs.isCanonical
  have ho := hs.sound.inPlay
  have hstanding := standing_eq_course hnone hc
  rcases Course.run_total s.variant s.rules (.start s.variant s.rules s.opening) hlog with
    ⟨c, hcourse⟩ | ⟨hcourse, hfull⟩
  · left
    obtain ⟨side, hside⟩ := hking
    obtain ⟨u, hu⟩ := Board.isSome_king?_iff.mp hside
    have hking := Course.exists_kingAt_run ho ⟨u, side, hu⟩ hcourse
    have hsound := Course.sound_reopening hs.sound hcourse
    refine ⟨_, _, ?_, ofFen_line hsound hking a id seats, ?_⟩
    · rw [line, hstanding, course, hcourse]
      rfl
    · exact continuedBy_reopening hnone hc hcourse (Course.settled_run ho hcourse) id seats
  · right
    rw [course, hcourse] at hstanding
    exact ⟨hstanding, hfull⟩

def reply : Move := ⟨.numbered 5, ⟨1, 4⟩, ⟨2, 4⟩, .black, .pawn, none, 200⟩

/-- Black answers White's first move in a session that was read from a line in Senterej letters. -/
theorem begun_reimport :
    ∃ text t s' t', begun.line .senterej = .ok text ∧
      ofFen (.numbered 6) text (some .standard) .empty = .ok t ∧
      begun.receiveAll [reply] = .ok s' ∧
      receiveAll { t with rules := {} } [reply] = .ok t' ∧
      t'.standing.map Standing.outlook = s'.standing.map Standing.outlook := by
  have hking : (begun.opening.board.king? .white).isSome = true := by decide +kernel
  have hlog : ∀ m ∈ begun.log.moves, m.OnBoard := by
    rw [log_begun]
    decide
  have hlater : begun.log.Precedes reply := by
    rw [MoveLog.Precedes, log_begun]
    decide
  rcases exists_reimport reached_begun rfl ⟨_, hking⟩ hlog .senterej (.numbered 6) .empty with
    ⟨text, t, hline, ht, hcontinued⟩ | ⟨-, hfull⟩
  · obtain ⟨s', t', hs', ht', houtlook⟩ := hcontinued.later [reply] (by
      intro m hm
      rw [List.mem_singleton.mp hm]
      exact ⟨by decide, hlater⟩)
    exact ⟨text, t, s', t', hline, ht, hs', ht', houtlook⟩
  · rw [log_begun] at hfull
    exact absurd hfull (by decide)

end Session

end WereraChess
