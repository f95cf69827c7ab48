import WereraChess.Proofs.Course
/-!
# What a standing reports

After every step of a replay the progress of the game agrees with the evaluation of its board for
the side to move. An ending found under the lenient rule of the werera is also one under the strict
rule, so a finished game reports the strict verdict.
-/
namespace WereraChess

namespace Board

private theorem hasMove_of_hasSafeMove {b : Board} {v : Variant} {side : Side}
    (h : b.hasSafeMove v side = true) : b.hasMove v side = true := by
  simp only [hasSafeMove, hasMove, List.any_eq_true] at h ⊢
  obtain ⟨⟨s, p⟩, hp, t, ht, -⟩ := h
  refine ⟨(s, p), hp, ?_⟩
  rw [Bool.not_eq_true', List.isEmpty_eq_false_iff]
  exact List.ne_nil_of_mem ht

private theorem lostKing?_reason {b : Board} {e : Ending} (h : b.lostKing? = some e) :
    e.reason = .kingCaptured := by
  rw [lostKing?] at h
  split at h <;> simp at h <;> rw [← h]

theorem bareKing?_reason {b : Board} {v : Variant} {e : Ending} (h : b.bareKing? v = some e) :
    e.reason = .bareKing := by
  cases v with
  | standard => simp [bareKing?] at h
  | senterej =>
    rw [bareKing?] at h
    split at h <;> simp at h <;> rw [← h]

theorem noMove?_reason {b : Board} {v : Variant} {side : Side} {selfCheck : Bool} {e : Ending}
    (h : b.noMove? v side selfCheck = some e) :
    e.reason = if b.inCheck v side then .checkmate else .stalemate := by
  unfold noMove? at h
  generalize (if selfCheck = true then b.hasMove v side else b.hasSafeMove v side) = able at h
  cases able with
  | true => simp at h
  | false =>
    cases hcheck : b.inCheck v side with
    | true =>
      obtain rfl : ⟨.checkmate, some side.opponent⟩ = e := by simpa [hcheck] using h
      rfl
    | false =>
      rw [if_neg (by decide)]
      cases v with
      | senterej =>
        obtain rfl : ⟨.stalemate, some side.opponent⟩ = e := by simpa [hcheck] using h
        rfl
      | standard =>
        obtain rfl : ⟨.stalemate, none⟩ = e := by simpa [hcheck] using h
        rfl

private theorem noMove?_strict {b : Board} {v : Variant} {side : Side} {selfCheck : Bool}
    {e : Ending} (h : b.noMove? v side selfCheck = some e) : b.noMove? v side false = some e := by
  cases selfCheck with
  | false => exact h
  | true =>
    cases hsafe : b.hasSafeMove v side with
    | true => simp [noMove?, hasMove_of_hasSafeMove hsafe] at h
    | false =>
      cases hmove : b.hasMove v side with
      | true => simp [noMove?, hmove] at h
      | false => simpa [noMove?, hmove, hsafe] using h

/-- An ending under any rule for self-check is the ending under the strict rule. -/
theorem ending?_strict {b : Board} {v : Variant} {side : Side} {selfCheck : Bool} {e : Ending}
    (h : b.ending? v side selfCheck = some e) : b.ending? v side false = some e := by
  simp only [ending?, Option.or_eq_some_iff] at h ⊢
  rcases h with h | ⟨hking, h | ⟨hbare, h⟩⟩
  · exact .inl h
  · exact .inr ⟨hking, .inl h⟩
  · exact .inr ⟨hking, .inr ⟨hbare, noMove?_strict h⟩⟩

private theorem ending?_reason {b : Board} {v : Variant} {side : Side} {selfCheck : Bool}
    {e : Ending} (h : b.ending? v side selfCheck = some e) :
    e.reason = .kingCaptured ∨ e.reason = .bareKing ∨
      e.reason = if b.inCheck v side then .checkmate else .stalemate := by
  simp only [ending?, Option.or_eq_some_iff] at h
  rcases h with h | ⟨-, h | ⟨-, h⟩⟩
  · exact .inl (lostKing?_reason h)
  · exact .inr (.inl (bareKing?_reason h))
  · exact .inr (.inr (noMove?_reason h))

private theorem inCheck_of_checkmate {b : Board} {v : Variant} {side : Side} {selfCheck : Bool}
    {e : Ending} (h : b.ending? v side selfCheck = some e) (hr : e.reason = .checkmate) :
    b.inCheck v side = true := by
  have hreason := ending?_reason h
  cases hcheck : b.inCheck v side <;> simp_all

private theorem not_inCheck_of_stalemate {b : Board} {v : Variant} {side : Side} {selfCheck : Bool}
    {e : Ending} (h : b.ending? v side selfCheck = some e) (hr : e.reason = .stalemate) :
    b.inCheck v side = false := by
  have hreason := ending?_reason h
  cases hcheck : b.inCheck v side <;> simp_all

end Board

namespace Progress

theorem record_live {p : Progress} (h : p.phase.isComplete = false) (mover : Side)
    (captured : Bool) :
    (p.record mover captured).phase.isComplete = false ∧
      (p.record mover captured).turn = mover.opponent ∧
      (p.record mover captured).ending = p.ending := by
  obtain ⟨phase, turn, ending⟩ := p
  cases phase with
  | werera => cases captured <;> exact ⟨rfl, rfl, rfl⟩
  | normal => exact ⟨rfl, rfl, rfl⟩
  | complete => simp [Phase.isComplete] at h

end Progress

namespace Course

variable {v : Variant} {rules : HouseRules}

/-- The progress of the game agrees with the evaluation of the board. -/
structure Settled (v : Variant) (rules : HouseRules) (c : Course) : Prop where
  live : c.progress.phase.isComplete = false →
    c.progress.ending = none ∧
      c.board.ending? v c.progress.turn (rules.allowsSelfCheck c.progress.phase) = none
  ended : ∀ r, c.progress.phase = .complete r → ∃ e, c.progress.ending = some e ∧ e.reason = r ∧
    c.board.ending? v c.progress.turn false = some e

private theorem settled_settle {c : Course} {side : Side}
    (hlive : c.progress.phase.isComplete = false) (hending : c.progress.ending = none)
    (hturn : c.progress.turn = side) :
    Settled v rules (c.settle v rules side) := by
  subst hturn
  rw [settle]
  cases h : c.board.ending? v c.progress.turn (rules.allowsSelfCheck c.progress.phase) with
  | none =>
    refine ⟨fun _ => ⟨hending, h⟩, fun r hr => ?_⟩
    change c.progress.phase = .complete r at hr
    simp [hr, Phase.isComplete] at hlive
  | some e =>
    have hfinish : c.progress.finish? (some e) =
        { c.progress with phase := .complete e.reason, ending := some e } := by
      simp [Progress.finish?, Progress.finish, hlive]
    rw [hfinish]
    refine ⟨nofun, fun r hr => ⟨e, rfl, ?_, Board.ending?_strict h⟩⟩
    exact Phase.complete.inj hr

theorem settled_start {o : Opening} (ho : o.phase = .werera ∨ o.phase = .normal) :
    Settled v rules (start v rules o) := by
  refine settled_settle ?_ rfl rfl
  change o.phase.isComplete = false
  rcases ho with ho | ho <;> rw [ho] <;> rfl

theorem settled_step {c c' : Course} {m : Move} (hc : Settled v rules c)
    (h : Step v rules c m c') : Settled v rules c' := by
  cases h with
  | ended => exact ⟨hc.live, hc.ended⟩
  | blocked => exact ⟨hc.live, hc.ended⟩
  | @applied s t r d hlive hs ht happ hr hd =>
    have hprogress := (advance_eq_ok hd).2.1
    obtain ⟨hphase, hturn, hending⟩ := Progress.record_live hlive m.mover r.captured.isSome
    rw [← hprogress] at hphase hturn hending
    exact settled_settle hphase (hending.trans (hc.live hlive).1) hturn

theorem settled_run {o : Opening} {ms : List Move} {c : Course}
    (ho : o.phase = .werera ∨ o.phase = .normal)
    (h : ms.foldlM (play v rules) (start v rules o) = .ok c) : Settled v rules c :=
  run_induction (fun _ _ _ hc hstep => settled_step hc hstep) h (settled_start ho)

end Course

/-- The standing reports what the evaluation says of its position. -/
structure Standing.Reports (v : Variant) (rules : HouseRules) (s : Standing) : Prop where
  variant : s.variant = v
  live : s.phase.isComplete = false →
    s.ending = none ∧ s.board.ending? v s.turn (rules.allowsSelfCheck s.phase) = none
  ended : ∀ r, s.phase = .complete r → ∃ e, s.ending = some e ∧ e.reason = r ∧
    s.board.ending? v s.turn false = some e ∧ s.winner = e.winner
  checkmate : s.checkmate = true ↔ s.phase = .complete .checkmate
  stalemate : s.stalemate = true ↔ s.phase = .complete .stalemate
  check : s.checkmate = true → s.check = true
  noCheck : s.stalemate = true → s.check = false

namespace Course

variable {v : Variant} {rules : HouseRules}

theorem ending_any_iff {c : Course} (hc : Settled v rules c) (r : EndReason) :
    (c.progress.ending.any (·.reason = r)) = true ↔ c.progress.phase = .complete r := by
  cases hlive : c.progress.phase.isComplete with
  | false =>
    rw [(hc.live hlive).1]
    refine ⟨nofun, fun h => ?_⟩
    simp [h, Phase.isComplete] at hlive
  | true =>
    cases hphase : c.progress.phase with
    | werera => simp [hphase, Phase.isComplete] at hlive
    | normal => simp [hphase, Phase.isComplete] at hlive
    | complete r' =>
      obtain ⟨e, he, hreason, -⟩ := hc.ended r' hphase
      simp [he, hreason]

theorem reports_standing {c : Course} (hc : Settled v rules c) :
    (c.standing v).Reports v rules where
  variant := rfl
  live := hc.live
  ended := by
    intro r hr
    obtain ⟨e, he, hreason, hstrict⟩ := hc.ended r hr
    refine ⟨e, he, hreason, hstrict, ?_⟩
    change c.progress.ending.bind Ending.winner = e.winner
    rw [he, Option.bind_some]
  checkmate := ending_any_iff hc .checkmate
  stalemate := ending_any_iff hc .stalemate
  check := by
    intro h
    obtain ⟨e, -, hreason, hstrict⟩ := hc.ended _ ((ending_any_iff hc .checkmate).mp h)
    exact Board.inCheck_of_checkmate hstrict hreason
  noCheck := by
    intro h
    obtain ⟨e, -, hreason, hstrict⟩ := hc.ended _ ((ending_any_iff hc .stalemate).mp h)
    exact Board.not_inCheck_of_stalemate hstrict hreason

end Course

/-- Records on the board have a replay that reports the evaluation of its position, unless the
counter runs out of room for them. -/
theorem replay_reports (v : Variant) (rules : HouseRules) {o : Opening} {ms : List Move}
    (ho : o.phase = .werera ∨ o.phase = .normal) (hms : ∀ m ∈ ms, m.OnBoard) :
    (∃ s, replay v rules o ms = .ok s ∧ s.Reports v rules) ∨
      replay v rules o ms = .error .counterFull ∧
        UInt32.size ≤ o.moveCount.toNat + ms.length := by
  rcases replay_total v rules o hms with ⟨s, hs⟩ | h
  · obtain ⟨c, hc, rfl⟩ := replay_eq_ok.mp hs
    have hsettled := Course.run_induction
      (fun _ _ _ h hstep => Course.settled_step h hstep) hc (Course.settled_start ho)
    exact .inl ⟨_, hs, Course.reports_standing hsettled⟩
  · exact .inr h

/-- Black's king stands behind its pawns, and White's rook has row 0 within reach. -/
def Opening.backRow : Opening where
  board := .ofRows [List.replicate 7 none ++ [some (.fresh .king .black)],
    List.replicate 6 none ++ List.replicate 2 (some (.fresh .pawn .black)), [], [], [],
    [some (.fresh .rook .white)], [], [none, some (.fresh .king .white)]]
  phase := .normal
  turn := .white
  moveCount := 0

theorem replay_backRow_reports :
    ∃ s, replay .standard {} .backRow [⟨.numbered 1, ⟨5, 0⟩, ⟨0, 0⟩, .white, .rook, none, 10⟩] =
        .ok s ∧ s.Reports .standard {} ∧ s.phase = .complete .checkmate := by
  let m : Move := ⟨.numbered 1, ⟨5, 0⟩, ⟨0, 0⟩, .white, .rook, none, 10⟩
  have ho : Opening.backRow.phase = .werera ∨ Opening.backRow.phase = .normal := .inr rfl
  have hm : ∀ n ∈ [m], n.OnBoard := by decide
  have hcanonical : Move.canonical [m] = [m] :=
    (Move.IsCanonical.nil.concat nofun nofun).canonical_eq
  have hphase : ([m].foldlM (Course.play .standard {}) (.start .standard {} .backRow)).toOption.map
      (·.progress.phase) = some (.complete .checkmate) := by decide +kernel
  rcases replay_reports .standard {} ho hm with ⟨s, hs, hreports⟩ | ⟨-, hfull⟩
  · obtain ⟨c, hc, rfl⟩ := replay_eq_ok.mp hs
    rw [← hcanonical, hc] at hphase
    exact ⟨_, hs, hreports, Option.some.inj hphase⟩
  · exact absurd hfull (by decide)

end WereraChess
