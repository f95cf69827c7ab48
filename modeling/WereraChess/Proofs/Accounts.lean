import Mathlib.Data.List.Dedup
import WereraChess.Proofs.Application
import WereraChess.Proofs.Arrivals
/-!
# The account of a replay

Of every identifier a replay takes up one record, which it either applies or skips. The moves that
it has counted and the identifiers that it has noted as skipped add up to the identifiers of its
records, and for every record the board before it tells which of the two became of it.
-/
namespace WereraChess

namespace Move

theorem IsCanonical.of_append {ms ns : List Move} (h : IsCanonical (ms ++ ns)) :
    IsCanonical ms := by
  have hsub := List.sublist_append_left ms ns
  exact ⟨h.ascending.sublist hsub, h.distinct.sublist (hsub.map Move.id)⟩

private theorem canonical_eq_of_isLeast {ms ns : List Move} (hns : IsCanonical ns)
    (hleast : ∀ m ∈ ns, m.IsLeast ms) (hmem : ∀ m ∈ ms, m.IsLeast ms → m ∈ ns) :
    canonical ms = ns := by
  apply (isCanonical_canonical ms).ext hns
  intro m
  constructor
  · intro hm
    have hm' : m.IsLeast ms := mem_canonical.mp hm
    exact hmem m hm'.1 hm'
  · intro hm
    exact mem_canonical.mpr (hleast m hm)

private theorem length_canonical (ms : List Move) :
    (canonical ms).length = (ms.map Move.id).dedup.length := by
  have hperm : ((canonical ms).map Move.id).Perm (ms.map Move.id).dedup := by
    apply (List.perm_ext_iff_of_nodup (isCanonical_canonical ms).distinct (List.nodup_dedup _)).mpr
    intro id
    rw [List.mem_dedup, List.mem_map, List.mem_map]
    constructor
    · intro ⟨m, hm, hid⟩
      exact ⟨m, (mem_canonical.mp hm).1, hid⟩
    · intro ⟨n, hn, hid⟩
      obtain ⟨m, hleast, hm⟩ := exists_isLeast hn
      exact ⟨m, mem_canonical.mpr hleast, hm.trans hid⟩
  rw [← hperm.length_eq, List.length_map]

end Move

namespace Course

variable {v : Variant} {rules : HouseRules} {c c' d e : Course} {m : Move} {ms pre post : List Move}

/-- A run notes some of the identifiers as skipped, in their order, and counts a move for each of
the others. -/
theorem run_accounts (h : ms.foldlM (play v rules) c = .ok c') : ∃ ids,
    c'.skipped = c.skipped ++ ids ∧ ids.Sublist (ms.map Move.id) ∧
      c'.moveCount.toNat + ids.length = c.moveCount.toNat + ms.length := by
  induction ms generalizing c with
  | nil =>
    obtain rfl := Except.ok.inj h
    exact ⟨[], (List.append_nil _).symm, .slnil, rfl⟩
  | cons m ms ih =>
    rw [List.foldlM_cons] at h
    obtain ⟨d, hd, h⟩ := bind_eq_ok.mp h
    have hstep := play_eq_ok_iff.mp hd
    obtain ⟨ids, hskipped, hsub, hcount⟩ := ih h
    cases hrefused : m.isRefused c.progress.phase c.board with
    | true =>
      obtain rfl := hstep.eq_skip hrefused
      refine ⟨m.id :: ids, ?_, hsub.cons_cons m.id, ?_⟩
      · rw [hskipped, skip, List.append_assoc, List.singleton_append]
      · have hsame : (c.skip m).moveCount = c.moveCount := rfl
        rw [hsame] at hcount
        rw [List.length_cons, List.length_cons]
        omega
    | false =>
      obtain ⟨s, t, hplayed⟩ := hstep.exists_played hrefused
      refine ⟨ids, ?_, hsub.cons m.id, ?_⟩
      · rw [hskipped, hplayed.skipped]
      · have hone := hplayed.moveCount
        rw [List.length_cons]
        omega

/-- A record is noted as skipped by its own step or not at all. -/
theorem mem_skipped_iff (hid : ((pre ++ m :: post).map Move.id).Nodup) (hc : c.skipped = [])
    (hd : pre.foldlM (play v rules) c = .ok d) (hstep : Step v rules d m e)
    (hpost : post.foldlM (play v rules) e = .ok c') :
    m.id ∈ c'.skipped ↔ m.isRefused d.progress.phase d.board = true := by
  rw [List.map_append, List.map_cons, List.nodup_middle, List.nodup_cons, List.mem_append,
    not_or] at hid
  obtain ⟨⟨hpre, hlate⟩, -⟩ := hid
  obtain ⟨ids, hearlier, hsub, -⟩ := run_accounts hd
  obtain ⟨ids', hlater, hsub', -⟩ := run_accounts hpost
  have hbefore : m.id ∉ d.skipped := by
    rw [hearlier, hc, List.nil_append]
    exact fun hmem => hpre (hsub.subset hmem)
  have hafter : m.id ∈ c'.skipped ↔ m.id ∈ e.skipped := by
    rw [hlater, List.mem_append, or_iff_left]
    exact fun hmem => hlate (hsub'.subset hmem)
  rw [hafter]
  cases hrefused : m.isRefused d.progress.phase d.board with
  | true => simp [hstep.eq_skip hrefused, skip]
  | false =>
    obtain ⟨s, t, hplayed⟩ := hstep.exists_played hrefused
    simp [hplayed.skipped, hbefore]

end Course

namespace Standing

/-- The standing `after` is the standing `before` with the record taken up: skipped if it is
refused, and otherwise applied. -/
structure Takes (before : Standing) (m : Move) (after : Standing) : Prop where
  skipped : m.isRefused before.phase before.board = true →
    after = { before with skipped := before.skipped ++ [m.id] }
  applied : m.isRefused before.phase before.board = false →
    ∃ s t r, m.source.square? = some s ∧ m.target.square? = some t ∧
      before.board.relocate s t = some r ∧ after.board = r.board ∧
      after.moveCount.toNat = before.moveCount.toNat + 1 ∧ after.skipped = before.skipped

/-- The standing accounts for every record that it was replayed from. -/
structure Accounts (v : Variant) (rules : HouseRules) (o : Opening) (ms : List Move)
    (st : Standing) : Prop where
  total : st.moveCount.toNat + st.skipped.length =
    o.moveCount.toNat + (ms.map Move.id).dedup.length
  noRepeats : st.skipped.Nodup
  inOrder : st.skipped.Sublist ((Move.canonical ms).map Move.id)
  record (pre post : List Move) (m : Move) (h : Move.canonical ms = pre ++ m :: post) :
    ∃ before after, replay v rules o pre = .ok before ∧ replay v rules o (pre ++ [m]) = .ok after ∧
      before.Takes m after ∧
      (m.id ∈ st.skipped ↔ before.phase.isComplete = true ∨
        before.board.holds m.mover m.source = false ∨
        before.board.holds m.mover m.target = true)

end Standing

namespace Course

variable {v : Variant} {rules : HouseRules} {o : Opening} {c c' d e : Course} {m : Move}
  {ms pre post : List Move}

private theorem takes_standing (h : Step v rules c m c') :
    (c.standing v).Takes m (c'.standing v) where
  skipped hrefused := by
    rw [h.eq_skip hrefused]
    rfl
  applied hrefused := by
    obtain ⟨s, t, hplayed⟩ := h.exists_played hrefused
    obtain ⟨r, hr⟩ := Option.isSome_iff_exists.mp hplayed.relocated
    have hboard : c'.board = r.board := by
      rw [hplayed.board, Board.after, hr]
    exact ⟨s, t, r, hplayed.source, hplayed.target, hr, hboard, hplayed.moveCount,
      hplayed.skipped⟩

private theorem replay_of_run (hms : Move.IsCanonical ms)
    (h : ms.foldlM (play v rules) (start v rules o) = .ok c) :
    replay v rules o ms = .ok (c.standing v) := by
  rw [replay_of_isCanonical _ _ _ hms, h]
  rfl

theorem exists_step_of_cut
    (h : (Move.canonical ms).foldlM (play v rules) (start v rules o) = .ok c)
    (hcut : Move.canonical ms = pre ++ m :: post) :
    ∃ d e, pre.foldlM (play v rules) (start v rules o) = .ok d ∧ Step v rules d m e ∧
      replay v rules o pre = .ok (d.standing v) ∧
      replay v rules o (pre ++ [m]) = .ok (e.standing v) ∧
      (m.id ∈ c.skipped ↔ m.isRefused d.progress.phase d.board = true) := by
  have hcanonical := Move.isCanonical_canonical ms
  rw [hcut] at h hcanonical
  obtain ⟨d, e, hd, hstep, hpost⟩ := run_append_cons.mp h
  have hpre : Move.IsCanonical (pre ++ [m]) := by
    rw [← List.singleton_append, ← List.append_assoc] at hcanonical
    exact hcanonical.of_append
  exact ⟨d, e, hd, hstep, replay_of_run hpre.of_append hd,
    replay_of_run hpre (run_concat.mpr ⟨d, hd, hstep⟩),
    mem_skipped_iff hcanonical.distinct rfl hd hstep hpost⟩

theorem accounts_standing
    (h : (Move.canonical ms).foldlM (play v rules) (start v rules o) = .ok c) :
    (c.standing v).Accounts v rules o ms := by
  obtain ⟨ids, hskipped, hsub, hcount⟩ := run_accounts h
  have hids : c.skipped = ids := hskipped
  constructor
  · change c.moveCount.toNat + c.skipped.length = _
    rw [hids, hcount, Move.length_canonical]
    rfl
  · change c.skipped.Nodup
    rw [hids]
    exact (Move.isCanonical_canonical ms).distinct.sublist hsub
  · change c.skipped.Sublist _
    rw [hids]
    exact hsub
  · intro pre post m hcut
    obtain ⟨d, e, -, hstep, hbefore, hafter, hmem⟩ := exists_step_of_cut h hcut
    rw [Move.isRefused, Bool.or_eq_true, Bool.or_eq_true, Bool.not_eq_true', or_assoc] at hmem
    exact ⟨d.standing v, e.standing v, hbefore, hafter, takes_standing hstep, hmem⟩

end Course

/-- Records on the board have a replay that applies or skips one record of every identifier, by what
the board before it holds, unless the counter runs out of room for them. -/
theorem replay_accounts (v : Variant) (rules : HouseRules) (o : Opening) {ms : List Move}
    (hms : ∀ m ∈ ms, m.OnBoard) :
    (∃ st, replay v rules o ms = .ok st ∧ st.Accounts v rules o ms) ∨
      replay v rules o ms = .error .counterFull ∧
        UInt32.size ≤ o.moveCount.toNat + ms.length := by
  rcases replay_total v rules o hms with ⟨st, hst⟩ | hfull
  · obtain ⟨c, hc, rfl⟩ := replay_eq_ok.mp hst
    exact .inl ⟨_, hst, Course.accounts_standing hc⟩
  · exact .inr hfull

def Move.stayed : Move := ⟨.numbered 5, ⟨7, 1⟩, ⟨7, 1⟩, .white, .king, none, 15⟩

/-- The forged records in disorder and with a repeat, one more under an identifier of theirs, and
the king that stays. -/
def Move.tangled : List Move :=
  forged.reverse ++ [⟨.numbered 2, ⟨1, 6⟩, ⟨2, 6⟩, .black, .pawn, none, 25⟩, stayed] ++
    forged.take 1

theorem Move.canonical_tangled : canonical tangled = forged.insertIdx 1 stayed :=
  canonical_eq_of_isLeast ⟨by decide, by decide⟩ (by decide) (by decide)

theorem replay_tangled_accounts :
    (∀ m ∈ Move.tangled, m.OnBoard) ∧
      ∃ st, replay .senterej {} .backRow Move.tangled = .ok st ∧
        st.Accounts .senterej {} .backRow Move.tangled ∧
        (Move.tangled.map Move.id).dedup.length = 4 ∧
        st.moveCount = 2 ∧ st.skipped = [.numbered 5, .numbered 3] := by
  have hms : ∀ m ∈ Move.tangled, m.OnBoard := by decide
  have hreplay : (replay .senterej {} .backRow Move.tangled).toOption.map
      (fun st => (st.moveCount, st.skipped)) = some (2, [.numbered 5, .numbered 3]) := by
    rw [replay, Move.canonical_tangled]
    decide +kernel
  rcases replay_accounts .senterej {} .backRow hms with ⟨st, hst, haccounts⟩ | ⟨-, hfull⟩
  · rw [hst] at hreplay
    obtain ⟨hcount, hskipped⟩ := Prod.mk.inj (Option.some.inj hreplay)
    exact ⟨hms, st, hst, haccounts, by decide, hcount, hskipped⟩
  · exact absurd hfull (by decide)

end WereraChess
