import WereraChess.Proofs.Course
import WereraChess.Proofs.Insertion
/-!
# Records in the order of their arrival

Of different records under one identifier a log keeps the one that arrives first, and replay the one
that is least in the full order. The log of a list of records leads where the list does if these two
make the same move; if they do not, the order of arrival can be told from the standing.
-/
namespace WereraChess

namespace Move

/-- The record is the least with its identifier. -/
def IsLeast (rs : List Move) (m : Move) : Prop :=
  m ∈ rs ∧ ∀ n ∈ rs, n.id = m.id → m.fullKey.le n.fullKey = true

/-- The record without what it says of the pieces. -/
def unclaimed (m : Move) : Move := { m with piece := .king, captured := none }

/-- Of every identifier the first record makes the move of the least. -/
def InTurn (rs : List Move) : Prop :=
  ∀ m ∈ rs, ∀ n ∈ rs, m.ArrivesFirst rs → n.IsLeast rs → m.id = n.id → m.unclaimed = n.unclaimed

instance (rs : List Move) : DecidablePred (IsLeast rs) :=
  fun m => inferInstanceAs (Decidable (m ∈ rs ∧ ∀ n ∈ rs, n.id = m.id → _))

instance : DecidablePred InTurn :=
  fun rs => inferInstanceAs (Decidable (∀ m ∈ rs, ∀ n ∈ rs, _ → _ → _ → _))

variable {rs : List Move} {m n : Move}

theorem exists_isLeast (h : n ∈ rs) : ∃ m : Move, m.IsLeast rs ∧ m.id = n.id := by
  let sorted := (rs.filter (·.id = n.id)).mergeSort fun a b => a.fullKey.le b.fullKey
  have hmem (x : Move) : x ∈ sorted ↔ x ∈ rs ∧ x.id = n.id := by
    simp only [sorted, List.mem_mergeSort, List.mem_filter, decide_eq_true_eq]
  have hsorted : sorted.Pairwise fun a b => a.fullKey.le b.fullKey :=
    List.pairwise_mergeSort (fun a b c => Key.le_trans a.fullKey b.fullKey c.fullKey)
      (fun a b => Key.le_total a.fullKey b.fullKey) _
  clear_value sorted
  cases sorted with
  | nil => exact absurd ((hmem n).mpr ⟨h, rfl⟩) List.not_mem_nil
  | cons m ms =>
    obtain ⟨hm, hid⟩ := (hmem m).mp List.mem_cons_self
    refine ⟨m, ⟨hm, ?_⟩, hid⟩
    intro x hx hxm
    rcases List.mem_cons.mp ((hmem x).mpr ⟨hx, hxm.trans hid⟩) with rfl | htail
    · exact Key.le_refl _
    · exact (List.pairwise_cons.mp hsorted).1 x htail

private theorem id_unclaimed (m : Move) : m.unclaimed.id = m.id := rfl

theorem IsCanonical.map_unclaimed (h : IsCanonical rs) : IsCanonical (rs.map unclaimed) := by
  constructor
  · exact List.pairwise_map.mpr h.ascending
  · rw [List.map_map]
    exact h.distinct

end Move

/-- Replay does not read what a record says of the pieces. -/
theorem Course.run_map_unclaimed (v : Variant) (rules : HouseRules) (c : Course) (ms : List Move) :
    (ms.map Move.unclaimed).foldlM (play v rules) c = ms.foldlM (play v rules) c := by
  rw [List.foldlM_map]
  rfl

private theorem replay_map_unclaimed (v : Variant) (rules : HouseRules) (o : Opening)
    {ms : List Move} (h : Move.IsCanonical ms) :
    replay v rules o (ms.map Move.unclaimed) = replay v rules o ms := by
  rw [replay_of_isCanonical _ _ _ h.map_unclaimed, replay_of_isCanonical _ _ _ h,
    Course.run_map_unclaimed]

namespace MoveLog

open Move

theorem mem_ofList {rs : List Move} {x : Move} :
    x ∈ (ofList rs).moves ↔ x.ArrivesFirst rs := by
  rw [ofList, mem_foldl_insert_iff]
  simp [empty, contains]

theorem isCanonical_ofList (rs : List Move) : IsCanonical (ofList rs).moves :=
  isCanonical_foldl_insert isCanonical_empty rs

/-- The log holds the moves that replay makes exactly if of every identifier the first record makes
the move of the least. -/
theorem map_unclaimed_ofList_iff (rs : List Move) :
    (ofList rs).moves.map unclaimed = (canonical rs).map unclaimed ↔ InTurn rs := by
  have hlog := isCanonical_ofList rs
  have hcanonical := isCanonical_canonical rs
  constructor
  · intro h m hm n hn hfirst hleast hid
    have hmem : m.unclaimed ∈ (canonical rs).map unclaimed := by
      rw [← h]
      exact List.mem_map_of_mem (mem_ofList.mpr hfirst)
    obtain ⟨x, hx, heq⟩ := List.mem_map.mp hmem
    have hxid : x.id = n.id := by rw [← id_unclaimed, heq, id_unclaimed, hid]
    rw [← heq, hcanonical.eq_of_id_eq hx (mem_canonical.mpr hleast) hxid]
  · intro h
    apply hlog.map_unclaimed.ext hcanonical.map_unclaimed
    intro x
    rw [List.mem_map, List.mem_map]
    constructor
    · rintro ⟨m, hm, rfl⟩
      have hfirst := mem_ofList.mp hm
      obtain ⟨n, hn, hid⟩ := exists_isLeast hfirst.mem
      exact ⟨n, mem_canonical.mpr hn, (h m hfirst.mem n hn.1 hfirst hn hid.symm).symm⟩
    · rintro ⟨n, hn, rfl⟩
      have hleast := mem_canonical.mp hn
      obtain ⟨m, hm, hid⟩ := exists_arrivesFirst hleast.1
      exact ⟨m, mem_ofList.mpr hm, h m hm.mem n hleast.1 hm hleast hid⟩

private theorem replay_ofList_of_inTurn {rs : List Move} (h : InTurn rs) (v : Variant)
    (rules : HouseRules) (o : Opening) :
    replay v rules o (ofList rs).moves = replay v rules o rs := by
  have hreplay : replay v rules o (canonical rs) = replay v rules o rs := by
    rw [replay, replay, (isCanonical_canonical rs).canonical_eq]
  rw [← replay_map_unclaimed v rules o (isCanonical_ofList rs), (map_unclaimed_ofList_iff rs).mpr h,
    replay_map_unclaimed v rules o (isCanonical_canonical rs), hreplay]

/-- Where of every identifier the first record makes the move of the least, and nowhere else, the log
of a list of records holds the moves that replay makes. It then has the replay of the list, and so has
the log of the same records in any other such order. -/
theorem replay_ofList (rs : List Move) :
    ((ofList rs).moves.map unclaimed = (canonical rs).map unclaimed ↔ InTurn rs) ∧
      (InTurn rs → ∀ v rules o, replay v rules o (ofList rs).moves = replay v rules o rs) ∧
      ∀ ps, (∀ m, m ∈ rs ↔ m ∈ ps) → InTurn rs → InTurn ps →
        ∀ v rules o, replay v rules o (ofList rs).moves = replay v rules o (ofList ps).moves := by
  refine ⟨map_unclaimed_ofList_iff rs, replay_ofList_of_inTurn, ?_⟩
  intro ps hmem hrs hps v rules o
  rw [replay_ofList_of_inTurn hrs, replay_ofList_of_inTurn hps, replay, replay, canonical_congr hmem]

theorem replay_ofList_colliding_reverse :
    InTurn colliding.reverse ∧ ¬ (colliding.reverse.map Move.id).Nodup ∧
      replay .senterej {} (.initial .senterej) (ofList colliding.reverse).moves =
        replay .senterej {} (.initial .senterej) colliding.reverse := by
  have h : InTurn colliding.reverse := by decide
  exact ⟨h, by decide, (replay_ofList _).2.1 h _ _ _⟩

/-- The log of the same records in another order has neither the replay of the list nor that of the
first log: White's pawn has moved, and the record that sorts before its move is lost. -/
theorem replay_ofList_colliding_ne :
    (∀ m ∈ colliding, m.OnBoard) ∧ colliding.reverse.Perm colliding ∧
      replay .senterej {} (.initial .senterej) (ofList colliding).moves ≠
        replay .senterej {} (.initial .senterej) colliding ∧
      replay .senterej {} (.initial .senterej) (ofList colliding).moves ≠
        replay .senterej {} (.initial .senterej) (ofList colliding.reverse).moves := by
  let left (rs : List Move) : Option Bool :=
    (replay .senterej {} (.initial .senterej) (ofList rs).moves).toOption.map
      fun st => (st.board.get ⟨6, 0⟩).isNone
  have hleft (rs ms : List Move) (h : (ofList rs).moves = ms) : left rs =
      ((ms.foldlM (Course.play .senterej {}) (Course.start .senterej {} (.initial .senterej))).map
        (Course.standing .senterej)).toOption.map fun st => (st.board.get ⟨6, 0⟩).isNone := by
    rw [← h, ← replay_of_isCanonical _ _ _ (isCanonical_ofList rs)]
  have hcolliding : left colliding = some true := by
    rw [hleft colliding colliding.reverse.tail (by decide +kernel)]
    decide +kernel
  have hreverse : left colliding.reverse = some false := by
    rw [hleft colliding.reverse (colliding.reverse.take 2) (by decide +kernel)]
    decide +kernel
  have hne : replay .senterej {} (.initial .senterej) (ofList colliding).moves ≠
      replay .senterej {} (.initial .senterej) (ofList colliding.reverse).moves := by
    intro h
    have hsame : left colliding = left colliding.reverse := by
      simp only [left, h]
    rw [hcolliding, hreverse] at hsame
    exact absurd hsame (by decide)
  refine ⟨by decide, List.reverse_perm _, ?_, hne⟩
  have hlist : replay .senterej {} (.initial .senterej) colliding =
      replay .senterej {} (.initial .senterej) colliding.reverse := by
    have hmem (m : Move) : m ∈ colliding ↔ m ∈ colliding.reverse := List.mem_reverse.symm
    rw [replay, replay, canonical_congr hmem]
  have hinTurn : InTurn colliding.reverse := by decide
  rw [hlist, ← replay_ofList_of_inTurn hinTurn]
  exact hne

end MoveLog

end WereraChess
