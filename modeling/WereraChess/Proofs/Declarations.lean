import Mathlib.Data.List.Perm.Basic
import WereraChess.Message
import WereraChess.Proofs.Endings
/-!
# Declarations among moves

Moves, resignations and timeouts that are told of one session. The moves end up in its log whatever
their order. Of the declarations the first one that meets a live game is taken, so the order can only
be told from the standing if some order has a declaration come after the end of a game that is live
with all its moves, or if two of them differ.
-/
namespace WereraChess

namespace Message

/-- The record that the message brings. -/
def record? : Message → Option Move
  | movePublished _ m => some m
  | _ => none

/-- The ending that the message declares. -/
def declaration? : Message → Option Ending
  | resigned _ side => some (.resignation side)
  | timedOut _ side => some (.timeout side)
  | _ => none

def records (ms : List Message) : List Move := ms.filterMap record?

def declarations (ms : List Message) : List Ending := ms.filterMap declaration?

/-- The message tells of a move on the board, a resignation or a timeout. -/
inductive Tells (id : Uuid) : Message → Prop
  | moved {m : Move} (hm : m.OnBoard) : Tells id (.movePublished id m)
  | resigned (side : Side) : Tells id (.resigned id side)
  | timedOut (side : Side) : Tells id (.timedOut id side)

private theorem declaration?_of_record? {m : Message} {r : Move} (h : m.record? = some r) :
    m.declaration? = none := by
  cases m with
  | movePublished => rfl
  | _ => simp [record?] at h

variable {ms ns : List Message}

private theorem mem_records {r : Move} : r ∈ records ms ↔ ∃ m ∈ ms, m.record? = some r :=
  List.mem_filterMap

private theorem mem_declarations {e : Ending} :
    e ∈ declarations ms ↔ ∃ m ∈ ms, m.declaration? = some e :=
  List.mem_filterMap

private theorem records_eq_nil (h : ∀ m ∈ ms, m.record? = none) : records ms = [] :=
  List.filterMap_eq_nil_iff.mpr h

private theorem declarations_eq_nil (h : ∀ m ∈ ms, m.declaration? = none) : declarations ms = [] :=
  List.filterMap_eq_nil_iff.mpr h

end Message

private theorem MoveLog.mem_foldl_insert {rs : List Move} {log : MoveLog} {x : Move}
    (hrs : ∀ a ∈ rs, ∀ b ∈ rs, a.id = b.id → a = b) :
    x ∈ (rs.foldl insert log).moves ↔ x ∈ log.moves ∨ x ∈ rs ∧ log.contains x.id = false := by
  rw [mem_foldl_insert_iff, Move.arrivesFirst_iff_mem hrs, and_comm]

namespace Session

open Message

variable {s : Session} {r : Standing} {m : Message} {ms ns : List Message} {rs ps : List Move}

/-- The session with more records. -/
def logAll (s : Session) (rs : List Move) : Session := { s with log := rs.foldl MoveLog.insert s.log }

/-- The session after a message that tells of it. -/
def told (s : Session) (m : Message) : Session :=
  match m.record?, m.declaration? with
  | some r, _ => s.logged r
  | none, some e => s.declared e
  | none, none => s

def toldAll (s : Session) (ms : List Message) : Session := ms.foldl told s

private theorem toldAll_append : s.toldAll (ms ++ ns) = (s.toldAll ms).toldAll ns :=
  List.foldl_append

theorem logAll_append : s.logAll (rs ++ ps) = (s.logAll rs).logAll ps :=
  congrArg (fun log => ({ s with log } : Session)) List.foldl_append

theorem told_eq (s : Session) (m : Message) :
    s.told m = { s.logAll (records [m]) with resolution := (s.told m).resolution } := by
  cases m with
  | resigned id side => exact s.declared_eq (.resignation side)
  | timedOut id side => exact s.declared_eq (.timeout side)
  | _ => rfl

theorem records_cons (m : Message) (ms : List Message) :
    records (m :: ms) = records [m] ++ records ms :=
  List.filterMap_append (l := [m])

theorem toldAll_eq (s : Session) (ms : List Message) :
    s.toldAll ms = { s.logAll (records ms) with resolution := (s.toldAll ms).resolution } := by
  induction ms generalizing s with
  | nil => rfl
  | cons m ms ih =>
    calc s.toldAll (m :: ms)
      _ = { (s.told m).logAll (records ms) with resolution := (s.toldAll (m :: ms)).resolution } :=
        ih (s.told m)
      _ = { (s.logAll (records [m])).logAll (records ms) with
            resolution := (s.toldAll (m :: ms)).resolution } := by
        rw [told_eq]
        rfl
      _ = _ := by rw [← logAll_append, ← records_cons]

theorem replayed_toldAll : (s.toldAll ms).replayed = (s.logAll (records ms)).replayed := by
  rw [toldAll_eq]
  rfl

private theorem isOver_toldAll : (s.toldAll ms).isOver = (s.logAll (records ms)).isOver := by
  rw [isOver, replayed_toldAll]
  rfl

/-- The log with more records leads where it does whatever their order. -/
theorem replayed_logAll_congr (hrs : ∀ a ∈ rs, ∀ b ∈ rs, a.id = b.id → a = b)
    (h : ∀ x, x ∈ rs ↔ x ∈ ps) : (s.logAll rs).replayed = (s.logAll ps).replayed := by
  have hps (a : Move) (ha : a ∈ ps) (b : Move) (hb : b ∈ ps) : a.id = b.id → a = b :=
    hrs a ((h a).mpr ha) b ((h b).mpr hb)
  apply replay_eq_of_mem_iff
  intro x
  change x ∈ (rs.foldl MoveLog.insert s.log).moves ↔ x ∈ (ps.foldl MoveLog.insert s.log).moves
  rw [MoveLog.mem_foldl_insert hrs, MoveLog.mem_foldl_insert hps, h]

private theorem isOver_logAll_congr (hrs : ∀ a ∈ rs, ∀ b ∈ rs, a.id = b.id → a = b)
    (h : ∀ x, x ∈ rs ↔ x ∈ ps) : (s.logAll rs).isOver = (s.logAll ps).isOver := by
  rw [isOver, isOver, replayed_logAll_congr hrs h]

/-- A declaration decides a game that is live and has not been decided. -/
theorem resolution_told (s : Session) (m : Message) :
    (s.told m).resolution = s.resolution.or (if s.isOver then none else m.declaration?) := by
  have hdeclared (e : Ending) :
      (s.declared e).resolution = s.resolution.or (if s.isOver then none else some e) := by
    unfold declared
    cases hr : s.resolution <;> cases s.isOver <;> simp [hr]
  cases m with
  | resigned id side => exact hdeclared (.resignation side)
  | timedOut id side => exact hdeclared (.timeout side)
  | _ => simp [told, record?, declaration?, logged]

private theorem toldAll_cons : s.toldAll (m :: ms) = (s.told m).toldAll ms := rfl

private theorem resolution_toldAll_of_isSome (h : s.resolution.isSome = true) :
    (s.toldAll ms).resolution = s.resolution := by
  induction ms generalizing s with
  | nil => rfl
  | cons m ms ih =>
    have hstep : (s.told m).resolution = s.resolution := by
      rw [resolution_told, Option.or_of_isSome h]
    rw [toldAll_cons, ih (by rw [hstep, h]), hstep]

private theorem resolution_toldAll_of_declarations_eq_nil (h : declarations ms = []) :
    (s.toldAll ms).resolution = s.resolution := by
  induction ms generalizing s with
  | nil => rfl
  | cons m ms ih =>
    obtain ⟨hm, hms⟩ := List.forall_mem_cons.mp (List.filterMap_eq_nil_iff.mp h)
    rw [toldAll_cons, ih (declarations_eq_nil hms), resolution_told, hm, ite_self, Option.or_none]

private theorem forall_isOver_told {b : Bool}
    (h : ∀ rs ⊆ records (m :: ms), (s.logAll rs).isOver = b) :
    ∀ rs ⊆ records ms, ((s.told m).logAll rs).isOver = b := by
  intro rs hrs
  have hover : ((s.told m).logAll rs).isOver = ((s.logAll (records [m])).logAll rs).isOver := by
    rw [told_eq]
    rfl
  rw [hover, ← logAll_append]
  apply h
  rw [records_cons m ms, List.append_subset]
  exact ⟨List.subset_append_left .., List.subset_append_of_subset_right _ hrs⟩

private theorem resolution_toldAll_of_isOver (h : ∀ rs ⊆ records ms, (s.logAll rs).isOver = true) :
    (s.toldAll ms).resolution = s.resolution := by
  induction ms generalizing s with
  | nil => rfl
  | cons m ms ih =>
    have hover : s.isOver = true := h [] (List.nil_subset _)
    rw [toldAll_cons, ih (forall_isOver_told h), resolution_told, hover, if_pos rfl, Option.or_none]

/-- The first declaration decides a game that is live whichever of the moves have come. -/
theorem resolution_toldAll_of_live (hnone : s.resolution = none)
    (h : ∀ rs ⊆ records ms, (s.logAll rs).isOver = false) :
    (s.toldAll ms).resolution = (declarations ms).head? := by
  induction ms generalizing s with
  | nil => exact hnone
  | cons m ms ih =>
    have hlive : s.isOver = false := h [] (List.nil_subset _)
    have hstep : (s.told m).resolution = m.declaration? := by
      rw [resolution_told, hnone, hlive]
      rfl
    rw [toldAll_cons]
    cases he : m.declaration? with
    | none =>
      rw [ih (hstep.trans he) (forall_isOver_told h), declarations, declarations,
        List.filterMap_cons_none he]
    | some e =>
      rw [resolution_toldAll_of_isSome (by rw [hstep, he]; rfl), hstep, he, declarations,
        List.filterMap_cons_some he, List.head?_cons]

/-- The ways in which the order of messages cannot show: the game has been decided before, or it is
over with all the moves, or all the declarations say the same and come to a live game whichever of
the moves have come before them. -/
inductive OrderFree (s : Session) (ms : List Message) : Prop
  | decided (h : s.resolution.isSome = true)
  | ended (h : (s.logAll (records ms)).isOver = true)
  | unanimous (h : ∀ e ∈ declarations ms, ∀ e' ∈ declarations ms, e = e')
      (hlive : declarations ms ≠ [] → ∀ rs ⊆ records ms, (s.logAll rs).isOver = false)

theorem standing_toldAll (h : (s.logAll (records ms)).replayed = .ok r) :
    (s.toldAll ms).standing = .ok ((s.toldAll ms).resolution.elim r r.declare) :=
  standing_of_replayed (replayed_toldAll.trans h)

theorem replayed_logAll_perm (hids : ((records ms).map Move.id).Nodup) (hns : ns.Perm ms) :
    (s.logAll (records ns)).replayed = (s.logAll (records ms)).replayed := by
  have hperm : (records ns).Perm (records ms) := hns.filterMap record?
  have hinj := List.inj_on_of_nodup_map ((hperm.map Move.id).nodup_iff.mpr hids)
  exact replayed_logAll_congr (fun a ha b hb => hinj ha hb) fun x => hperm.mem_iff

private theorem declarations_eq_of_perm (hns : ns.Perm ms)
    (h : ∀ e ∈ declarations ms, ∀ e' ∈ declarations ms, e = e') :
    declarations ns = declarations ms := by
  have hperm : (declarations ns).Perm (declarations ms) := hns.filterMap declaration?
  have hns' (e : Ending) (he : e ∈ declarations ns) (e' : Ending) (he' : e' ∈ declarations ns) :
      e = e' := h e (hperm.subset he) e' (hperm.subset he')
  exact hperm.eq_of_pairwise (fun _ _ _ _ heq _ => heq) (List.pairwise_of_forall_mem_list hns')
    (List.pairwise_of_forall_mem_list h)

theorem OrderFree.exists_standing (h : s.OrderFree ms) (hids : ((records ms).map Move.id).Nodup)
    (hr : (s.logAll (records ms)).replayed = .ok r) :
    ∃ st, ∀ ns, ns.Perm ms → (s.toldAll ns).standing = .ok st := by
  have hstanding (ns : List Message) (hns : ns.Perm ms) : (s.toldAll ns).standing =
      .ok ((s.toldAll ns).resolution.elim r r.declare) :=
    standing_toldAll ((replayed_logAll_perm hids hns).trans hr)
  have hsubset (ns : List Message) (hns : ns.Perm ms) : records ns ⊆ records ms :=
    (hns.filterMap record?).subset
  have hresolution {o : Option Ending}
      (ho : ∀ ns, ns.Perm ms → (s.toldAll ns).resolution = o) :
      ∃ st, ∀ ns, ns.Perm ms → (s.toldAll ns).standing = .ok st :=
    ⟨o.elim r r.declare, fun ns hns => by rw [hstanding ns hns, ho ns hns]⟩
  by_cases hdecided : s.resolution.isSome = true
  · exact hresolution fun ns _ => resolution_toldAll_of_isSome hdecided
  · have hnone : s.resolution = none := by simpa using hdecided
    cases h with
    | decided h => exact absurd h hdecided
    | ended h =>
      cases ho : s.opening.phase.isComplete with
      | true =>
        apply hresolution
        exact fun ns _ => resolution_toldAll_of_isOver fun rs _ => isOver_of_opening (s := s.logAll rs) ho
      | false =>
        rw [isOver_of_replayed hr, isComplete_eq_isSome_ending (s := s.logAll (records ms)) ho hr] at h
        exact ⟨r, fun ns hns => by rw [hstanding ns hns, elim_declare_of_ending h]⟩
    | unanimous h hlive =>
      refine hresolution (o := (declarations ms).head?) fun ns hns => ?_
      have heq := declarations_eq_of_perm hns h
      by_cases hempty : declarations ms = []
      · rw [resolution_toldAll_of_declarations_eq_nil (heq.trans hempty), hnone, hempty]
        rfl
      · rw [← heq]
        exact resolution_toldAll_of_live hnone fun rs hrs =>
          hlive hempty rs (List.Subset.trans hrs (hsubset ns hns))

/-- When all the moves come first, any of the declarations may come next. -/
theorem exists_perm_declared {e : Ending} (hnone : s.resolution = none)
    (hlive : (s.logAll (records ms)).isOver = false) (he : e ∈ declarations ms) :
    ∃ ns, ns.Perm ms ∧ (s.toldAll ns).resolution = some e := by
  obtain ⟨m, hm, he⟩ := mem_declarations.mp he
  let moves := ms.filter fun m => m.record?.isSome
  let rest := ms.filter fun m => !m.record?.isSome
  have hsplit : (moves ++ rest).Perm ms := List.filter_append_perm ..
  have hrest : m ∈ rest := by
    cases hr : m.record? with
    | none => simp [rest, hm, hr]
    | some x => simp [declaration?_of_record? hr] at he
  have hquiet : declarations moves = [] := by
    refine declarations_eq_nil fun x hx => ?_
    obtain ⟨y, hy⟩ := Option.isSome_iff_exists.mp (List.mem_filter.mp hx).2
    exact declaration?_of_record? hy
  have hrecords : records moves = records ms := by
    simp only [records, moves, List.filterMap_filter]
    congr 1
    funext x
    cases x.record? <;> rfl
  have hbefore : (s.toldAll moves).resolution = none :=
    (resolution_toldAll_of_declarations_eq_nil hquiet).trans hnone
  have hstep : ((s.toldAll moves).told m).resolution = some e := by
    rw [resolution_told, hbefore, isOver_toldAll, hrecords, hlive, he]
    rfl
  refine ⟨moves ++ m :: rest.erase m, ?_, ?_⟩
  · exact ((List.perm_cons_erase hrest).symm.append_left moves).trans hsplit
  · rw [toldAll_append, toldAll_cons, resolution_toldAll_of_isSome (by rw [hstep]; rfl), hstep]

/-- When the declarations come after moves with which the game is over, none of them counts. -/
theorem exists_perm_refused (hids : ((records ms).map Move.id).Nodup) (hrs : rs ⊆ records ms)
    (hover : (s.logAll rs).isOver = true) :
    ∃ ns, ns.Perm ms ∧ (s.toldAll ns).resolution = s.resolution := by
  let early := ms.filter fun m => m.record?.any (· ∈ rs)
  let late := ms.filter fun m => !m.record?.any (· ∈ rs)
  let calls := late.filter fun m => m.declaration?.isSome
  let others := late.filter fun m => !m.declaration?.isSome
  have hearly : declarations early = [] := by
    refine declarations_eq_nil fun x hx => ?_
    have hbrings := (List.mem_filter.mp hx).2
    cases hr : x.record? with
    | none => simp [hr] at hbrings
    | some y => exact declaration?_of_record? hr
  have hcalls : records calls = [] := by
    refine records_eq_nil fun x hx => ?_
    have hdeclares := (List.mem_filter.mp hx).2
    cases hr : x.record? with
    | none => rfl
    | some y => simp [declaration?_of_record? hr] at hdeclares
  have hothers : declarations others = [] := by
    refine declarations_eq_nil fun x hx => ?_
    simpa using (List.mem_filter.mp hx).2
  have hmem (x : Move) : x ∈ rs ↔ x ∈ records early := by
    constructor
    · intro hx
      obtain ⟨m, hm, hr⟩ := mem_records.mp (hrs hx)
      exact mem_records.mpr ⟨m, List.mem_filter.mpr ⟨hm, by simp [hr, hx]⟩, hr⟩
    · intro hx
      obtain ⟨m, hm, hr⟩ := mem_records.mp hx
      simpa [hr] using (List.mem_filter.mp hm).2
  have hinj (a : Move) (ha : a ∈ rs) (b : Move) (hb : b ∈ rs) : a.id = b.id → a = b :=
    List.inj_on_of_nodup_map hids (hrs ha) (hrs hb)
  have hended : (s.toldAll early).isOver = true := by
    rw [isOver_toldAll, ← isOver_logAll_congr hinj hmem, hover]
  refine ⟨early ++ (calls ++ others), ?_, ?_⟩
  · have hlate : (calls ++ others).Perm late := List.filter_append_perm ..
    exact (hlate.append_left early).trans (List.filter_append_perm ..)
  · rw [toldAll_append, toldAll_append, resolution_toldAll_of_declarations_eq_nil hothers,
      resolution_toldAll_of_isOver, resolution_toldAll_of_declarations_eq_nil hearly]
    intro ps hps
    rw [hcalls, List.subset_nil] at hps
    rw [hps]
    exact hended

theorem orderFree_of_standing {st : Standing} (hids : ((records ms).map Move.id).Nodup)
    (hr : (s.logAll (records ms)).replayed = .ok r)
    (h : ∀ ns, ns.Perm ms → (s.toldAll ns).standing = .ok st) : s.OrderFree ms := by
  by_cases hdecided : s.resolution.isSome = true
  · exact .decided hdecided
  have hnone : s.resolution = none := by simpa using hdecided
  cases hlive : (s.logAll (records ms)).isOver with
  | true => exact .ended hlive
  | false =>
    have hending := ending_of_not_isOver hr hlive
    have hresolution (ns : List Message) (hns : ns.Perm ms) :
        (s.toldAll ns).resolution = st.ending := by
      have heq := standing_toldAll ((replayed_logAll_perm hids hns).trans hr)
      rw [h ns hns] at heq
      rw [Except.ok.inj heq, ending_elim_declare hending]
    have hdeclared (e : Ending) (he : e ∈ declarations ms) : st.ending = some e := by
      obtain ⟨ns, hns, hres⟩ := exists_perm_declared hnone hlive he
      rw [← hresolution ns hns, hres]
    refine .unanimous (fun e he e' he' => ?_) fun hne rs hrs => ?_
    · exact Option.some.inj ((hdeclared e he).symm.trans (hdeclared e' he'))
    · by_contra hover
      obtain ⟨ns, hns, hres⟩ := exists_perm_refused hids hrs (by simpa using hover)
      obtain ⟨e, he⟩ := List.exists_mem_of_ne_nil _ hne
      have heq := (hresolution ns hns).symm.trans (hres.trans hnone)
      rw [hdeclared e he] at heq
      simp at heq

end Session

end WereraChess
