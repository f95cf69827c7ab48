import WereraChess.Proofs.Arrivals
import WereraChess.Proofs.Provenance
/-!
# Records offered to a log

A log that began empty holds the first record of every identifier that it was offered, by time, then
side, then identifier. It takes a record exactly if the identifier is new, into its place between
the others, and what it holds in the end does not depend on the order of the offers unless different
records share an identifier.
-/
namespace WereraChess

/-- The record is earlier than the other, or of the same time and White's where the other is
Black's, or of the same time and side with the smaller identifier. -/
def Move.Before (a b : Move) : Prop :=
  a.timestamp < b.timestamp ∨ a.timestamp = b.timestamp ∧
    (a.mover = .white ∧ b.mover = .black ∨ a.mover = b.mover ∧ a.id.value < b.id.value)

private theorem Move.key_lt_iff_before {a b : Move} : a.key.lt b.key = true ↔ a.Before b := by
  have hside : a.mover.ordinal < b.mover.ordinal ↔ a.mover = .white ∧ b.mover = .black := by
    cases a.mover <;> cases b.mover <;> simp [Side.ordinal]
  have hsame : a.mover.ordinal = b.mover.ordinal ↔ a.mover = b.mover :=
    ⟨Side.ordinal_injective, congrArg Side.ordinal⟩
  simp only [Before, UInt64.lt_iff_toNat_lt, BitVec.lt_def, ← hside, ← hsame, ← UInt64.toNat_inj,
    key, Key.lt, Key.le]
  by_cases htime : b.timestamp.toNat = a.timestamp.toNat
  · by_cases hmover : b.mover.ordinal = a.mover.ordinal
    · simp [htime, hmover]
      omega
    · simp [htime, hmover]
      omega
  · simp [htime]
    omega

namespace MoveLog

variable {log : MoveLog} {m : Move}

/-- What an offer does: a record whose identifier is new goes in between the others, and any other
leaves the log as it is. -/
structure Takes (log : MoveLog) (m : Move) (new : Bool) (log' : MoveLog) : Prop where
  new_iff : new = true ↔ ∀ a ∈ log.moves, a.id ≠ m.id
  gains : new = true → ∃ pre post, log.moves = pre ++ post ∧ log'.moves = pre ++ m :: post
  keeps : new = false → log' = log

private theorem takes_offer (log : MoveLog) (m : Move) :
    log.Takes m (log.offer m).1 (log.offer m).2 := by
  cases hid : log.contains m.id with
  | true =>
    simp only [offer, hid, insert_of_contains hid]
    refine ⟨?_, nofun, fun _ => rfl⟩
    simpa [contains_iff] using hid
  | false =>
    simp only [offer, hid]
    refine ⟨?_, fun _ => ?_, nofun⟩
    · simpa using contains_eq_false_iff.mp hid
    · exact ⟨_, _, (List.take_append_drop _ _).symm, moves_insert hid⟩

private theorem get?_eq_some_iff (hc : Move.IsCanonical log.moves) {id : Uuid} :
    log.get? id = some m ↔ m ∈ log.moves ∧ m.id = id := by
  constructor
  · intro h
    exact ⟨List.mem_of_find?_eq_some h, by simpa using List.find?_some h⟩
  · intro h
    cases hfind : log.get? id with
    | none => simpa [h.2] using List.find?_eq_none.mp hfind m h.1
    | some a =>
      have hid : a.id = id := by simpa using List.find?_some hfind
      rw [hc.eq_of_id_eq (List.mem_of_find?_eq_some hfind) h.1 (hid.trans h.2.symm)]

private theorem get?_ofList (ms : List Move) (id : Uuid) :
    (ofList ms).get? id = ms.find? (·.id = id) := by
  ext m
  rw [get?_eq_some_iff (isCanonical_ofList ms), mem_ofList, Move.ArrivesFirst]
  constructor
  · intro h
    rw [← h.2]
    exact h.1
  · intro h
    have hid : m.id = id := by simpa using List.find?_some h
    exact ⟨hid ▸ h, hid⟩

private theorem ofList_congr {ms ns : List Move} (hmem : ∀ m, m ∈ ms ↔ m ∈ ns)
    (hid : ∀ a ∈ ms, ∀ b ∈ ms, a.id = b.id → a = b) : ofList ms = ofList ns := by
  have hid' : ∀ a ∈ ns, ∀ b ∈ ns, a.id = b.id → a = b := by simpa only [hmem] using hid
  have hmoves : (ofList ms).moves = (ofList ns).moves := by
    apply (isCanonical_ofList ms).ext (isCanonical_ofList ns)
    intro m
    rw [mem_ofList, mem_ofList, Move.arrivesFirst_iff_mem hid, Move.arrivesFirst_iff_mem hid', hmem]
  exact congrArg mk hmoves

/-- What a log has become of the records that it was offered in turn. -/
structure Gathers (ms : List Move) (log : MoveLog) : Prop where
  ascending : log.moves.Pairwise Move.Before
  distinct : (log.moves.map Move.id).Nodup
  first : ∀ id, log.get? id = ms.find? (·.id = id)
  latest : ∀ t, log.latest? = some t ↔
    (∃ a ∈ log.moves, a.timestamp = t) ∧ ∀ a ∈ log.moves, a.timestamp ≤ t
  offered : ∀ m, log.Takes m (log.offer m).1 (log.offer m).2
  received : ∀ (s s' : Session) m new, s.log = log → s.receive m = .ok (new, s') →
    (new, s'.log) = log.offer m
  orderFree : ∀ ns, (∀ m, m ∈ ms ↔ m ∈ ns) → (∀ a ∈ ms, ∀ b ∈ ms, a.id = b.id → a = b) →
    ofList ns = log
  replayed : Move.canonical log.moves = log.moves

/-- Whatever records a log is offered from the beginning, it is in order, holds the first of every
identifier and is what replay works on; in another order, the same records make the same log. -/
theorem gathers_ofList (ms : List Move) : Gathers ms (ofList ms) where
  ascending := (isCanonical_ofList ms).ascending.imp Move.key_lt_iff_before.mp
  distinct := (isCanonical_ofList ms).distinct
  first := get?_ofList ms
  latest := latest?_of_isCanonical (isCanonical_ofList ms)
  offered := takes_offer (ofList ms)
  received := by
    intro s s' m new hs h
    obtain ⟨-, rfl, rfl⟩ := Session.receive_eq_ok.mp h
    rw [← hs]
    rfl
  orderFree := fun _ hmem hid => (ofList_congr hmem hid).symm
  replayed := (isCanonical_ofList ms).canonical_eq

/-- The second record of an identifier is turned away, and of two records with different identifiers
the earlier stands first, in whichever order they come. -/
theorem gathers_colliding :
    (ofList Move.colliding).get? (.numbered 1) = Move.colliding.head? ∧
      (∀ m ∈ Move.colliding, ((ofList Move.colliding).offer m).1 = false) ∧
      (∀ a ∈ Move.colliding.tail, ∀ b ∈ Move.colliding.tail, a.id = b.id → a = b) ∧
      (ofList Move.colliding.tail).moves = Move.colliding.tail.reverse ∧
      ofList (Move.colliding.tail.reverse ++ Move.colliding.tail) = ofList Move.colliding.tail := by
  have hid : ∀ a ∈ Move.colliding.tail, ∀ b ∈ Move.colliding.tail, a.id = b.id → a = b := by decide
  have hmem (m : Move) : m ∈ Move.colliding.tail ↔
      m ∈ Move.colliding.tail.reverse ++ Move.colliding.tail := by simp
  refine ⟨(gathers_ofList _).first _, ?_, hid, by decide +kernel,
    (gathers_ofList _).orderFree _ hmem hid⟩
  decide +kernel

end MoveLog

end WereraChess
