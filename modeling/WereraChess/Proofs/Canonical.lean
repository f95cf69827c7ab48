import Mathlib.Data.List.Nodup
import Mathlib.Data.List.TakeWhile
import WereraChess.Replay
/-!
# The canonical order of records

A canonical list is strictly ascending by time, side and identifier and holds every identifier once.
It is determined by its records, and so is the list into which `Move.canonical` brings records, even
if they come repeated or with identifiers in common. Replay therefore depends on the set of records
alone.
-/
namespace WereraChess

namespace Key

theorem le_of_lt {a b : Key} (h : lt a b = true) : le a b = true := by
  have ht := le_total a b
  simp only [lt, Bool.not_eq_true'] at h
  simpa [h] using ht

private theorem lt_irrefl (a : Key) : lt a a = false := by
  simp only [lt, le_refl, Bool.not_true]

theorem lt_of_le_of_lt {a b c : Key} (hab : le a b = true) (hbc : lt b c = true) :
    lt a c = true := by
  simp only [lt, Bool.not_eq_true'] at hbc ⊢
  by_contra hca
  have hcb := le_trans c a b (by simpa using hca) hab
  simp [hcb] at hbc

theorem lt_of_lt_of_le {a b c : Key} (hab : lt a b = true) (hbc : le b c = true) :
    lt a c = true := by
  simp only [lt, Bool.not_eq_true'] at hab ⊢
  by_contra hca
  have hba := le_trans b c a hbc (by simpa using hca)
  simp [hba] at hab

private theorem lt_asymm {a b : Key} (hab : lt a b = true) : lt b a = false := by
  by_contra hba
  have haa := lt_of_lt_of_le hab (le_of_lt (by simpa using hba))
  simp [lt_irrefl] at haa

theorem lt_of_le_of_ne {a b : Key} (hab : le a b = true) (hne : a ≠ b) : lt a b = true := by
  simp only [lt, Bool.not_eq_true']
  by_contra hba
  exact hne (le_antisymm a b hab (by simpa using hba))

end Key

namespace Move

/-- Identifiers are compared as numbers. -/
def rank (m : Move) : Nat := m.id.value.toNat

private theorem id_eq_of_rank_eq {a b : Move} (h : a.rank = b.rank) : a.id = b.id := by
  obtain ⟨⟨u⟩⟩ := a
  obtain ⟨⟨w⟩⟩ := b
  simpa [rank, BitVec.toNat_inj] using h

theorem id_eq_of_key_eq {a b : Move} (h : a.key = b.key) : a.id = b.id := by
  simp only [key, List.cons.injEq] at h
  exact id_eq_of_rank_eq h.2.2.1

private theorem rank_eq_of_fullKey_eq {a b : Move} (h : a.fullKey = b.fullKey) :
    a.rank = b.rank := by
  simp only [fullKey, List.cons_append, List.cons.injEq] at h
  exact h.1

private theorem eq_of_fullKey_eq {a b : Move} (h : a.fullKey = b.fullKey) : a = b := by
  have hid := id_eq_of_rank_eq (rank_eq_of_fullKey_eq h)
  obtain ⟨i, ⟨r, c⟩, ⟨r', c'⟩, s, k, q, t⟩ := a
  obtain ⟨j, ⟨p, d⟩, ⟨p', d'⟩, s', k', q', t'⟩ := b
  simp only [fullKey, key, List.cons_append, List.nil_append, List.cons.injEq,
    UInt64.toNat_inj, UInt8.toNat_inj, and_true] at h
  obtain ⟨-, rfl, hs, -, rfl, rfl, rfl, rfl, hk, hq⟩ := h
  obtain rfl : i = j := hid
  obtain rfl := Side.ordinal_injective hs
  obtain rfl := Kind.ordinal_injective hk
  cases q <;> cases q' <;> simp_all
  exact Kind.ordinal_injective hq

private theorem rank_le_of_fullKey_le {a b : Move} (h : a.fullKey.le b.fullKey = true) :
    a.rank ≤ b.rank := by
  simp only [fullKey, List.cons_append, Key.le] at h
  split at h
  case isTrue heq => exact Nat.le_of_eq heq
  case isFalse => exact Nat.le_of_lt (of_decide_eq_true h)

theorem key_lt_of_timestamp_lt {a b : Move} (h : a.timestamp < b.timestamp) :
    a.key.lt b.key = true := by
  have hlt : a.timestamp.toNat < b.timestamp.toNat := UInt64.lt_iff_toNat_lt.mp h
  have hne : b.timestamp.toNat ≠ a.timestamp.toNat := by omega
  simp only [key, Key.lt, Key.le, if_neg hne, Bool.not_eq_true', decide_eq_false_iff_not]
  omega

theorem timestamp_le_of_key_lt {a b : Move} (h : a.key.lt b.key = true) :
    a.timestamp ≤ b.timestamp := by
  apply UInt64.not_lt.mp
  intro hlt
  rw [Key.lt_asymm (key_lt_of_timestamp_lt hlt)] at h
  simp at h

/-- A list in strictly ascending order in which no identifier comes twice. -/
structure IsCanonical (ms : List Move) : Prop where
  ascending : ms.Pairwise fun a b => a.key.lt b.key
  distinct : (ms.map Move.id).Nodup

namespace IsCanonical

variable {ms ns : List Move}

theorem nil : IsCanonical [] := ⟨.nil, .nil⟩

theorem nodup (h : IsCanonical ms) : ms.Nodup := h.distinct.of_map

theorem eq_of_id_eq (h : IsCanonical ms) {a b : Move} (ha : a ∈ ms) (hb : b ∈ ms)
    (hid : a.id = b.id) : a = b :=
  List.inj_on_of_nodup_map h.distinct ha hb hid

theorem ext (hm : IsCanonical ms) (hn : IsCanonical ns) (h : ∀ m, m ∈ ms ↔ m ∈ ns) : ms = ns := by
  have hp : ms.Perm ns := (List.perm_ext_iff_of_nodup hm.nodup hn.nodup).mpr h
  apply hp.eq_of_pairwise _ hm.ascending hn.ascending
  intro a b _ _ hab hba
  simp [Key.lt_asymm hab] at hba

theorem append (hm : IsCanonical ms) (hn : IsCanonical ns)
    (hid : ∀ a ∈ ms, ∀ b ∈ ns, a.id ≠ b.id)
    (hsort : ∀ a ∈ ms, ∀ b ∈ ns, a.key.lt b.key = true) : IsCanonical (ms ++ ns) := by
  constructor
  · exact List.pairwise_append.mpr ⟨hm.ascending, hn.ascending, hsort⟩
  · rw [List.map_append]
    refine List.nodup_append.mpr ⟨hm.distinct, hn.distinct, ?_⟩
    intro x hx y hy
    obtain ⟨a, ha, rfl⟩ := List.mem_map.mp hx
    obtain ⟨b, hb, rfl⟩ := List.mem_map.mp hy
    exact hid a ha b hb

theorem singleton (m : Move) : IsCanonical [m] := ⟨List.pairwise_singleton _ _, List.nodup_singleton _⟩

theorem concat (h : IsCanonical ms) {m : Move} (hid : ∀ a ∈ ms, a.id ≠ m.id)
    (hlast : ∀ a ∈ ms, a.key.lt m.key = true) : IsCanonical (ms ++ [m]) := by
  apply h.append (singleton m)
  · intro a ha b hb
    rw [List.mem_singleton.mp hb]
    exact hid a ha
  · intro a ha b hb
    rw [List.mem_singleton.mp hb]
    exact hlast a ha

end IsCanonical

theorem isCanonical_mergeSort {ms : List Move} (h : (ms.map Move.id).Nodup) :
    IsCanonical (ms.mergeSort fun a b => a.key.le b.key) := by
  have hp := List.mergeSort_perm ms fun a b => a.key.le b.key
  have hd := (hp.map Move.id).nodup_iff.mpr h
  refine ⟨?_, hd⟩
  have hle : (ms.mergeSort fun a b => a.key.le b.key).Pairwise fun a b => a.key.le b.key :=
    List.pairwise_mergeSort (fun a b c => Key.le_trans a.key b.key c.key)
      (fun a b => Key.le_total a.key b.key) ms
  have hne : (ms.mergeSort fun a b => a.key.le b.key).Pairwise fun a b => a.id ≠ b.id :=
    List.pairwise_map.mp hd
  apply (hle.and hne).imp
  intro a b hab
  exact Key.lt_of_le_of_ne hab.1 fun heq => hab.2 (id_eq_of_key_eq heq)

private theorem firstOfEach_sublist (ms : List Move) : (firstOfEach ms).Sublist ms := by
  induction ms with
  | nil => exact .slnil
  | cons m ms ih =>
    rw [firstOfEach]
    exact .cons_cons m ((List.dropWhile_sublist _).trans ih)

private theorem mem_dropWhile_id {m x : Move} {ms : List Move}
    (hs : ms.Pairwise fun a b => a.rank < b.rank) (hm : ∀ a ∈ ms, m.rank ≤ a.rank) :
    x ∈ ms.dropWhile (·.id = m.id) ↔ x ∈ ms ∧ x.id ≠ m.id := by
  have hkeep {ns : List Move} (hn : ∀ a ∈ ns, a.id ≠ m.id) :
      ns.dropWhile (·.id = m.id) = ns := by
    rw [List.dropWhile_eq_self_iff]
    intro hl
    simpa using hn _ (List.getElem_mem hl)
  cases ms with
  | nil => simp
  | cons a ms =>
    obtain ⟨ha, -⟩ := List.pairwise_cons.mp hs
    have hlarge (b : Move) (hb : b ∈ ms) : b.id ≠ m.id := by
      intro heq
      have hlt := ha b hb
      have hle := hm a (by simp)
      simp only [rank, heq] at hlt hle
      omega
    by_cases hid : a.id = m.id
    · rw [List.dropWhile_cons_of_pos (by simpa using hid), hkeep hlarge]
      constructor
      · exact fun hx => ⟨List.mem_cons_of_mem a hx, hlarge x hx⟩
      · rintro ⟨hx, hne⟩
        rcases List.mem_cons.mp hx with rfl | hx
        · exact absurd hid hne
        · exact hx
    · have hall (b : Move) (hb : b ∈ a :: ms) : b.id ≠ m.id := by
        rcases List.mem_cons.mp hb with rfl | hb
        · exact hid
        · exact hlarge b hb
      rw [hkeep hall]
      exact ⟨fun hx => ⟨hx, hall x hx⟩, And.left⟩

private theorem firstOfEach_ascending {ms : List Move}
    (hs : ms.Pairwise fun a b => a.fullKey.le b.fullKey) :
    (firstOfEach ms).Pairwise fun a b => a.rank < b.rank := by
  induction ms with
  | nil => exact .nil
  | cons m ms ih =>
    obtain ⟨hm, hs⟩ := List.pairwise_cons.mp hs
    have hle (a : Move) (ha : a ∈ firstOfEach ms) : m.rank ≤ a.rank :=
      rank_le_of_fullKey_le (hm a ((firstOfEach_sublist ms).subset ha))
    rw [firstOfEach]
    refine List.pairwise_cons.mpr ⟨?_, (ih hs).sublist (List.dropWhile_sublist _)⟩
    intro a ha
    obtain ⟨ha, hne⟩ := (mem_dropWhile_id (ih hs) hle).mp ha
    exact Nat.lt_of_le_of_ne (hle a ha) fun heq => hne (id_eq_of_rank_eq heq.symm)

private theorem mem_firstOfEach {x : Move} {ms : List Move}
    (hs : ms.Pairwise fun a b => a.fullKey.le b.fullKey) :
    x ∈ firstOfEach ms ↔
      x ∈ ms ∧ ∀ n ∈ ms, n.id = x.id → x.fullKey.le n.fullKey = true := by
  induction ms with
  | nil => simp [firstOfEach]
  | cons m ms ih =>
    obtain ⟨hm, hs⟩ := List.pairwise_cons.mp hs
    have hle (a : Move) (ha : a ∈ firstOfEach ms) : m.rank ≤ a.rank :=
      rank_le_of_fullKey_le (hm a ((firstOfEach_sublist ms).subset ha))
    rw [firstOfEach, List.mem_cons, mem_dropWhile_id (firstOfEach_ascending hs) hle, ih hs]
    constructor
    · rintro (rfl | ⟨⟨hx, hleast⟩, hne⟩)
      · refine ⟨by simp, fun n hn _ => ?_⟩
        rcases List.mem_cons.mp hn with rfl | hn
        · exact Key.le_refl _
        · exact hm n hn
      · refine ⟨List.mem_cons_of_mem m hx, fun n hn hid => ?_⟩
        rcases List.mem_cons.mp hn with rfl | hn
        · exact absurd hid.symm hne
        · exact hleast n hn hid
    · rintro ⟨hx, hleast⟩
      rcases List.mem_cons.mp hx with rfl | hx
      · exact .inl rfl
      by_cases hid : x.id = m.id
      · have hxm := hleast m (by simp) hid.symm
        exact .inl (eq_of_fullKey_eq (Key.le_antisymm _ _ hxm (hm x hx)))
      · exact .inr ⟨⟨hx, fun n hn => hleast n (List.mem_cons_of_mem m hn)⟩, hid⟩

private theorem sorted_by_fullKey (ms : List Move) :
    (ms.mergeSort fun a b => a.fullKey.le b.fullKey).Pairwise
      fun a b => a.fullKey.le b.fullKey :=
  List.pairwise_mergeSort (fun a b c => Key.le_trans a.fullKey b.fullKey c.fullKey)
    (fun a b => Key.le_total a.fullKey b.fullKey) ms

/-- The least record of every identifier takes part in the canonical order. -/
theorem mem_canonical {x : Move} {ms : List Move} :
    x ∈ canonical ms ↔ x ∈ ms ∧ ∀ n ∈ ms, n.id = x.id → x.fullKey.le n.fullKey = true := by
  rw [canonical, List.mem_mergeSort, mem_firstOfEach (sorted_by_fullKey ms)]
  simp only [List.mem_mergeSort]

theorem isCanonical_canonical (ms : List Move) : IsCanonical (canonical ms) := by
  apply isCanonical_mergeSort
  rw [List.nodup_iff_pairwise_ne, List.pairwise_map]
  apply (firstOfEach_ascending (sorted_by_fullKey ms)).imp
  intro a b hlt heq
  simp [rank, heq] at hlt

theorem canonical_length_le (ms : List Move) : (canonical ms).length ≤ ms.length := by
  rw [canonical, List.length_mergeSort]
  have hle := (firstOfEach_sublist (ms.mergeSort fun a b => a.fullKey.le b.fullKey)).length_le
  rwa [List.length_mergeSort] at hle

/-- The canonical order of records depends on which records there are, and on nothing else. -/
theorem canonical_congr {ms ns : List Move} (h : ∀ m, m ∈ ms ↔ m ∈ ns) :
    canonical ms = canonical ns := by
  apply (isCanonical_canonical ms).ext (isCanonical_canonical ns)
  intro m
  simp only [mem_canonical, h]

theorem IsCanonical.canonical_eq {ms : List Move} (h : IsCanonical ms) : canonical ms = ms := by
  apply (isCanonical_canonical ms).ext h
  intro m
  rw [mem_canonical]
  refine ⟨And.left, fun hm => ⟨hm, fun n hn hid => ?_⟩⟩
  rw [h.eq_of_id_eq hn hm hid]
  exact Key.le_refl _

end Move

/-- Two lists of the same records have the same replay, whatever the order of the records, however
often each comes, and whichever of them share identifiers. -/
theorem replay_eq_of_mem_iff (v : Variant) (rules : HouseRules) (o : Opening) {ms ns : List Move}
    (h : ∀ m, m ∈ ms ↔ m ∈ ns) : replay v rules o ms = replay v rules o ns := by
  simp only [replay, Move.canonical_congr h]

/-- Two records under one identifier, and a third whose time lies between theirs. -/
def Move.colliding : List Move :=
  [⟨.numbered 1, ⟨6, 0⟩, ⟨5, 0⟩, .white, .pawn, none, 10⟩,
    ⟨.numbered 2, ⟨1, 0⟩, ⟨2, 0⟩, .black, .pawn, none, 7⟩,
    ⟨.numbered 1, ⟨1, 7⟩, ⟨2, 7⟩, .black, .pawn, none, 5⟩]

theorem replay_colliding_eq_of_mem_iff :
    (∀ m, m ∈ Move.colliding ↔ m ∈ Move.colliding.reverse ++ Move.colliding) ∧
      ¬ (Move.colliding.map Move.id).Nodup ∧
      replay .senterej {} (.initial .senterej) Move.colliding =
        replay .senterej {} (.initial .senterej) (Move.colliding.reverse ++ Move.colliding) := by
  have h (m : Move) : m ∈ Move.colliding ↔ m ∈ Move.colliding.reverse ++ Move.colliding := by
    simp only [List.mem_append, List.mem_reverse, or_self]
  exact ⟨h, by decide, replay_eq_of_mem_iff _ _ _ h⟩

end WereraChess
