import WereraChess.Proofs.Canonical
/-!
# Insertion into a log

The halving search finds the first place in an ascending log whose record does not come before the
key. Insertion therefore keeps logs canonical; it adds the one record or, if its identifier is
known, nothing at all.
-/
namespace WereraChess.MoveLog

theorem contains_iff {log : MoveLog} {id : Uuid} :
    log.contains id = true ↔ ∃ m ∈ log.moves, m.id = id := by
  simp only [contains, List.any_eq_true, decide_eq_true_eq]

theorem contains_eq_false_iff {log : MoveLog} {id : Uuid} :
    log.contains id = false ↔ ∀ m ∈ log.moves, m.id ≠ id := by
  simp only [contains, List.any_eq_false, decide_eq_true_eq, ne_eq]

private theorem narrow_lt (moves : List Move) (key : Key) (base size : Nat) (hsize : 0 < size) :
    narrow moves key base size < base + size := by
  fun_induction narrow moves key base size with
  | case1 base size hlt middle base' ih =>
    have hle : base' ≤ middle := by
      dsimp only [base', middle]
      split <;> omega
    have hrec := ih (by omega)
    omega
  | case2 base size hlt => omega

private theorem slot_le (moves : List Move) (key : Key) : slot moves key ≤ moves.length := by
  cases moves with
  | nil => simp [slot, narrow]
  | cons m moves =>
    have hlt := narrow_lt (m :: moves) key 0 (m :: moves).length (by simp)
    simp only [slot]
    split <;> omega

/-- The search keeps its place on a record that does not come after the key, unless it is still at
the front, and everything beyond its range after the key. -/
private theorem narrow_spec {moves : List Move} (key : Key) (base size : Nat)
    (hs : moves.Pairwise fun a b => a.key.lt b.key)
    (hlow : base = 0 ∨ ∀ m, moves[base]? = some m → m.key.le key = true)
    (hhigh : ∀ i m, base + size ≤ i → moves[i]? = some m → key.lt m.key = true) :
    (narrow moves key base size = 0 ∨
      ∀ m, moves[narrow moves key base size]? = some m → m.key.le key = true) ∧
    ∀ i m, narrow moves key base size < i → moves[i]? = some m → key.lt m.key = true := by
  fun_induction narrow moves key base size with
  | case1 base size hlt middle base' ih =>
    -- The half that is dropped lies on the side of the key that its middle record shows.
    by_cases hany : (moves[middle]?.any fun m => m.key.le key) = true
    · have hbase : base' = middle := if_pos hany
      rw [hbase] at ih ⊢
      apply ih
      · right
        intro m hm
        simpa [hm] using hany
      · intro i m hi
        exact hhigh i m (by omega)
    · have hbase : base' = base := if_neg hany
      rw [hbase] at ih ⊢
      apply ih hlow
      intro i m hi hm
      obtain ⟨hlen, rfl⟩ := List.getElem?_eq_some_iff.mp hm
      have hmid : middle < moves.length := by omega
      have hafter : key.lt moves[middle].key = true := by
        simpa [hmid, Key.lt] using hany
      rcases Nat.lt_or_ge middle i with hi | hi
      · have hstep := List.pairwise_iff_getElem.mp hs middle i hmid hlen hi
        exact Key.lt_of_lt_of_le hafter (Key.le_of_lt hstep)
      · obtain rfl : middle = i := by omega
        exact hafter
  | case2 base size hlt =>
    exact ⟨hlow, fun i m hi => hhigh i m (by omega)⟩

private theorem getElem_lt_slot {moves : List Move} (key : Key)
    (hs : moves.Pairwise fun a b => a.key.lt b.key) (i : Nat) (hi : i < moves.length) :
    (i < slot moves key → moves[i].key.lt key = true) ∧
      (slot moves key ≤ i → key.le moves[i].key = true) := by
  obtain ⟨hlow, hhigh⟩ := narrow_spec key 0 moves.length hs (.inl rfl) (by
    intro i m hi hm
    obtain ⟨hlen, -⟩ := List.getElem?_eq_some_iff.mp hm
    omega)
  have hplace := narrow_lt moves key 0 moves.length (by omega)
  simp only [slot]
  generalize narrow moves key 0 moves.length = place at hlow hhigh hplace ⊢
  have hlen : place < moves.length := by omega
  have hafter (h : place < i) : key.le moves[i].key = true :=
    Key.le_of_lt (hhigh i _ h (List.getElem?_eq_getElem hi))
  have hbefore (h : i < place) : moves[i].key.lt moves[place].key = true :=
    List.pairwise_iff_getElem.mp hs i place hi hlen h
  simp only [List.getElem?_eq_getElem hlen, Option.any_some]
  split
  case isTrue hlt =>
    refine ⟨fun h => ?_, fun h => hafter (by omega)⟩
    rcases Nat.lt_or_ge i place with hi | hi
    · exact Key.lt_of_le_of_lt (Key.le_of_lt (hbefore hi)) hlt
    · obtain rfl : i = place := by omega
      exact hlt
  case isFalse hge =>
    refine ⟨fun h => ?_, fun h => ?_⟩
    · rcases hlow with rfl | hlow
      · omega
      · exact Key.lt_of_lt_of_le (hbefore h) (hlow _ (List.getElem?_eq_getElem hlen))
    · rcases Nat.lt_or_ge place i with hi | hi
      · exact hafter hi
      · obtain rfl : i = place := by omega
        simpa [Key.lt] using hge

theorem lt_of_mem_take_slot {moves : List Move} {key : Key} {m : Move}
    (hs : moves.Pairwise fun a b => a.key.lt b.key) (hm : m ∈ moves.take (slot moves key)) :
    m.key.lt key = true := by
  obtain ⟨i, hi, rfl⟩ := List.mem_take_iff_getElem.mp hm
  exact (getElem_lt_slot key hs i (by omega)).1 (by omega)

theorem le_of_mem_drop_slot {moves : List Move} {key : Key} {m : Move}
    (hs : moves.Pairwise fun a b => a.key.lt b.key) (hm : m ∈ moves.drop (slot moves key)) :
    key.le m.key = true := by
  obtain ⟨i, hi, rfl⟩ := List.mem_drop_iff_getElem.mp hm
  exact (getElem_lt_slot key hs _ (by omega)).2 (by omega)

theorem insert_of_contains {log : MoveLog} {m : Move} (h : log.contains m.id = true) :
    log.insert m = log := if_pos h

private theorem insertIdx_eq_take_drop {α : Type} (a : α) {l : List α} {i : Nat}
    (h : i ≤ l.length) : l.insertIdx i a = l.take i ++ a :: l.drop i := by
  induction l generalizing i with
  | nil =>
    obtain rfl : i = 0 := by simpa using h
    rfl
  | cons b l ih =>
    cases i with
    | zero => rfl
    | succ i => simp [ih (by simpa using h)]

theorem moves_insert {log : MoveLog} {m : Move} (h : log.contains m.id = false) :
    (log.insert m).moves =
      log.moves.take (slot log.moves m.key) ++ m :: log.moves.drop (slot log.moves m.key) := by
  rw [insert, if_neg (by simp [h])]
  exact insertIdx_eq_take_drop m (slot_le log.moves m.key)

theorem mem_insert {log : MoveLog} {m x : Move} (h : log.contains m.id = false) :
    x ∈ (log.insert m).moves ↔ x = m ∨ x ∈ log.moves := by
  rw [insert, if_neg (by simp [h])]
  exact List.mem_insertIdx (slot_le log.moves m.key)

theorem contains_insert {log : MoveLog} {m : Move} {id : Uuid} (h : log.contains m.id = false) :
    (log.insert m).contains id = (log.contains id || decide (m.id = id)) := by
  rw [Bool.eq_iff_iff, contains_iff]
  simp only [mem_insert h, Bool.or_eq_true, contains_iff, decide_eq_true_eq]
  constructor
  · rintro ⟨x, rfl | hx, hid⟩
    · exact .inr hid
    · exact .inl ⟨x, hx, hid⟩
  · rintro (⟨x, hx, hid⟩ | hid)
    · exact ⟨x, .inr hx, hid⟩
    · exact ⟨m, .inl rfl, hid⟩

theorem mem_of_mem_insert {log : MoveLog} {m x : Move} (h : x ∈ (log.insert m).moves) :
    x = m ∨ x ∈ log.moves := by
  cases hid : log.contains m.id with
  | true => rw [insert_of_contains hid] at h; exact .inr h
  | false => exact (mem_insert hid).mp h

theorem mem_insert_of_unique {log : MoveLog} {m x : Move}
    (h : ∀ a ∈ log.moves, a.id = m.id → a = m) :
    x ∈ (log.insert m).moves ↔ x = m ∨ x ∈ log.moves := by
  cases hid : log.contains m.id with
  | false => exact mem_insert hid
  | true =>
    obtain ⟨a, ha, heq⟩ := contains_iff.mp hid
    obtain rfl := h a ha heq
    rw [insert_of_contains hid]
    refine ⟨.inr, ?_⟩
    rintro (rfl | hx)
    · exact ha
    · exact hx

theorem length_insert_le (log : MoveLog) (m : Move) :
    (log.insert m).moves.length ≤ log.moves.length + 1 := by
  cases hid : log.contains m.id with
  | true => rw [insert_of_contains hid]; omega
  | false =>
    rw [insert, if_neg (by simp [hid])]
    exact List.length_insertIdx_le_succ

/-- Insertion keeps a log canonical. -/
theorem isCanonical_insert {log : MoveLog} (hc : Move.IsCanonical log.moves) (m : Move) :
    Move.IsCanonical (log.insert m).moves := by
  cases h : log.contains m.id with
  | true => rwa [insert_of_contains h]
  | false =>
    have hfresh := contains_eq_false_iff.mp h
    have hperm : (log.insert m).moves.Perm (m :: log.moves) := by
      rw [moves_insert h]
      exact List.perm_middle.trans (by rw [List.take_append_drop])
    refine ⟨?_, ?_⟩
    · have hs := hc.ascending
      rw [moves_insert h]
      have hcut := List.take_append_drop (slot log.moves m.key) log.moves
      rw [← hcut] at hs
      obtain ⟨htake, hdrop, hcross⟩ := List.pairwise_append.mp hs
      refine List.pairwise_append.mpr ⟨htake, List.pairwise_cons.mpr ⟨?_, hdrop⟩, ?_⟩
      · intro b hb
        have hle := le_of_mem_drop_slot hc.ascending hb
        have hne := hfresh b (List.mem_of_mem_drop hb)
        exact Key.lt_of_le_of_ne hle fun heq => hne (Move.id_eq_of_key_eq heq).symm
      · intro a ha b hb
        rcases List.mem_cons.mp hb with rfl | hb
        · exact lt_of_mem_take_slot hc.ascending ha
        · exact hcross a ha b hb
    · rw [(hperm.map Move.id).nodup_iff, List.map_cons, List.nodup_cons]
      refine ⟨?_, hc.distinct⟩
      rw [List.mem_map]
      rintro ⟨a, ha, hid⟩
      exact hfresh a ha hid

theorem isCanonical_empty : Move.IsCanonical MoveLog.empty.moves := .nil

theorem moves_insert_last {log : MoveLog} (hc : Move.IsCanonical log.moves) {m : Move}
    (hid : log.contains m.id = false) (hlast : ∀ a ∈ log.moves, a.key.lt m.key = true) :
    (log.insert m).moves = log.moves ++ [m] := by
  have hend := hc.concat (contains_eq_false_iff.mp hid) hlast
  apply (isCanonical_insert hc m).ext hend
  intro x
  rw [mem_insert hid, List.mem_append, List.mem_singleton, or_comm]

theorem timestamp_le_latest {log : MoveLog} (hc : Move.IsCanonical log.moves) {a : Move} {latest : UInt64}
    (ha : a ∈ log.moves) (h : log.latest? = some latest) : a.timestamp ≤ latest := by
  obtain ⟨last, hlast, rfl⟩ := Option.map_eq_some_iff.mp h
  obtain ⟨front, hmoves⟩ := List.getLast?_eq_some_iff.mp hlast
  have hsorted := hc.ascending
  rw [hmoves] at ha hsorted
  rcases List.mem_append.mp ha with hfront | hend
  · have hcross := (List.pairwise_append.mp hsorted).2.2
    exact Move.timestamp_le_of_key_lt (hcross a hfront last List.mem_cons_self)
  · rw [List.mem_singleton.mp hend]
    exact UInt64.le_refl _

theorem insert_empty (m : Move) : empty.insert m = ⟨[m]⟩ := by
  have hmoves := moves_insert_last isCanonical_empty (m := m) rfl nofun
  exact congrArg MoveLog.mk hmoves

/-- The record is new to the log and comes after all of its records. -/
def Precedes (log : MoveLog) (m : Move) : Prop :=
  ∀ a ∈ log.moves, a.id ≠ m.id ∧ a.key.lt m.key = true

theorem precedes_empty (m : Move) : empty.Precedes m := nofun

variable {old new : MoveLog}

private theorem isCanonical_append (hold : Move.IsCanonical old.moves)
    (hnew : Move.IsCanonical new.moves) (h : ∀ m ∈ new.moves, old.Precedes m) :
    Move.IsCanonical (old.moves ++ new.moves) := by
  apply hold.append hnew
  · intro a ha m hm
    exact (h m hm a ha).1
  · intro a ha m hm
    exact (h m hm a ha).2

private theorem moves_insert_append {m : Move} (hold : Move.IsCanonical old.moves)
    (hnew : Move.IsCanonical new.moves) (h : ∀ a ∈ new.moves, old.Precedes a) (hm : old.Precedes m) :
    ((mk (old.moves ++ new.moves)).insert m).moves = old.moves ++ (new.insert m).moves := by
  have hcontains : (mk (old.moves ++ new.moves)).contains m.id = new.contains m.id := by
    have hfresh : old.contains m.id = false := contains_eq_false_iff.mpr fun a ha => (hm a ha).1
    simp only [contains] at hfresh ⊢
    rw [List.any_append, hfresh, Bool.false_or]
  cases hid : new.contains m.id with
  | true => rw [insert_of_contains (hcontains.trans hid), insert_of_contains hid]
  | false =>
    have hwhole := isCanonical_append hold hnew h
    have hparts := isCanonical_append hold (isCanonical_insert hnew m) (by
      intro x hx
      rcases mem_of_mem_insert hx with rfl | hx
      · exact hm
      · exact h x hx)
    apply (isCanonical_insert hwhole m).ext hparts
    intro x
    rw [mem_insert (hcontains.trans hid), List.mem_append, List.mem_append, mem_insert hid,
      or_left_comm]

private theorem moves_foldl_insert_append {ms : List Move} (hold : Move.IsCanonical old.moves)
    (hnew : Move.IsCanonical new.moves) (h : ∀ a ∈ new.moves, old.Precedes a)
    (hms : ∀ m ∈ ms, old.Precedes m) :
    (ms.foldl insert ⟨old.moves ++ new.moves⟩).moves =
      old.moves ++ (ms.foldl insert new).moves := by
  induction ms generalizing new with
  | nil => rfl
  | cons m ms ih =>
    obtain ⟨hm, hms⟩ := List.forall_mem_cons.mp hms
    have hstep : (mk (old.moves ++ new.moves)).insert m = ⟨old.moves ++ (new.insert m).moves⟩ :=
      congrArg mk (moves_insert_append hold hnew h hm)
    rw [List.foldl_cons, List.foldl_cons, hstep]
    apply ih (isCanonical_insert hnew m) _ hms
    intro a ha
    rcases mem_of_mem_insert ha with rfl | ha
    · exact hm
    · exact h a ha

theorem isCanonical_foldl_insert {log : MoveLog} (hc : Move.IsCanonical log.moves)
    (ms : List Move) : Move.IsCanonical (ms.foldl insert log).moves := by
  induction ms generalizing log with
  | nil => exact hc
  | cons m ms ih => exact ih (isCanonical_insert hc m)

theorem moves_foldl_insert {log : MoveLog} (hc : Move.IsCanonical log.moves) {ms : List Move}
    (hms : ∀ m ∈ ms, log.Precedes m) :
    (ms.foldl insert log).moves = log.moves ++ (ofList ms).moves := by
  have happend := moves_foldl_insert_append hc isCanonical_empty nofun hms
  rwa [empty, List.append_nil] at happend

end WereraChess.MoveLog

namespace WereraChess

namespace Move

/-- The record is the first with its identifier. -/
def ArrivesFirst (rs : List Move) (m : Move) : Prop := rs.find? (·.id = m.id) = some m

instance (rs : List Move) : DecidablePred (ArrivesFirst rs) :=
  fun m => inferInstanceAs (Decidable (rs.find? (·.id = m.id) = some m))

variable {rs : List Move} {m n : Move}

theorem ArrivesFirst.mem (h : m.ArrivesFirst rs) : m ∈ rs := List.mem_of_find?_eq_some h

theorem exists_arrivesFirst (h : n ∈ rs) : ∃ m : Move, m.ArrivesFirst rs ∧ m.id = n.id := by
  cases hfind : rs.find? (·.id = n.id) with
  | none => simpa using List.find?_eq_none.mp hfind n h
  | some m =>
    have hid : m.id = n.id := by simpa using List.find?_some hfind
    refine ⟨m, ?_, hid⟩
    rw [ArrivesFirst, hid]
    exact hfind

theorem arrivesFirst_iff_mem (hrs : ∀ a ∈ rs, ∀ b ∈ rs, a.id = b.id → a = b) :
    n.ArrivesFirst rs ↔ n ∈ rs := by
  constructor
  · exact ArrivesFirst.mem
  · intro hn
    obtain ⟨m, hfirst, hid⟩ := exists_arrivesFirst hn
    rwa [← hrs m hfirst.mem n hn hid]

end Move

namespace MoveLog

/-- Of the records that a log receives it takes the first of every identifier that is new to it. -/
theorem mem_foldl_insert_iff {rs : List Move} {log : MoveLog} {x : Move} :
    x ∈ (rs.foldl insert log).moves ↔
      x ∈ log.moves ∨ log.contains x.id = false ∧ x.ArrivesFirst rs := by
  induction rs generalizing log with
  | nil => simp [Move.ArrivesFirst]
  | cons r rs ih =>
    rw [List.foldl_cons, ih, Move.ArrivesFirst, Move.ArrivesFirst]
    cases hid : log.contains r.id with
    | true =>
      rw [insert_of_contains hid]
      by_cases hx : r.id = x.id
      · rw [← hx, hid]
        simp
      · simp [hx]
    | false =>
      rw [contains_insert hid, mem_insert hid]
      by_cases hx : r.id = x.id
      · have hfind : (r :: rs).find? (·.id = x.id) = some r := by simp [hx]
        rw [hfind, ← hx, hid]
        simp [or_comm, eq_comm]
      · have hne : x ≠ r := fun h => hx (congrArg Move.id h.symm)
        simp [hx, hne]

end MoveLog

end WereraChess
