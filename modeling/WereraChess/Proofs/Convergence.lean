import Mathlib.Data.List.Dedup
import WereraChess.Proofs.Duel
import WereraChess.Proofs.Reached
/-!
# Convergence of two peers

At every point of a run the log of a peer is what the session began with, what the peer published
and what it received, in canonical order and without repetition. Two peers that have received
everything from each other therefore have the same log and the same standing.
-/
namespace WereraChess

/-- The replica of a side differs from the session that it began with by its records only. -/
structure Replica.Sound (s : Session) (side : Side) (r : Replica) : Prop where
  side : r.peer.side = side
  frame : r.peer.session = { s with log := r.log }
  canonical : Move.IsCanonical r.log.moves
  mem_log : ∀ m, m ∈ r.log.moves ↔ m ∈ s.log.moves ∨ m ∈ r.published ∨ m ∈ r.received

theorem Replica.Sound.mem_log_of_published {s : Session} {side : Side} {r : Replica} {m : Move}
    (h : r.Sound s side) (hm : m ∈ r.published) : m ∈ r.log.moves :=
  (h.mem_log m).mpr (.inr (.inl hm))

private theorem Replica.Sound.logged {s : Session} {side : Side} {r r' : Replica} {m : Move}
    (h : r.Sound s side) (hside : r'.peer.side = r.peer.side)
    (hsession : r'.peer.session = r.peer.session.logged m)
    (hunique : ∀ a ∈ r.log.moves, a.id = m.id → a = m)
    (hrecords : ∀ x, x ∈ r'.published ∨ x ∈ r'.received ↔
      x = m ∨ x ∈ r.published ∨ x ∈ r.received) : r'.Sound s side := by
  have hlog : r'.log = r.log.insert m := congrArg Session.log hsession
  refine ⟨hside.trans h.side, ?_, ?_, fun x => ?_⟩
  · rw [hlog, hsession, h.frame]
    rfl
  · rw [hlog]
    exact MoveLog.isCanonical_insert h.canonical m
  · rw [hlog, MoveLog.mem_insert_of_unique hunique, h.mem_log, hrecords]
    exact or_left_comm

namespace Duel

/-- The records of the session and of both peers. -/
def Known (s : Session) (d : Duel) (m : Move) : Prop :=
  m ∈ s.log.moves ∨ ∃ side, m ∈ (d side).published

structure Consistent (s : Session) (d : Duel) : Prop where
  sound : ∀ side, (d side).Sound s side
  authentic : ∀ side, ∀ m ∈ (d side).received, ∃ sender, m ∈ (d sender).published
  unique : ∀ m n, d.Known s m → d.Known s n → m.id = n.id → m = n
  onBoard : ∀ side, ∀ m ∈ (d side).published, m.OnBoard

variable {s : Session} {d d' : Duel}

theorem Consistent.known_of_mem_log (h : Consistent s d) {side : Side} {m : Move}
    (hm : m ∈ (d side).log.moves) : d.Known s m := by
  rcases ((h.sound side).mem_log m).mp hm with hm | hm | hm
  · exact .inl hm
  · exact .inr ⟨side, hm⟩
  · exact .inr (h.authentic side m hm)

private theorem Consistent.mem_log_of_known (h : Consistent s d) {m : Move} (hm : d.Known s m) :
    ∃ side, m ∈ (d side).log.moves := by
  rcases hm with hm | ⟨side, hm⟩
  · exact ⟨.white, ((h.sound .white).mem_log m).mpr (.inl hm)⟩
  · exact ⟨side, (h.sound side).mem_log_of_published hm⟩

private theorem consistent_ofSession (hs : Move.IsCanonical s.log.moves) :
    Consistent s (ofSession s) where
  sound side := ⟨rfl, rfl, hs, fun m => by simp [ofSession, Replica.log, Peer.ofSession]⟩
  authentic side m hm := by simp [ofSession] at hm
  unique m n hm hn hid := by
    have hlog {x : Move} (hx : (ofSession s).Known s x) : x ∈ s.log.moves := by
      simpa [Known, ofSession] using hx
    exact hs.eq_of_id_eq (hlog hm) (hlog hn) hid
  onBoard side m hm := by simp [ofSession] at hm

private theorem mem_published_publish {side side' : Side} {p : Peer} {m x : Move} :
    x ∈ (Function.update d side ((d side).publish p m) side').published ↔
      side' = side ∧ x = m ∨ x ∈ (d side').published :=
  mem_update_append Replica.published rfl

private theorem mem_received_receive {side side' : Side} {p : Peer} {m x : Move} :
    x ∈ (Function.update d side ((d side).receive p m) side').received ↔
      side' = side ∧ x = m ∨ x ∈ (d side').received :=
  mem_update_append Replica.received rfl

private theorem received_publish (side side' : Side) (p : Peer) (m : Move) :
    (Function.update d side ((d side).publish p m) side').received = (d side').received := by
  apply apply_update_of_eq Replica.received
  rfl

private theorem published_receive (side side' : Side) (p : Peer) (m : Move) :
    (Function.update d side ((d side).receive p m) side').published = (d side').published := by
  apply apply_update_of_eq Replica.published
  rfl

private theorem Consistent.publish (h : Consistent s d) {side : Side} {id : Uuid}
    {source target : Coord} {timestamp : UInt64} {m : Move} {p : Peer} (hid : d.Fresh id)
    (hp : (d side).peer.submit id source target timestamp = .ok (some m, p)) :
    Consistent s (Function.update d side ((d side).publish p m)) := by
  obtain ⟨hside, hsession, rfl, hboard⟩ := Peer.submit_accepted hp
  have hnew (x : Move) (hx : d.Known s x) : x.id ≠ m.id := by
    obtain ⟨side', hx⟩ := h.mem_log_of_known hx
    exact MoveLog.contains_eq_false_iff.mp (hid side') x hx
  have hknown (x : Move) (hx : Known s (Function.update d side ((d side).publish p m)) x) :
      x = m ∨ d.Known s x := by
    rcases hx with hx | ⟨side', hx⟩
    · exact .inr (.inl hx)
    · rcases mem_published_publish.mp hx with ⟨-, rfl⟩ | hx
      · exact .inl rfl
      · exact .inr (.inr ⟨side', hx⟩)
  refine ⟨forall_update (P := Replica.Sound s) h.sound ?_, fun side' x hx => ?_, fun x y hx hy hxy => ?_,
    fun side' x hx => ?_⟩
  · apply (h.sound side).logged hside hsession
    · intro a ha haid
      exact absurd haid (hnew a (h.known_of_mem_log ha))
    · intro x
      simp only [Replica.publish, List.mem_append, List.mem_singleton, or_assoc, or_left_comm]
  · rw [received_publish] at hx
    obtain ⟨sender, hx⟩ := h.authentic side' x hx
    exact ⟨sender, mem_published_publish.mpr (.inr hx)⟩
  · rcases hknown x hx with rfl | hx' <;> rcases hknown y hy with rfl | hy'
    · rfl
    · exact absurd hxy.symm (hnew y hy')
    · exact absurd hxy (hnew x hx')
    · exact h.unique x y hx' hy' hxy
  · rcases mem_published_publish.mp hx with ⟨-, rfl⟩ | hx
    · exact hboard
    · exact h.onBoard side' x hx

private theorem Consistent.receive (h : Consistent s d) {side sender : Side} {m : Move} {new : Bool}
    {p : Peer} (hm : m ∈ (d sender).published) (hp : (d side).peer.receive m = .ok (new, p)) :
    Consistent s (Function.update d side ((d side).receive p m)) := by
  obtain ⟨-, -, hpeer⟩ := Peer.receive_eq_ok.mp hp
  have hsession : p.session = (d side).peer.session.logged m := by rw [hpeer]
  have hmknown : d.Known s m := .inr ⟨sender, hm⟩
  refine ⟨forall_update (P := Replica.Sound s) h.sound ?_, fun side' x hx => ?_, fun x y hx hy => ?_,
    fun side' x hx => ?_⟩
  · apply (h.sound side).logged (by rw [Replica.receive, hpeer]) hsession
    · intro a ha
      exact h.unique a m (h.known_of_mem_log ha) hmknown
    · intro x
      simp only [Replica.receive, List.mem_append, List.mem_singleton, or_left_comm, or_comm]
  · simp only [published_receive]
    rcases mem_received_receive.mp hx with ⟨-, rfl⟩ | hx
    · exact ⟨sender, hm⟩
    · exact h.authentic side' x hx
  · simp only [Known, published_receive] at hx hy
    exact h.unique x y hx hy
  · rw [published_receive] at hx
    exact h.onBoard side' x hx

theorem Consistent.step (h : Consistent s d) (hstep : Step d d') : Consistent s d' := by
  cases hstep with
  | publish hid hp => exact h.publish hid hp
  | drop hp => rwa [update_drop hp]
  | fail => exact h
  | receive hm hp => exact h.receive hm hp

theorem consistent_of_run (hs : Move.IsCanonical s.log.moves) (hd : Run (ofSession s) d) :
    Consistent s d := by
  induction hd with
  | refl => exact consistent_ofSession hs
  | tail _ hstep ih => exact ih.step hstep

private theorem Consistent.log_eq_mergeSort (h : Consistent s d) (side : Side) :
    (d side).log.moves =
      (s.log.moves ++ (d side).published ++ (d side).received).dedup.mergeSort
        fun a b => a.key.le b.key := by
  have hmem (m : Move) :
      m ∈ (s.log.moves ++ (d side).published ++ (d side).received).dedup ↔
        m ∈ (d side).log.moves := by
    simp only [List.mem_dedup, List.mem_append, (h.sound side).mem_log, or_assoc]
  have hdistinct : ((s.log.moves ++ (d side).published ++ (d side).received).dedup.map
      Move.id).Nodup := by
    apply (List.nodup_dedup _).map_on
    intro a ha b hb
    exact (h.sound side).canonical.eq_of_id_eq ((hmem a).mp ha) ((hmem b).mp hb)
  apply (h.sound side).canonical.ext (Move.isCanonical_mergeSort hdistinct)
  intro m
  rw [List.mem_mergeSort, hmem]

private theorem Consistent.log_subset (h : Consistent s d)
    (hall : ∀ side, ∀ m ∈ (d side.opponent).published, m ∈ (d side).received) (side : Side)
    {m : Move} (hm : m ∈ (d side.opponent).log.moves) : m ∈ (d side).log.moves := by
  have hknown : d.Known s m := h.known_of_mem_log hm
  rw [(h.sound side).mem_log]
  rcases hknown with hfirst | ⟨sender, hsent⟩
  · exact .inl hfirst
  · by_cases heq : sender = side
    · subst heq
      exact .inr (.inl hsent)
    · obtain rfl := Side.eq_opponent_of_ne heq
      exact .inr (.inr (hall side m hsent))

private theorem Consistent.log_eq (h : Consistent s d)
    (hall : ∀ side, ∀ m ∈ (d side.opponent).published, m ∈ (d side).received) :
    (d .white).log = (d .black).log := by
  have hmoves : (d .white).log.moves = (d .black).log.moves := by
    apply (h.sound .white).canonical.ext (h.sound .black).canonical
    exact fun m => ⟨h.log_subset hall .black, h.log_subset hall .white⟩
  cases hw : (d .white).log
  cases hb : (d .black).log
  simpa [hw, hb] using hmoves

private theorem Consistent.standing_eq (h : Consistent s d)
    (hlog : (d .white).log = (d .black).log) :
    (d .white).peer.session.standing = (d .black).peer.session.standing := by
  rw [(h.sound .white).frame, (h.sound .black).frame, hlog]

private theorem Consistent.log_onBoard (h : Consistent s d) (hs : ∀ m ∈ s.log.moves, m.OnBoard)
    {side : Side} {m : Move} (hm : m ∈ (d side).log.moves) : m.OnBoard := by
  rcases h.known_of_mem_log hm with hm | ⟨sender, hm⟩
  · exact hs m hm
  · exact h.onBoard sender m hm

/-- At every point of a run a peer's log is what the session began with, what the peer published and
what it received, sorted and without repetition. When each peer has received all moves of the other,
their logs and standings agree. Published moves can always be received, and as long as the counter
has room, each peer has a standing and no submission on the board faults. -/
theorem run_converges (hs : s.Reached) (hd : Run (ofSession s) d) :
    (∀ side, Move.IsCanonical (d side).log.moves ∧
      (d side).log.moves =
        (s.log.moves ++ (d side).published ++ (d side).received).dedup.mergeSort
          fun a b => a.key.le b.key) ∧
    ((∀ side, ∀ m ∈ (d side.opponent).published, m ∈ (d side).received) →
      (d .white).log = (d .black).log ∧
        (d .white).peer.session.standing = (d .black).peer.session.standing) ∧
    (∀ side sender, ∀ m ∈ (d sender).published,
      ∃ new p, (d side).peer.receive m = .ok (new, p)) ∧
    ((∀ m ∈ s.log.moves, m.OnBoard) → ∀ side,
      s.opening.moveCount.toNat + (d side).log.moves.length + 1 < UInt32.size →
      (∃ st, (d side).peer.session.standing = .ok st) ∧
        ∀ (id : Uuid) (source target : Square) (timestamp : UInt64) (f : Fault),
          (d side).peer.submit id source.coord target.coord timestamp ≠ .error (.fault f)) := by
  have h : Consistent s d := consistent_of_run hs.isCanonical hd
  refine ⟨fun side => ⟨(h.sound side).canonical, h.log_eq_mergeSort side⟩, fun hall => ?_,
    fun side sender m hm => (d side).peer.receive_total (h.onBoard sender m hm),
    fun hboard side hroom => ?_⟩
  · have hlog := h.log_eq hall
    exact ⟨hlog, h.standing_eq hlog⟩
  · have hlog (m : Move) (hm : m ∈ (d side).log.moves) : m.OnBoard := h.log_onBoard hboard hm
    have hopening : (d side).peer.session.opening = s.opening := by rw [(h.sound side).frame]
    rw [← hopening] at hroom
    refine ⟨Session.standing_total hlog (Nat.lt_of_succ_lt hroom), ?_⟩
    intro id source target timestamp f
    exact Peer.submit_ne_fault f hlog hroom (Coord.square?_coord source)

theorem run_converges_crossing :
    ∃ d, (Session.friendly .senterej).Reached ∧ Run (ofSession (.friendly .senterej)) d ∧
      (∀ side, (d side).published ≠ []) ∧ (d .white).log = (d .black).log ∧
      (d .white).peer.session.standing = (d .black).peer.session.standing := by
  have hpermit (side : Side) : (Course.start .senterej {} (.initial .senterej)).progress.permit
      side = .ok () := by
    rw [Progress.permit_eq_ok]
    left
    decide +kernel
  obtain ⟨mw, pw, hw⟩ := Peer.friendly_submit (p := .fresh .pawn .white) (.numbered 4)
    ⟨6, 4⟩ ⟨5, 4⟩ 100 (hpermit .white) (by decide +kernel) rfl
    (by decide +kernel) (by decide +kernel)
  obtain ⟨mb, pb, hb⟩ := Peer.friendly_submit (p := .fresh .pawn .black) (.numbered 5)
    ⟨1, 4⟩ ⟨2, 4⟩ 90 (hpermit .black) (by decide +kernel) rfl
    (by decide +kernel) (by decide +kernel)
  obtain ⟨d, hd, hpw, hpb, hrw, hrb⟩ := exists_crossing rfl (by decide) hw hb
  have hs : (Session.friendly .senterej).Reached := .create ..
  obtain ⟨-, hconverge, -⟩ := run_converges hs hd
  obtain ⟨hlog, hstanding⟩ := hconverge (by
    rintro (_ | _) m hm
    · simpa [Side.opponent, hpb, hrw] using hm
    · simpa [Side.opponent, hpw, hrb] using hm)
  refine ⟨d, hs, hd, ?_, hlog, hstanding⟩
  rintro (_ | _)
  · simp [hpw]
  · simp [hpb]

end Duel

end WereraChess
