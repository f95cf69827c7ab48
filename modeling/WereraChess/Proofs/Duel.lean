import Mathlib.Logic.Function.Basic
import Mathlib.Logic.Relation
import WereraChess.Proofs.Submission
/-!
# Two peers

A White and a Black peer begin with the same session. At any time either of them submits a move,
which is published if it is accepted, or receives a move that one of them has published, now or long
ago, for the first time or again.
-/
namespace WereraChess

/-- A peer with the records that it has published and those that it has received. -/
structure Replica where
  peer : Peer
  published : List Move
  received : List Move

abbrev Duel := Side → Replica

namespace Replica

def log (r : Replica) : MoveLog := r.peer.session.log

def publish (r : Replica) (peer : Peer) (m : Move) : Replica :=
  ⟨peer, r.published ++ [m], r.received⟩

def receive (r : Replica) (peer : Peer) (m : Move) : Replica :=
  ⟨peer, r.published, r.received ++ [m]⟩

end Replica

namespace Duel

def ofSession (s : Session) : Duel := fun side => ⟨.ofSession side s, [], []⟩

/-- No replica has a record of the identifier. -/
def Fresh (d : Duel) (id : Uuid) : Prop := ∀ side, (d side).log.contains id = false

/-- One event at one peer. Identifiers are minted afresh. -/
inductive Step (d : Duel) : Duel → Prop
  | publish {side : Side} {id : Uuid} {source target : Coord} {timestamp : UInt64} {m : Move}
      {p : Peer} (hid : d.Fresh id)
      (h : (d side).peer.submit id source target timestamp = .ok (some m, p)) :
      Step d (Function.update d side ((d side).publish p m))
  | drop {side : Side} {id : Uuid} {source target : Coord} {timestamp : UInt64} {p : Peer}
      (h : (d side).peer.submit id source target timestamp = .ok (none, p)) :
      Step d (Function.update d side { d side with peer := p })
  | fail {side : Side} {id : Uuid} {source target : Coord} {timestamp : UInt64} {f : Failure}
      (h : (d side).peer.submit id source target timestamp = .error f) : Step d d
  | receive {side sender : Side} {m : Move} {new : Bool} {p : Peer}
      (hm : m ∈ (d sender).published) (h : (d side).peer.receive m = .ok (new, p)) :
      Step d (Function.update d side ((d side).receive p m))

/-- Any number of events in any order. -/
abbrev Run : Duel → Duel → Prop := Relation.ReflTransGen Step

theorem update_drop {d : Duel} {side : Side} {id : Uuid} {source target : Coord}
    {timestamp : UInt64} {p : Peer}
    (h : (d side).peer.submit id source target timestamp = .ok (none, p)) :
    Function.update d side { d side with peer := p } = d := by
  rw [Peer.submit_eq_none h]
  exact Function.update_eq_self side d

variable {s : Session} {d : Duel}

theorem apply_update_of_eq {β : Type} (f : Replica → β) {side : Side} {r : Replica}
    (h : f r = f (d side)) (side' : Side) :
    f (Function.update d side r side') = f (d side') := by
  by_cases heq : side' = side
  · rw [heq, Function.update_self, h]
  · rw [Function.update_of_ne heq]

theorem forall_update {P : Side → Replica → Prop} (hd : ∀ side, P side (d side)) {side : Side}
    {r : Replica} (hr : P side r) : ∀ side', P side' (Function.update d side r side') :=
  (Function.forall_update_iff d P).mpr ⟨hr, fun side' _ => hd side'⟩

theorem mem_update_append (f : Replica → List Move) {side side' : Side} {r : Replica} {m x : Move}
    (h : f r = f (d side) ++ [m]) :
    x ∈ f (Function.update d side r side') ↔ side' = side ∧ x = m ∨ x ∈ f (d side') := by
  by_cases heq : side' = side
  · rw [heq, Function.update_self, h, List.mem_append, List.mem_singleton]
    simp only [true_and, or_comm]
  · simp only [Function.update_of_ne heq, heq, false_and, false_or]

theorem exists_publish {side : Side} {id : Uuid} {source target : Coord} {timestamp : UInt64}
    {m : Move} {p : Peer} (hid : d.Fresh id)
    (h : (d side).peer.submit id source target timestamp = .ok (some m, p)) :
    ∃ d', Step d d' ∧ d' side = (d side).publish p m ∧ d' side.opponent = d side.opponent :=
  ⟨_, .publish hid h, Function.update_self .., Function.update_of_ne side.opponent_ne ..⟩

private theorem exists_receive (side : Side) {sender : Side} {m : Move}
    (hm : m ∈ (d sender).published) (hboard : m.OnBoard) :
    ∃ d' p, Step d d' ∧ d' side = (d side).receive p m ∧ d' side.opponent = d side.opponent := by
  obtain ⟨new, p, h⟩ := (d side).peer.receive_total hboard
  exact ⟨_, p, .receive hm h, Function.update_self .., Function.update_of_ne side.opponent_ne ..⟩

theorem fresh_ofSession (hlog : s.log = .empty) (id : Uuid) : (ofSession s).Fresh id := by
  intro side
  rw [Replica.log, ofSession, Peer.ofSession, hlog]
  rfl

theorem exists_crossing {idw idb : Uuid} {sw tw sb tb : Coord} {timew timeb : UInt64}
    {mw mb : Move} {pw pb : Peer} (hlog : s.log = .empty) (hid : idw ≠ idb)
    (hw : (Peer.ofSession .white s).submit idw sw tw timew = .ok (some mw, pw))
    (hb : (Peer.ofSession .black s).submit idb sb tb timeb = .ok (some mb, pb)) :
    ∃ d, Run (ofSession s) d ∧ (d .white).published = [mw] ∧ (d .black).published = [mb] ∧
      (d .white).received = [mb] ∧ (d .black).received = [mw] := by
  obtain ⟨-, hsession, hidw, hboardw⟩ := Peer.submit_accepted hw
  obtain ⟨-, -, -, hboardb⟩ := Peer.submit_accepted hb
  obtain ⟨d₁, h₁, hw₁, hb₁⟩ := exists_publish (d := ofSession s) (fresh_ofSession hlog idw) hw
  simp only [Side.opponent] at hb₁
  have hfresh : d₁.Fresh idb := by
    rintro (_ | _)
    · have hlog₁ : (d₁ .white).log = ⟨[mw]⟩ := by
        rw [hw₁, Replica.log, Replica.publish, hsession]
        simp only [Session.logged, Peer.ofSession, hlog, MoveLog.insert_empty]
      rw [hlog₁]
      simp [MoveLog.contains, hidw, hid]
    · rw [hb₁]
      exact fresh_ofSession hlog idb .black
  have hb' : (d₁ .black).peer.submit idb sb tb timeb = .ok (some mb, pb) := by rwa [hb₁]
  obtain ⟨d₂, h₂, hb₂, hw₂⟩ := exists_publish hfresh hb'
  simp only [Side.opponent] at hw₂
  have hmb : mb ∈ (d₂ .black).published := by simp [hb₂, Replica.publish]
  obtain ⟨d₃, p₃, h₃, hw₃, hb₃⟩ := exists_receive .white hmb hboardb
  simp only [Side.opponent] at hb₃
  have hmw : mw ∈ (d₃ .white).published := by
    simp [hw₃, hw₂, hw₁, Replica.publish, Replica.receive]
  obtain ⟨d₄, p₄, h₄, hb₄, hw₄⟩ := exists_receive .black hmw hboardw
  simp only [Side.opponent] at hw₄
  refine ⟨d₄, (((Relation.ReflTransGen.single h₁).tail h₂).tail h₃).tail h₄, ?_⟩
  simp [hw₄, hw₃, hw₂, hw₁, hb₄, hb₃, hb₂, hb₁, Replica.publish, Replica.receive, ofSession]

end Duel

end WereraChess
