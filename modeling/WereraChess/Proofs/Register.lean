import Mathlib.Logic.Relation
import WereraChess.Proofs.Delivery
import WereraChess.Proofs.InPlace
/-!
# Registers

A host keeps its sessions in a register, each under a key, and answers a message by operations in
place: it looks a session up, lets the session change and looks again. A message that is refused
leaves the register as it was; one that is answered changes the session that it names, and a
published move that was answered once changes nothing any more.
-/
namespace WereraChess

/-- Sessions by their keys, and the rules of those that are opened here. -/
structure Register where
  entries : Uuid → Option Session
  rules : HouseRules

namespace Register

open InPlace

/-- Every session stands under its own identifier. -/
def WellKeyed (r : Register) : Prop := ∀ id s, r.entries id = some s → s.id = id

def set (r : Register) (id : Uuid) (s : Session) : Register :=
  { r with entries := Function.update r.entries id (some s) }

/-- A lobby keeps every session under its identifier. -/
def ofLobby (l : Lobby) : Register := ⟨l.find?, l.rules⟩

def lookUp (id : Uuid) : InPlace Register Session := do
  match (← get).entries id with
  | some s => return s
  | none => throw (.refused (.unknownSession id))

def standing (id : Uuid) : InPlace Register Standing := do
  let s ← lookUp id
  s.standing

/-- Lets an operation change the session under a key. What it makes of the session stays there even
if it fails. -/
def within {α : Type} (id : Uuid) (op : InPlace Session α) : InPlace Register α := fun r =>
  match r.entries id with
  | none => .error (.refused (.unknownSession id)) r
  | some s =>
    match op.run s with
    | .ok a t => .ok a (r.set id t)
    | .error e t => .error e (r.set id t)

def adopt (s : Session) : InPlace Register PUnit := modify fun r => r.set s.id s

def add (s : Session) : InPlace Register PUnit := do adopt { s with rules := (← get).rules }

/-- Answers a message. -/
def dispatch (fresh : Uuid) : Message → InPlace Register (Option Message)
  | .sessionOpened s => do
    adopt s
    return none
  | .playerJoined id p => do
    let _ ← within id (Session.joining p)
    return none
  | .movePublished id m => do
    let before ← standing id
    if !(← within id (Session.receiving m)) then return none
    let after ← standing id
    match before.ending, after.ending with
    | none, some e => return some (.gameEnded id e)
    | _, _ => return none
  | .moveRejected _ _ _ => return none
  | .resigned id side => do
    let e ← within id (Session.declaring (.resignation side))
    return some (.gameEnded id e)
  | .timedOut id side => do
    let e ← within id (Session.declaring (.timeout side))
    return some (.gameEnded id e)
  | .gameEnded _ _ => return none
  | .rematchRequested id => do
    let s ← lookUp id
    add (s.rematch fresh)
    let t ← lookUp fresh
    return some (.sessionOpened t)

/-- What a message that does not fail makes of a register, and what is replied. Any message but a
snapshot and a request for a rematch lets the session that it names grow, or does nothing. -/
inductive Answered (r : Register) (fresh : Uuid) : Message → Option Message → Register → Prop
  | adopted (s : Session) : Answered r fresh (.sessionOpened s) none (r.set s.id s)
  | joined {id : Uuid} {p : Participant} {side : Side} {s t : Session}
      (hs : r.entries id = some s) (ht : s.join p = .ok (side, t)) :
      Answered r fresh (.playerJoined id p) none (r.set id t)
  | moved {id : Uuid} {m : Move} {s : Session} {reply : Option Message}
      (hs : r.entries id = some s) (htext : ∃ text, m.text = .ok text)
      (hst : ∃ st, (s.logged m).standing = .ok st) :
      Answered r fresh (.movePublished id m) reply (r.set id (s.logged m))
  | rejected (id : Uuid) (reason text : String) :
      Answered r fresh (.moveRejected id reason text) none r
  | resigned {id : Uuid} {side : Side} {e : Ending} {s t : Session}
      (hs : r.entries id = some s) (ht : s.resign side = .ok (e, t)) :
      Answered r fresh (.resigned id side) (some (.gameEnded id e)) (r.set id t)
  | timedOut {id : Uuid} {side : Side} {e : Ending} {s t : Session}
      (hs : r.entries id = some s) (ht : s.timeOut side = .ok (e, t)) :
      Answered r fresh (.timedOut id side) (some (.gameEnded id e)) (r.set id t)
  | ended (id : Uuid) (e : Ending) : Answered r fresh (.gameEnded id e) none r
  | opened {id : Uuid} {s : Session} (hs : r.entries id = some s) :
      Answered r fresh (.rematchRequested id)
        (some (.sessionOpened { s.rematch fresh with rules := r.rules }))
        (r.set fresh { s.rematch fresh with rules := r.rules })

variable {r r' : Register} {id fresh : Uuid} {s t : Session} {m : Message}

private theorem entries_set_self : (r.set id s).entries id = some s := Function.update_self ..

private theorem entries_set_of_ne {k : Uuid} (h : k ≠ id) : (r.set id s).entries k = r.entries k :=
  Function.update_of_ne h ..

private theorem set_eq_self (h : r.entries id = some s) : r.set id s = r := by
  rw [set, ← h, Function.update_eq_self]

private theorem run_lookUp (id : Uuid) (r : Register) :
    (lookUp id).run r = match r.entries id with
      | some s => .ok s r
      | none => .error (.refused (.unknownSession id)) r := by
  rw [lookUp, run_get_bind]
  cases r.entries id <;> rfl

private theorem run_standing (id : Uuid) (r : Register) :
    (standing id).run r = match r.entries id with
      | none => .error (.refused (.unknownSession id)) r
      | some s => match s.standing with
        | .ok st => .ok st r
        | .error f => .error (.fault f) r := by
  rw [standing, run_bind, run_lookUp]
  cases r.entries id with
  | none => rfl
  | some s =>
    dsimp only
    cases s.standing <;> rfl

private theorem run_within {α : Type} (id : Uuid) (f : Session → Except Failure (α × Session))
    (r : Register) :
    (within id (replacing f)).run r = match r.entries id with
      | none => .error (.refused (.unknownSession id)) r
      | some s => match f s with
        | .ok (a, t) => .ok a (r.set id t)
        | .error e => .error e r := by
  change within id (replacing f) r = _
  rw [within]
  cases hs : r.entries id with
  | none => rfl
  | some s =>
    dsimp only
    rw [run_replacing]
    cases f s with
    | ok p => rfl
    | error e =>
      dsimp only
      rw [set_eq_self hs]

private theorem run_lookUp_of_entry (hs : r.entries id = some s) : (lookUp id).run r = .ok s r := by
  rw [run_lookUp, hs]

private theorem run_standing_of_entry {st : Standing} (hs : r.entries id = some s)
    (hst : s.standing = .ok st) : (standing id).run r = .ok st r := by
  simp only [run_standing, hs, hst]

private theorem run_within_of_entry {α : Type} {f : Session → Except Failure (α × Session)} {a : α}
    (hs : r.entries id = some s) (hf : f s = .ok (a, t)) :
    (within id (replacing f)).run r = .ok a (r.set id t) := by
  simp only [run_within, hs, hf]

private theorem run_within_reply {α : Type} (id : Uuid) (f : Session → Except Failure (α × Session))
    (g : α → Option Message) (r : Register) :
    (∃ a s t, r.entries id = some s ∧ f s = .ok (a, t) ∧
        (do return g (← within id (replacing f)) : InPlace Register _).run r =
          .ok (g a) (r.set id t)) ∨
      ∃ e, (do return g (← within id (replacing f)) : InPlace Register _).run r = .error e r := by
  rw [run_bind, run_within]
  cases hs : r.entries id with
  | none => exact .inr ⟨_, rfl⟩
  | some s =>
    dsimp only
    cases hf : f s with
    | error e => exact .inr ⟨_, rfl⟩
    | ok p => exact .inl ⟨p.1, s, p.2, rfl, hf, rfl⟩

private theorem run_movePublished (r : Register) (fresh id : Uuid) (m : Move) :
    (∃ reply s, r.entries id = some s ∧ (∃ text, m.text = .ok text) ∧
        (∃ st, (s.logged m).standing = .ok st) ∧
        (dispatch fresh (.movePublished id m)).run r = .ok reply (r.set id (s.logged m))) ∨
      (∃ e, (dispatch fresh (.movePublished id m)).run r = .error e r) ∨
      ∃ f r', (dispatch fresh (.movePublished id m)).run r = .error (.fault f) r' := by
  rw [dispatch, Session.receiving_eq]
  cases hs : r.entries id with
  | none =>
    have hnone : (standing id).run r = .error (.refused (.unknownSession id)) r := by
      simp only [run_standing, hs]
    exact .inr (.inl ⟨_, run_bind_of_error hnone⟩)
  | some s =>
    cases hbefore : s.standing with
    | error f =>
      have hfault : (standing id).run r = .error (.fault f) r := by
        simp only [run_standing, hs, hbefore]
      exact .inr (.inl ⟨_, run_bind_of_error hfault⟩)
    | ok before =>
      rw [run_bind_of_ok (run_standing_of_entry hs hbefore)]
      cases hreceive : s.receive m with
      | error f =>
        have hfault : (within id (replacing fun s => liftM (s.receive m))).run r =
            .error (.fault f) r := by
          simp only [run_within, hs, hreceive]
          rfl
        exact .inr (.inl ⟨_, run_bind_of_error hfault⟩)
      | ok p =>
        obtain ⟨new, t⟩ := p
        obtain ⟨htext, hnew, rfl⟩ := Session.receive_eq_ok.mp hreceive
        rw [run_bind_of_ok (run_within_of_entry hs (liftFault_eq_ok.mpr hreceive))]
        cases new with
        | false =>
          have hcontains : s.log.contains m.id = true := by simpa using hnew
          have hknown : s.logged m = s := by
            rw [Session.logged, MoveLog.insert_of_contains hcontains]
          exact .inl ⟨_, s, rfl, htext, ⟨before, by rw [hknown, hbefore]⟩, rfl⟩
        | true =>
          simp only [Bool.not_true, Bool.false_eq_true, if_false]
          cases hafter : (s.logged m).standing with
          | error f =>
            have hfault : (standing id).run (r.set id (s.logged m)) =
                .error (.fault f) (r.set id (s.logged m)) := by
              simp only [run_standing, entries_set_self, hafter]
            exact .inr (.inr ⟨_, _, run_bind_of_error hfault⟩)
          | ok after =>
            rw [run_bind_of_ok (run_standing_of_entry entries_set_self hafter)]
            split <;> exact .inl ⟨_, s, rfl, htext, ⟨after, hafter⟩, rfl⟩

private theorem run_rematchRequested (hs : r.entries id = some s) :
    (dispatch fresh (.rematchRequested id)).run r =
      .ok (some (.sessionOpened { s.rematch fresh with rules := r.rules }))
        (r.set fresh { s.rematch fresh with rules := r.rules }) := by
  have hadd : (add (s.rematch fresh)).run r =
      .ok () (r.set fresh { s.rematch fresh with rules := r.rules }) := rfl
  rw [dispatch, run_bind_of_ok (run_lookUp_of_entry hs), run_bind_of_ok hadd,
    run_bind_of_ok (run_lookUp_of_entry entries_set_self)]
  rfl

/-- A message is answered, or it fails and changes nothing, or it faults once a move is logged. -/
theorem run_dispatch (r : Register) (fresh : Uuid) (m : Message) :
    (∃ reply r', (dispatch fresh m).run r = .ok reply r' ∧ Answered r fresh m reply r') ∨
      (∃ e, (dispatch fresh m).run r = .error e r) ∨
      ∃ f r', (dispatch fresh m).run r = .error (.fault f) r' := by
  cases m with
  | sessionOpened s => exact .inl ⟨_, _, rfl, .adopted s⟩
  | playerJoined id p =>
    rw [dispatch, Session.joining_eq]
    rcases run_within_reply id (fun s => liftM (s.join p)) (fun _ => none) r with
      ⟨side, s, t, hs, ht, hrun⟩ | ⟨e, hrun⟩
    · exact .inl ⟨_, _, hrun, .joined hs (liftRefusal_eq_ok.mp ht)⟩
    · exact .inr (.inl ⟨e, hrun⟩)
  | movePublished id m =>
    rcases run_movePublished r fresh id m with ⟨reply, s, hs, htext, hst, hrun⟩ | h
    · exact .inl ⟨_, _, hrun, .moved hs htext hst⟩
    · exact .inr h
  | moveRejected id reason text => exact .inl ⟨_, _, rfl, .rejected id reason text⟩
  | resigned id side =>
    rw [dispatch, Session.declaring_eq]
    rcases run_within_reply id (fun s => s.declare (.resignation side))
        (fun e => some (.gameEnded id e)) r with ⟨e, s, t, hs, ht, hrun⟩ | ⟨e, hrun⟩
    · exact .inl ⟨_, _, hrun, .resigned hs ht⟩
    · exact .inr (.inl ⟨e, hrun⟩)
  | timedOut id side =>
    rw [dispatch, Session.declaring_eq]
    rcases run_within_reply id (fun s => s.declare (.timeout side))
        (fun e => some (.gameEnded id e)) r with ⟨e, s, t, hs, ht, hrun⟩ | ⟨e, hrun⟩
    · exact .inl ⟨_, _, hrun, .timedOut hs ht⟩
    · exact .inr (.inl ⟨e, hrun⟩)
  | gameEnded id e => exact .inl ⟨_, _, rfl, .ended id e⟩
  | rematchRequested id =>
    cases hs : r.entries id with
    | some s => exact .inl ⟨_, _, run_rematchRequested hs, .opened hs⟩
    | none =>
      have hrun : (dispatch fresh (.rematchRequested id)).run r =
          .error (.refused (.unknownSession id)) r := by
        rw [dispatch, run_bind, run_lookUp, hs]
      exact .inr (.inl ⟨_, hrun⟩)

private theorem ofLobby_adopt (l : Lobby) (s : Session) :
    ofLobby (l.adopt s) = (ofLobby l).set s.id s := by
  rw [ofLobby, set]
  congr 1
  funext id
  rw [Lobby.find?_adopt, Function.update_apply]
  simp only [eq_comm]
  rfl

private theorem outcome_within {α : Type} (l : Lobby) (id : Uuid)
    {f : Session → Except Failure (α × Session)} (hid : ∀ s a t, f s = .ok (a, t) → t.id = s.id) :
    (within id (replacing f)).outcome (ofLobby l) =
      (l.update id f).map fun p => (p.1, ofLobby p.2) := by
  have hentries : (ofLobby l).entries id = l.find? id := rfl
  rw [outcome, run_within, hentries]
  cases hs : l.find? id with
  | none =>
    rw [Lobby.update, Lobby.get, hs]
    rfl
  | some s =>
    rw [Lobby.update_of_find? hs]
    dsimp only
    cases hf : f s with
    | error e => rfl
    | ok p =>
      have hkey : p.2.id = id := (hid s p.1 p.2 hf).trans (Lobby.id_of_find? hs)
      subst hkey
      exact congrArg (fun r => Except.ok (p.1, r)) (ofLobby_adopt l p.2).symm

private theorem outcome_standing (l : Lobby) (id : Uuid) :
    (standing id).outcome (ofLobby l) = (l.standing id).map (·, ofLobby l) := by
  have hentries : (ofLobby l).entries id = l.find? id := rfl
  rw [outcome, run_standing, hentries, Lobby.standing, Lobby.get]
  cases l.find? id with
  | none => rfl
  | some s =>
    change _ = Except.map _ (liftM s.standing)
    dsimp only
    cases s.standing <;> rfl

private theorem outcome_within_reply {α : Type} (l : Lobby) (id : Uuid) (g : α → Option Message)
    {f : Session → Except Failure (α × Session)} (hid : ∀ s a t, f s = .ok (a, t) → t.id = s.id) :
    (do return g (← within id (replacing f)) : InPlace Register _).outcome (ofLobby l) =
      (l.update id f >>= fun (a, l) => (pure (g a, l) : Except Failure _)).map
        fun p => (p.1, ofLobby p.2) := by
  rw [outcome_bind, outcome_within l id hid]
  cases l.update id f <;> rfl

private theorem outcome_movePublished (l : Lobby) (fresh id : Uuid) (x : Move) :
    (dispatch fresh (.movePublished id x)).outcome (ofLobby l) =
      (l.handle fresh (.movePublished id x)).map fun p => (p.1, ofLobby p.2) := by
  have hid (s : Session) (new : Bool) (t : Session)
      (h : (liftM (s.receive x) : Except Failure (Bool × Session)) = .ok (new, t)) :
      t.id = s.id := by
    obtain ⟨-, -, rfl⟩ := Session.receive_eq_ok.mp (liftFault_eq_ok.mp h)
    rfl
  rw [dispatch, Session.receiving_eq, outcome_bind, outcome_standing, map_bind_left, Lobby.handle,
    map_bind_eq]
  refine bind_congr fun before => ?_
  rw [outcome_bind, outcome_within l id hid, map_bind_left, map_bind_eq]
  refine bind_congr fun p => ?_
  obtain ⟨new, l'⟩ := p
  cases new with
  | false => rfl
  | true =>
    change InPlace.outcome (standing id >>= _) (ofLobby l') = Except.map _ (l'.standing id >>= _)
    rw [outcome_bind, outcome_standing, map_bind_left, map_bind_eq]
    refine bind_congr fun after => ?_
    dsimp only
    cases before.ending <;> cases after.ending <;> rfl

private theorem outcome_rematchRequested (l : Lobby) (fresh id : Uuid) :
    (dispatch fresh (.rematchRequested id)).outcome (ofLobby l) =
      (l.handle fresh (.rematchRequested id)).map fun p => (p.1, ofLobby p.2) := by
  cases hs : l.find? id with
  | none =>
    have hentries : (ofLobby l).entries id = none := hs
    rw [outcome, dispatch, run_bind, run_lookUp, hentries, Lobby.handle, Lobby.rematch, Lobby.get,
      hs]
    rfl
  | some s =>
    have hentries : (ofLobby l).entries id = some s := hs
    have hadd : ofLobby (l.add (s.rematch fresh)) =
        (ofLobby l).set fresh { s.rematch fresh with rules := l.rules } := ofLobby_adopt l _
    rw [run_eq_ok.mp (run_rematchRequested hentries), Lobby.handle_rematchRequested hs]
    exact congrArg (fun r => Except.ok (_, r)) hadd.symm

theorem outcome_dispatch (l : Lobby) (fresh : Uuid) (m : Message) :
    (dispatch fresh m).outcome (ofLobby l) =
      (l.handle fresh m).map fun p => (p.1, ofLobby p.2) := by
  cases m with
  | sessionOpened s =>
    have hadopt := ofLobby_adopt l s
    exact congrArg (fun r => Except.ok (none, r)) hadopt.symm
  | playerJoined id p =>
    rw [dispatch, Session.joining_eq]
    exact outcome_within_reply l id (fun _ => none) fun s a t h =>
      (Session.growsTo_join (liftRefusal_eq_ok.mp h)).id
  | movePublished id x => exact outcome_movePublished l fresh id x
  | moveRejected id reason text => rfl
  | resigned id side =>
    rw [dispatch, Session.declaring_eq]
    exact outcome_within_reply l id (fun e => some (.gameEnded id e)) fun s a t h =>
      (Session.growsTo_declare h).id
  | timedOut id side =>
    rw [dispatch, Session.declaring_eq]
    exact outcome_within_reply l id (fun e => some (.gameEnded id e)) fun s a t h =>
      (Session.growsTo_declare h).id
  | gameEnded id e => rfl
  | rematchRequested id => exact outcome_rematchRequested l fresh id

/-- What an answer leaves of a register, and the session that a rematch adds. -/
structure Keeps (r : Register) (fresh : Uuid) (m : Message) (reply : Option Message)
    (r' : Register) : Prop where
  keyed : r'.WellKeyed
  rules : r'.rules = r.rules
  others : ∀ id, id ≠ m.sessionId → (∀ k, m = .rematchRequested k → id ≠ fresh) →
    r'.entries id = r.entries id
  rematch : ∀ id, m = .rematchRequested id → ∃ s t, r.entries id = some s ∧
    r'.entries id = some s ∧ reply = some (.sessionOpened t) ∧ r' = r.set fresh t ∧
    t = ⟨fresh, s.variant, s.seats.swapped, .initial s.variant, .empty, none, r.rules⟩

private theorem WellKeyed.set (h : r.WellKeyed) (ht : t.id = id) : (r.set id t).WellKeyed := by
  intro k s hs
  by_cases hk : k = id
  · subst hk
    rw [entries_set_self] at hs
    rwa [← Option.some.inj hs]
  · rw [entries_set_of_ne hk] at hs
    exact h k s hs

/-- The session that the message names may have grown; all others stand as they did. -/
theorem Answered.keeps {reply : Option Message} (h : Answered r fresh m reply r')
    (hkeyed : r.WellKeyed) (hfresh : r.entries fresh = none) : r.Keeps fresh m reply r' := by
  have hset {id : Uuid} {t : Session} {m : Message} {reply : Option Message}
      (hm : m.sessionId = id) (hplain : ∀ k, m ≠ .rematchRequested k) (ht : t.id = id) :
      r.Keeps fresh m reply (r.set id t) :=
    ⟨hkeyed.set ht, rfl, fun k hk _ => entries_set_of_ne (hm ▸ hk),
      fun k hk => absurd hk (hplain k)⟩
  have hsame {m : Message} {reply : Option Message} (hplain : ∀ k, m ≠ .rematchRequested k) :
      r.Keeps fresh m reply r :=
    ⟨hkeyed, rfl, fun k _ _ => rfl, fun k hk => absurd hk (hplain k)⟩
  cases h with
  | adopted s => exact hset rfl nofun rfl
  | joined hs ht => exact hset rfl nofun ((Session.growsTo_join ht).id.trans (hkeyed _ _ hs))
  | moved hs _ _ =>
    exact hset rfl nofun ((Session.growsTo_logged _ _).id.trans (hkeyed _ _ hs))
  | rejected => exact hsame nofun
  | resigned hs ht => exact hset rfl nofun ((Session.growsTo_declare ht).id.trans (hkeyed _ _ hs))
  | timedOut hs ht => exact hset rfl nofun ((Session.growsTo_declare ht).id.trans (hkeyed _ _ hs))
  | ended => exact hsame nofun
  | @opened id s hs =>
    refine ⟨hkeyed.set rfl, rfl, fun k _ hk => entries_set_of_ne (hk id rfl), fun k hk => ?_⟩
    obtain rfl := Message.rematchRequested.inj hk
    have hne : id ≠ fresh := by
      rintro rfl
      exact absurd (hs.symm.trans hfresh) nofun
    exact ⟨s, _, hs, (entries_set_of_ne hne).trans hs, rfl, rfl, rfl⟩

/-- A register hears a message without a fault, under a fresh identifier. The message is no snapshot
of the session with the identifier. -/
def Hears (id : Uuid) (r r' : Register) : Prop :=
  ∃ fresh m, r.entries fresh = none ∧ (∀ s, m = .sessionOpened s → s.id ≠ id) ∧
    (∀ f, (dispatch fresh m).outcome r ≠ .error (.fault f)) ∧ (dispatch fresh m).left r = r'

/-- The session under the key knows the move and has a standing. -/
def Knows (id : Uuid) (m : Move) (r : Register) : Prop :=
  ∃ s st, r.entries id = some s ∧ s.standing = .ok st ∧ s.log.contains m.id = true

private theorem run_of_knows {x : Move} (h : Knows id x r) (htext : ∃ text, x.text = .ok text)
    (fresh : Uuid) : (dispatch fresh (.movePublished id x)).run r = .ok none r := by
  obtain ⟨s, st, hs, hst, hknown⟩ := h
  have hreceive : s.receive x = .ok (false, s) := by
    refine Session.receive_eq_ok.mpr ⟨htext, by rw [hknown]; rfl, ?_⟩
    rw [Session.logged, MoveLog.insert_of_contains hknown]
  rw [dispatch, Session.receiving_eq, run_bind_of_ok (run_standing_of_entry hs hst),
    run_bind_of_ok (run_within_of_entry hs (liftFault_eq_ok.mpr hreceive)), set_eq_self hs]
  rfl

private theorem Knows.answered {x : Move} {reply : Option Message} (h : Knows id x r)
    (hm : Answered r fresh m reply r') (hfresh : r.entries fresh = none)
    (hother : ∀ s, m = .sessionOpened s → s.id ≠ id) : Knows id x r' := by
  obtain ⟨s, st, hs, hst, hknown⟩ := h
  have helsewhere {k : Uuid} {t : Session} (hk : k ≠ id) : Knows id x (r.set k t) :=
    ⟨s, st, (entries_set_of_ne (Ne.symm hk)).trans hs, hst, hknown⟩
  have hgrown {k : Uuid} {s' t : Session} (hs' : r.entries k = some s') (hgrows : s'.GrowsTo t)
      (hafter : ∀ st, s'.standing = .ok st → ∃ st', t.standing = .ok st') :
      Knows id x (r.set k t) := by
    by_cases hk : k = id
    · subst hk
      obtain rfl := Option.some.inj (hs.symm.trans hs')
      obtain ⟨st', hst'⟩ := hafter st hst
      refine ⟨t, st', entries_set_self, hst', ?_⟩
      obtain ⟨y, hy, hid⟩ := MoveLog.contains_iff.mp hknown
      exact MoveLog.contains_iff.mpr ⟨y, hgrows.records.subset hy, hid⟩
    · exact helsewhere hk
  have hdeclared {k : Uuid} {s' t : Session} {e e' : Ending} (hs' : r.entries k = some s')
      (ht : s'.declare e = .ok (e', t)) : Knows id x (r.set k t) := by
    refine hgrown hs' (Session.growsTo_declare ht) fun st' hst' => ?_
    obtain ⟨-, -, -, -, rfl⟩ := Session.declare_eq_ok.mp ht
    obtain ⟨q, hq, -⟩ := Session.standing_eq_ok.mp hst'
    exact ⟨_, Session.standing_eq_ok.mpr ⟨q, hq, rfl⟩⟩
  cases hm with
  | adopted t => exact helsewhere (hother t rfl)
  | joined hs' ht =>
    refine hgrown hs' (Session.growsTo_join ht) fun st' hst' => ⟨st', ?_⟩
    rw [Session.frame_join ht]
    exact hst'
  | moved hs' _ hst' => exact hgrown hs' (Session.growsTo_logged _ _) fun _ _ => hst'
  | rejected => exact ⟨s, st, hs, hst, hknown⟩
  | resigned hs' ht => exact hdeclared hs' ht
  | timedOut hs' ht => exact hdeclared hs' ht
  | ended => exact ⟨s, st, hs, hst, hknown⟩
  | opened =>
    refine helsewhere ?_
    rintro rfl
    exact absurd (hs.symm.trans hfresh) nofun

theorem Knows.hears {x : Move} (h : Knows id x r) (hr : r.Hears id r') : Knows id x r' := by
  obtain ⟨fresh, m, hfresh, hother, hfault, rfl⟩ := hr
  rcases run_dispatch r fresh m with ⟨reply, r', hrun, hm⟩ | ⟨e, hrun⟩ | ⟨f, r', hrun⟩
  · rw [left_of_ok hrun]
    exact h.answered hm hfresh hother
  · rwa [left_of_error hrun]
  · exact absurd (run_eq_error.mp hrun).1 (hfault f)

private theorem knows_of_answered {x : Move} {reply : Option Message}
    (h : Answered r fresh (.movePublished id x) reply r') :
    Knows id x r' ∧ ∃ text, x.text = .ok text := by
  cases h with
  | @moved _ _ s _ hs htext hst =>
    obtain ⟨st, hst⟩ := hst
    have hknown : (s.logged x).log.contains x.id = true := by
      cases hold : s.log.contains x.id with
      | false =>
        rw [Session.logged, MoveLog.contains_insert hold, hold]
        exact decide_eq_true rfl
      | true => rw [Session.logged, MoveLog.insert_of_contains hold, hold]
    exact ⟨⟨_, st, entries_set_self, hst, hknown⟩, htext⟩

/-- A message that is refused changes nothing. One that is answered changes no more than the session
that it names, and a request for a rematch adds one session and changes none. A published move that
was answered is answered by nothing and changes nothing, whatever has been heard in between. -/
theorem dispatch_atomic (fresh : Uuid) (m : Message) (hkeyed : r.WellKeyed)
    (hfresh : r.entries fresh = none) :
    (∀ l, ofLobby l = r →
      (dispatch fresh m).outcome r = (l.handle fresh m).map fun p => (p.1, ofLobby p.2)) ∧
    (∀ e r', (dispatch fresh m).run r = .error (.refused e) r' → r' = r) ∧
    (∀ reply r', (dispatch fresh m).run r = .ok reply r' → r.Keeps fresh m reply r' ∧
      ∀ id x, m = .movePublished id x → ∀ r₂, Relation.ReflTransGen (Hears id) r' r₂ →
        ∀ fresh₂, (dispatch fresh₂ m).run r₂ = .ok none r₂) := by
  refine ⟨?_, ?_, ?_⟩
  · rintro l rfl
    exact outcome_dispatch l fresh m
  · intro e r' h
    rcases run_dispatch r fresh m with ⟨_, _, hrun, -⟩ | ⟨_, hrun⟩ | ⟨_, _, hrun⟩
    · exact absurd (h.symm.trans hrun) nofun
    · exact (EStateM.Result.error.inj (h.symm.trans hrun)).2
    · exact absurd (h.symm.trans hrun) nofun
  · intro reply r' h
    have hm : Answered r fresh m reply r' := by
      rcases run_dispatch r fresh m with ⟨_, _, hrun, hm⟩ | ⟨_, hrun⟩ | ⟨_, _, hrun⟩
      · obtain ⟨rfl, rfl⟩ := EStateM.Result.ok.inj (h.symm.trans hrun)
        exact hm
      · exact absurd (h.symm.trans hrun) nofun
      · exact absurd (h.symm.trans hrun) nofun
    refine ⟨hm.keeps hkeyed hfresh, ?_⟩
    rintro id x rfl r₂ hheard fresh₂
    obtain ⟨hknows, htext⟩ := knows_of_answered hm
    have hknows₂ : Knows id x r₂ := by
      induction hheard with
      | refl => exact hknows
      | tail _ hr ih => exact ih.hears hr
    exact run_of_knows hknows₂ htext fresh₂

private theorem wellKeyed_ofLobby (l : Lobby) : (ofLobby l).WellKeyed :=
  fun _ _ => Lobby.id_of_find?

/-- A move arrives, a rematch is asked for, and the move arrives again. -/
theorem dispatch_atomic_opener :
    (ofLobby .hostingFriendly).WellKeyed ∧ (ofLobby .hostingFriendly).entries (.numbered 9) = none ∧
      ∃ reply r' t,
        (dispatch (.numbered 9) (.movePublished (.numbered 1) Session.opener)).run
          (ofLobby .hostingFriendly) = .ok reply r' ∧
        (dispatch (.numbered 9) (.rematchRequested (.numbered 1))).left r' =
          r'.set (.numbered 9) t ∧
        (dispatch (.numbered 8) (.movePublished (.numbered 1) Session.opener)).run
          (r'.set (.numbered 9) t) = .ok none (r'.set (.numbered 9) t) := by
  have hne : (Session.friendly .standard).id ≠ .numbered 9 := by decide
  have hkeyed := wellKeyed_ofLobby .hostingFriendly
  have hfresh : (ofLobby .hostingFriendly).entries (.numbered 9) = none :=
    Lobby.find?_adopt_of_ne hne
  have hafter : ∃ st, Session.begun.standing = .ok st := by
    apply Session.standing_total
    · rw [Session.log_begun]
      decide
    · rw [Session.log_begun]
      decide
  obtain ⟨reply, hhandle⟩ : ∃ reply, Lobby.hostingFriendly.handle (.numbered 9)
      (.movePublished (.numbered 1) Session.opener) =
        .ok (reply, Lobby.hostingFriendly.adopt .begun) :=
    Lobby.handle_movePublished.mpr ⟨_, Lobby.find?_hostingFriendly,
      ⟨_, Session.standing_of_log_empty rfl rfl⟩, ⟨_, rfl⟩, fun _ => hafter, rfl⟩
  obtain ⟨hlobby, -, hanswer⟩ :=
    dispatch_atomic (.numbered 9) (.movePublished (.numbered 1) Session.opener) hkeyed hfresh
  obtain ⟨r', hr'⟩ : ∃ r', ofLobby (Lobby.hostingFriendly.adopt .begun) = r' := ⟨_, rfl⟩
  have hrun : (dispatch (.numbered 9) (.movePublished (.numbered 1) Session.opener)).run
      (ofLobby .hostingFriendly) = .ok reply r' := by
    rw [← hr']
    exact run_eq_ok.mpr ((hlobby _ rfl).trans (congrArg (Except.map _) hhandle))
  have hentry : r'.entries (.numbered 1) = some .begun := by
    rw [← hr']
    exact Lobby.find?_adopt_self rfl
  have hfresh' : r'.entries (.numbered 9) = none := by
    rw [← hr']
    exact (Lobby.find?_adopt_of_ne hne).trans hfresh
  obtain ⟨-, hagain⟩ := hanswer _ _ hrun
  have hrematch : (dispatch (.numbered 9) (.rematchRequested (.numbered 1))).run r' = _ :=
    run_rematchRequested hentry
  have hhears : Hears (.numbered 1) r' _ :=
    ⟨.numbered 9, .rematchRequested (.numbered 1), hfresh', fun _ h => absurd h nofun,
      fun _ h => absurd ((run_eq_ok.mp hrematch).symm.trans h) nofun, left_of_ok hrematch⟩
  exact ⟨hkeyed, hfresh, reply, r', _, hrun, left_of_ok hrematch,
    hagain _ _ rfl _ (.single hhears) (.numbered 8)⟩

end Register

end WereraChess
