import Mathlib.Data.List.InsertIdx
import WereraChess.Message
import WereraChess.Proofs.Reached
/-!
# Handling of messages

A lobby answers a message by one operation on the session that it names, and a message that fails
leaves it as it was. An operation on a session keeps its records. A snapshot takes the place of a
session with all that it has logged.
-/
namespace WereraChess

/-- What an operation makes of a session: it keeps the identifier and the records in their order, and
puts new records into their places. -/
structure Session.GrowsTo (s t : Session) : Prop where
  id : t.id = s.id
  records : s.log.moves.Sublist t.log.moves
  canonical : Move.IsCanonical s.log.moves → Move.IsCanonical t.log.moves

namespace Session

variable {s s' : Session} {m : Move}

private theorem GrowsTo.of_log_eq (hid : s'.id = s.id) (hlog : s'.log = s.log) : s.GrowsTo s' :=
  ⟨hid, by rw [hlog], by rw [hlog]; exact fun h => h⟩

theorem growsTo_logged (s : Session) (m : Move) : s.GrowsTo (s.logged m) where
  id := rfl
  records := by
    change s.log.moves.Sublist (s.log.insert m).moves
    rw [MoveLog.insert]
    split
    · exact List.Sublist.refl _
    · exact List.sublist_insertIdx ..
  canonical h := MoveLog.isCanonical_insert h m

theorem growsTo_join {p : Participant} {side : Side} (h : s.join p = .ok (side, s')) :
    s.GrowsTo s' := by
  rw [frame_join h]
  exact .of_log_eq rfl rfl

theorem growsTo_declare {e e' : Ending} (h : s.declare e = .ok (e', s')) : s.GrowsTo s' := by
  rw [frame_declare h]
  exact .of_log_eq rfl rfl

theorem growsTo_submit {id : Uuid} {side : Side} {source target : Coord} {timestamp : UInt64}
    {a : Accepted} (h : s.submit id side source target timestamp = .ok (a, s')) :
    s.GrowsTo s' := by
  obtain ⟨-, -, -, -, -, -, -, -, -, -, -, rfl⟩ := submit_eq_ok.mp h
  exact growsTo_logged s _

theorem GrowsTo.isCanonical_iff (h : s.GrowsTo s') :
    Move.IsCanonical s'.log.moves ↔ Move.IsCanonical s.log.moves := by
  refine ⟨fun hc => ⟨hc.ascending.sublist h.records, ?_⟩, h.canonical⟩
  exact (h.records.map Move.id).nodup hc.distinct

end Session

namespace Lobby

variable {l l' : Lobby} {id fresh : Uuid} {s t : Session} {m : Message}

theorem find?_eq_some_iff : l.find? id = some s ↔ s ∈ l.sessions ∧ s.id = id := by
  constructor
  · intro h
    exact ⟨List.mem_of_find?_eq_some h, by simpa using List.find?_some h⟩
  · rintro ⟨hs, rfl⟩
    cases hfind : l.find? s.id with
    | none => simpa using List.find?_eq_none.mp hfind s hs
    | some t =>
      have hid : t.id = s.id := by simpa using List.find?_some hfind
      rw [List.inj_on_of_nodup_map l.distinct (List.mem_of_find?_eq_some hfind) hs hid]

theorem id_of_find? (h : l.find? id = some s) : s.id = id := (find?_eq_some_iff.mp h).2

theorem mem_of_find? (h : l.find? id = some s) : s ∈ l.sessions := (find?_eq_some_iff.mp h).1

theorem get_eq_ok : l.get id = .ok s ↔ l.find? id = some s := by
  rw [get]
  cases l.find? id <;> simp

theorem update_eq_ok {α : Type} {f : Session → Except Failure (α × Session)} {a : α} :
    l.update id f = .ok (a, l') ↔
      ∃ s t, l.find? id = some s ∧ f s = .ok (a, t) ∧ l.adopt t = l' := by
  simp only [update, bind_eq_ok, liftRefusal_eq_ok, get_eq_ok, pure_eq_ok, Prod.mk.injEq,
    Prod.exists]
  constructor
  · rintro ⟨s, hs, a', t, h, rfl, rfl⟩
    exact ⟨s, t, hs, h, rfl⟩
  · rintro ⟨s, t, hs, h, rfl⟩
    exact ⟨s, hs, a, t, h, rfl, rfl⟩

theorem update_of_find? {α : Type} {f : Session → Except Failure (α × Session)}
    (hs : l.find? id = some s) :
    l.update id f = do
      let (a, t) ← f s
      return (a, l.adopt t) := by
  have hget : (liftM (l.get id) : Except Failure Session) = .ok s :=
    liftRefusal_eq_ok.mpr (get_eq_ok.mpr hs)
  rw [update, hget]
  rfl

private theorem standing_eq_ok {st : Standing} :
    l.standing id = .ok st ↔ ∃ s, l.find? id = some s ∧ s.standing = .ok st := by
  simp only [standing, bind_eq_ok, liftRefusal_eq_ok, liftFault_eq_ok, get_eq_ok]

theorem standing_eq_ok_of_find? {st : Standing} (hs : l.find? id = some s) :
    l.standing id = .ok st ↔ s.standing = .ok st := by
  rw [standing_eq_ok, hs]
  exact ⟨fun ⟨_, h, hst⟩ => Option.some.inj h ▸ hst, fun h => ⟨s, rfl, h⟩⟩

theorem adopt_of_find? (hs : l.find? s.id = some s) : l.adopt s = l := by
  obtain ⟨sessions, rules, hdistinct⟩ := l
  simp only [adopt, Session.placeIn_eq_self hs]

theorem find?_adopt_self (h : t.id = id) : (l.adopt t).find? id = some t := by
  rw [find?_adopt, if_pos h]

theorem find?_adopt_of_ne (h : t.id ≠ id) : (l.adopt t).find? id = l.find? id := by
  rw [find?_adopt, if_neg h]

theorem find?_adopt_of_growsTo (hs : l.find? id = some s) (ht : s.GrowsTo t) :
    (l.adopt t).find? id = some t :=
  find?_adopt_self (ht.id.trans (id_of_find? hs))

/-- A published move needs a session with a standing and a text, and once it is logged, unless it is
known, a standing again. -/
theorem handle_movePublished {r : Move} :
    (∃ reply, l.handle fresh (.movePublished id r) = .ok (reply, l')) ↔
      ∃ s, l.find? id = some s ∧ (∃ st, s.standing = .ok st) ∧ (∃ text, r.text = .ok text) ∧
        (s.log.contains r.id = false → ∃ st, (s.logged r).standing = .ok st) ∧
        l.adopt (s.logged r) = l' := by
  have hfind {s : Session} (hs : l.find? id = some s) :
      (l.adopt (s.logged r)).find? id = some (s.logged r) :=
    find?_adopt_of_growsTo hs (Session.growsTo_logged s r)
  constructor
  · rintro ⟨reply, h⟩
    obtain ⟨before, hbefore, h⟩ := bind_eq_ok.mp h
    obtain ⟨⟨new, l₁⟩, hreceive, h⟩ := bind_eq_ok.mp h
    obtain ⟨s, hs, hst⟩ := standing_eq_ok.mp hbefore
    obtain ⟨s₁, t, hs₁, ht, rfl⟩ := update_eq_ok.mp hreceive
    obtain rfl := Option.some.inj (hs.symm.trans hs₁)
    obtain ⟨htext, hnew, rfl⟩ := Session.receive_eq_ok.mp (liftFault_eq_ok.mp ht)
    refine ⟨s, hs, ⟨before, hst⟩, htext, ?_⟩
    cases new with
    | false =>
      obtain ⟨-, rfl⟩ := Prod.mk.inj (Except.ok.inj h)
      refine ⟨fun hknown => ?_, rfl⟩
      simp [hknown] at hnew
    | true =>
      obtain ⟨after, hafter, h⟩ := bind_eq_ok.mp h
      obtain ⟨t, ht, hst'⟩ := standing_eq_ok.mp hafter
      obtain rfl := Option.some.inj (ht.symm.trans (hfind hs))
      refine ⟨fun _ => ⟨after, hst'⟩, ?_⟩
      split at h <;> exact (Prod.mk.inj (Except.ok.inj h)).2
  · rintro ⟨s, hs, ⟨before, hbefore⟩, htext, hafter, rfl⟩
    have hreceive : l.receive id r = .ok (!s.log.contains r.id, l.adopt (s.logged r)) :=
      update_eq_ok.mpr ⟨s, _, hs, liftFault_eq_ok.mpr (Session.receive_eq_ok.mpr
        ⟨htext, rfl, rfl⟩), rfl⟩
    have hst : l.standing id = .ok before := standing_eq_ok.mpr ⟨s, hs, hbefore⟩
    simp only [handle, hst, hreceive, bind, Except.bind]
    cases hknown : s.log.contains r.id with
    | true => exact ⟨none, rfl⟩
    | false =>
      obtain ⟨after, hafter⟩ := hafter hknown
      have hst' : (l.adopt (s.logged r)).standing id = .ok after :=
        standing_eq_ok.mpr ⟨_, hfind hs, hafter⟩
      simp only [hst', Bool.not_false, Bool.not_true, Bool.false_eq_true, if_false]
      split <;> exact ⟨_, rfl⟩

theorem handle_rematchRequested {s : Session} (hs : l.find? id = some s) :
    l.handle fresh (.rematchRequested id) =
      .ok (some (.sessionOpened { s.rematch fresh with rules := l.rules }),
        l.add (s.rematch fresh)) := by
  have hrematch : l.rematch id fresh = .ok (l.add (s.rematch fresh)) :=
    bind_eq_ok.mpr ⟨s, get_eq_ok.mpr hs, rfl⟩
  have hget : (l.add (s.rematch fresh)).get fresh = .ok { s.rematch fresh with rules := l.rules } :=
    get_eq_ok.mpr (find?_adopt_self rfl)
  exact bind_eq_ok.mpr ⟨_, liftRefusal_eq_ok.mpr hrematch,
    bind_eq_ok.mpr ⟨_, liftRefusal_eq_ok.mpr hget, rfl⟩⟩

/-- What a message that does not fail makes of a lobby. -/
inductive Handled (l : Lobby) (fresh : Uuid) : Message → Lobby → Prop
  | sessionOpened (s : Session) : Handled l fresh (.sessionOpened s) (l.adopt s)
  | playerJoined {id : Uuid} {p : Participant} {s s' : Session} {side : Side}
      (hs : l.find? id = some s) (h : s.join p = .ok (side, s')) :
      Handled l fresh (.playerJoined id p) (l.adopt s')
  | movePublished {id : Uuid} {m : Move} {s : Session} (hs : l.find? id = some s)
      (hbefore : ∃ st, s.standing = .ok st) (htext : ∃ text, m.text = .ok text)
      (hafter : s.log.contains m.id = false → ∃ st, (s.logged m).standing = .ok st) :
      Handled l fresh (.movePublished id m) (l.adopt (s.logged m))
  | moveRejected (id : Uuid) (reason text : String) :
      Handled l fresh (.moveRejected id reason text) l
  | resigned {id : Uuid} {side : Side} {e : Ending} {s s' : Session} (hs : l.find? id = some s)
      (h : s.resign side = .ok (e, s')) : Handled l fresh (.resigned id side) (l.adopt s')
  | timedOut {id : Uuid} {side : Side} {e : Ending} {s s' : Session} (hs : l.find? id = some s)
      (h : s.timeOut side = .ok (e, s')) : Handled l fresh (.timedOut id side) (l.adopt s')
  | gameEnded (id : Uuid) (e : Ending) : Handled l fresh (.gameEnded id e) l
  | rematchRequested {id : Uuid} {s : Session} (hs : l.find? id = some s) :
      Handled l fresh (.rematchRequested id) (l.add (s.rematch fresh))

theorem handle_eq_ok_iff :
    (∃ reply, l.handle fresh m = .ok (reply, l')) ↔ Handled l fresh m l' := by
  constructor
  · rintro ⟨reply, h⟩
    cases m with
    | sessionOpened s =>
      obtain ⟨-, rfl⟩ := Prod.mk.inj (Except.ok.inj h)
      exact .sessionOpened s
    | playerJoined id p =>
      obtain ⟨⟨side, l₁⟩, hjoin, h⟩ := bind_eq_ok.mp h
      obtain ⟨-, rfl⟩ := Prod.mk.inj (Except.ok.inj h)
      obtain ⟨s, t, hs, ht, rfl⟩ := update_eq_ok.mp hjoin
      exact .playerJoined hs (liftRefusal_eq_ok.mp ht)
    | movePublished id r =>
      obtain ⟨s, hs, hbefore, htext, hafter, rfl⟩ := handle_movePublished.mp ⟨reply, h⟩
      exact .movePublished hs hbefore htext hafter
    | moveRejected id reason text =>
      obtain ⟨-, rfl⟩ := Prod.mk.inj (Except.ok.inj h)
      exact .moveRejected id reason text
    | resigned id side =>
      obtain ⟨⟨e, l₁⟩, hresign, h⟩ := bind_eq_ok.mp h
      obtain ⟨-, rfl⟩ := Prod.mk.inj (Except.ok.inj h)
      obtain ⟨s, t, hs, ht, rfl⟩ := update_eq_ok.mp hresign
      exact .resigned hs ht
    | timedOut id side =>
      obtain ⟨⟨e, l₁⟩, htime, h⟩ := bind_eq_ok.mp h
      obtain ⟨-, rfl⟩ := Prod.mk.inj (Except.ok.inj h)
      obtain ⟨s, t, hs, ht, rfl⟩ := update_eq_ok.mp htime
      exact .timedOut hs ht
    | gameEnded id e =>
      obtain ⟨-, rfl⟩ := Prod.mk.inj (Except.ok.inj h)
      exact .gameEnded id e
    | rematchRequested id =>
      obtain ⟨l₁, hrematch, h⟩ := bind_eq_ok.mp h
      obtain ⟨s, hs, hl⟩ := bind_eq_ok.mp (liftRefusal_eq_ok.mp hrematch)
      obtain rfl := pure_eq_ok.mp hl
      obtain ⟨t, -, h⟩ := bind_eq_ok.mp h
      obtain ⟨-, rfl⟩ := Prod.mk.inj (Except.ok.inj h)
      exact .rematchRequested (get_eq_ok.mp hs)
  · intro h
    cases h with
    | sessionOpened s => exact ⟨_, rfl⟩
    | playerJoined hs h =>
      exact ⟨none, bind_eq_ok.mpr
        ⟨_, update_eq_ok.mpr ⟨_, _, hs, liftRefusal_eq_ok.mpr h, rfl⟩, rfl⟩⟩
    | movePublished hs hbefore htext hafter =>
      exact handle_movePublished.mpr ⟨_, hs, hbefore, htext, hafter, rfl⟩
    | moveRejected id reason text => exact ⟨_, rfl⟩
    | resigned hs h => exact ⟨_, bind_eq_ok.mpr ⟨_, update_eq_ok.mpr ⟨_, _, hs, h, rfl⟩, rfl⟩⟩
    | timedOut hs h => exact ⟨_, bind_eq_ok.mpr ⟨_, update_eq_ok.mpr ⟨_, _, hs, h, rfl⟩, rfl⟩⟩
    | gameEnded id e => exact ⟨_, rfl⟩
    | rematchRequested hs => exact ⟨_, handle_rematchRequested hs⟩

/-- A message puts a snapshot in the place of a session or lets the session grow. -/
theorem Handled.replaced_or_grows (h : Handled l fresh m l') (hfresh : l.find? fresh = none)
    (hs : l.find? id = some s) :
    (∃ t, m = .sessionOpened t ∧ t.id = id ∧ l'.find? id = some t) ∨
      ∃ t, s.GrowsTo t ∧ l'.find? id = some t := by
  have hadopt {id' : Uuid} {s' t : Session} (hs' : l.find? id' = some s') (ht : s'.GrowsTo t) :
      ∃ u, s.GrowsTo u ∧ (l.adopt t).find? id = some u := by
    have hid : t.id = id' := ht.id.trans (id_of_find? hs')
    by_cases heq : id' = id
    · subst heq
      obtain rfl := Option.some.inj (hs.symm.trans hs')
      exact ⟨t, ht, find?_adopt_self hid⟩
    · refine ⟨s, .of_log_eq rfl rfl, ?_⟩
      rw [find?_adopt_of_ne (hid.trans_ne heq), hs]
  cases h with
  | sessionOpened t =>
    by_cases heq : t.id = id
    · exact .inl ⟨t, rfl, heq, find?_adopt_self heq⟩
    · exact .inr ⟨s, .of_log_eq rfl rfl, (find?_adopt_of_ne heq).trans hs⟩
  | playerJoined hs' h => exact .inr (hadopt hs' (Session.growsTo_join h))
  | movePublished hs' => exact .inr (hadopt hs' (Session.growsTo_logged _ _))
  | moveRejected => exact .inr ⟨s, .of_log_eq rfl rfl, hs⟩
  | resigned hs' h => exact .inr (hadopt hs' (Session.growsTo_declare h))
  | timedOut hs' h => exact .inr (hadopt hs' (Session.growsTo_declare h))
  | gameEnded => exact .inr ⟨s, .of_log_eq rfl rfl, hs⟩
  | @rematchRequested _ s' hs' =>
    have hne : fresh ≠ id := by
      rintro rfl
      simp [hfresh] at hs
    exact .inr ⟨s, .of_log_eq rfl rfl, (find?_adopt_of_ne hne).trans hs⟩

/-- The lobby after a message. A refused message changes nothing. -/
def deliver (l : Lobby) (fresh : Uuid) (m : Message) : Except Fault Lobby :=
  match l.handle fresh m with
  | .ok (_, l') => .ok l'
  | .error (.refused _) => .ok l
  | .error (.fault f) => .error f

theorem deliver_of_handled (h : Handled l fresh m l') : l.deliver fresh m = .ok l' := by
  obtain ⟨reply, h⟩ := handle_eq_ok_iff.mpr h
  rw [deliver, h]

theorem deliver_of_refused {r : Refusal} (h : l.handle fresh m = .error (.refused r)) :
    l.deliver fresh m = .ok l := by
  rw [deliver, h]

theorem handled_or_refused (h : l.deliver fresh m = .ok l') :
    Handled l fresh m l' ∨ (∃ r, l.handle fresh m = .error (.refused r)) ∧ l' = l := by
  unfold deliver at h
  split at h
  case h_1 reply l₁ hok =>
    obtain rfl := Except.ok.inj h
    exact .inl (handle_eq_ok_iff.mp ⟨reply, hok⟩)
  case h_2 r hrefused => exact .inr ⟨⟨r, hrefused⟩, (Except.ok.inj h).symm⟩
  case h_3 => simp at h

/-- A message leaves a record in the log of a session, unless it brings a snapshot of the session
without the record. -/
theorem mem_log_deliver_iff {r : Move} (hfresh : l.find? fresh = none) (hs : l.find? id = some s)
    (hr : r ∈ s.log.moves) (h : l.deliver fresh m = .ok l') :
    (∃ t, l'.find? id = some t ∧ r ∈ t.log.moves) ↔
      ∀ t, m = .sessionOpened t → t.id = id → r ∈ t.log.moves := by
  constructor
  · rintro ⟨t, ht, hrt⟩ u rfl hu
    obtain rfl := Except.ok.inj ((deliver_of_handled (.sessionOpened u)).symm.trans h)
    rw [find?_adopt_self hu] at ht
    rwa [Option.some.inj ht]
  · intro hsnapshot
    rcases handled_or_refused h with hhandled | ⟨-, rfl⟩
    · rcases hhandled.replaced_or_grows hfresh hs with ⟨t, rfl, hid, ht⟩ | ⟨t, hgrows, ht⟩
      · exact ⟨t, ht, hsnapshot t rfl hid⟩
      · exact ⟨t, ht, hgrows.records.subset hr⟩
    · exact ⟨s, hs, hr⟩

def hosting : Lobby := (empty {}).adopt .begun

theorem find?_hosting : hosting.find? Session.begun.id = some .begun := find?_adopt_self rfl

private theorem opener_mem_begun : Session.opener ∈ Session.begun.log.moves := by
  rw [Session.log_begun]
  exact List.mem_singleton_self _

def resignedSnapshot : Session := { Session.begun with resolution := some (.resignation .black) }

theorem opener_kept :
    hosting.find? (.numbered 9) = none ∧
      ∃ l', hosting.deliver (.numbered 9) (.sessionOpened resignedSnapshot) = .ok l' ∧
        ∃ t, l'.find? Session.begun.id = some t ∧ Session.opener ∈ t.log.moves := by
  have hfresh : hosting.find? (.numbered 9) = none := by
    rw [hosting, find?_adopt_of_ne (by decide)]
    rfl
  have hl' : hosting.deliver (.numbered 9) (.sessionOpened resignedSnapshot) =
      .ok (hosting.adopt resignedSnapshot) := deliver_of_handled (.sessionOpened _)
  refine ⟨hfresh, _, hl', (mem_log_deliver_iff hfresh find?_hosting opener_mem_begun hl').mpr ?_⟩
  rintro t ht -
  obtain rfl := Message.sessionOpened.inj ht
  exact opener_mem_begun

/-- The snapshot with which a game was announced, delivered once more, takes back the move that was
made since. -/
theorem opener_lost :
    hosting.find? Session.begun.id = some .begun ∧ Session.opener ∈ Session.begun.log.moves ∧
      ∃ l', hosting.deliver (.numbered 9) (.sessionOpened (.friendly .standard)) = .ok l' ∧
        l'.find? Session.begun.id = some (.friendly .standard) ∧
        Session.opener ∉ (Session.friendly .standard).log.moves := by
  refine ⟨find?_hosting, opener_mem_begun, _, deliver_of_handled (.sessionOpened _),
    find?_adopt_self rfl, ?_⟩
  exact List.not_mem_nil

end Lobby

end WereraChess
