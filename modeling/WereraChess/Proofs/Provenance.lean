import Mathlib.Logic.Function.Basic
import WereraChess.Json.Document
import WereraChess.Json.Records
import WereraChess.Proofs.Messages
/-!
# Where logs come from

Every session of a lobby has grown from one that the lobby opened itself, without records, or took
over with the records that it had. Growing keeps a log canonical, and it does not put one in order
that came in disorder. In a canonical log the last record is the newest, and the search for a place
finds where the later records begin.
-/
namespace WereraChess

/-- The snapshots from which the sessions of a lobby have grown. A session that the lobby opened itself
has none. -/
abbrev Origins := Uuid → Option Session

namespace Message

/-- What a message that is handled makes of the origins. -/
def origins (fresh : Uuid) (o : Origins) : Message → Origins
  | sessionOpened s => Function.update o s.id (some s)
  | rematchRequested _ => Function.update o fresh none
  | _ => o

end Message

private theorem Session.id_ofFen {id : Uuid} {text : String} {v : Option Variant} {seats : Seats}
    {s : Session} (h : ofFen id text v seats = .ok s) : s.id = id := by
  unfold ofFen at h
  split at h
  case h_1 => simp at h
  case h_2 => split at h <;> rw [← Except.ok.inj h] <;> rfl

namespace MoveLog

/-- The last record of the log is its newest, and the search for the place of a key parts the records
that come before the key from the others. -/
structure InOrder (log : MoveLog) : Prop where
  latest : ∀ t, log.latest? = some t ↔
    (∃ a ∈ log.moves, a.timestamp = t) ∧ ∀ a ∈ log.moves, a.timestamp ≤ t
  before : ∀ key, ∀ a ∈ log.moves.take (slot log.moves key), a.key.lt key = true
  after : ∀ key, ∀ a ∈ log.moves.drop (slot log.moves key), key.le a.key = true

theorem latest?_of_isCanonical {log : MoveLog} (hc : Move.IsCanonical log.moves) (t : UInt64) :
    log.latest? = some t ↔
      (∃ a ∈ log.moves, a.timestamp = t) ∧ ∀ a ∈ log.moves, a.timestamp ≤ t := by
  constructor
  · intro h
    refine ⟨?_, fun a ha => timestamp_le_latest hc ha h⟩
    obtain ⟨last, hlast, rfl⟩ := Option.map_eq_some_iff.mp h
    exact ⟨last, List.mem_of_getLast? hlast, rfl⟩
  · rintro ⟨⟨a, ha, rfl⟩, hle⟩
    cases hlatest : log.latest? with
    | none =>
      have hempty : log.moves = [] := by simpa [latest?] using hlatest
      simp [hempty] at ha
    | some latest =>
      obtain ⟨last, hlast, rfl⟩ := Option.map_eq_some_iff.mp hlatest
      have hge := timestamp_le_latest hc ha hlatest
      have hle' := hle last (List.mem_of_getLast? hlast)
      rw [UInt64.le_antisymm hle' hge]

private theorem inOrder_of_isCanonical {log : MoveLog} (hc : Move.IsCanonical log.moves) :
    log.InOrder where
  latest := latest?_of_isCanonical hc
  before _ _ ha := lt_of_mem_take_slot hc.ascending ha
  after _ _ ha := le_of_mem_drop_slot hc.ascending ha

end MoveLog

namespace Lobby

/-- The lobbies that operations and messages make of one without sessions, with their origins. -/
inductive Reached : Origins → Lobby → Prop
  | empty (rules : HouseRules) : Reached (fun _ => none) (.empty rules)
  | create {o : Origins} {l : Lobby} (h : Reached o l) (id : Uuid) (v : Variant)
      (white black : Participant) :
      Reached (Function.update o id none) (l.create id v white black)
  | host {o : Origins} {l : Lobby} (h : Reached o l) (id : Uuid) (v : Variant)
      (white : Participant) : Reached (Function.update o id none) (l.host id v white)
  | importFen {o : Origins} {l l' : Lobby} {id : Uuid} {text : String} {v : Option Variant}
      {seats : Seats} (h : Reached o l) (hl : l.importFen id text v seats = .ok l') :
      Reached (Function.update o id none) l'
  | rematch {o : Origins} {l l' : Lobby} {id fresh : Uuid} (h : Reached o l)
      (hl : l.rematch id fresh = .ok l') : Reached (Function.update o fresh none) l'
  | adopt {o : Origins} {l : Lobby} (h : Reached o l) (s : Session) :
      Reached (Function.update o s.id (some s)) (l.adopt s)
  | join {o : Origins} {l l' : Lobby} {id : Uuid} {p : Participant} {side : Side}
      (h : Reached o l) (hl : l.join id p = .ok (side, l')) : Reached o l'
  | submit {o : Origins} {l l' : Lobby} {id fresh : Uuid} {side : Side} {source target : Coord}
      {timestamp : UInt64} {a : Accepted} (h : Reached o l)
      (hl : l.submit id fresh side source target timestamp = .ok (a, l')) : Reached o l'
  | receive {o : Origins} {l l' : Lobby} {id : Uuid} {m : Move} {new : Bool} (h : Reached o l)
      (hl : l.receive id m = .ok (new, l')) : Reached o l'
  | resign {o : Origins} {l l' : Lobby} {id : Uuid} {side : Side} {e : Ending} (h : Reached o l)
      (hl : l.resign id side = .ok (e, l')) : Reached o l'
  | timeOut {o : Origins} {l l' : Lobby} {id : Uuid} {side : Side} {e : Ending} (h : Reached o l)
      (hl : l.timeOut id side = .ok (e, l')) : Reached o l'
  | handle {o : Origins} {l l' : Lobby} {fresh : Uuid} {m : Message} {reply : Option Message}
      (h : Reached o l) (hl : l.handle fresh m = .ok (reply, l')) :
      Reached (m.origins fresh o) l'

/-- A log is canonical exactly if the snapshot was that its session has grown from. -/
def Traced (o : Origins) (l : Lobby) : Prop :=
  ∀ id s, l.find? id = some s →
    (Move.IsCanonical s.log.moves ↔ ∀ t, o id = some t → Move.IsCanonical t.log.moves)

variable {o : Origins} {l l' : Lobby} {id : Uuid} {s t : Session}

private theorem Traced.update (h : Traced o l) {entry : Option Session}
    (ht : Move.IsCanonical t.log.moves ↔ ∀ u, entry = some u → Move.IsCanonical u.log.moves) :
    Traced (Function.update o t.id entry) (l.adopt t) := by
  intro id s hs
  by_cases hid : t.id = id
  · subst hid
    rw [find?_adopt_self rfl] at hs
    rw [← Option.some.inj hs, Function.update_self]
    exact ht
  · rw [find?_adopt_of_ne hid] at hs
    rw [Function.update_of_ne (Ne.symm hid)]
    exact h id s hs

/-- Taking over a snapshot. -/
theorem Traced.take (h : Traced o l) (t : Session) :
    Traced (Function.update o t.id (some t)) (l.adopt t) :=
  h.update ⟨fun ht _ hu => Option.some.inj hu ▸ ht, fun ht => ht t rfl⟩

private theorem Traced.add (h : Traced o l) (ht : t.log = .empty) :
    Traced (Function.update o t.id none) (l.add t) := by
  have hcanonical : Move.IsCanonical t.log.moves := by
    rw [ht]
    exact .nil
  exact h.update (t := { t with rules := l.rules })
    ⟨fun _ _ hu => absurd hu (Option.some_ne_none _).symm, fun _ => hcanonical⟩

private theorem Traced.grow (h : Traced o l) (hs : l.find? id = some s) (ht : s.GrowsTo t) :
    Traced o (l.adopt t) := by
  have hid : t.id = id := ht.id.trans (id_of_find? hs)
  intro id' u hu
  by_cases heq : id = id'
  · subst heq
    rw [find?_adopt_self hid] at hu
    rw [← Option.some.inj hu, ht.isCanonical_iff]
    exact h id s hs
  · rw [find?_adopt_of_ne (hid.trans_ne heq)] at hu
    exact h id' u hu

private theorem Traced.operate (h : Traced o l) {α : Type}
    {f : Session → Except Failure (α × Session)} {a : α} (hl : l.update id f = .ok (a, l'))
    (hf : ∀ s a t, f s = .ok (a, t) → s.GrowsTo t) : Traced o l' := by
  obtain ⟨s, t, hs, ht, rfl⟩ := update_eq_ok.mp hl
  exact h.grow hs (hf s a t ht)

theorem Traced.handle (h : Traced o l) {fresh : Uuid} {m : Message} (hl : Handled l fresh m l') :
    Traced (m.origins fresh o) l' := by
  cases hl with
  | sessionOpened s => exact h.take s
  | playerJoined hs hjoin => exact h.grow hs (Session.growsTo_join hjoin)
  | movePublished hs => exact h.grow hs (Session.growsTo_logged _ _)
  | moveRejected => exact h
  | resigned hs hresign => exact h.grow hs (Session.growsTo_declare hresign)
  | timedOut hs htime => exact h.grow hs (Session.growsTo_declare htime)
  | gameEnded => exact h
  | rematchRequested => exact h.add rfl

theorem Reached.traced (h : Reached o l) : Traced o l := by
  induction h with
  | empty rules => exact fun id s hs => absurd hs (Option.some_ne_none s).symm
  | create _ id v white black ih => exact ih.add (t := .create id v white black) rfl
  | host _ id v white ih => exact ih.add (t := .host id v white) rfl
  | importFen _ hl ih =>
    obtain ⟨s, hs, hl⟩ := bind_eq_ok.mp hl
    obtain rfl := pure_eq_ok.mp hl
    rw [← Session.id_ofFen hs]
    exact ih.add (Session.log_ofFen hs)
  | rematch _ hl ih =>
    obtain ⟨s, -, hl⟩ := bind_eq_ok.mp hl
    obtain rfl := pure_eq_ok.mp hl
    exact ih.add rfl
  | adopt _ s ih => exact ih.take s
  | join _ hl ih =>
    exact ih.operate hl fun s a t ht => Session.growsTo_join (liftRefusal_eq_ok.mp ht)
  | submit _ hl ih => exact ih.operate hl fun s a t ht => Session.growsTo_submit ht
  | receive _ hl ih =>
    refine ih.operate hl fun s a t ht => ?_
    obtain ⟨-, -, rfl⟩ := Session.receive_eq_ok.mp (liftFault_eq_ok.mp ht)
    exact Session.growsTo_logged s _
  | resign _ hl ih => exact ih.operate hl fun s a t ht => Session.growsTo_declare ht
  | timeOut _ hl ih => exact ih.operate hl fun s a t ht => Session.growsTo_declare ht
  | handle _ hl ih => exact ih.handle (handle_eq_ok_iff.mp ⟨_, hl⟩)

end Lobby

namespace Session

def earlier : Move := ⟨.numbered 5, ⟨1, 4⟩, ⟨2, 4⟩, .black, .pawn, none, 50⟩

/-- A session whose records stand in the order in which they were received. -/
def disordered : Session :=
  { start (.numbered 1) .standard .empty ⟨.empty, .normal, .white, 0⟩ with
    log := ⟨[opener, earlier]⟩ }

end Session

namespace Lobby

variable {o : Origins} {l : Lobby} {id : Uuid} {s : Session}

/-- In a lobby that operations and messages have made, a log is canonical exactly if its session was
opened there or came with a canonical log. A canonical log is in order. -/
theorem reached_isCanonical_iff (h : l.Reached o) (hs : l.find? id = some s) :
    (Move.IsCanonical s.log.moves ↔ ∀ t, o id = some t → Move.IsCanonical t.log.moves) ∧
      (Move.IsCanonical s.log.moves → s.log.InOrder) :=
  ⟨h.traced id s hs, MoveLog.inOrder_of_isCanonical⟩

theorem receive_earlier_inOrder :
    ∃ (o : Origins) (l : Lobby), l.Reached o ∧
      l.find? Session.begun.id = some (Session.begun.logged Session.earlier) ∧
      Move.IsCanonical (Session.begun.logged Session.earlier).log.moves ∧
      (Session.begun.logged Session.earlier).log.InOrder := by
  have hreceive : hosting.receive Session.begun.id Session.earlier =
      .ok (true, hosting.adopt (Session.begun.logged Session.earlier)) :=
    update_eq_ok.mpr ⟨_, _, find?_hosting, liftFault_eq_ok.mpr
      (Session.receive_eq_ok.mpr ⟨⟨_, rfl⟩, by decide +kernel, rfl⟩), rfl⟩
  have hreached := (Reached.adopt (.empty {}) .begun).receive hreceive
  have hfind : (hosting.adopt (Session.begun.logged Session.earlier)).find? Session.begun.id =
      some (Session.begun.logged Session.earlier) := find?_adopt_self rfl
  obtain ⟨hcanonical, hinOrder⟩ := reached_isCanonical_iff hreached hfind
  have horigin := hcanonical.mpr fun t ht => by
    rw [Function.update_self] at ht
    rw [← Option.some.inj ht]
    exact Session.reached_begun.isCanonical
  exact ⟨_, _, hreached, hfind, horigin, hinOrder horigin⟩

/-- A snapshot is taken over from its text as it is. -/
theorem disordered_taken :
    JsonForm.ofText? (JsonForm.toText (Message.sessionOpened .disordered)) =
        some (Message.sessionOpened .disordered) ∧
      ∃ (o : Origins) (l : Lobby), l.Reached o ∧
        (empty {}).handle (.numbered 9) (.sessionOpened .disordered) = .ok (none, l) ∧
        l.find? Session.disordered.id = some .disordered ∧
        ¬ Move.IsCanonical Session.disordered.log.moves ∧
        ∃ t, Session.disordered.log.latest? = some t ∧
          ∃ a ∈ Session.disordered.log.moves, t < a.timestamp := by
  have hread : JsonForm.ofText? (JsonForm.toText (Message.sessionOpened .disordered)) =
      some (Message.sessionOpened .disordered) := by
    rw [JsonForm.ofText?_toText]
    decide +kernel
  have hhandle : (empty {}).handle (.numbered 9) (.sessionOpened .disordered) =
      .ok (none, (empty {}).adopt .disordered) := rfl
  refine ⟨hread, _, _, (Reached.empty {}).handle hhandle, hhandle, find?_adopt_self rfl, ?_, ?_⟩
  · intro h
    have hfirst := (List.pairwise_cons.mp h.ascending).1 Session.earlier (List.mem_singleton_self _)
    revert hfirst
    decide
  · exact ⟨50, rfl, Session.opener, List.mem_cons_self, by decide⟩

end Lobby

end WereraChess
