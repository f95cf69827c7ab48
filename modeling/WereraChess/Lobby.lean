import WereraChess.Session.Submission
/-!
# Lobbies

A lobby keeps sessions, each under its own identifier. Sessions that it opens itself play by its house
rules; a session taken over from elsewhere keeps its own.
-/

namespace WereraChess

/-- Puts a session in the place of the one with its identifier, and last if there is none. -/
def Session.placeIn (s : Session) : List Session → List Session
  | [] => [s]
  | t :: ts => if t.id = s.id then s :: ts else t :: s.placeIn ts

namespace Session

private theorem find?_placeIn (s : Session) (ts : List Session) (id : Uuid) :
    (s.placeIn ts).find? (·.id = id) = if s.id = id then some s else ts.find? (·.id = id) := by
  induction ts with
  | nil => by_cases h : s.id = id <;> simp [placeIn, h]
  | cons t ts ih =>
    by_cases ht : t.id = s.id
    · by_cases h : s.id = id
      · simp [placeIn, ht, h]
      · simp [placeIn, ht, h]
    · by_cases h : s.id = id
      · subst h
        simp [placeIn, ht, ih]
      · simp [placeIn, ht, List.find?_cons, ih, h]

private theorem ids_placeIn (s : Session) (ts : List Session) :
    (s.placeIn ts).map Session.id =
      if s.id ∈ ts.map Session.id then ts.map Session.id else ts.map Session.id ++ [s.id] := by
  induction ts with
  | nil => simp [placeIn]
  | cons t ts ih =>
    by_cases ht : t.id = s.id
    · simp [placeIn, ht]
    · have hs : s.id ≠ t.id := fun h => ht h.symm
      by_cases hm : s.id ∈ ts.map Session.id <;> simp_all [placeIn]

private theorem nodup_placeIn (s : Session) {ts : List Session} (h : (ts.map Session.id).Nodup) :
    ((s.placeIn ts).map Session.id).Nodup := by
  rw [ids_placeIn]
  split
  · exact h
  · next hs => simp_all [List.nodup_append, eq_comm]

theorem placeIn_eq_self {s : Session} {ts : List Session}
    (h : ts.find? (·.id = s.id) = some s) : s.placeIn ts = ts := by
  induction ts with
  | nil => simp at h
  | cons t ts ih =>
    by_cases ht : t.id = s.id
    · simp_all [placeIn]
    · simp_all [placeIn]

end Session

structure Lobby where
  sessions : List Session
  rules : HouseRules
  distinct : (sessions.map Session.id).Nodup

namespace Lobby

def empty (rules : HouseRules) : Lobby := ⟨[], rules, List.nodup_nil⟩

def size (l : Lobby) : Nat := l.sessions.length

def find? (l : Lobby) (id : Uuid) : Option Session := l.sessions.find? (·.id = id)

def get (l : Lobby) (id : Uuid) : Except Refusal Session :=
  match l.find? id with
  | some s => .ok s
  | none => .error (.unknownSession id)

/-- Takes a session over, in place of the one with its identifier. -/
def adopt (l : Lobby) (s : Session) : Lobby :=
  ⟨s.placeIn l.sessions, l.rules, s.nodup_placeIn l.distinct⟩

theorem find?_adopt (l : Lobby) (s : Session) (id : Uuid) :
    (l.adopt s).find? id = if s.id = id then some s else l.find? id :=
  s.find?_placeIn l.sessions id

/-- Opens a session under the rules of the lobby. -/
def add (l : Lobby) (s : Session) : Lobby := l.adopt { s with rules := l.rules }

def create (l : Lobby) (id : Uuid) (v : Variant) (white black : Participant) : Lobby :=
  l.add (.create id v white black)

def host (l : Lobby) (id : Uuid) (v : Variant) (white : Participant) : Lobby :=
  l.add (.host id v white)

def importFen (l : Lobby) (id : Uuid) (text : String) (v : Option Variant) (seats : Seats) :
    Except Refusal Lobby := do
  return l.add (← Session.ofFen id text v seats)

/-- Replaces a session by what an operation makes of it. -/
def update {α : Type} (l : Lobby) (id : Uuid) (f : Session → Except Failure (α × Session)) :
    Except Failure (α × Lobby) := do
  let s ← l.get id
  let (a, t) ← f s
  return (a, l.adopt t)

def join (l : Lobby) (id : Uuid) (p : Participant) : Except Failure (Side × Lobby) :=
  l.update id fun s => liftM (s.join p)

def submit (l : Lobby) (id fresh : Uuid) (side : Side) (source target : Coord)
    (timestamp : UInt64) : Except Failure (Accepted × Lobby) :=
  l.update id fun s => s.submit fresh side source target timestamp

def receive (l : Lobby) (id : Uuid) (m : Move) : Except Failure (Bool × Lobby) :=
  l.update id fun s => liftM (s.receive m)

def resign (l : Lobby) (id : Uuid) (side : Side) : Except Failure (Ending × Lobby) :=
  l.update id fun s => s.resign side

def timeOut (l : Lobby) (id : Uuid) (side : Side) : Except Failure (Ending × Lobby) :=
  l.update id fun s => s.timeOut side

def standing (l : Lobby) (id : Uuid) : Except Failure Standing := do
  let s ← l.get id
  s.standing

def line (l : Lobby) (id : Uuid) (a : Alphabet) : Except Failure String := do
  let s ← l.get id
  s.line a

def rematch (l : Lobby) (id fresh : Uuid) : Except Refusal Lobby := do
  return l.add ((← l.get id).rematch fresh)

end Lobby

end WereraChess
