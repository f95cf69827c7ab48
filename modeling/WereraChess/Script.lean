import WereraChess.Json.Document
import WereraChess.Json.Records
import WereraChess.Report
/-!
# Scripts

A script is a game written down as a list of submissions. It is played through a session from the
first entry to the last; an entry that is refused is reported and leaves the session as it was.
-/

namespace WereraChess

namespace Script

/-- An entry without a time is given the moment of reading, one millisecond later for every entry
before. -/
structure Entry where
  side : Side
  source : String
  target : String
  timestamp : Option UInt64
  deriving DecidableEq

end Script

structure Script where
  variant : Option Variant
  opening : Option String
  entries : List Script.Entry
  deriving DecidableEq

instance : JsonForm Script.Entry where
  write e :=
    .record [("player", JsonForm.write e.side), ("from", JsonForm.write e.source),
      ("to", JsonForm.write e.target), ("timestamp", JsonForm.write e.timestamp)]
  read j := do
    let f ← j.slots? ["player", "from", "to", "timestamp"]
    return {
      side := ← f.required "player"
      source := ← f.required "from"
      target := ← f.required "to"
      timestamp := ← f.optional "timestamp" }

instance : JsonForm Script where
  write s :=
    .record [("variant", JsonForm.write s.variant), ("start", JsonForm.write s.opening),
      ("moves", JsonForm.write s.entries)]
  read j := do
    let f ← j.slots? ["variant", "start", "moves"]
    return {
      variant := ← f.optional "variant"
      opening := ← f.optional "start"
      entries := ← f.required "moves" }

namespace Script

/-- Why a script cannot be played. -/
inductive Error where
  | badOpening (r : Refusal)
  | badSquare (e : BadSquare)
  | fault (f : Fault)
  deriving DecidableEq

instance : MonadLift (Except Refusal) (Except Error) where
  monadLift
    | .ok a => .ok a
    | .error r => .error (.badOpening r)

instance : MonadLift (Except BadSquare) (Except Error) where
  monadLift
    | .ok a => .ok a
    | .error e => .error (.badSquare e)

instance : MonadLift (Except Fault) (Except Error) where
  monadLift
    | .ok a => .ok a
    | .error f => .error (.fault f)

/-- What became of an entry, which is known by its number, counted from 1. -/
structure Event where
  number : Nat
  source : Square
  target : Square
  result : Except Refusal Accepted

/-- A script being played, with how many fresh identifiers have been used. -/
structure Performance where
  session : Session
  used : Nat
  events : List Event

/-- The session that a script begins with, under the rules and default variant of the settings. The
identifiers of its participants and its own are the first three. -/
def opening? (s : Script) (ids : Nat → Uuid) (rules : HouseRules) (v : Variant) :
    Except Refusal Session := do
  let white : Participant := ⟨ids 1, "white"⟩
  let black : Participant := ⟨ids 2, "black"⟩
  let session ← match s.opening with
    | some line => Session.ofFen (ids 3) line s.variant ⟨some white, some black⟩
    | none => pure (Session.create (ids 3) (s.variant.getD v) white black)
  return { session with rules }

/-- Submits one entry. -/
def Performance.submit (p : Performance) (ids : Nat → Uuid) (now : UInt64) (number : Nat)
    (e : Entry) : Except Error Performance := do
  let source ← Square.ofText e.source
  let target ← Square.ofText e.target
  let timestamp := e.timestamp.getD (now + (number - 1).toUInt64)
  match p.session.submit (ids (p.used + 1)) e.side source.coord target.coord timestamp with
  | .ok (accepted, session) =>
    return ⟨session, p.used + 1, p.events ++ [⟨number, source, target, .ok accepted⟩]⟩
  | .error (.refused r) =>
    return { p with events := p.events ++ [⟨number, source, target, .error r⟩] }
  | .error (.fault f) => throw (.fault f)

def play (s : Script) (ids : Nat → Uuid) (now : UInt64) (rules : HouseRules) (v : Variant) :
    Except Error Performance := do
  let session ← s.opening? ids rules v
  (s.entries.zipIdx 1).foldlM (fun p (e, number) => p.submit ids now number e) ⟨session, 3, []⟩

namespace Event

def label (e : Event) : String :=
  "#" ++ toString e.number ++ " " ++ e.source.name ++ "->" ++ e.target.name

/-- The lines of an event. With `wire` they include the messages by which the other side would learn
of it. -/
def lines (e : Event) (sessionId : Uuid) (wire : Bool) : Except Fault (List String) :=
  let sent (m : Message) : List String := if wire then [JsonForm.toText m] else []
  match e.result with
  | .ok accepted =>
    let ended := match accepted.ending with
      | some ending =>
        (e.label ++ ": " ++ ending.message) :: sent (.gameEnded sessionId ending)
      | none => []
    .ok (sent (.movePublished sessionId accepted.move) ++ ended)
  | .error r => do
    let message ← r.message
    let notice ← Message.rejection sessionId r
    return (e.label ++ " rejected: " ++ message) :: sent notice

end Event

/-- The lines of all events, then the report of the standing at the end. -/
def Performance.text (p : Performance) (a : Alphabet) (wire : Bool) : Except Fault String := do
  let lines ← p.events.mapM fun e => e.lines p.session.id wire
  let standing ← p.session.standing
  return String.join (lines.flatten.map (· ++ "\n")) ++ "\n" ++ standing.report a

end Script

end WereraChess
