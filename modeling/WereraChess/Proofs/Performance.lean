import WereraChess.Proofs.Announcements
import WereraChess.Script
/-!
# Performances

A script is played entry by entry. An entry that is accepted logs one record under the next fresh
identifier, and one that is refused leaves the session as it was. So the session of a performance is
the one that the script begins with and the records of its accepted entries, which have different
identifiers if the fresh ones are different.
-/
namespace WereraChess

/-- The refusals that a submission can meet. -/
inductive Refusal.OfSubmission : Refusal → Prop
  | illegalMove (source target : Coord) (cause : IllegalCause) :
      OfSubmission (.illegalMove source target cause)
  | notYourTurn (side : Side) : OfSubmission (.notYourTurn side)
  | gameOver (reason : EndReason) : OfSubmission (.gameOver reason)
  | waitingForOpponent : OfSubmission .waitingForOpponent
  | staleTimestamp (claimed latest : UInt64) : OfSubmission (.staleTimestamp claimed latest)

private theorem Progress.permit_refused {p : Progress} {side : Side} {r : Refusal}
    (h : p.permit side = .error r) : r.OfSubmission := by
  unfold permit at h
  split at h
  case h_1 reason _ =>
    obtain rfl := Except.error.inj h
    exact .gameOver reason
  case h_2 => exact absurd h nofun
  case h_3 =>
    split at h
    case isTrue => exact absurd h nofun
    case isFalse =>
      obtain rfl := Except.error.inj h
      exact .notYourTurn side

namespace Session

variable {s s' : Session} {side : Side} {source target : Coord} {timestamp : UInt64} {id : Uuid}
  {r : Refusal}

private theorem checkTime_refused {phase : Phase} (h : s.checkTime phase timestamp = .error r) :
    r.OfSubmission := by
  unfold checkTime at h
  split at h
  case h_1 latest _ =>
    split at h
    case isTrue =>
      obtain rfl := Except.error.inj h
      exact .staleTimestamp timestamp latest
    case isFalse => exact absurd h nofun
  case h_2 => exact absurd h nofun

private theorem checkMovement_refused {st : Standing}
    (h : s.checkMovement st side source target = .error (.refused r)) : r.OfSubmission := by
  have hillegal {cause : IllegalCause} {q : Refusal}
      (h : (refuse (.illegalMove source target cause) : Except Failure (Kind × Option Kind)) =
        .error (.refused q)) : q.OfSubmission := by
    obtain rfl := Failure.refused.inj (Except.error.inj h)
    exact .illegalMove source target cause
  rcases bind_eq_error.mp h with h | ⟨origin, -, h⟩
  · exact absurd h liftFault_ne_refused
  · split at h
    case h_1 => exact hillegal h
    case h_2 =>
      split at h
      case isTrue => exact hillegal h
      case isFalse =>
        split at h
        case h_1 => exact hillegal h
        case h_2 =>
          split at h
          case isTrue => exact hillegal h
          case isFalse =>
            split at h
            case isTrue => exact hillegal h
            case isFalse => simp [pure, Except.pure] at h

theorem submit_refused (h : s.submit id side source target timestamp = .error (.refused r)) :
    r.OfSubmission := by
  unfold submit at h
  cases hfull : s.seats.areFull with
  | false =>
    simp only [hfull, Bool.not_false, if_true] at h
    obtain rfl := Failure.refused.inj (Except.error.inj h)
    exact .waitingForOpponent
  | true =>
    simp only [hfull, Bool.not_true, Bool.false_eq_true, if_false, bind_eq_error,
      liftFault_ne_refused, liftRefusal_eq_refused, false_or] at h
    rcases h with ⟨_, -, h | ⟨_, -, h | ⟨_, -, h | ⟨_, -, _, -, h⟩⟩⟩⟩
    · exact Progress.permit_refused h
    · exact checkTime_refused h
    · exact checkMovement_refused h
    · simp [pure, Except.pure] at h

private theorem submit_accepted {a : Accepted}
    (h : s.submit id side source target timestamp = .ok (a, s')) :
    s' = s.logged a.move ∧ a.move.id = id ∧ a.move.OnBoard := by
  obtain ⟨-, before, kind, captured, after, -, -, -, hmove, -, rfl, rfl⟩ := submit_eq_ok.mp h
  obtain ⟨origin, goal, p, ho, hg, -⟩ := checkMovement_eq_ok.mp hmove
  exact ⟨rfl, rfl, by rw [ho]; rfl, by rw [hg]; rfl⟩

theorem ofFen_fresh {text : String} {v : Option Variant} {seats : Seats}
    (h : ofFen id text v seats = .ok s) : s.log = .empty ∧ s.resolution = none := by
  unfold ofFen at h
  split at h
  case h_1 => simp at h
  case h_2 => split at h <;> rw [← Except.ok.inj h] <;> exact ⟨rfl, rfl⟩

end Session

namespace Script

variable {s : Script} {ids : Nat → Uuid} {now : UInt64} {rules : HouseRules} {v : Variant}
  {s₀ : Session}

private theorem liftBadSquare_eq_ok {α : Type} {x : Except BadSquare α} {a : α} :
    (liftM x : Except Error α) = .ok a ↔ x = .ok a := by
  cases x with
  | error e => exact ⟨nofun, nofun⟩
  | ok b => exact ⟨fun h => congrArg _ (Except.ok.inj h), fun h => congrArg _ (Except.ok.inj h)⟩

theorem liftOpening_eq_ok {α : Type} {x : Except Refusal α} {a : α} :
    (liftM x : Except Error α) = .ok a ↔ x = .ok a := by
  cases x with
  | error r => exact ⟨nofun, nofun⟩
  | ok b => exact ⟨fun h => congrArg _ (Except.ok.inj h), fun h => congrArg _ (Except.ok.inj h)⟩

theorem opening?_fresh (h : s.opening? ids rules v = .ok s₀) :
    s₀.log = .empty ∧ s₀.resolution = none := by
  unfold opening? at h
  dsimp only at h
  split at h
  case h_1 =>
    obtain ⟨session, hsession, h⟩ := bind_eq_ok.mp h
    obtain rfl := Except.ok.inj h
    obtain ⟨hlog, hnone⟩ := Session.ofFen_fresh hsession
    exact ⟨hlog, hnone⟩
  case h_2 =>
    obtain rfl := Except.ok.inj h
    exact ⟨rfl, rfl⟩

def Event.record? (e : Event) : Option Move := e.result.toOption.map Accepted.move

namespace Performance

variable {p p' : Performance}

/-- The records of the accepted entries, in the order of the script. -/
def records (p : Performance) : List Move := p.events.filterMap Event.record?

/-- An entry between squares of the board is accepted or refused by the session. -/
theorem submit_eq_ok {number : Nat} {entry : Entry} :
    p.submit ids now number entry = .ok p' ↔ ∃ source target,
      Square.ofText entry.source = .ok source ∧ Square.ofText entry.target = .ok target ∧
      ((∃ a session, p.session.submit (ids (p.used + 1)) entry.side source.coord target.coord
          (entry.timestamp.getD (now + (number - 1).toUInt64)) = .ok (a, session) ∧
        p' = ⟨session, p.used + 1, p.events ++ [⟨number, source, target, .ok a⟩]⟩) ∨
      ∃ r, p.session.submit (ids (p.used + 1)) entry.side source.coord target.coord
          (entry.timestamp.getD (now + (number - 1).toUInt64)) = .error (.refused r) ∧
        p' = { p with events := p.events ++ [⟨number, source, target, .error r⟩] }) := by
  unfold submit
  simp only [bind_eq_ok, liftBadSquare_eq_ok]
  constructor
  · rintro ⟨source, hsource, target, htarget, h⟩
    refine ⟨source, target, hsource, htarget, ?_⟩
    split at h
    case h_1 a session hsubmit => exact .inl ⟨a, session, hsubmit, (Except.ok.inj h).symm⟩
    case h_2 r hsubmit => exact .inr ⟨r, hsubmit, (Except.ok.inj h).symm⟩
    case h_3 => exact absurd h nofun
  · rintro ⟨source, target, hsource, htarget, h⟩
    refine ⟨source, hsource, target, htarget, ?_⟩
    rcases h with ⟨a, session, hsubmit, rfl⟩ | ⟨r, hsubmit, rfl⟩ <;> rw [hsubmit] <;> rfl

/-- Either the entry is accepted and its record logged, or it is refused. -/
theorem submit_cases {number : Nat} {entry : Entry}
    (h : p.submit ids now number entry = .ok p') :
    (∃ source target a, a.move.id = ids (p.used + 1) ∧ a.move.OnBoard ∧
      p' = ⟨p.session.logged a.move, p.used + 1,
        p.events ++ [⟨number, source, target, .ok a⟩]⟩) ∨
    ∃ source target r, r.OfSubmission ∧
      p' = { p with events := p.events ++ [⟨number, source, target, .error r⟩] } := by
  obtain ⟨source, target, -, -, ⟨a, session, hsubmit, rfl⟩ | ⟨r, hsubmit, rfl⟩⟩ := submit_eq_ok.mp h
  · obtain ⟨rfl, hid, hboard⟩ := Session.submit_accepted hsubmit
    exact .inl ⟨source, target, a, hid, hboard, rfl⟩
  · exact .inr ⟨source, target, r, Session.submit_refused hsubmit, rfl⟩

/-- The performance has come from the session by entries of which some were accepted. -/
structure Follows (ids : Nat → Uuid) (s₀ : Session) (p : Performance) : Prop where
  session : p.session = s₀.logAll p.records
  used : p.used = 3 + p.records.length
  fresh : p.records.map Move.id = (List.range' 4 p.records.length).map ids
  onBoard : ∀ m ∈ p.records, m.OnBoard
  refusals : ∀ e ∈ p.events, ∀ r, e.result = .error r → r.OfSubmission

private theorem follows_nil (ids : Nat → Uuid) (s₀ : Session) : Follows ids s₀ ⟨s₀, 3, []⟩ where
  session := rfl
  used := rfl
  fresh := rfl
  onBoard _ hm := absurd hm List.not_mem_nil
  refusals _ he := absurd he List.not_mem_nil

private theorem Follows.submit {number : Nat} {entry : Entry} (hp : Follows ids s₀ p)
    (h : p.submit ids now number entry = .ok p') :
    Follows ids s₀ p' ∧ p'.events.length = p.events.length + 1 := by
  rcases submit_cases h with ⟨source, target, a, hid, hboard, rfl⟩ | ⟨source, target, r, hr, rfl⟩
  · have hrecords (session : Session) (used : Nat) :
        records ⟨session, used, p.events ++ [⟨number, source, target, .ok a⟩]⟩ =
          p.records ++ [a.move] := List.filterMap_append
    refine ⟨⟨?_, ?_, ?_, ?_, ?_⟩, List.length_append⟩
    · rw [hrecords, Session.logAll_concat, ← hp.session]
    · rw [hrecords, List.length_append, ← Nat.add_assoc, ← hp.used]
      rfl
    · rw [hrecords, List.map_append, hp.fresh, List.length_append, List.length_singleton,
        List.range'_1_concat, List.map_append, List.map_singleton, hid, hp.used]
      congr 3
      omega
    · rw [hrecords]
      exact List.forall_mem_append.mpr ⟨hp.onBoard, List.forall_mem_singleton.mpr hboard⟩
    · refine List.forall_mem_append.mpr ⟨hp.refusals, List.forall_mem_singleton.mpr ?_⟩
      exact fun r h => absurd h nofun
  · have hrecords : records ⟨p.session, p.used, p.events ++ [⟨number, source, target, .error r⟩]⟩ =
        p.records := List.filterMap_append.trans (List.append_nil _)
    refine ⟨⟨?_, ?_, ?_, ?_, ?_⟩, List.length_append⟩
    · rw [hrecords, ← hp.session]
    · rw [hrecords, ← hp.used]
    · rw [hrecords, hp.fresh]
    · rw [hrecords]
      exact hp.onBoard
    · refine List.forall_mem_append.mpr ⟨hp.refusals, List.forall_mem_singleton.mpr ?_⟩
      rintro q hq
      obtain rfl := Except.error.inj hq
      exact hr

theorem Follows.run {entries : List (Entry × Nat)} (hp : Follows ids s₀ p)
    (h : entries.foldlM (fun p (e, number) => p.submit ids now number e) p = .ok p') :
    Follows ids s₀ p' ∧ p'.events.length = p.events.length + entries.length := by
  induction entries generalizing p with
  | nil =>
    obtain rfl := Except.ok.inj h
    exact ⟨hp, rfl⟩
  | cons entry entries ih =>
    rw [List.foldlM_cons] at h
    obtain ⟨q, hq, h⟩ := bind_eq_ok.mp h
    obtain ⟨hfollows, hlength⟩ := hp.submit hq
    obtain ⟨hfollows', hlength'⟩ := ih hfollows h
    refine ⟨hfollows', ?_⟩
    rw [hlength', hlength, List.length_cons]
    omega

end Performance

theorem play_follows (hopening : s.opening? ids rules v = .ok s₀) {p : Performance}
    (h : s.play ids now rules v = .ok p) :
    p.Follows ids s₀ ∧ p.events.length = s.entries.length := by
  obtain ⟨session, hsession, h⟩ := bind_eq_ok.mp h
  obtain rfl := Except.ok.inj (hopening.symm.trans (liftOpening_eq_ok.mp hsession))
  obtain ⟨hfollows, hlength⟩ := (Performance.follows_nil ids s₀).run h
  refine ⟨hfollows, ?_⟩
  rw [hlength, List.length_zipIdx]
  exact Nat.zero_add _

end Script

end WereraChess
