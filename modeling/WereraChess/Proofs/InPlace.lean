import WereraChess.Proofs.Messages
/-!
# Operations in place

An operation on a session changes the session that it is called on, and where it fails halfway it
leaves what it has made of the session by then. Joining, receiving and declaring change the session
in their last step, so a failure leaves it as it was. A submission works out a standing after its
record is logged.
-/
namespace WereraChess

/-- An operation that changes a state. A failure leaves the state as it is then. -/
abbrev InPlace (σ : Type) := EStateM Failure σ

instance {σ : Type} : MonadLift (Except Failure) (InPlace σ) := ⟨MonadExcept.ofExcept⟩

namespace InPlace

variable {σ α β : Type} {x : InPlace σ α} {s t : σ}

/-- What the operation gives, with the state that it comes to unless it fails. -/
def outcome (x : InPlace σ α) (s : σ) : Except Failure (α × σ) :=
  match x.run s with
  | .ok a t => .ok (a, t)
  | .error e _ => .error e

/-- The state that the operation leaves, whatever comes of it. -/
def left (x : InPlace σ α) (s : σ) : σ :=
  match x.run s with
  | .ok _ t => t
  | .error _ t => t

/-- The operation that replaces the state by what `f` makes of it, and does nothing where `f`
fails. -/
def replacing (f : σ → Except Failure (α × σ)) : InPlace σ α := fun s =>
  match f s with
  | .ok (a, t) => .ok a t
  | .error e => .error e s

theorem run_eq_ok {a : α} : x.run s = .ok a t ↔ x.outcome s = .ok (a, t) := by
  rw [outcome]
  cases x.run s <;> simp

theorem run_eq_error {e : Failure} :
    x.run s = .error e t ↔ x.outcome s = .error e ∧ x.left s = t := by
  rw [outcome, left]
  cases x.run s <;> simp

theorem outcome_bind (x : InPlace σ α) (f : α → InPlace σ β) (s : σ) :
    (x >>= f).outcome s = x.outcome s >>= fun p => (f p.1).outcome p.2 := by
  simp only [outcome, EStateM.run, bind, EStateM.bind]
  cases x s <;> rfl

theorem left_of_ok {a : α} (h : x.run s = .ok a t) : x.left s = t := by
  rw [left, h]

theorem left_of_error {e : Failure} (h : x.run s = .error e t) : x.left s = t := by
  rw [left, h]

theorem run_get_bind (f : σ → InPlace σ β) (s : σ) : (get >>= f).run s = (f s).run s := rfl

theorem run_set_bind (t : σ) (f : PUnit → InPlace σ β) (s : σ) :
    (set t >>= f).run s = (f ()).run t := rfl

theorem run_bind (x : InPlace σ α) (f : α → InPlace σ β) (s : σ) :
    (x >>= f).run s = match x.run s with
      | .ok a t => (f a).run t
      | .error e t => .error e t := by
  simp only [EStateM.run, bind, EStateM.bind]
  cases x s <;> rfl

theorem run_bind_of_ok {f : α → InPlace σ β} {a : α} (h : x.run s = .ok a t) :
    (x >>= f).run s = (f a).run t := by
  rw [run_bind, h]

theorem run_bind_of_error {f : α → InPlace σ β} {e : Failure} (h : x.run s = .error e t) :
    (x >>= f).run s = .error e t := by
  rw [run_bind, h]

private theorem run_lift_bind (y : Except Failure α) (f : α → InPlace σ β) (s : σ) :
    (liftM y >>= f).run s = match y with
      | .ok a => (f a).run s
      | .error e => .error e s := by
  cases y <;> rfl

private theorem run_liftFault_bind (y : Except Fault α) (f : α → InPlace σ β) (s : σ) :
    (liftM y >>= f).run s = match y with
      | .ok a => (f a).run s
      | .error e => .error (.fault e) s := by
  cases y <;> rfl

private theorem run_liftRefusal_bind (y : Except Refusal α) (f : α → InPlace σ β) (s : σ) :
    (liftM y >>= f).run s = match y with
      | .ok a => (f a).run s
      | .error e => .error (.refused e) s := by
  cases y <;> rfl

theorem run_replacing (f : σ → Except Failure (α × σ)) (s : σ) :
    (replacing f).run s = match f s with
      | .ok (a, t) => .ok a t
      | .error e => .error e s := rfl

end InPlace

/-- What the submitter of a record learns from the standings before and after it. -/
def Accepted.between (m : Move) (before after : Standing) : Accepted where
  move := m
  phase := after.phase
  turn := after.turn
  ending := if before.ending.isNone then after.ending else none

namespace Session

open InPlace

def joining (p : Participant) : InPlace Session Side := do
  let s ← get
  if s.seats.white.isNone then
    set { s with seats.white := some p }
    return .white
  else if s.seats.black.isNone then
    set { s with seats.black := some p }
    return .black
  else throw (.refused .seatsTaken)

/-- Merges a record that was accepted elsewhere. -/
def receiving (m : Move) : InPlace Session Bool := do
  let _ ← m.text
  let s ← get
  let (new, log) := s.log.offer m
  set { s with log }
  return new

def declaring (e : Ending) : InPlace Session Ending := do
  let s ← get
  match (← s.standing).phase with
  | .complete reason => throw (.refused (.gameOver reason))
  | _ =>
    set { s with resolution := some e }
    return e

/-- Submits a move of a side. The record is logged before the standing after it is worked out. -/
def submitting (id : Uuid) (side : Side) (source target : Coord) (timestamp : UInt64) :
    InPlace Session Accepted := do
  let s ← get
  if !s.seats.areFull then throw (.refused .waitingForOpponent)
  let before ← s.standing
  (Progress.resume before.phase before.turn).permit side
  s.checkTime before.phase timestamp
  let (piece, captured) ← s.checkMovement before side source target
  let move : Move := { id, source, target, mover := side, piece, captured, timestamp }
  set (s.logged move)
  let after ← (← get).standing
  let ending := if before.ending.isNone then after.ending else none
  return { move, phase := after.phase, turn := after.turn, ending }

theorem joining_eq (p : Participant) : joining p = replacing fun s => liftM (s.join p) := by
  funext ⟨id, v, ⟨white, black⟩, o, log, resolution, rules⟩
  cases white <;> cases black <;> rfl

theorem receiving_eq (m : Move) : receiving m = replacing fun s => liftM (s.receive m) := by
  funext s
  unfold receiving replacing receive
  cases m.text <;> rfl

theorem declaring_eq (e : Ending) : declaring e = replacing fun s => s.declare e := by
  funext s
  change (declaring e).run s = (replacing fun s => s.declare e).run s
  rw [declaring, run_get_bind, run_liftFault_bind, run_replacing, declare]
  cases s.standing with
  | error f => rfl
  | ok st =>
    rw [liftFault_ok, pure_bind]
    dsimp only
    cases st.phase <;> rfl

/-- The checks that a submission has to pass, and the record that it makes. -/
def checked (s : Session) (id : Uuid) (side : Side) (source target : Coord) (timestamp : UInt64) :
    Except Failure (Standing × Move) := do
  if !s.seats.areFull then refuse .waitingForOpponent
  let before ← s.standing
  (Progress.resume before.phase before.turn).permit side
  s.checkTime before.phase timestamp
  let (piece, captured) ← s.checkMovement before side source target
  return (before, { id, source, target, mover := side, piece, captured, timestamp })

variable {s : Session} {id : Uuid} {side : Side} {source target : Coord} {timestamp : UInt64}

theorem submit_eq : s.submit id side source target timestamp = do
    let (before, m) ← s.checked id side source target timestamp
    let after ← (s.logged m).standing
    return (.between m before after, s.logged m) := by
  rw [submit, checked]
  cases s.seats.areFull with
  | false => rfl
  | true =>
    simp only [Bool.not_true, Bool.false_eq_true, if_false, bind_assoc, pure_bind]
    rfl

theorem run_submitting : (submitting id side source target timestamp).run s =
    match s.checked id side source target timestamp with
    | .error e => .error e s
    | .ok (before, m) =>
      match (s.logged m).standing with
      | .ok after => .ok (.between m before after) (s.logged m)
      | .error f => .error (.fault f) (s.logged m) := by
  rw [submitting, run_get_bind, checked]
  cases s.seats.areFull with
  | false => rfl
  | true =>
    simp only [Bool.not_true, Bool.false_eq_true, if_false, run_liftFault_bind, run_lift_bind,
      run_liftRefusal_bind, run_set_bind, run_get_bind]
    cases s.standing with
    | error f => rfl
    | ok before =>
      rw [liftFault_ok, pure_bind]
      dsimp only
      cases (Progress.resume before.phase before.turn).permit side with
      | error r => rfl
      | ok =>
        dsimp only
        cases s.checkTime before.phase timestamp with
        | error r => rfl
        | ok =>
          dsimp only
          cases s.checkMovement before side source target with
          | error e => rfl
          | ok kinds =>
            dsimp only [bind, Except.bind, liftM, monadLift, MonadLift.monadLift, pure, Except.pure]
            let m : Move := ⟨id, source, target, side, kinds.1, kinds.2, timestamp⟩
            cases (s.logged m).standing <;> rfl

theorem outcome_submitting :
    (submitting id side source target timestamp).outcome s =
      s.submit id side source target timestamp := by
  rw [outcome, run_submitting, submit_eq]
  cases s.checked id side source target timestamp with
  | error e => rfl
  | ok p =>
    change _ = (liftM (s.logged p.2).standing : Except Failure Standing) >>= _
    dsimp only
    cases (s.logged p.2).standing <;> rfl

theorem checked_eq_ok {before : Standing} {m : Move} :
    s.checked id side source target timestamp = .ok (before, m) ↔
      s.seats.areFull = true ∧ s.standing = .ok before ∧
        (Progress.resume before.phase before.turn).permit side = .ok () ∧
        s.checkTime before.phase timestamp = .ok () ∧
        ∃ kind captured, s.checkMovement before side source target = .ok (kind, captured) ∧
          m = ⟨id, source, target, side, kind, captured, timestamp⟩ := by
  unfold checked
  cases hfull : s.seats.areFull with
  | false => exact ⟨nofun, nofun⟩
  | true =>
    simp only [Bool.not_true, Bool.false_eq_true, if_false, bind_eq_ok, liftFault_eq_ok,
      liftRefusal_eq_ok, true_and]
    constructor
    · rintro ⟨st, hst, _, hpermit, _, htime, ⟨kind, captured⟩, hmove, h⟩
      obtain ⟨rfl, rfl⟩ := Prod.mk.inj (pure_eq_ok.mp h)
      exact ⟨hst, hpermit, htime, kind, captured, hmove, rfl⟩
    · rintro ⟨hst, hpermit, htime, kind, captured, hmove, rfl⟩
      exact ⟨before, hst, (), hpermit, (), htime, (kind, captured), hmove, rfl⟩

theorem checked_eq_refused {r : Refusal} (hfull : s.seats.areFull = true)
    (h : s.checked id side source target timestamp = .error (.refused r)) :
    ∃ st, s.standing = .ok st := by
  simp only [checked, hfull, Bool.not_true, Bool.false_eq_true, if_false, bind_eq_error,
    liftFault_ne_refused, liftFault_eq_ok, false_or] at h
  obtain ⟨st, hst, -⟩ := h
  exact ⟨st, hst⟩

theorem checked_eq_fault {origin : Square} {f : Fault} (hs : source.square? = some origin)
    (h : s.checked id side source target timestamp = .error (.fault f)) :
    s.standing = .error f := by
  unfold checked at h
  cases hfull : s.seats.areFull with
  | false => simp [hfull, refuse, bind, Except.bind] at h
  | true =>
    simp only [hfull, Bool.not_true, Bool.false_eq_true, if_false, bind_eq_error,
      liftFault_eq_fault, liftRefusal_ne_fault, checkMovement_ne_fault hs, pure_eq_error,
      and_false, exists_false, or_false] at h
    exact h

theorem onBoard_of_checked {before : Standing} {m : Move}
    (h : s.checked id side source target timestamp = .ok (before, m)) : m.OnBoard := by
  obtain ⟨-, -, -, -, _, _, hmove, rfl⟩ := checked_eq_ok.mp h
  obtain ⟨_, _, -, ho, hg, -⟩ := checkMovement_eq_ok.mp hmove
  exact ⟨by rw [ho]; rfl, by rw [hg]; rfl⟩

theorem exists_submit_of_checked {m : Move}
    (h : (s.checked id side source target timestamp).toOption.map Prod.snd = some m)
    (hlog : ∀ x ∈ s.log.moves, x.OnBoard)
    (hroom : s.opening.moveCount.toNat + s.log.moves.length + 1 < UInt32.size) :
    ∃ a, s.submit id side source target timestamp = .ok (a, s.logged m) ∧ a.move = m := by
  cases hchecked : s.checked id side source target timestamp with
  | error e =>
    rw [hchecked] at h
    exact absurd h nofun
  | ok p =>
    obtain ⟨before, m'⟩ := p
    rw [hchecked] at h
    obtain rfl : m' = m := Option.some.inj h
    have hlogged : ∀ x ∈ (s.logged m').log.moves, x.OnBoard := by
      intro x hx
      rcases MoveLog.mem_of_mem_insert hx with rfl | hx
      · exact onBoard_of_checked hchecked
      · exact hlog x hx
    have hlength : (s.logged m').log.moves.length ≤ s.log.moves.length + 1 :=
      MoveLog.length_insert_le s.log m'
    obtain ⟨after, hafter⟩ := standing_total hlogged (Nat.lt_of_le_of_lt
      (Nat.add_le_add_left hlength _) hroom)
    refine ⟨.between m' before after, ?_, rfl⟩
    rw [submit_eq]
    exact bind_eq_ok.mpr ⟨_, hchecked, bind_eq_ok.mpr ⟨after, liftFault_eq_ok.mpr hafter, rfl⟩⟩

end Session

end WereraChess
