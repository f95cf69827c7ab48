import WereraChess.Proofs.InPlace
import WereraChess.Proofs.KingSafety
import WereraChess.Proofs.Performance
/-!
# Room in the counter

A replay counts the records that it applies from the count of its opening on, and a line may open a
game with any count. How many records are applied does not depend on the counter, so the log has a
standing exactly if the counter has room for them. A submission logs its record before it asks for a
standing; it is all or nothing exactly if there is room.
-/
namespace WereraChess

namespace Course

variable {v : Variant} {rules : HouseRules} {c d : Course}

/-- The course with its counter set back. -/
def uncounted (c : Course) : Course := { c with moveCount := 0 }

/-- How many of the records are applied from the course on. The counter is set back before each of
them. -/
def applications (v : Variant) (rules : HouseRules) (c : Course) : List Move → Nat
  | [] => 0
  | m :: ms =>
    match c.uncounted.play v rules m with
    | .ok d => d.moveCount.toNat + d.applications v rules ms
    | .error _ => 0

/-- The course with a counter that is further on by `n`. -/
def countedFrom (n : UInt32) (c : Course) : Course := { c with moveCount := n + c.moveCount }

private theorem applications_congr (h : c.uncounted = d.uncounted) (ms : List Move) :
    c.applications v rules ms = d.applications v rules ms := by
  cases ms with
  | nil => rfl
  | cons m ms => rw [applications, applications, h]

private theorem play_uncounted (v : Variant) (rules : HouseRules) (c : Course) {m : Move}
    (hm : m.OnBoard) : ∃ d, c.uncounted.play v rules m = .ok d ∧ d.moveCount.toNat ≤ 1 ∧
      c.play v rules m =
        if c.moveCount.toNat + d.moveCount.toNat < UInt32.size then .ok (d.countedFrom c.moveCount)
        else .error .counterFull := by
  have hskip : (c.uncounted.skip m).countedFrom c.moveCount = c.skip m :=
    congrArg (fun n => { c.skip m with moveCount := n }) (UInt32.add_zero _)
  have hroom : c.moveCount.toNat + (c.uncounted.skip m).moveCount.toNat < UInt32.size :=
    c.moveCount.toNat_lt
  have hsmall : ¬ UInt32.size ≤ (0 : UInt32).toNat + 1 := by decide
  rcases play_total v rules c.uncounted hm with ⟨d, hd⟩ | ⟨-, hfull⟩
  · refine ⟨d, hd, moveCount_le_of_step (play_eq_ok_iff.mp hd), ?_⟩
    cases play_eq_ok_iff.mp hd with
    | ended h =>
      rw [if_pos hroom, hskip]
      exact play_ended m h
    | blocked hlive hs ht h =>
      rw [if_pos hroom, hskip]
      exact play_eq_ok_iff.mpr (.blocked hlive hs ht h)
    | @applied s t r e hlive hs ht h hr he =>
      have hadvance : c.advance m.mover r =
          if c.moveCount.toNat + 1 < UInt32.size then .ok (e.countedFrom c.moveCount)
          else .error .counterFull := by
        obtain rfl := Except.ok.inj ((if_pos (Nat.not_le.mp hsmall)).symm.trans he)
        rfl
      have hone : (e.settle v rules m.mover.opponent).moveCount.toNat = 1 :=
        (advance_eq_ok he).2.2.2
      have hlive' : c.progress.phase.isComplete = false := hlive
      have happlies : c.applies m s t = true := h
      have hr' : c.board.relocate s t = some r := hr
      simp only [play_live hlive' hs ht, happlies, hr', if_true, hadvance, hone]
      split <;> rfl
  · exact absurd hfull hsmall

/-- Records on the board are played to the end exactly if the counter has room for those applied. -/
theorem run_eq_ok_iff (v : Variant) (rules : HouseRules) (c : Course) {ms : List Move}
    (hms : ∀ m ∈ ms, m.OnBoard) :
    (∃ c', ms.foldlM (play v rules) c = .ok c') ↔
      c.moveCount.toNat + c.applications v rules ms < UInt32.size := by
  induction ms generalizing c with
  | nil => exact iff_of_true ⟨c, rfl⟩ c.moveCount.toNat_lt
  | cons m ms ih =>
    obtain ⟨hm, hms⟩ := List.forall_mem_cons.mp hms
    obtain ⟨d, hd, -, hplay⟩ := play_uncounted v rules c hm
    rw [List.foldlM_cons, applications, hd]
    dsimp only
    by_cases hroom : c.moveCount.toNat + d.moveCount.toNat < UInt32.size
    · have hcount : (d.countedFrom c.moveCount).moveCount.toNat =
          c.moveCount.toNat + d.moveCount.toNat :=
        (UInt32.toNat_add ..).trans (Nat.mod_eq_of_lt hroom)
      have hrest : (d.countedFrom c.moveCount).applications v rules ms =
          d.applications v rules ms := by
        apply applications_congr
        rfl
      have hnext := ih (d.countedFrom c.moveCount) hms
      rw [hcount, hrest, Nat.add_assoc] at hnext
      rw [hplay, if_pos hroom]
      exact hnext
    · rw [hplay, if_neg hroom]
      refine iff_of_false (fun ⟨_, h⟩ => absurd h nofun) ?_
      omega

private theorem applications_le (v : Variant) (rules : HouseRules) (c : Course) {ms : List Move}
    (hms : ∀ m ∈ ms, m.OnBoard) : c.applications v rules ms ≤ ms.length := by
  induction ms generalizing c with
  | nil => exact Nat.le_refl 0
  | cons m ms ih =>
    obtain ⟨hm, hms⟩ := List.forall_mem_cons.mp hms
    obtain ⟨d, hd, hone, -⟩ := play_uncounted v rules c hm
    have hrest := ih d hms
    rw [applications, hd, List.length_cons]
    dsimp only
    omega

end Course

namespace Session

variable {s t : Session}

/-- How many records of the log are applied. -/
def applied (s : Session) : Nat :=
  (Course.start s.variant s.rules s.opening).applications s.variant s.rules
    (Move.canonical s.log.moves)

/-- A log of records on the board has a standing exactly if the counter has room for those that are
applied. -/
theorem standing_isOk_iff (hlog : ∀ m ∈ s.log.moves, m.OnBoard) :
    (∃ st, s.standing = .ok st) ↔ s.opening.moveCount.toNat + s.applied < UInt32.size := by
  have hmem (m : Move) (hm : m ∈ Move.canonical s.log.moves) : m.OnBoard :=
    hlog m (Move.mem_canonical.mp hm).1
  refine Iff.trans ?_ (Course.run_eq_ok_iff s.variant s.rules
    (Course.start s.variant s.rules s.opening) hmem)
  constructor
  · rintro ⟨st, hst⟩
    obtain ⟨r, hr, -⟩ := standing_eq_ok.mp hst
    obtain ⟨c, hc, -⟩ := replay_eq_ok.mp hr
    exact ⟨c, hc⟩
  · rintro ⟨c, hc⟩
    exact ⟨_, standing_eq_ok.mpr ⟨_, replay_eq_ok.mpr ⟨c, hc, rfl⟩, rfl⟩⟩

private theorem applied_le (hlog : ∀ m ∈ s.log.moves, m.OnBoard) : s.applied ≤ s.log.moves.length :=
  (Course.applications_le _ _ _ fun m hm => hlog m (Move.mem_canonical.mp hm).1).trans
    (Move.canonical_length_le _)

private theorem standing_eq_error {f : Fault} (hlog : ∀ m ∈ s.log.moves, m.OnBoard)
    (h : s.standing = .error f) : f = .counterFull := by
  rcases replay_total s.variant s.rules s.opening hlog with ⟨r, hr⟩ | ⟨hr, -⟩
  · rw [standing_eq_ok.mpr ⟨r, hr, rfl⟩] at h
    exact absurd h nofun
  · rw [standing, replayed, hr] at h
    exact (Except.error.inj h).symm

private theorem seats_ofFen {id : Uuid} {text : String} {v : Option Variant} {seats : Seats}
    (h : ofFen id text v seats = .ok s) : s.seats = seats := by
  unfold ofFen at h
  split at h
  case h_1 => simp at h
  case h_2 => split at h <;> rw [← Except.ok.inj h] <;> rfl

end Session

/-- A call by which a player submits a move between squares of the board, with the identifier that
its record is given. -/
structure Submission where
  id : Uuid
  side : Side
  source : Square
  target : Square
  timestamp : UInt64

namespace Submission

open InPlace

variable {c : Submission} {s s₀ : Session}

def call (c : Submission) : InPlace Session Accepted :=
  Session.submitting c.id c.side c.source.coord c.target.coord c.timestamp

/-- The session that calls one after the other leave, whatever comes of each. -/
def callAll (cs : List Submission) (s : Session) : Session := cs.foldl (fun s c => c.call.left s) s

/-- The record that the call asks for. -/
structure Asks (c : Submission) (m : Move) : Prop where
  id : m.id = c.id
  mover : m.mover = c.side
  source : m.source = c.source.coord
  target : m.target = c.target.coord
  timestamp : m.timestamp = c.timestamp

/-- The call returns, and the log holds its record besides; or it is refused for one of the reasons
for which submissions are refused, and the session is as it was. -/
inductive AllOrNothing (c : Submission) (s : Session) : Prop
  | all {a : Accepted} {earlier later : List Move} (hmove : c.Asks a.move)
      (hlog : s.log.moves = earlier ++ later)
      (h : c.call.run s = .ok a { s with log := ⟨earlier ++ a.move :: later⟩ })
  | nothing {r : Refusal} (hr : r.OfSubmission) (h : c.call.run s = .error (.refused r) s)

private theorem AllOrNothing.run_ne_fault (h : c.AllOrNothing s) {f : Fault} {t : Session} :
    c.call.run s ≠ .error (.fault f) t := by
  cases h with
  | all _ _ h => rw [h]; nofun
  | nothing _ h => rw [h]; nofun

private theorem run_of_unchecked {e : Failure}
    (h : s.checked c.id c.side c.source.coord c.target.coord c.timestamp = .error e) :
    c.call.run s = .error e s := by
  rw [call, Session.run_submitting, h]

private theorem run_of_checked_ok {before after : Standing} {m : Move}
    (h : s.checked c.id c.side c.source.coord c.target.coord c.timestamp = .ok (before, m))
    (hafter : (s.logged m).standing = .ok after) :
    c.call.run s = .ok (.between m before after) (s.logged m) := by
  rw [call, Session.run_submitting, h]
  simp only [hafter]

private theorem run_of_checked_fault {before : Standing} {m : Move} {f : Fault}
    (h : s.checked c.id c.side c.source.coord c.target.coord c.timestamp = .ok (before, m))
    (hafter : (s.logged m).standing = .error f) :
    c.call.run s = .error (.fault f) (s.logged m) := by
  rw [call, Session.run_submitting, h]
  simp only [hafter]

private theorem left_of_checked {before : Standing} {m : Move}
    (h : s.checked c.id c.side c.source.coord c.target.coord c.timestamp = .ok (before, m)) :
    c.call.left s = s.logged m := by
  cases hafter : (s.logged m).standing with
  | ok after => exact left_of_ok (run_of_checked_ok h hafter)
  | error f => exact left_of_error (run_of_checked_fault h hafter)

private theorem asks_of_checked {before : Standing} {m : Move}
    (h : s.checked c.id c.side c.source.coord c.target.coord c.timestamp = .ok (before, m)) :
    c.Asks m := by
  obtain ⟨-, -, -, -, kind, captured, -, rfl⟩ := Session.checked_eq_ok.mp h
  exact ⟨rfl, rfl, rfl, rfl, rfl⟩

/-- A call is all or nothing and leaves a session with a standing, or it faults and leaves one
without. In the latter case its record is logged, unless there was no standing before. -/
theorem allOrNothing_or_fault (hfull : s.seats.areFull = true)
    (hfresh : s.log.contains c.id = false) :
    (c.AllOrNothing s ∧ ∃ st, (c.call.left s).standing = .ok st) ∨
      ∃ f, c.call.run s = .error (.fault f) (c.call.left s) ∧
        (c.call.left s).standing = .error f ∧
        ((∃ st, s.standing = .ok st) → ∃ m, c.Asks m ∧ c.call.left s = s.logged m) := by
  cases hchecked : s.checked c.id c.side c.source.coord c.target.coord c.timestamp with
  | error e =>
    have hrun := run_of_unchecked hchecked
    rw [left_of_error hrun]
    cases e with
    | refused r =>
      have hsubmit : s.submit c.id c.side c.source.coord c.target.coord c.timestamp =
          .error (.refused r) := by
        rw [Session.submit_eq, hchecked]
        rfl
      exact .inl ⟨.nothing (Session.submit_refused hsubmit) hrun,
        Session.checked_eq_refused hfull hchecked⟩
    | fault f =>
      have hst := Session.checked_eq_fault (Coord.square?_coord c.source) hchecked
      refine .inr ⟨f, hrun, hst, ?_⟩
      rintro ⟨st, hok⟩
      exact absurd (hok.symm.trans hst) nofun
  | ok checked =>
    obtain ⟨before, m⟩ := checked
    have hasks := asks_of_checked hchecked
    rw [left_of_checked hchecked]
    cases hafter : (s.logged m).standing with
    | ok after =>
      have hnew : s.log.contains m.id = false := by rw [hasks.id, hfresh]
      have hlog : s.log.insert m = ⟨_⟩ := congrArg MoveLog.mk (MoveLog.moves_insert hnew)
      have hrun := run_of_checked_ok hchecked hafter
      rw [Session.logged, hlog] at hrun
      exact .inl ⟨.all hasks (List.take_append_drop _ _).symm hrun, after, rfl⟩
    | error f =>
      exact .inr ⟨f, run_of_checked_fault hchecked hafter, rfl, fun _ => ⟨m, hasks, rfl⟩⟩

/-- The session has come from another by calls under some of the identifiers. -/
structure Grown (s₀ : Session) (ids : List Uuid) (s : Session) : Prop where
  frame : s = { s₀ with log := s.log }
  onBoard : ∀ m ∈ s.log.moves, m.OnBoard
  fresh : ∀ m ∈ s.log.moves, m.id ∈ ids
  length : s.log.moves.length ≤ ids.length

private theorem grown_nil (hlog : s.log = .empty) : Grown s [] s := by
  refine ⟨rfl, ?_, ?_, ?_⟩
  all_goals rw [hlog]
  · exact nofun
  · exact nofun
  · exact Nat.le_refl 0

private theorem Grown.call {ids : List Uuid} (h : Grown s₀ ids s) (c : Submission) :
    Grown s₀ (ids ++ [c.id]) (c.call.left s) := by
  have hsame : Grown s₀ (ids ++ [c.id]) s := by
    refine ⟨h.frame, h.onBoard, fun m hm => List.mem_append_left _ (h.fresh m hm), ?_⟩
    rw [List.length_append]
    exact Nat.le_add_right_of_le h.length
  cases hchecked : s.checked c.id c.side c.source.coord c.target.coord c.timestamp with
  | error e => rwa [left_of_error (run_of_unchecked hchecked)]
  | ok checked =>
    obtain ⟨before, m⟩ := checked
    rw [left_of_checked hchecked]
    refine ⟨?_, ?_, ?_, ?_⟩
    · change { s with log := s.log.insert m } = { s₀ with log := s.log.insert m }
      rw [h.frame]
    · intro x hx
      rcases MoveLog.mem_of_mem_insert hx with rfl | hx
      · exact Session.onBoard_of_checked hchecked
      · exact hsame.onBoard x hx
    · intro x hx
      rcases MoveLog.mem_of_mem_insert hx with rfl | hx
      · exact List.mem_append_right _ (List.mem_singleton.mpr (asks_of_checked hchecked).id)
      · exact hsame.fresh x hx
    · rw [List.length_append]
      exact (MoveLog.length_insert_le s.log m).trans (Nat.succ_le_succ h.length)

theorem Grown.callAll {ids : List Uuid} (h : Grown s₀ ids s) (cs : List Submission) :
    Grown s₀ (ids ++ cs.map id) (callAll cs s) := by
  induction cs generalizing ids s with
  | nil => rwa [List.map_nil, List.append_nil]
  | cons c cs ih =>
    rw [List.map_cons, List.append_cons]
    exact ih (h.call c)

/-- A call on a session that a line has opened is all or nothing exactly if the counter has room for
what is applied of the log that it leaves. Otherwise it faults, and if there was room before it, its
record is logged. No more is applied than there are calls. -/
theorem allOrNothing_iff_room {name : Uuid} {text : String} {v : Option Variant} {seats : Seats}
    (hs : Session.ofFen name text v seats = .ok s₀) (hfull : seats.areFull = true)
    (rules : HouseRules) (cs : List Submission) (c : Submission)
    (hids : ((cs ++ [c]).map Submission.id).Nodup) :
    let s := callAll cs { s₀ with rules }
    let t := c.call.left s
    c.call.outcome s = s.submit c.id c.side c.source.coord c.target.coord c.timestamp ∧
      (c.AllOrNothing s ↔ s₀.opening.moveCount.toNat + t.applied < UInt32.size) ∧
      (¬ c.AllOrNothing s → c.call.run s = .error (.fault .counterFull) t ∧
        (s₀.opening.moveCount.toNat + s.applied < UInt32.size →
          ∃ m, c.Asks m ∧ t = s.logged m)) ∧
      t.applied ≤ cs.length + 1 := by
  intro s t
  obtain ⟨hempty, -⟩ := Session.ofFen_fresh hs
  have hstart : Grown { s₀ with rules } [] { s₀ with rules } := grown_nil hempty
  have hgrown : Grown { s₀ with rules } (cs.map id) s := hstart.callAll cs
  have hleft : Grown { s₀ with rules } (cs.map id ++ [c.id]) t := hgrown.call c
  have hsfull : s.seats.areFull = true := by
    rw [hgrown.frame]
    exact (congrArg Seats.areFull (Session.seats_ofFen hs)).trans hfull
  have hopening : s.opening = s₀.opening := by rw [hgrown.frame]
  have hopening' : t.opening = s₀.opening := by rw [hleft.frame]
  have hfresh : s.log.contains c.id = false := by
    rw [MoveLog.contains_eq_false_iff]
    intro m hm hid
    rw [List.map_append] at hids
    exact (List.nodup_append.mp hids).2.2 _ (hgrown.fresh m hm) _ (List.mem_singleton_self _) hid
  have hbefore := Session.standing_isOk_iff hgrown.onBoard
  have hafter := Session.standing_isOk_iff hleft.onBoard
  rw [hopening] at hbefore
  rw [hopening'] at hafter
  have happlied : t.applied ≤ cs.length + 1 := by
    refine ((Session.applied_le hleft.onBoard).trans hleft.length).trans (Nat.le_of_eq ?_)
    rw [List.length_append, List.length_map, List.length_singleton]
  refine ⟨Session.outcome_submitting, ?_, ?_, happlied⟩
  · rcases allOrNothing_or_fault hsfull hfresh with ⟨hall, hst⟩ | ⟨f, hrun, hst, -⟩
    · exact iff_of_true hall (hafter.mp hst)
    · refine iff_of_false (fun hall => hall.run_ne_fault hrun) fun hroom => ?_
      obtain ⟨st, hok⟩ := hafter.mpr hroom
      exact absurd (hok.symm.trans hst) nofun
  · intro hnot
    rcases allOrNothing_or_fault hsfull hfresh with ⟨hall, -⟩ | ⟨f, hrun, hst, hlogged⟩
    · exact absurd hall hnot
    · obtain rfl := Session.standing_eq_error hleft.onBoard hst
      exact ⟨hrun, fun hroom => hlogged (hbefore.mpr hroom)⟩

def ofWhite (source target : Square) : Submission := ⟨.numbered 4, .white, source, target, 10⟩

def backRowAt (n : UInt32) : Session :=
  { Session.backRow with opening := { Opening.backRow with moveCount := n } }

/-- There is room for one more record, and the first call is all or nothing. -/
theorem allOrNothing_lastMove :
    Session.ofFen (.numbered 1) "7k/6pp/8/8/8/R7/8/1K6 w normal 4294967294" none
        Session.backRow.seats = .ok (backRowAt 4294967294) ∧
      Session.backRow.seats.areFull = true ∧ ([ofWhite ⟨5, 0⟩ ⟨4, 0⟩].map Submission.id).Nodup ∧
      (ofWhite ⟨5, 0⟩ ⟨4, 0⟩).AllOrNothing (backRowAt 4294967294) := by
  have hs : Session.ofFen (.numbered 1) "7k/6pp/8/8/8/R7/8/1K6 w normal 4294967294" none
      Session.backRow.seats = .ok (backRowAt 4294967294) := by decide
  have hids : ([ofWhite ⟨5, 0⟩ ⟨4, 0⟩].map Submission.id).Nodup := by decide
  obtain ⟨-, hall, -, happlied⟩ := allOrNothing_iff_room hs rfl {} [] _ hids
  exact ⟨hs, rfl, hids, hall.mpr (Nat.lt_of_le_of_lt (Nat.add_le_add_left happlied _) (by decide))⟩

/-- The move passes every check. It is logged, and the counter has no room for it. -/
theorem not_allOrNothing_fullCounter :
    Session.ofFen (.numbered 1) "7k/6pp/8/8/8/R7/8/1K6 w normal 4294967295" none
        Session.backRow.seats = .ok (backRowAt 4294967295) ∧
      Session.backRow.seats.areFull = true ∧
      ¬ (ofWhite ⟨5, 0⟩ ⟨4, 0⟩).AllOrNothing (backRowAt 4294967295) ∧
      ∃ m, (ofWhite ⟨5, 0⟩ ⟨4, 0⟩).Asks m ∧
        (ofWhite ⟨5, 0⟩ ⟨4, 0⟩).call.run (backRowAt 4294967295) =
          .error (.fault .counterFull) ((backRowAt 4294967295).logged m) := by
  let m : Move := ⟨.numbered 4, ⟨5, 0⟩, ⟨4, 0⟩, .white, .rook, none, 10⟩
  have hs : Session.ofFen (.numbered 1) "7k/6pp/8/8/8/R7/8/1K6 w normal 4294967295" none
      Session.backRow.seats = .ok (backRowAt 4294967295) := by decide
  have hmove : (backRowAt 4294967295).checkMovement
      ((Course.start .standard {} (backRowAt 4294967295).opening).standing .standard) .white
      ⟨5, 0⟩ ⟨4, 0⟩ = .ok (.rook, none) := by decide
  have hchecked : (backRowAt 4294967295).checked (.numbered 4) .white ⟨5, 0⟩ ⟨4, 0⟩ 10 =
      .ok (_, m) :=
    Session.checked_eq_ok.mpr ⟨rfl, Session.standing_of_log_empty rfl rfl, by decide, rfl,
      .rook, none, hmove, rfl⟩
  have hafter : ((backRowAt 4294967295).logged m).standing = .error .counterFull := by
    rw [Session.standing, Session.replayed_logged_of_log_empty rfl]
    decide
  have hrun : (ofWhite ⟨5, 0⟩ ⟨4, 0⟩).call.run (backRowAt 4294967295) =
      .error (.fault .counterFull) ((backRowAt 4294967295).logged m) :=
    run_of_checked_fault hchecked hafter
  exact ⟨hs, rfl, fun hall => hall.run_ne_fault hrun, m, ⟨rfl, rfl, rfl, rfl, rfl⟩, hrun⟩

end Submission

end WereraChess
