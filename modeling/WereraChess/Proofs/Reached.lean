import WereraChess.Proofs.Submission
/-!
# Sessions that operations reach

The sessions that come from a new one by joining, submitting, receiving, resigning, running out of
time, changing the house rules and asking for a rematch. Their logs are canonical.
-/
namespace WereraChess.Session

inductive Reached : Session → Prop
  | create (id : Uuid) (v : Variant) (white black : Participant) :
      Reached (create id v white black)
  | host (id : Uuid) (v : Variant) (white : Participant) : Reached (host id v white)
  | ofFen {id : Uuid} {text : String} {v : Option Variant} {seats : Seats} {s : Session}
      (h : ofFen id text v seats = .ok s) : Reached s
  | rematch {s : Session} (hs : Reached s) (id : Uuid) : Reached (s.rematch id)
  | agree {s : Session} (hs : Reached s) (rules : HouseRules) : Reached { s with rules }
  | join {s s' : Session} {p : Participant} {side : Side} (hs : Reached s)
      (h : s.join p = .ok (side, s')) : Reached s'
  | submit {s s' : Session} {id : Uuid} {side : Side} {source target : Coord}
      {timestamp : UInt64} {a : Accepted} (hs : Reached s)
      (h : s.submit id side source target timestamp = .ok (a, s')) : Reached s'
  | receive {s s' : Session} {m : Move} {new : Bool} (hs : Reached s)
      (h : s.receive m = .ok (new, s')) : Reached s'
  | resign {s s' : Session} {side : Side} {e : Ending} (hs : Reached s)
      (h : s.resign side = .ok (e, s')) : Reached s'
  | timeOut {s s' : Session} {side : Side} {e : Ending} (hs : Reached s)
      (h : s.timeOut side = .ok (e, s')) : Reached s'

theorem log_ofFen {id : Uuid} {text : String} {v : Option Variant} {seats : Seats} {s : Session}
    (h : ofFen id text v seats = .ok s) : s.log = .empty := by
  unfold ofFen at h
  split at h
  case h_1 => simp at h
  case h_2 => split at h <;> rw [← Except.ok.inj h] <;> rfl

theorem frame_join {s s' : Session} {p : Participant} {side : Side} (h : s.join p = .ok (side, s')) :
    s' = { s with seats := s'.seats } := by
  unfold join at h
  split at h
  case h_1 => rw [← (Prod.mk.inj (Except.ok.inj h)).2]
  case h_2 => simp at h

theorem declare_eq_ok {s s' : Session} {e e' : Ending} :
    s.declare e = .ok (e', s') ↔
      ∃ st, s.standing = .ok st ∧ st.phase.isComplete = false ∧ e' = e ∧
        s' = { s with resolution := some e } := by
  simp only [declare, bind_eq_ok, liftFault_eq_ok]
  apply exists_congr
  intro st
  apply and_congr_right
  intro _
  cases st.phase <;> simp [refuse, Phase.isComplete, pure, Except.pure, eq_comm]

theorem frame_declare {s s' : Session} {e e' : Ending} (h : s.declare e = .ok (e', s')) :
    s' = { s with resolution := s'.resolution } := by
  obtain ⟨-, -, -, -, rfl⟩ := declare_eq_ok.mp h
  rfl

theorem Reached.isCanonical {s : Session} (hs : Reached s) : Move.IsCanonical s.log.moves := by
  induction hs with
  | create => exact .nil
  | host => exact .nil
  | ofFen h => rw [log_ofFen h]; exact .nil
  | rematch => exact .nil
  | agree _ _ ih => exact ih
  | join _ h ih => rwa [frame_join h]
  | submit _ h ih =>
    obtain ⟨-, -, -, -, -, -, -, -, -, -, -, rfl⟩ := submit_eq_ok.mp h
    exact MoveLog.isCanonical_insert ih _
  | receive _ h ih =>
    obtain ⟨-, -, rfl⟩ := receive_eq_ok.mp h
    exact MoveLog.isCanonical_insert ih _
  | resign _ h ih => rwa [frame_declare h]
  | timeOut _ h ih => rwa [frame_declare h]

def opener : Move := ⟨.numbered 4, ⟨6, 4⟩, ⟨5, 4⟩, .white, .pawn, none, 100⟩

def begun : Session := (friendly .standard).logged opener

theorem log_begun : begun.log.moves = [opener] :=
  congrArg MoveLog.moves (MoveLog.insert_empty _)

theorem replayed_begun : begun.replayed =
    ((Course.start .standard {} (.initial .standard)).play .standard {} opener).map
      (Course.standing .standard) :=
  replayed_logged_of_log_empty rfl opener

theorem reached_begun : begun.Reached :=
  .receive (.create _ _ _ _) (receive_eq_ok.mpr ⟨⟨_, rfl⟩, rfl, rfl⟩)

end WereraChess.Session
