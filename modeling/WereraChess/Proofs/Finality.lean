import WereraChess.Proofs.Announcements
/-!
# Declared ends are final

Once a player has resigned or run out of time, no call of a session takes the end of the game back.
The log goes on growing by the records that are received, and nothing else is accepted. What they
lead to counts for more than the declaration only if it ends the game by itself.
-/
namespace WereraChess

/-- A call of a session, whatever comes of it. -/
inductive Session.Call where
  | join (p : Participant)
  | submit (id : Uuid) (side : Side) (source target : Coord) (timestamp : UInt64)
  | receive (m : Move)
  | resign (side : Side)
  | timeOut (side : Side)

def Session.Call.record? : Call → Option Move
  | .receive m => some m
  | _ => none

namespace Session

/-- The records that are received in a row of calls. -/
def records (calls : List Call) : List Move := calls.filterMap Call.record?

variable {s t : Session} {e x : Ending} {side : Side}

/-- The session that a call leaves. One that fails leaves the session as it was. -/
def kept {ε α : Type} (s : Session) : Except ε (α × Session) → Session
  | .ok (_, s') => s'
  | .error _ => s

def call (s : Session) : Call → Session
  | .join p => s.kept (s.join p)
  | .submit id side source target timestamp => s.kept (s.submit id side source target timestamp)
  | .receive m => s.kept (s.receive m)
  | .resign side => s.kept (s.resign side)
  | .timeOut side => s.kept (s.timeOut side)

def callAll (s : Session) (calls : List Call) : Session := calls.foldl call s

/-- The game has ended with `e`, and whatever a player tries is refused. -/
structure Finished (s : Session) (e : Ending) : Prop where
  standing : ∃ st, s.standing = .ok st ∧ st.phase = .complete e.reason ∧ st.ending = some e
  submit : ∀ id side source target timestamp,
    ∃ r, s.submit id side source target timestamp = .error (.refused r)
  resign : ∀ side, ∃ r, s.resign side = .error (.refused r)
  timeOut : ∀ side, ∃ r, s.timeOut side = .error (.refused r)

private theorem finished_of_standing {st : Standing} (hst : s.standing = .ok st)
    (hphase : st.phase = .complete e.reason) (hending : st.ending = some e) : s.Finished e := by
  have hcomplete : st.phase.isComplete = true := by rw [hphase]; rfl
  refine ⟨⟨st, hst, hphase, hending⟩, ?_, ?_, ?_⟩
  · intro id side source target timestamp
    refine submit_eq_refused hst (.inl ⟨.gameOver e.reason, ?_⟩)
    rw [hphase]
    rfl
  · exact fun side => declare_of_isComplete hst hcomplete
  · exact fun side => declare_of_isComplete hst hcomplete

theorem submit_ne_ok_of_resolution (ho : s.opening.phase = .werera ∨ s.opening.phase = .normal)
    (hs : s.resolution = some e) {id : Uuid} {source target : Coord} {timestamp : UInt64}
    {a : Accepted × Session} : s.submit id side source target timestamp ≠ .ok a := by
  intro h
  obtain ⟨-, st, -, -, -, hst, -⟩ := submit_eq_ok.mp h
  have hnone := resolution_of_live ho hst (live_of_submit hst h)
  simp [hs] at hnone

private theorem declare_ne_ok_of_resolution
    (ho : s.opening.phase = .werera ∨ s.opening.phase = .normal) (hs : s.resolution = some e)
    {a : Ending × Session} : s.declare x ≠ .ok a := by
  intro h
  obtain ⟨st, hst, hlive, -⟩ := declare_eq_ok.mp h
  have hnone := resolution_of_live ho hst hlive
  simp [hs] at hnone

private theorem records_cons_none {c : Call} {calls : List Call} (h : c.record? = none) :
    records (c :: calls) = records calls :=
  List.filterMap_cons_none h

private theorem records_cons_some {c : Call} {calls : List Call} {m : Move}
    (h : c.record? = some m) : records (c :: calls) = m :: records calls :=
  List.filterMap_cons_some h

private theorem kept_of_ne_ok {ε α : Type} {r : Except ε (α × Session)} (h : ∀ a, r ≠ .ok a) :
    s.kept r = s := by
  cases r with
  | error e => rfl
  | ok a => exact absurd rfl (h a)

/-- In a game that is resolved, a call fills a seat or adds the record that is received. -/
theorem call_of_resolution (ho : s.opening.phase = .werera ∨ s.opening.phase = .normal)
    (hs : s.resolution = some e) {c : Call} (hc : ∀ m, c.record? = some m → m.OnBoard) :
    ∃ seats, s.call c = { s with seats, log := c.record?.elim s.log s.log.insert } := by
  cases c with
  | join p =>
    rw [call]
    cases h : s.join p with
    | error r => exact ⟨s.seats, rfl⟩
    | ok a => exact ⟨a.2.seats, frame_join h⟩
  | submit id side source target timestamp =>
    rw [call, kept_of_ne_ok fun _ => submit_ne_ok_of_resolution ho hs]
    exact ⟨s.seats, rfl⟩
  | receive m =>
    have h : s.receive m = .ok (_, s.logged m) := receive_eq_ok.mpr ⟨(hc m rfl).text, rfl, rfl⟩
    rw [call, h]
    exact ⟨s.seats, rfl⟩
  | resign side =>
    rw [call, resign, kept_of_ne_ok fun _ => declare_ne_ok_of_resolution ho hs]
    exact ⟨s.seats, rfl⟩
  | timeOut side =>
    rw [call, timeOut, kept_of_ne_ok fun _ => declare_ne_ok_of_resolution ho hs]
    exact ⟨s.seats, rfl⟩

theorem callAll_of_resolution (ho : s.opening.phase = .werera ∨ s.opening.phase = .normal)
    (hs : s.resolution = some e) {calls : List Call} (hcalls : ∀ m ∈ records calls, m.OnBoard) :
    ∃ seats, s.callAll calls = { s with
      seats, log := (records calls).foldl MoveLog.insert s.log } := by
  induction calls generalizing s with
  | nil => exact ⟨s.seats, rfl⟩
  | cons c calls ih =>
    have hc (m : Move) (hm : c.record? = some m) : m.OnBoard :=
      hcalls m (List.mem_filterMap.mpr ⟨c, List.mem_cons_self, hm⟩)
    have hrest (m : Move) (hm : m ∈ records calls) : m.OnBoard := by
      obtain ⟨d, hd, hm⟩ := List.mem_filterMap.mp hm
      exact hcalls m (List.mem_filterMap.mpr ⟨d, List.mem_cons_of_mem c hd, hm⟩)
    obtain ⟨seats, hcall⟩ := call_of_resolution ho hs hc
    obtain ⟨seats', hrun⟩ := ih (s := s.call c) (by rwa [hcall]) (by rwa [hcall]) hrest
    refine ⟨seats', hrun.trans ?_⟩
    rw [hcall]
    cases hrecord : c.record? with
    | none => rw [records_cons_none hrecord]; rfl
    | some m => rw [records_cons_some hrecord]; rfl

private theorem exists_finished_of_replayed
    (ho : s.opening.phase = .werera ∨ s.opening.phase = .normal) (hs : s.resolution = some e)
    {r : Standing} (hr : s.replayed = .ok r) :
    ∃ x, s.Finished x ∧ (r.phase.isComplete = false → x = e) ∧
      (r.phase.isComplete = true → r.ending = some x) := by
  have hst := standing_of_replayed hr
  rw [hs] at hst
  obtain ⟨c, hrun, rfl⟩ := replayed_eq_ok.mp hr
  have hsettled := Course.settled_run ho hrun
  cases hphase : c.progress.phase with
  | complete reason =>
    obtain ⟨x, hx, rfl, -⟩ := hsettled.ended reason hphase
    have hending : (c.standing s.variant).ending.isSome = true := by
      change c.progress.ending.isSome = true
      rw [hx]
      rfl
    rw [elim_declare_of_ending hending] at hst
    refine ⟨x, finished_of_standing hst hphase hx, ?_, fun _ => hx⟩
    simp [Course.standing, hphase, Phase.isComplete]
  | werera | normal =>
    have hlive : (c.standing s.variant).phase.isComplete = false := by
      change c.progress.phase.isComplete = false
      rw [hphase]
      rfl
    have hending : (c.standing s.variant).ending = none := (hsettled.live hlive).1
    refine ⟨e, ?_, fun _ => rfl, by simp [hlive]⟩
    apply finished_of_standing hst <;> simp [Standing.declare, hending]

private theorem declared_of_ok (h : s.resign side = .ok (e, t) ∨ s.timeOut side = .ok (e, t)) :
    ∃ st, s.standing = .ok st ∧ st.phase.isComplete = false ∧
      t = { s with resolution := some e } := by
  rcases h with h | h
  · obtain ⟨st, hst, hlive, rfl, ht⟩ := declare_eq_ok.mp h
    exact ⟨st, hst, hlive, ht⟩
  · obtain ⟨st, hst, hlive, rfl, ht⟩ := declare_eq_ok.mp h
    exact ⟨st, hst, hlive, ht⟩

/-- A resignation or a timeout ends the game for good. Records are received after it as before, and
nothing else goes into the log. The game ends as was declared unless the log ends it by itself. -/
theorem declared_final (hs : s.Reached)
    (h : s.resign side = .ok (e, t) ∨ s.timeOut side = .ok (e, t)) (calls : List Call)
    (hcalls : ∀ m ∈ records calls, m.OnBoard) :
    (t.callAll calls).log = (records calls).foldl MoveLog.insert s.log ∧
    ((∃ r x, replay s.variant s.rules s.opening (t.callAll calls).log.moves = .ok r ∧
        (t.callAll calls).Finished x ∧
        (r.phase.isComplete = false → x = e) ∧ (r.phase.isComplete = true → r.ending = some x)) ∨
      (t.callAll calls).standing = .error .counterFull ∧
        UInt32.size ≤ s.opening.moveCount.toNat + (t.callAll calls).log.moves.length) := by
  have ho := hs.sound.inPlay
  obtain ⟨st, hst, hlive, rfl⟩ := declared_of_ok h
  obtain ⟨seats, hfinal⟩ :=
    callAll_of_resolution (s := { s with resolution := some e }) ho rfl hcalls
  rw [hfinal]
  refine ⟨rfl, ?_⟩
  rcases replayed_logAll hst hlive hcalls with ⟨r, hr⟩ | ⟨hr, hfull⟩
  · obtain ⟨x, hx⟩ := exists_finished_of_replayed
      (s := { s.logAll (records calls) with seats, resolution := some e }) ho rfl hr
    exact .inl ⟨r, x, hr, hx⟩
  · exact .inr ⟨bind_eq_error.mpr (.inl hr), hfull⟩

/-- A record by which White's rook takes Black's king. -/
def regicide : Move := ⟨.numbered 5, ⟨7, 0⟩, ⟨0, 4⟩, .white, .rook, some .king, 200⟩

/-- White resigns, and either the resignation stands or a record takes Black's king. -/
theorem declared_final_friendly :
    ∃ t, (friendly .standard).resign .white = .ok (.resignation .white, t) ∧
      (t.callAll [.receive opener, .timeOut .black]).log = ⟨[opener]⟩ ∧
      (t.callAll [.receive opener, .timeOut .black]).Finished (.resignation .white) ∧
      (t.callAll [.receive opener, .receive regicide]).Finished ⟨.kingCaptured, some .white⟩ := by
  let t : Session := { friendly .standard with resolution := some (.resignation .white) }
  have hresign : (friendly .standard).resign .white = .ok (.resignation .white, t) :=
    declare_eq_ok.mpr ⟨_, standing_of_log_empty rfl rfl, by decide +kernel, rfl, rfl⟩
  have hcanonical : Move.IsCanonical [opener, regicide] :=
    .concat (.singleton opener) (by decide) (by decide)
  have hone : (replay .standard {} (.initial .standard) [opener]).toOption.map
      (fun r => r.phase.isComplete) = some false := by
    rw [replay_of_isCanonical _ _ _ (.singleton _)]
    decide +kernel
  have htwo : (replay .standard {} (.initial .standard) [opener, regicide]).toOption.map
      (fun r => (r.phase.isComplete, r.ending)) =
        some (true, some ⟨.kingCaptured, some .white⟩) := by
    rw [replay_of_isCanonical _ _ _ hcanonical]
    decide +kernel
  obtain ⟨hlog, hend⟩ := declared_final (.create _ _ _ _) (.inl hresign)
    [.receive opener, .timeOut .black] (by decide)
  obtain ⟨hlog', hend'⟩ := declared_final (.create _ _ _ _) (.inl hresign)
    [.receive opener, .receive regicide] (by decide)
  have hopener := hlog.trans (MoveLog.insert_empty opener)
  have hregicide : (t.callAll [.receive opener, .receive regicide]).log.moves =
      [opener, regicide] := by
    rw [hlog']
    change ((MoveLog.empty.insert opener).insert regicide).moves = _
    rw [MoveLog.insert_empty]
    exact MoveLog.moves_insert_last (.singleton opener) rfl (by decide)
  rw [hopener] at hend
  rw [hregicide] at hend'
  refine ⟨t, hresign, hopener, ?_, ?_⟩
  · rcases hend with ⟨r, x, hr, hfinished, hlive, -⟩ | ⟨-, hfull⟩
    · change replay .standard {} (.initial .standard) [opener] = .ok r at hr
      rw [hr] at hone
      rwa [← hlive (Option.some.inj hone)]
    · exact absurd hfull (by decide)
  · rcases hend' with ⟨r, x, hr, hfinished, -, hover⟩ | ⟨-, hfull⟩
    · change replay .standard {} (.initial .standard) [opener, regicide] = .ok r at hr
      rw [hr] at htwo
      obtain ⟨hcomplete, hending⟩ := Prod.mk.inj (Option.some.inj htwo)
      obtain rfl := Option.some.inj ((hover hcomplete).symm.trans hending)
      exact hfinished
    · exact absurd hfull (by decide)

end Session
end WereraChess
