import WereraChess.Proofs.Attack
import WereraChess.Proofs.Finality
import WereraChess.Proofs.LinearPlay
/-!
# Suppressed repetitions

A peer drops a submission that repeats its last accepted one. In a game of alternating moves that
loses nothing: the last move of a side has left its source, and until the side moves again only its
opponent moves. So the source holds no piece of the side, and the session would refuse the move.
-/
namespace WereraChess

namespace Course

variable {v : Variant} {rules : HouseRules} {c c' : Course} {m : Move}

private theorem ownerAt_play_isLegal (hphase : c.progress.phase = .normal)
    (hlegal : m.IsLegal v c.board) (hplay : c.play v rules m = .ok c') :
    ∃ s t, m.source.square? = some s ∧ s ≠ t ∧ ∀ u, c'.board.ownerAt u =
      if u = t then some m.mover else if u = s then none else c.board.ownerAt u := by
  obtain ⟨s, t, r, d, hs, ht, hr, hd, rfl⟩ := exists_advance_of_isLegal hphase hlegal hplay
  obtain ⟨s', t', p, hs', ht', hp, howner, hreach, -⟩ := hlegal
  obtain rfl := Option.some.inj (hs.symm.trans hs')
  obtain rfl := Option.some.inj (ht.symm.trans ht')
  have hne : s ≠ t := Board.ne_of_ownerAt_ne hp (Board.ownerAt_of_mem_reach hp hreach)
  have hboard : (d.settle v rules m.mover.opponent).board = c.board.after s t := by
    rw [Board.after, hr]
    exact (advance_eq_ok hd).1
  refine ⟨s, t, hs, hne, fun u => ?_⟩
  rw [hboard, Board.ownerAt, Board.get_after hp]
  split
  case isTrue => simp [howner]
  case isFalse => split <;> rfl

end Course

private theorem Line.ownerAt_source {v : Variant} {rules : HouseRules} {o : Opening}
    {pre post : List Move} {m : Move} {c : Course} {s : Square}
    (h : Line v rules o (pre ++ m :: post) c) (hs : m.source.square? = some s)
    (hpost : ∀ n ∈ post, n.mover ≠ m.mover) :
    c.board.ownerAt s ≠ some m.mover := by
  generalize heq : pre ++ m :: post = ns at h
  induction h generalizing post with
  | start => simp at heq
  | @move ms c c' n h hphase _ hlegal _ _ hplay ih =>
    obtain ⟨s', t, hs', hne, howner⟩ := Course.ownerAt_play_isLegal hphase hlegal hplay
    -- The last move is the side's own, or one of the opponent, which brings no piece of the side.
    rcases post.eq_nil_or_concat with rfl | ⟨post, n', rfl⟩
    · obtain ⟨-, hlast⟩ := List.append_inj' heq rfl
      obtain rfl := List.singleton_inj.mp hlast
      obtain rfl := Option.some.inj (hs.symm.trans hs')
      simp [howner, hne]
    · rw [List.concat_eq_append, ← List.cons_append, ← List.append_assoc] at heq
      obtain ⟨hcut, hlast⟩ := List.append_inj' heq rfl
      obtain rfl := List.singleton_inj.mp hlast
      rw [List.concat_eq_append, List.forall_mem_append] at hpost
      have hbefore := ih hpost.1 hcut
      have hother : n'.mover ≠ m.mover := hpost.2 n' List.mem_cons_self
      rw [howner]
      split
      case isTrue => simpa using hother
      case isFalse =>
        split
        case isTrue => simp
        case isFalse => exact hbefore

private theorem Session.submit_of_ownerAt_ne {s : Session} {st : Standing} {id : Uuid} {side : Side}
    {source target : Coord} {timestamp : UInt64} {origin : Square} (hst : s.standing = .ok st)
    (hs : source.square? = some origin) (howner : st.board.ownerAt origin ≠ some side) :
    ∃ r, s.submit id side source target timestamp = .error (.refused r) := by
  have hlift : (liftM source.onBoard : Except Failure Square) = .ok origin :=
    liftFault_eq_ok.mpr (Coord.onBoard_eq_ok.mpr hs)
  apply submit_eq_refused hst
  right
  simp only [checkMovement, hlift, bind, Except.bind]
  cases hp : st.board.get origin with
  | none => exact ⟨_, rfl⟩
  | some p =>
    have hne : p.owner ≠ side := fun heq => howner (Board.ownerAt_eq_some.mpr ⟨p, hp, heq⟩)
    simp only [ne_eq, hne, not_false_eq_true, if_true]
    exact ⟨_, rfl⟩

/-- The last click of a peer is the last move of its side in its log. -/
def Replica.Remembers (side : Side) (r : Replica) : Prop :=
  ∀ click, r.peer.last = some click → ∃ pre m post, r.log.moves = pre ++ m :: post ∧
    m.source = click.source ∧ m.mover = side ∧ ∀ n ∈ post, n.mover ≠ side

private theorem Peer.exists_click_of_drop {p p' : Peer} {id : Uuid} {source target : Coord}
    {timestamp : UInt64} (h : p.submit id source target timestamp = .ok (none, p')) :
    ∃ click, p.last = some click ∧ click.source = source := by
  dsimp only [submit] at h
  split at h
  case isTrue hrepeat =>
    obtain ⟨click, hclick, hrepeat⟩ := (Option.any_eq_true _ _).mp hrepeat
    simp only [Click.repeats, Bool.and_eq_true, decide_eq_true_eq] at hrepeat
    exact ⟨click, hclick, hrepeat.1.1⟩
  case isFalse =>
    obtain ⟨⟨a, s'⟩, -, h⟩ := bind_eq_ok.mp h
    simp [pure, Except.pure] at h

/-- The submission of a peer that drops nothing. -/
def Peer.submitAlways (p : Peer) (id : Uuid) (source target : Coord) (timestamp : UInt64) :
    Except Failure (Option Move × Peer) := do
  let (accepted, session) ← p.session.submit id p.side source target timestamp
  return (some accepted.move, { p with session, last := some ⟨source, target, timestamp⟩ })

private theorem Peer.submit_eq (p : Peer) (id : Uuid) (source target : Coord) (timestamp : UInt64) :
    p.submit id source target timestamp =
      if (p.last.any fun last =>
        Click.repeats p.session.rules.dedupWindow last ⟨source, target, timestamp⟩) = true
      then .ok (none, p) else p.submitAlways id source target timestamp := by
  dsimp only [submit, submitAlways]
  split <;> rfl

namespace Duel

variable {s : Session} {d d' : Duel}

private theorem remembers_ofSession (s : Session) (side : Side) :
    (ofSession s side).Remembers side := by
  intro click h
  simp [ofSession, Peer.ofSession] at h

private theorem Linear.remembers_publish (h : Linear s d) (hc : Consistent s d)
    (ho : s.opening.phase = .normal) (hnone : s.resolution = none) {side : Side} {id : Uuid}
    {source target : Coord} {timestamp : UInt64} {m : Move} {p : Peer} (hid : d.Fresh id)
    (hp : (d side).peer.submit id source target timestamp = .ok (some m, p)) :
    ((d side).publish p m).Remembers side := by
  obtain ⟨ms, c, hlog, hline⟩ := h.exists_line side
  obtain ⟨-, hmover, hnext, -⟩ := hc.submit_line hline ho hlog hnone hid hp
  obtain ⟨-, a, s', hs, rfl, rfl⟩ := Peer.submit_eq_some.mp hp
  obtain ⟨-, _, _, _, _, -, -, -, -, -, rfl, -⟩ := Session.submit_eq_ok.mp hs
  intro click hclick
  obtain rfl := Option.some.inj hclick
  exact ⟨ms, _, [], congrArg MoveLog.moves hnext, rfl, hmover, nofun⟩

private theorem Linear.remembers_receive (h : Linear s d) (hc : Consistent s d) {side sender : Side}
    {m : Move} {new : Bool} {p : Peer} (hm : m ∈ (d sender).published)
    (hp : (d side).peer.receive m = .ok (new, p)) (hside : (d side).Remembers side) :
    ((d side).receive p m).Remembers side := by
  intro click hclick
  have hlast : p.last = (d side).peer.last := by
    obtain ⟨-, -, rfl⟩ := Peer.receive_eq_ok.mp hp
    rfl
  obtain ⟨pre, n, post, hlog, hsource, hmover, hpost⟩ := hside click (hlast ▸ hclick)
  rw [log_receive hp]
  by_cases hknown : m ∈ (d side).log.moves
  · rw [MoveLog.insert_of_contains (MoveLog.contains_iff.mpr ⟨m, hknown, rfl⟩)]
    exact ⟨pre, n, post, hlog, hsource, hmover, hpost⟩
  · obtain ⟨rfl, ms, c, hline, -, hbehind⟩ := h.arrival hc hm hknown
    rw [hbehind] at hlog ⊢
    rw [hline.insert_last]
    have hms : ms = pre ++ n :: post := hlog
    refine ⟨pre, n, post ++ [m], by simp [hms], hsource, hmover, ?_⟩
    rw [List.forall_mem_append, List.forall_mem_singleton]
    exact ⟨hpost, m.mover.opponent_ne.symm⟩

private theorem Linear.remembers_step (h : Linear s d) (hc : Consistent s d)
    (ho : s.opening.phase = .normal) (hnone : s.resolution = none)
    (hd : ∀ side, (d side).Remembers side) (hstep : Step d d') :
    ∀ side, (d' side).Remembers side := by
  cases hstep with
  | publish hid hp => exact forall_update hd (h.remembers_publish hc ho hnone hid hp)
  | drop hp => rwa [update_drop hp]
  | fail => exact hd
  | receive hm hp => exact forall_update hd (h.remembers_receive hc hm hp (hd _))

theorem remembers_of_run (ho : s.opening.phase = .normal) (hlog : s.log = .empty)
    (hnone : s.resolution = none) (hd : Run (ofSession s) d) :
    ∀ side, (d side).Remembers side := by
  induction hd with
  | refl => exact remembers_ofSession s
  | tail hd hstep ih =>
    exact (linear_of_run ho hlog hnone hd).remembers_step (consistent_of_empty hlog hd) ho hnone ih
      hstep

private theorem Consistent.last_step {e : Ending} (hc : Consistent s d)
    (ho : s.opening.phase = .normal) (hs : s.resolution = some e)
    (hd : ∀ side, (d side).peer.last = none) (hstep : Step d d') :
    ∀ side, (d' side).peer.last = none := by
  cases hstep with
  | @publish side _ _ _ _ _ _ _ hp =>
    obtain ⟨-, a, s', hsubmit, -⟩ := Peer.submit_eq_some.mp hp
    rw [(hc.sound side).frame] at hsubmit
    exact (Session.submit_ne_ok_of_resolution (s := { s with log := (d side).log }) (.inr ho) hs
      hsubmit).elim
  | drop hp => rwa [update_drop hp]
  | fail => exact hd
  | @receive side _ _ _ _ _ hp =>
    obtain ⟨-, -, rfl⟩ := Peer.receive_eq_ok.mp hp
    exact forall_update (P := fun _ r => r.peer.last = none) hd (hd side)

theorem last_of_run {e : Ending} (ho : s.opening.phase = .normal) (hlog : s.log = .empty)
    (hs : s.resolution = some e) (hd : Run (ofSession s) d) :
    ∀ side, (d side).peer.last = none := by
  induction hd with
  | refl => exact fun _ => rfl
  | tail hd hstep ih => exact (consistent_of_empty hlog hd).last_step ho hs ih hstep

/-- What is dropped would have been refused. -/
theorem refused_of_drop (ho : s.opening.phase = .normal) (hlog : s.log = .empty)
    (hd : Run (ofSession s) d) {side : Side} {id : Uuid} {source target : Coord}
    {timestamp : UInt64} {p : Peer}
    (hp : (d side).peer.submit id source target timestamp = .ok (none, p)) :
    ∃ r, (d side).peer.session.submit id side source target timestamp = .error (.refused r) := by
  obtain ⟨click, hclick, rfl⟩ := Peer.exists_click_of_drop hp
  cases hnone : s.resolution with
  | some e => simp [last_of_run ho hlog hnone hd] at hclick
  | none =>
    obtain ⟨ms, c, hms, hline⟩ := (linear_of_run ho hlog hnone hd).exists_line side
    obtain ⟨pre, m, post, hsplit, hsource, hmover, hpost⟩ :=
      remembers_of_run ho hlog hnone hd side click hclick
    rw [((consistent_of_empty hlog hd).sound side).frame, hms]
    obtain rfl : ms = pre ++ m :: post := by rw [← hsplit, hms]
    obtain ⟨before, -, -, -, hlegal, -⟩ := hline.of_append
    obtain ⟨origin, goal, p, horigin, -⟩ := hlegal
    have hst := Session.standing_of_line (s := { s with log := ⟨pre ++ m :: post⟩ }) hline rfl hnone
    apply Session.submit_of_ownerAt_ne hst (hsource ▸ horigin)
    exact hmover ▸ hline.ownerAt_source horigin (hmover ▸ hpost)

/-- A submission under a new identifier, or the delivery of a record. -/
inductive Event where
  | submit (side : Side) (id : Uuid) (source target : Coord) (timestamp : UInt64)
  | receive (side : Side) (m : Move)

/-- Identifiers are minted afresh, and only published records are delivered. -/
def Event.Possible (d : Duel) : Event → Prop
  | .submit _ id _ _ _ => d.Fresh id
  | .receive _ m => ∃ sender, m ∈ (d sender).published

/-- What an event makes of two peers that submit in the given way. -/
def happen (submit : Peer → Uuid → Coord → Coord → UInt64 → Except Failure (Option Move × Peer))
    (d : Duel) : Event → Duel
  | .submit side id source target timestamp =>
    match submit (d side).peer id source target timestamp with
    | .ok (some m, p) => Function.update d side ((d side).publish p m)
    | .ok (none, p) => Function.update d side { d side with peer := p }
    | .error _ => d
  | .receive side m =>
    match (d side).peer.receive m with
    | .ok (_, p) => Function.update d side ((d side).receive p m)
    | .error _ => d

private theorem happen_publish {side : Side} {id : Uuid} {source target : Coord}
    {timestamp : UInt64} {m : Move} {p : Peer}
    (h : (d side).peer.submit id source target timestamp = .ok (some m, p)) :
    d.happen Peer.submit (.submit side id source target timestamp) =
      Function.update d side ((d side).publish p m) := by
  rw [happen, h]

private theorem happen_drop {side : Side} {id : Uuid} {source target : Coord} {timestamp : UInt64}
    {p : Peer} (h : (d side).peer.submit id source target timestamp = .ok (none, p)) :
    d.happen Peer.submit (.submit side id source target timestamp) = d := by
  rw [happen, h]
  exact update_drop h

/-- Each event is possible when it happens. -/
def Plays (d : Duel) : List Event → Prop
  | [] => True
  | e :: es => e.Possible d ∧ (d.happen Peer.submit e).Plays es

theorem run_happen {e : Event} (he : e.Possible d) : Run d (d.happen Peer.submit e) := by
  cases e with
  | submit side id source target timestamp =>
    rw [happen]
    split
    case h_1 h => exact .single (.publish he h)
    case h_2 h => exact .single (.drop h)
    case h_3 h => exact .refl
  | receive side m =>
    obtain ⟨sender, hm⟩ := he
    rw [happen]
    split
    case h_1 h => exact .single (.receive hm h)
    case h_2 => exact .refl

/-- Nothing changes if nothing is dropped. -/
theorem happen_submitAlways (ho : s.opening.phase = .normal) (hlog : s.log = .empty)
    (hd : Run (ofSession s) d) (e : Event) :
    d.happen Peer.submitAlways e = d.happen Peer.submit e := by
  cases e with
  | receive => rfl
  | submit side id source target timestamp =>
    have hside := ((consistent_of_empty hlog hd).sound side).side
    have hsubmit := (d side).peer.submit_eq id source target timestamp
    split at hsubmit
    case isFalse => rw [happen, happen, hsubmit]
    case isTrue =>
      obtain ⟨r, hr⟩ := refused_of_drop ho hlog hd hsubmit
      have halways : (d side).peer.submitAlways id source target timestamp =
          .error (.refused r) := by
        rw [Peer.submitAlways, hside, hr]
        rfl
      rw [happen_drop hsubmit, happen, halways]

private theorem foldl_submitAlways (ho : s.opening.phase = .normal) (hlog : s.log = .empty)
    (hd : Run (ofSession s) d) {es : List Event} (hes : d.Plays es) :
    Run (ofSession s) (es.foldl (happen Peer.submit) d) ∧
      es.foldl (happen Peer.submitAlways) d = es.foldl (happen Peer.submit) d := by
  induction es generalizing d with
  | nil => exact ⟨hd, rfl⟩
  | cons e es ih =>
    obtain ⟨he, hes⟩ := hes
    rw [List.foldl_cons, List.foldl_cons, happen_submitAlways ho hlog hd]
    exact ih (hd.trans (run_happen he)) hes

/-- Two peers that begin a game of alternating moves without records drop only what would have been
refused. So they keep the logs that they would have if they dropped nothing. -/
theorem dropped_refused (ho : s.opening.phase = .normal) (hlog : s.log = .empty) :
    (∀ d, Run (ofSession s) d → ∀ side id source target timestamp p,
      (d side).peer.submit id source target timestamp = .ok (none, p) → p = (d side).peer ∧
        ∃ r, (d side).peer.session.submit id side source target timestamp =
          .error (.refused r)) ∧
    ∀ es, (ofSession s).Plays es → Run (ofSession s) (es.foldl (happen Peer.submit) (ofSession s)) ∧
      es.foldl (happen Peer.submitAlways) (ofSession s) =
        es.foldl (happen Peer.submit) (ofSession s) := by
  constructor
  · intro d hd side id source target timestamp p hp
    exact ⟨Peer.submit_eq_none hp, refused_of_drop ho hlog hd hp⟩
  · intro es hes
    exact foldl_submitAlways ho hlog .refl hes

def doubleClick : List Event :=
  [.submit .white (.numbered 4) ⟨6, 4⟩ ⟨5, 4⟩ 100, .submit .white (.numbered 5) ⟨6, 4⟩ ⟨5, 4⟩ 50]

theorem dropped_refused_doubleClick :
    ∃ d p m, Run (ofSession (.friendly .standard)) d ∧ (d .white).log = ⟨[m]⟩ ∧
      (d .white).peer.submit (.numbered 5) ⟨6, 4⟩ ⟨5, 4⟩ 50 = .ok (none, p) ∧
      (∃ r, (d .white).peer.session.submit (.numbered 5) .white ⟨6, 4⟩ ⟨5, 4⟩ 50 =
        .error (.refused r)) ∧
      doubleClick.foldl (happen Peer.submitAlways) (ofSession (.friendly .standard)) = d := by
  have hpermit : (Course.start .standard {} (.initial .standard)).progress.permit .white =
      .ok () := by
    rw [Progress.permit_eq_ok]
    right
    decide +kernel
  obtain ⟨m, p, hp⟩ := Peer.friendly_submit (p := .fresh .pawn .white) (.numbered 4)
    ⟨6, 4⟩ ⟨5, 4⟩ 100 hpermit (by decide +kernel) rfl (by decide +kernel) (by decide +kernel)
  obtain ⟨-, hsession, hid, -⟩ := Peer.submit_accepted hp
  obtain ⟨-, a, s', -, -, hpeer⟩ := Peer.submit_eq_some.mp hp
  let d : Duel := Function.update (ofSession (.friendly .standard)) .white
    ((ofSession (.friendly .standard) .white).publish p m)
  have hfirst : (ofSession (.friendly .standard)).happen Peer.submit
      (.submit .white (.numbered 4) ⟨6, 4⟩ ⟨5, 4⟩ 100) = d := happen_publish hp
  have hlog : (d .white).log = ⟨[m]⟩ :=
    (congrArg Session.log hsession).trans (MoveLog.insert_empty m)
  have hfresh : d.Fresh (.numbered 5) := by
    intro side
    cases side with
    | white =>
      rw [hlog, MoveLog.contains_eq_false_iff, List.forall_mem_singleton, hid]
      decide
    | black => rfl
  have hdrop : (d .white).peer.submit (.numbered 5) ⟨6, 4⟩ ⟨5, 4⟩ 50 = .ok (none, p) := by
    change p.submit (.numbered 5) ⟨6, 4⟩ ⟨5, 4⟩ 50 = .ok (none, p)
    rw [Peer.submit_eq, if_pos]
    rw [hsession, hpeer]
    rfl
  have hrun : doubleClick.foldl (happen Peer.submit) (ofSession (.friendly .standard)) = d := by
    rw [doubleClick, List.foldl_cons, hfirst]
    exact happen_drop hdrop
  have hplays : (ofSession (.friendly .standard)).Plays doubleClick :=
    ⟨fresh_ofSession rfl _, by rw [hfirst]; exact hfresh, trivial⟩
  obtain ⟨hrefused, hsame⟩ := dropped_refused (s := .friendly .standard) rfl rfl
  obtain ⟨hd, heq⟩ := hsame doubleClick hplays
  rw [hrun] at hd heq
  obtain ⟨-, hr⟩ := hrefused d hd .white _ _ _ _ p hdrop
  exact ⟨d, p, m, hd, hlog, hdrop, hr, heq⟩

end Duel

end WereraChess
