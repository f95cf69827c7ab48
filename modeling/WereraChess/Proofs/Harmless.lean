import WereraChess.Json.Document
import WereraChess.Json.Records
import WereraChess.Proofs.Delivery
/-!
# Harmless messages

A message that was read from text holds any pairs of bytes for its squares and any counter for its
opening. One whose squares are on the board and whose counter has room leaves every game with a
standing. Of the others those do no harm that the replay does not come to: a move that comes after
the end of its game, or of a game that the lobby does not know.
-/
namespace WereraChess

namespace MoveLog

private theorem take_slot_eq_filter {moves : List Move} {key : Key}
    (hs : moves.Pairwise fun a b => a.key.lt b.key) :
    moves.take (slot moves key) = moves.filter fun a => a.key.lt key := by
  have htake : (moves.take (slot moves key)).filter (fun a => a.key.lt key) =
      moves.take (slot moves key) :=
    List.filter_eq_self.mpr fun a ha => lt_of_mem_take_slot hs ha
  have hdrop : (moves.drop (slot moves key)).filter (fun a => a.key.lt key) = [] := by
    refine List.filter_eq_nil_iff.mpr fun a ha => ?_
    simp [Key.lt, le_of_mem_drop_slot hs ha]
  conv_rhs => rw [← List.take_append_drop (slot moves key) moves]
  rw [List.filter_append, htake, hdrop, List.append_nil]

theorem mem_canonical_insert {log : MoveLog} {m x : Move} (hid : log.contains m.id = false) :
    x ∈ Move.canonical (log.insert m).moves ↔ x = m ∨ x ∈ Move.canonical log.moves := by
  have hfresh := contains_eq_false_iff.mp hid
  rw [Move.mem_canonical, mem_insert hid, Move.mem_canonical]
  constructor
  · rintro ⟨rfl | hx, hleast⟩
    · exact .inl rfl
    · exact .inr ⟨hx, fun n hn => hleast n ((mem_insert hid).mpr (.inr hn))⟩
  · rintro (rfl | ⟨hx, hleast⟩)
    · refine ⟨.inl rfl, fun n hn heq => ?_⟩
      rcases (mem_insert hid).mp hn with rfl | hn
      · exact Key.le_refl _
      · exact absurd heq (hfresh n hn)
    · refine ⟨.inr hx, fun n hn heq => ?_⟩
      rcases (mem_insert hid).mp hn with rfl | hn
      · exact absurd heq.symm (hfresh x hx)
      · exact hleast n hn heq

end MoveLog

namespace Session

variable {s : Session} {m : Move} {n : Nat}

/-- The game up to a record. -/
def before (s : Session) (m : Move) : Session :=
  { s with log := ⟨(Move.canonical s.log.moves).filter fun a => a.key.lt m.key⟩ }

theorem isCanonical_before (s : Session) (m : Move) :
    Move.IsCanonical (s.before m).log.moves := by
  have hcanonical := Move.isCanonical_canonical s.log.moves
  refine ⟨hcanonical.ascending.filter _, ?_⟩
  exact (List.filter_sublist.map Move.id).nodup hcanonical.distinct

private theorem Playable.before (h : s.Playable n) (m : Move) : (s.before m).Playable n := by
  refine ⟨fun a ha => ?_, ?_⟩
  · exact h.onBoard a (Move.mem_canonical.mp (List.mem_of_mem_filter ha)).1
  · have hroom := h.room
    have hlen := Move.canonical_length_le s.log.moves
    have hfilter : (s.before m).log.moves.length ≤ (Move.canonical s.log.moves).length :=
      List.length_filter_le ..
    change s.opening.moveCount.toNat + (s.before m).log.moves.length + n < UInt32.size
    omega

private theorem before_eq_self (hc : Move.IsCanonical s.log.moves)
    (h : ∀ a ∈ s.log.moves, a.key.lt m.key = true) : s.before m = s := by
  have hmoves : (s.before m).log.moves = s.log.moves := by
    change (Move.canonical s.log.moves).filter _ = _
    rw [hc.canonical_eq]
    exact List.filter_eq_self.mpr h
  exact congrArg (fun moves => ({ s with log := ⟨moves⟩ } : Session)) hmoves

theorem canonical_logged (hid : s.log.contains m.id = false) : ∃ late,
    Move.canonical s.log.moves = (s.before m).log.moves ++ late ∧
      Move.canonical (s.logged m).log.moves = (s.before m).log.moves ++ m :: late := by
  have hcanonical := Move.isCanonical_canonical s.log.moves
  let counted : MoveLog := ⟨Move.canonical s.log.moves⟩
  have hid' : counted.contains m.id = false := MoveLog.contains_eq_false_iff.mpr fun a ha =>
    MoveLog.contains_eq_false_iff.mp hid a (Move.mem_canonical.mp ha).1
  have hcut : counted.moves.take (MoveLog.slot counted.moves m.key) = (s.before m).log.moves :=
    MoveLog.take_slot_eq_filter hcanonical.ascending
  refine ⟨counted.moves.drop (MoveLog.slot counted.moves m.key), ?_, ?_⟩
  · rw [← hcut, List.take_append_drop]
  calc Move.canonical (s.log.insert m).moves
    _ = (counted.insert m).moves := by
      apply (Move.isCanonical_canonical _).ext (MoveLog.isCanonical_insert hcanonical m)
      intro x
      exact (MoveLog.mem_canonical_insert hid).trans (MoveLog.mem_insert hid').symm
    _ = counted.moves.take _ ++ m :: counted.moves.drop _ := MoveLog.moves_insert hid'
    _ = _ := by rw [hcut]

/-- A game takes a new record exactly if the record is on the board or comes after its end. -/
theorem standing_logged_iff (hplay : s.Playable 1) (hid : s.log.contains m.id = false) :
    (∃ st, (s.logged m).standing = .ok st) ↔ m.OnBoard ∨ (s.before m).isOver = true := by
  obtain ⟨late, -, hlogged⟩ := canonical_logged hid
  obtain ⟨r, hr⟩ := (hplay.before m).replayed
  have hover := isOver_of_replayed hr
  obtain ⟨d, hd, rfl⟩ := replayed_eq_ok.mp hr
  rw [(s.isCanonical_before m).canonical_eq] at hd
  constructor
  · rintro ⟨st, hst⟩
    obtain ⟨r', hr', -⟩ := standing_eq_ok.mp hst
    obtain ⟨c, hc, -⟩ := replayed_eq_ok.mp hr'
    rw [hlogged, List.foldlM_append] at hc
    obtain ⟨d', hd', hc⟩ := bind_eq_ok.mp hc
    obtain rfl := Except.ok.inj (hd.symm.trans hd')
    rw [List.foldlM_cons] at hc
    obtain ⟨c', hc', -⟩ := bind_eq_ok.mp hc
    cases Course.play_eq_ok_iff.mp hc' with
    | ended h => exact .inr (hover.trans h)
    | blocked _ hs ht => exact .inl ⟨by rw [hs]; rfl, by rw [ht]; rfl⟩
    | applied _ hs ht => exact .inl ⟨by rw [hs]; rfl, by rw [ht]; rfl⟩
  · rintro (hm | h)
    · exact (hplay.logged hm).standing
    · have hcomplete : d.progress.phase.isComplete = true := hover.symm.trans h
      obtain ⟨c, hc⟩ : ∃ c, ((s.before m).log.moves ++ m :: late).foldlM
          (Course.play s.variant s.rules) (Course.start s.variant s.rules s.opening) = .ok c := by
        rw [List.foldlM_append]
        exact ⟨_, bind_eq_ok.mpr ⟨d, hd, Course.run_ended hcomplete (m :: late)⟩⟩
      rw [← hlogged] at hc
      exact ⟨_, standing_of_replayed (replayed_eq_ok.mpr ⟨c, hc, rfl⟩)⟩

end Session

namespace Lobby

variable {l l' : Lobby} {fresh : Uuid} {s t : Session} {m : Message}

private theorem forall_mem_adopt_iff {P : Session → Prop} (hl : ∀ s ∈ l.sessions, P s) :
    (∀ s ∈ (l.adopt t).sessions, P s) ↔ P t := by
  constructor
  · intro h
    exact h t (mem_of_find? (find?_adopt_self (l := l) rfl))
  · intro ht s hs
    have hfind := find?_eq_some_iff.mpr ⟨hs, rfl⟩
    rw [find?_adopt] at hfind
    split at hfind
    case isTrue =>
      rw [← Option.some.inj hfind]
      exact ht
    case isFalse => exact hl s (mem_of_find? hfind)

private theorem forall_mem_adopt_empty {P : Session → Prop} {rules : HouseRules} (ht : P t) :
    ∀ s ∈ ((empty rules).adopt t).sessions, P s :=
  (forall_mem_adopt_iff fun _ hs => absurd hs List.not_mem_nil).mpr ht

private theorem deliver_of_find?_eq_none (h : l.find? m.sessionId = none)
    (hm : ∀ s, m ≠ .sessionOpened s) : l.deliver fresh m = .ok l := by
  have hget : l.get m.sessionId = .error (.unknownSession m.sessionId) := by
    rw [get, h]
  cases m with
  | sessionOpened s => exact absurd rfl (hm s)
  | moveRejected id reason text => exact deliver_of_handled (.moveRejected id reason text)
  | gameEnded id e => exact deliver_of_handled (.gameEnded id e)
  | playerJoined id p | movePublished id r | resigned id side | timedOut id side
  | rematchRequested id =>
    apply deliver_of_refused (r := .unknownSession id)
    simp only [Message.sessionId] at hget
    simp only [handle, join, standing, resign, timeOut, rematch, update, hget]
    rfl

end Lobby

namespace Message

/-- The squares of the message's records are on the board, and its counter has room for them. -/
def Placed : Message → Prop
  | sessionOpened s => s.Playable 0
  | movePublished _ m => m.OnBoard
  | _ => True

/-- What the message brings to the lobby does not stop a replay. A snapshot may have squares off the
board, or a full counter, that its replay does not come to, and a move may be off the board if there
is no game for it, or it is known there or comes too late. -/
inductive Harmless (l : Lobby) : Message → Prop
  | placed {m : Message} (h : m.Placed) : Harmless l m
  | snapshot {s : Session} (h : ∃ st, s.standing = .ok st) : Harmless l (.sessionOpened s)
  | late {id : Uuid} {m : Move}
      (h : ∀ s, l.find? id = some s → (∃ text, m.text = .ok text) ∧
        (s.log.contains m.id = true ∨ (s.before m).isOver = true)) :
      Harmless l (.movePublished id m)

end Message

namespace Lobby

variable {l l' : Lobby} {fresh : Uuid} {s : Session} {m : Message}

private theorem handle_movePublished_ne_refused {id : Uuid} {x : Move} {r : Refusal}
    (hs : l.find? id = some s) :
    l.handle fresh (.movePublished id x) ≠ .error (.refused r) := by
  intro h
  have hstanding {l : Lobby} {s : Session} (hs : l.find? id = some s) :
      l.standing id ≠ .error (.refused r) := by
    rw [standing, get_eq_ok.mpr hs]
    exact liftFault_ne_refused
  rcases bind_eq_error.mp h with h | ⟨before, -, h⟩
  · exact hstanding hs h
  rcases bind_eq_error.mp h with h | ⟨⟨new, l₁⟩, hreceive, h⟩
  · rw [receive, update_of_find? hs] at h
    rcases bind_eq_error.mp h with h | ⟨_, -, h⟩
    · exact liftFault_ne_refused h
    · simp [pure, Except.pure] at h
  obtain ⟨s₁, t, hs₁, ht, rfl⟩ := update_eq_ok.mp hreceive
  obtain ⟨-, -, rfl⟩ := Session.receive_eq_ok.mp (liftFault_eq_ok.mp ht)
  have hfind : (l.adopt (s₁.logged x)).find? id = some (s₁.logged x) :=
    find?_adopt_of_growsTo hs₁ (Session.growsTo_logged s₁ x)
  cases new with
  | false => simp [pure, Except.pure] at h
  | true =>
    rcases bind_eq_error.mp h with h | ⟨after, -, h⟩
    · exact hstanding hfind h
    · split at h <;> simp [pure, Except.pure] at h

private theorem deliver_placed (hs : l.find? m.sessionId = some s) (hplay : s.Playable 1)
    (hm : m.Placed) : ∃ t, l.deliver fresh m = .ok (l.adopt t) ∧ t.Playable 0 := by
  have hid : s.id = m.sessionId := id_of_find? hs
  have hsame : l.adopt s = l := adopt_of_find? (by rw [hid, hs])
  have hzero : s.Playable 0 := hplay.of_le (Nat.zero_le 1)
  have htells (ht : m.Tells s.id) :
      ∃ t, l.deliver fresh m = .ok (l.adopt t) ∧ t.Playable 0 := by
    have hroom : (Message.records [m]).length ≤ 1 := List.length_filterMap_le ..
    exact ⟨s.told m, deliver_told fresh ht (hid ▸ hs) (hplay.of_le hroom),
      (hplay.of_le (by omega)).told ht⟩
  cases m with
  | sessionOpened t => exact ⟨t, deliver_of_handled (.sessionOpened t), hm⟩
  | movePublished id r =>
    obtain rfl : s.id = id := hid
    exact htells (.moved hm)
  | resigned id side =>
    obtain rfl : s.id = id := hid
    exact htells (.resigned side)
  | timedOut id side =>
    obtain rfl : s.id = id := hid
    exact htells (.timedOut side)
  | moveRejected id reason text =>
    exact ⟨s, hsame.symm ▸ deliver_of_handled (.moveRejected id reason text), hzero⟩
  | gameEnded id e => exact ⟨s, hsame.symm ▸ deliver_of_handled (.gameEnded id e), hzero⟩
  | playerJoined id p =>
    cases hjoin : s.join p with
    | ok seated =>
      obtain ⟨side, t⟩ := seated
      refine ⟨t, deliver_of_handled (.playerJoined hs hjoin), ?_⟩
      rw [Session.frame_join hjoin]
      exact ⟨hzero.onBoard, hzero.room⟩
    | error r =>
      refine ⟨s, hsame.symm ▸ deliver_of_refused (r := r) ?_, hzero⟩
      have hs : l.find? id = some s := hs
      rw [handle, join, update_of_find? hs, hjoin]
      rfl
  | rematchRequested id =>
    refine ⟨_, deliver_of_handled (.rematchRequested hs), Session.playable_of_log_empty rfl ?_⟩
    change 0 + 0 < UInt32.size
    decide

/-- A move of a game that is known needs a text, and to be known there, on the board, or too late. -/
theorem deliver_movePublished_iff {id : Uuid} {r : Move} (hl : ∀ s ∈ l.sessions, s.Playable 1)
    (hs : l.find? id = some s) :
    (∃ l', l.deliver fresh (.movePublished id r) = .ok l' ∧
      ∀ s ∈ l'.sessions, ∃ st, s.standing = .ok st) ↔
    (∃ text, r.text = .ok text) ∧
      (s.log.contains r.id = true ∨ r.OnBoard ∨ (s.before r).isOver = true) := by
  have hplay : s.Playable 1 := hl s (mem_of_find? hs)
  have hlogged : (∃ st, (s.logged r).standing = .ok st) ↔
      s.log.contains r.id = true ∨ r.OnBoard ∨ (s.before r).isOver = true := by
    cases hid : s.log.contains r.id with
    | true =>
      have hsame : s.logged r = s := by
        rw [Session.logged, MoveLog.insert_of_contains hid]
      rw [hsame]
      exact ⟨fun _ => .inl rfl, fun _ => hplay.standing⟩
    | false =>
      rw [Session.standing_logged_iff hplay hid]
      exact ⟨.inr, fun h => h.resolve_left Bool.false_ne_true⟩
  have hadopt := forall_mem_adopt_iff (t := s.logged r) fun s hs => (hl s hs).standing
  constructor
  · rintro ⟨l', hl', hall⟩
    rcases handled_or_refused hl' with h | ⟨⟨refusal, h⟩, -⟩
    · cases h with
      | movePublished hs' _ htext _ =>
        obtain rfl := Option.some.inj (hs.symm.trans hs')
        exact ⟨htext, hlogged.mp (hadopt.mp hall)⟩
    · exact absurd h (handle_movePublished_ne_refused hs)
  · rintro ⟨htext, h⟩
    have hafter := hlogged.mpr h
    exact ⟨_, deliver_of_handled (.movePublished hs hplay.standing htext fun _ => hafter),
      hadopt.mpr hafter⟩

/-- The games of a lobby whose records are on the board, with room for one move more, have standings
after a message exactly if the message is harmless. One whose squares are on the board even leaves
all records on the board. -/
theorem deliver_harmless_iff (hl : ∀ s ∈ l.sessions, s.Playable 1) :
    (m.Placed → ∃ l', l.deliver fresh m = .ok l' ∧ ∀ s ∈ l'.sessions, s.Playable 0) ∧
    ((∃ l', l.deliver fresh m = .ok l' ∧ ∀ s ∈ l'.sessions, ∃ st, s.standing = .ok st) ↔
      m.Harmless l) := by
  have hzero (s : Session) (hs : s ∈ l.sessions) : s.Playable 0 := (hl s hs).of_le (Nat.zero_le 1)
  have hplaced (hm : m.Placed) :
      ∃ l', l.deliver fresh m = .ok l' ∧ ∀ s ∈ l'.sessions, s.Playable 0 := by
    cases hfind : l.find? m.sessionId with
    | some s =>
      obtain ⟨t, ht, hplay⟩ := deliver_placed hfind (hl s (mem_of_find? hfind)) hm
      exact ⟨_, ht, (forall_mem_adopt_iff hzero).mpr hplay⟩
    | none =>
      by_cases hsnapshot : ∃ s, m = .sessionOpened s
      · obtain ⟨s, rfl⟩ := hsnapshot
        exact ⟨_, deliver_of_handled (.sessionOpened s), (forall_mem_adopt_iff hzero).mpr hm⟩
      · exact ⟨l, deliver_of_find?_eq_none hfind (not_exists.mp hsnapshot), hzero⟩
  refine ⟨hplaced, ?_, ?_⟩
  · rintro ⟨l', hl', hstanding⟩
    cases m with
    | sessionOpened s =>
      obtain rfl := Except.ok.inj ((deliver_of_handled (.sessionOpened s)).symm.trans hl')
      exact .snapshot ((forall_mem_adopt_iff fun s hs => (hzero s hs).standing).mp hstanding)
    | movePublished id r =>
      by_cases hboard : r.OnBoard
      · exact .placed hboard
      · refine .late fun s hs => ?_
        obtain ⟨htext, h⟩ := (deliver_movePublished_iff hl hs).mp ⟨l', hl', hstanding⟩
        exact ⟨htext, h.imp_right fun h => h.resolve_left hboard⟩
    | _ => exact .placed trivial
  · intro hm
    cases hm with
    | placed h =>
      obtain ⟨l', hl', hplay⟩ := hplaced h
      exact ⟨l', hl', fun s hs => (hplay s hs).standing⟩
    | @snapshot s h =>
      exact ⟨_, deliver_of_handled (.sessionOpened s),
        (forall_mem_adopt_iff fun s hs => (hzero s hs).standing).mpr h⟩
    | @late id r h =>
      cases hs : l.find? id with
      | none =>
        exact ⟨l, deliver_of_find?_eq_none hs fun _ h => Message.noConfusion h,
          fun s hs => (hzero s hs).standing⟩
      | some s =>
        obtain ⟨htext, h⟩ := h s hs
        exact (deliver_movePublished_iff hl hs).mpr ⟨htext, h.imp_right .inr⟩

end Lobby

/-- A move from below the board, some time after the mate. -/
def Move.stray : Move := ⟨.numbered 5, ⟨8, 0⟩, ⟨5, 0⟩, .white, .pawn, none, 20⟩

private theorem Session.playable_mated : mated.Playable 1 :=
  Playable.logged (n := 1) (playable_of_log_empty rfl (by decide)) (by decide)

private theorem Session.before_stray : mated.before .stray = mated := by
  apply before_eq_self
  · rw [log_mated]
    exact Move.IsCanonical.singleton _
  · rw [log_mated]
    decide

namespace Lobby

def hostingMated : Lobby := (empty {}).adopt .mated

theorem deliver_stray_mated :
    (∀ s ∈ hostingMated.sessions, s.Playable 1) ∧ ¬ Move.stray.OnBoard ∧
      ∃ l', hostingMated.deliver (.numbered 9) (.movePublished (.numbered 1) .stray) = .ok l' ∧
        ∀ s ∈ l'.sessions, ∃ st, s.standing = .ok st := by
  have hplay : ∀ s ∈ hostingMated.sessions, s.Playable 1 :=
    forall_mem_adopt_empty Session.playable_mated
  have hmated : hostingMated.find? (.numbered 1) = some .mated := find?_adopt_self rfl
  have hlate : Message.Harmless hostingMated (.movePublished (.numbered 1) .stray) := by
    refine .late fun s hs => ?_
    obtain rfl := Option.some.inj (hmated.symm.trans hs)
    refine ⟨⟨_, rfl⟩, .inr ?_⟩
    rw [Session.before_stray, Session.isOver_mated]
  exact ⟨hplay, by decide, (deliver_harmless_iff hplay).2.mpr hlate⟩

/-- In a game that is live the same move, as it can be read from text, stops the replay. -/
theorem deliver_stray_friendly :
    (∀ s ∈ hostingFriendly.sessions, s.Playable 1) ∧
      JsonForm.ofText? (JsonForm.toText (Message.movePublished (.numbered 1) .stray)) =
        some (Message.movePublished (.numbered 1) .stray) ∧
      ∃ f, hostingFriendly.deliver (.numbered 9) (.movePublished (.numbered 1) .stray) =
        .error f := by
  have hplay : ∀ s ∈ hostingFriendly.sessions, s.Playable 1 :=
    forall_mem_adopt_empty (Session.playable_of_log_empty rfl (by decide))
  have hread : JsonForm.ofText? (JsonForm.toText (Message.movePublished (.numbered 1) .stray)) =
      some (Message.movePublished (.numbered 1) .stray) := by
    rw [JsonForm.ofText?_toText]
    decide +kernel
  refine ⟨hplay, hread, ?_⟩
  have hfriendly := mem_of_find? find?_hostingFriendly
  cases hdeliver : hostingFriendly.deliver (.numbered 9) (.movePublished (.numbered 1) .stray) with
  | error f => exact ⟨f, rfl⟩
  | ok l' =>
    rcases handled_or_refused hdeliver with h | ⟨⟨r, h⟩, -⟩
    · cases h with
      | movePublished hs _ _ hafter =>
        obtain rfl := Option.some.inj (find?_hostingFriendly.symm.trans hs)
        have hlogged := hafter rfl
        rw [Session.standing_logged_iff (hplay _ hfriendly) rfl,
          Session.before_eq_self .nil fun a ha => absurd ha List.not_mem_nil,
          Session.not_isOver_friendly] at hlogged
        exact absurd hlogged (by decide)
    · exact absurd h (handle_movePublished_ne_refused find?_hostingFriendly)

end Lobby

end WereraChess
