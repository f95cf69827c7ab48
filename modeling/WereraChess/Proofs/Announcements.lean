import Mathlib.Data.List.Induction
import WereraChess.Proofs.Harmless
/-!
# Announced endings

A lobby replies to a published move with the ending of the game if the game had none before. A move
that comes late in delivery and early in the game can take an ending back or put another in its place,
and nothing is said of that. Where no move does so, the last reply tells how the game stands.
-/
namespace WereraChess

namespace Course

variable {v : Variant} {rules : HouseRules}

private theorem onBoard_of_step {c c' : Course} {m : Move} (h : Step v rules c m c')
    (hlive : c'.progress.phase.isComplete = false) : m.OnBoard := by
  cases h with
  | ended hover =>
    have hsame : (c.skip m).progress = c.progress := rfl
    rw [hsame, hover] at hlive
    exact absurd hlive Bool.noConfusion
  | blocked _ hs ht => exact ⟨by rw [hs]; rfl, by rw [ht]; rfl⟩
  | applied _ hs ht => exact ⟨by rw [hs]; rfl, by rw [ht]; rfl⟩

theorem onBoard_of_run {ms : List Move} {c c' : Course} (h : ms.foldlM (play v rules) c = .ok c')
    (hlive : c'.progress.phase.isComplete = false) : ∀ m ∈ ms, m.OnBoard := by
  induction ms generalizing c with
  | nil => exact fun m hm => absurd hm List.not_mem_nil
  | cons m ms ih =>
    rw [List.foldlM_cons] at h
    obtain ⟨d, hd, h⟩ := bind_eq_ok.mp h
    have hcut : d.progress.phase.isComplete = false := by
      by_contra hover
      rw [run_ended (by simpa using hover)] at h
      obtain rfl := Except.ok.inj h
      exact hover hlive
    exact List.forall_mem_cons.mpr ⟨onBoard_of_step (play_eq_ok_iff.mp hd) hcut, ih h⟩

end Course

private theorem MoveLog.mem_canonical_foldl_insert {rs : List Move} {log : MoveLog} {x : Move}
    (hx : x ∈ Move.canonical (rs.foldl insert log).moves) : x ∈ Move.canonical log.moves ∨ x ∈ rs := by
  induction rs generalizing log with
  | nil => exact .inl hx
  | cons r rs ih =>
    rcases ih hx with hx | hx
    · cases hid : log.contains r.id with
      | true =>
        rw [insert_of_contains hid] at hx
        exact .inl hx
      | false =>
        rcases (mem_canonical_insert hid).mp hx with rfl | hx
        · exact .inr List.mem_cons_self
        · exact .inl hx
    · exact .inr (List.mem_cons_of_mem r hx)

private theorem MoveLog.length_foldl_insert_le (rs : List Move) (log : MoveLog) :
    (rs.foldl insert log).moves.length ≤ log.moves.length + rs.length := by
  induction rs generalizing log with
  | nil => exact Nat.le_refl _
  | cons r rs ih =>
    have hstep := length_insert_le log r
    have hrest := ih (log.insert r)
    rw [List.foldl_cons, List.length_cons]
    omega

namespace Session

variable {s : Session} {st r : Standing} {m : Move} {rs : List Move}

/-- The ending that the game shows. -/
def ending? (s : Session) : Option Ending := s.standing.toOption.bind Standing.ending

private theorem ending?_of_standing (h : s.standing = .ok st) : s.ending? = st.ending := by
  rw [ending?, h]
  rfl

private theorem ending?_of_replayed (h : s.replayed = .ok r) :
    s.ending? = r.ending.or s.resolution := by
  rw [ending?_of_standing (standing_of_replayed h)]
  cases hending : r.ending with
  | none => rw [ending_elim_declare hending, Option.none_or]
  | some e => rw [elim_declare_of_ending (by rw [hending]; rfl), hending, Option.some_or]

private theorem ending?_of_isCanonical (hc : Move.IsCanonical s.log.moves) :
    s.ending? = s.course.toOption.bind fun c => c.progress.ending.or s.resolution := by
  have hreplayed : s.replayed = s.course.map (Course.standing s.variant) :=
    replay_of_isCanonical _ _ _ hc
  cases hcourse : s.course with
  | error f =>
    rw [hcourse] at hreplayed
    rw [ending?, standing, hreplayed]
    rfl
  | ok c =>
    rw [hcourse] at hreplayed
    exact ending?_of_replayed hreplayed

private theorem ending?_of_live (hst : s.standing = .ok st) (hlive : st.phase.isComplete = false) :
    s.ending? = none := by
  obtain ⟨r, hr, rfl⟩ := standing_eq_ok.mp hst
  rw [isComplete_standing hr, Bool.or_eq_false_iff, Option.isSome_eq_false_iff,
    Option.isNone_iff_eq_none] at hlive
  rw [ending?_of_replayed hr, ending_of_not_isOver hr hlive.2, hlive.1, Option.or_none]

/-- The record takes an ending of the game back or puts another in its place. -/
def Revises (s : Session) (m : Move) : Prop :=
  s.ending?.isSome = true ∧ (s.logged m).ending? ≠ s.ending?

private theorem ending?_logged_of_isOver (h : (s.before m).isOver = true) :
    (s.logged m).ending? = s.ending? := by
  cases hid : s.log.contains m.id with
  | true => rw [logged, MoveLog.insert_of_contains hid]
  | false =>
    obtain ⟨late, hlog, hlogged⟩ := canonical_logged hid
    cases hbefore : (s.before m).replayed with
    | error f => simp [isOver, hbefore, Except.toOption] at h
    | ok r =>
      rw [isOver_of_replayed hbefore] at h
      obtain ⟨d, hd, rfl⟩ := replayed_eq_ok.mp hbefore
      rw [(s.isCanonical_before m).canonical_eq] at hd
      have hrun (ms : List Move) : ((s.before m).log.moves ++ ms).foldlM
          (Course.play s.variant s.rules) (Course.start s.variant s.rules s.opening) =
            .ok { d with skipped := d.skipped ++ ms.map Move.id } := by
        rw [List.foldlM_append]
        exact bind_eq_ok.mpr ⟨d, hd, Course.run_ended h ms⟩
      have hs : s.replayed = .ok _ := replayed_eq_ok.mpr ⟨_, hlog ▸ hrun late, rfl⟩
      have hs' : (s.logged m).replayed = .ok _ :=
        replayed_eq_ok.mpr ⟨_, hlogged ▸ hrun (m :: late), rfl⟩
      rw [ending?_of_replayed hs, ending?_of_replayed hs']
      rfl

private theorem Revises.early (h : s.Revises m) :
    s.log.contains m.id = false ∧ (s.before m).isOver = false := by
  constructor
  · by_contra hid
    apply h.2
    rw [logged, MoveLog.insert_of_contains (by simpa using hid)]
  · by_contra hover
    exact h.2 (ending?_logged_of_isOver (by simpa using hover))

private theorem logAll_nil (s : Session) : s.logAll [] = s := rfl

theorem logAll_concat (s : Session) (rs : List Move) (m : Move) :
    s.logAll (rs ++ [m]) = (s.logAll rs).logged m := logAll_append

/-- A live game has a replay with further records on the board, unless its counter runs out. -/
theorem replayed_logAll (hst : s.standing = .ok st) (hlive : st.phase.isComplete = false)
    (hrs : ∀ m ∈ rs, m.OnBoard) :
    (∃ r, (s.logAll rs).replayed = .ok r) ∨
      (s.logAll rs).replayed = .error .counterFull ∧
        UInt32.size ≤ s.opening.moveCount.toNat + (s.logAll rs).log.moves.length := by
  obtain ⟨r, hr, rfl⟩ := standing_eq_ok.mp hst
  rw [isComplete_standing hr, Bool.or_eq_false_iff, isOver_of_replayed hr] at hlive
  obtain ⟨c, hc, rfl⟩ := replayed_eq_ok.mp hr
  have hboard (m : Move) (hm : m ∈ Move.canonical (s.logAll rs).log.moves) : m.OnBoard := by
    rcases MoveLog.mem_canonical_foldl_insert hm with hm | hm
    · exact Course.onBoard_of_run hc hlive.2 m hm
    · exact hrs m hm
  have hlen := Move.canonical_length_le (s.logAll rs).log.moves
  rcases Course.run_total s.variant s.rules (Course.start s.variant s.rules s.opening) hboard with
    ⟨d, hd⟩ | ⟨hd, hfull⟩
  · exact .inl ⟨_, replayed_eq_ok.mpr ⟨d, hd, rfl⟩⟩
  · refine .inr ⟨bind_eq_error.mpr (.inl hd), ?_⟩
    have hcount : (Course.start s.variant s.rules s.opening).moveCount = s.opening.moveCount := rfl
    rw [hcount] at hfull
    omega

private theorem standing_logAll (hst : s.standing = .ok st) (hlive : st.phase.isComplete = false)
    (hrs : ∀ m ∈ rs, m.OnBoard)
    (hroom : s.opening.moveCount.toNat + s.log.moves.length + rs.length < UInt32.size) :
    ∃ st', (s.logAll rs).standing = .ok st' := by
  have hlen : (s.logAll rs).log.moves.length ≤ s.log.moves.length + rs.length :=
    MoveLog.length_foldl_insert_le rs s.log
  rcases replayed_logAll hst hlive hrs with ⟨r, hr⟩ | ⟨-, hfull⟩
  · exact ⟨_, standing_of_replayed hr⟩
  · omega

end Session

namespace Message

/-- The ending that the message announces. -/
def announcement? : Message → Option Ending
  | gameEnded _ e => some e
  | _ => none

/-- The ending that was announced last. -/
def lastAnnounced (replies : List Message) : Option Ending :=
  (replies.filterMap announcement?).getLast?

private theorem lastAnnounced_append_gameEnded (replies : List Message) (id : Uuid)
    (o : Option Ending) :
    lastAnnounced (replies ++ (o.map (gameEnded id)).toList) = o.or (lastAnnounced replies) := by
  cases o with
  | none => simp
  | some e => simp [lastAnnounced, announcement?]

end Message

namespace Lobby

open Message

variable {l l' : Lobby} {fresh : Uuid} {s : Session} {st : Standing} {m : Move} {rs : List Move}
  {ms : List Message} {replies : List Message}

/-- A published move is answered by the ending of the game if it had none before. -/
theorem reply_movePublished {reply : Option Message} (hs : l.find? s.id = some s)
    (h : l.handle fresh (.movePublished s.id m) = .ok (reply, l')) :
    l' = l.adopt (s.logged m) ∧ (∃ st, (s.logged m).standing = .ok st) ∧
      reply = (if s.ending?.isNone then (s.logged m).ending? else none).map (gameEnded s.id) := by
  obtain ⟨before, hbefore, h⟩ := bind_eq_ok.mp h
  obtain ⟨⟨new, l₁⟩, hreceive, h⟩ := bind_eq_ok.mp h
  rw [standing_eq_ok_of_find? hs] at hbefore
  obtain ⟨s₁, t, hs₁, ht, rfl⟩ := update_eq_ok.mp hreceive
  obtain rfl := Option.some.inj (hs.symm.trans hs₁)
  obtain ⟨-, hnew, rfl⟩ := Session.receive_eq_ok.mp (liftFault_eq_ok.mp ht)
  rw [Session.ending?_of_standing hbefore]
  cases new with
  | false =>
    obtain ⟨rfl, rfl⟩ := Prod.mk.inj (Except.ok.inj h)
    have hsame : s.logged m = s := by
      rw [Session.logged, MoveLog.insert_of_contains (by simpa using hnew)]
    rw [hsame, Session.ending?_of_standing hbefore]
    refine ⟨rfl, ⟨before, hbefore⟩, ?_⟩
    cases before.ending <;> rfl
  | true =>
    obtain ⟨after, hafter, h⟩ := bind_eq_ok.mp h
    rw [standing_eq_ok_of_find? (find?_adopt_of_growsTo hs (Session.growsTo_logged s m))] at hafter
    rw [Session.ending?_of_standing hafter]
    cases hb : before.ending with
    | none =>
      cases ha : after.ending with
      | none =>
        simp only [hb, ha, pure_eq_ok, Prod.mk.injEq] at h
        exact ⟨h.2.symm, ⟨after, hafter⟩, h.1.symm⟩
      | some e =>
        simp only [hb, ha, pure_eq_ok, Prod.mk.injEq] at h
        exact ⟨h.2.symm, ⟨after, hafter⟩, h.1.symm⟩
    | some e =>
      simp only [hb, pure_eq_ok, Prod.mk.injEq] at h
      exact ⟨h.2.symm, ⟨after, hafter⟩, h.1.symm⟩

/-- The lobby after messages in the order of the list, with the replies to them. The first failure
ends it. -/
def handleAll (l : Lobby) (fresh : Uuid) (ms : List Message) :
    Except Failure (List Message × Lobby) :=
  ms.foldlM (fun (replies, l) m => do
    let (reply, l) ← l.handle fresh m
    return (replies ++ reply.toList, l)) ([], l)

private theorem handleAll_concat_eq_ok {m : Message} :
    l.handleAll fresh (ms ++ [m]) = .ok (replies, l') ↔
      ∃ replies₁ l₁ reply, l.handleAll fresh ms = .ok (replies₁, l₁) ∧
        l₁.handle fresh m = .ok (reply, l') ∧ replies = replies₁ ++ reply.toList := by
  simp only [handleAll, List.foldlM_append, List.foldlM_cons, List.foldlM_nil, bind_eq_ok,
    pure_eq_ok, Prod.exists, Prod.mk.injEq]
  constructor
  · rintro ⟨replies₁, l₁, h₁, _, _, ⟨reply, l₂, h, rfl, rfl⟩, rfl, rfl⟩
    exact ⟨replies₁, l₁, reply, h₁, h, rfl⟩
  · rintro ⟨replies₁, l₁, reply, h₁, h, rfl⟩
    exact ⟨replies₁, l₁, h₁, _, _, ⟨reply, l', h, rfl, rfl⟩, rfl, rfl⟩

/-- The records as they are published. -/
def published (id : Uuid) (rs : List Move) : List Message := rs.map (movePublished id)

private theorem published_concat (id : Uuid) (rs : List Move) (m : Move) :
    published id (rs ++ [m]) = published id rs ++ [movePublished id m] := List.map_append

private theorem handleAll_of_prefix {ps : List Move} (hps : ps <+: rs)
    (h : l.handleAll fresh (published s.id rs) = .ok (replies, l')) :
    ∃ replies₁ l₁, l.handleAll fresh (published s.id ps) = .ok (replies₁, l₁) := by
  obtain ⟨ns, rfl⟩ := hps
  rw [published, List.map_append, handleAll, List.foldlM_append] at h
  obtain ⟨⟨replies₁, l₁⟩, h₁, -⟩ := bind_eq_ok.mp h
  exact ⟨replies₁, l₁, h₁⟩

/-- The session after the records is there and has a standing, and all replies announce its end. -/
theorem handleAll_published (hs : l.find? s.id = some s) (hst : s.standing = .ok st)
    (h : l.handleAll fresh (published s.id rs) = .ok (replies, l')) :
    l'.find? s.id = some (s.logAll rs) ∧ (∃ st', (s.logAll rs).standing = .ok st') ∧
      ∀ reply ∈ replies, ∃ e, reply = .gameEnded s.id e := by
  induction rs using List.reverseRecOn generalizing replies l' with
  | nil =>
    obtain ⟨rfl, rfl⟩ := Prod.mk.inj (Except.ok.inj h)
    exact ⟨hs, ⟨st, hst⟩, fun reply hreply => absurd hreply List.not_mem_nil⟩
  | append_singleton rs m ih =>
    rw [published_concat] at h
    obtain ⟨replies₁, l₁, reply, h₁, hstep, rfl⟩ := handleAll_concat_eq_ok.mp h
    obtain ⟨hs₁, -, hreplies⟩ := ih h₁
    obtain ⟨rfl, hst', rfl⟩ := reply_movePublished (s := s.logAll rs) hs₁ hstep
    rw [Session.logAll_concat]
    refine ⟨find?_adopt_of_growsTo hs₁ (Session.growsTo_logged _ m), hst', ?_⟩
    intro reply hreply
    rcases List.mem_append.mp hreply with hreply | hreply
    · exact hreplies reply hreply
    · rw [Option.mem_toList, Option.map_eq_some_iff] at hreply
      obtain ⟨e, -, rfl⟩ := hreply
      exact ⟨e, rfl⟩

private theorem lastAnnounced_concat (hs : l.find? s.id = some s) (hst : s.standing = .ok st)
    (h₁ : l.handleAll fresh (published s.id rs) = .ok (replies, l')) {replies' : List Message}
    {l'' : Lobby} (h : l.handleAll fresh (published s.id (rs ++ [m])) = .ok (replies', l'')) :
    lastAnnounced replies' = (if (s.logAll rs).ending?.isNone then (s.logAll (rs ++ [m])).ending?
      else none).or (lastAnnounced replies) := by
  rw [published_concat] at h
  obtain ⟨replies₁, l₁, reply, h₂, hstep, rfl⟩ := handleAll_concat_eq_ok.mp h
  obtain ⟨rfl, rfl⟩ := Prod.mk.inj (Except.ok.inj (h₁.symm.trans h₂))
  obtain ⟨hs₁, -, -⟩ := handleAll_published hs hst h₁
  obtain ⟨-, -, rfl⟩ := reply_movePublished (s := s.logAll rs) hs₁ hstep
  rw [Session.logAll_concat]
  exact lastAnnounced_append_gameEnded ..

private theorem isSome_lastAnnounced (hs : l.find? s.id = some s) (hst : s.standing = .ok st)
    (hnone : s.ending? = none) (h : l.handleAll fresh (published s.id rs) = .ok (replies, l'))
    (hending : (s.logAll rs).ending?.isSome = true) : (lastAnnounced replies).isSome = true := by
  induction rs using List.reverseRecOn generalizing replies l' with
  | nil =>
    rw [Session.logAll_nil, hnone] at hending
    exact absurd hending Bool.noConfusion
  | append_singleton rs m ih =>
    obtain ⟨replies₁, l₁, h₁⟩ := handleAll_of_prefix (List.prefix_append rs [m]) h
    rw [lastAnnounced_concat hs hst h₁ h]
    cases hbefore : (s.logAll rs).ending? with
    | none => simp [Option.isSome_or, hending]
    | some e => simp [ih h₁ (by rw [hbefore]; rfl)]

/-- The lobby handles the records, and the game shows the ending that was announced last. -/
def Announced (l : Lobby) (fresh id : Uuid) (rs : List Move) : Prop :=
  ∃ replies l' st, l.handleAll fresh (published id rs) = .ok (replies, l') ∧
    l'.standing id = .ok st ∧ st.ending = lastAnnounced replies

theorem announced_iff (hs : l.find? s.id = some s) (hst : s.standing = .ok st)
    (h : l.handleAll fresh (published s.id rs) = .ok (replies, l')) :
    l.Announced fresh s.id rs ↔ (s.logAll rs).ending? = lastAnnounced replies := by
  obtain ⟨hs', ⟨st', hst'⟩, -⟩ := handleAll_published hs hst h
  have hstanding : l'.standing s.id = .ok st' :=
    (standing_eq_ok_of_find? (s := s.logAll rs) hs').mpr hst'
  rw [Session.ending?_of_standing hst']
  constructor
  · rintro ⟨replies₁, l₁, st₁, h₁, hst₁, heq⟩
    obtain ⟨rfl, rfl⟩ := Prod.mk.inj (Except.ok.inj (h.symm.trans h₁))
    rwa [Except.ok.inj (hstanding.symm.trans hst₁)]
  · intro heq
    exact ⟨replies, l', st', h, hstanding, heq⟩

theorem exists_handleAll_published (fresh : Uuid) (hs : l.find? s.id = some s)
    (hrs : ∀ m ∈ rs, m.OnBoard)
    (hst : ∀ ps, ps <+: rs → ∃ st, (s.logAll ps).standing = .ok st) :
    ∃ replies l', l.handleAll fresh (published s.id rs) = .ok (replies, l') := by
  obtain ⟨st₀, hst₀⟩ := hst [] List.nil_prefix
  induction rs using List.reverseRecOn with
  | nil => exact ⟨[], l, rfl⟩
  | append_singleton rs m ih =>
    obtain ⟨hall, hm⟩ := List.forall_mem_append.mp hrs
    have hbefore := List.prefix_append rs [m]
    obtain ⟨replies, l₁, h₁⟩ := ih hall fun ps hps => hst ps (hps.trans hbefore)
    obtain ⟨hs₁, hst₁, -⟩ := handleAll_published hs hst₀ h₁
    have hlogged := hst (rs ++ [m]) List.prefix_rfl
    rw [Session.logAll_concat] at hlogged
    obtain ⟨reply, hstep⟩ : ∃ reply, l₁.handle fresh (.movePublished s.id m) =
        .ok (reply, l₁.adopt ((s.logAll rs).logged m)) :=
      handle_movePublished.mpr ⟨s.logAll rs, hs₁, hst₁, (hm m (List.mem_singleton_self m)).text,
        fun _ => hlogged, rfl⟩
    rw [published_concat]
    exact ⟨_, _, handleAll_concat_eq_ok.mpr ⟨replies, l₁, reply, h₁, hstep, rfl⟩⟩

private theorem exists_handleAll_of_live (fresh : Uuid) (hs : l.find? s.id = some s)
    (hst : s.standing = .ok st) (hlive : st.phase.isComplete = false) (hrs : ∀ m ∈ rs, m.OnBoard)
    (hroom : s.opening.moveCount.toNat + s.log.moves.length + rs.length < UInt32.size) :
    ∃ replies l', l.handleAll fresh (published s.id rs) = .ok (replies, l') := by
  apply exists_handleAll_published fresh hs hrs
  intro ps hps
  have hlen := hps.length_le
  exact Session.standing_logAll hst hlive (fun m hm => hrs m (hps.subset hm)) (by omega)

/-- A record that revises a game parts what the game shows from what was announced, and no other
does. -/
theorem announced_concat_iff (hs : l.find? s.id = some s) (hst : s.standing = .ok st)
    (h : l.handleAll fresh (published s.id (rs ++ [m])) = .ok (replies, l'))
    (hrs : l.Announced fresh s.id rs) :
    l.Announced fresh s.id (rs ++ [m]) ↔ ¬ (s.logAll rs).Revises m := by
  obtain ⟨replies₁, l₁, h₁⟩ := handleAll_of_prefix (List.prefix_append rs [m]) h
  rw [announced_iff hs hst h₁] at hrs
  rw [announced_iff hs hst h, lastAnnounced_concat hs hst h₁ h, ← hrs, Session.Revises,
    Session.logAll_concat]
  cases (s.logAll rs).ending? with
  | none => simp
  | some e => simp

/-- A live game that hears of moves ends with an announcement. At any time it shows the ending that
was announced last, as long as no move has revised it, which only a new one from before its end can.
Moves on the board do not fail while the counter has room. -/
theorem announced_iff_not_revises (fresh : Uuid) (hs : l.find? s.id = some s)
    (hst : s.standing = .ok st) (hlive : st.phase.isComplete = false) :
    (∀ rs, (∀ m ∈ rs, m.OnBoard) →
      s.opening.moveCount.toNat + s.log.moves.length + rs.length < UInt32.size →
      ∃ replies l', l.handleAll fresh (published s.id rs) = .ok (replies, l')) ∧
    ∀ rs replies l', l.handleAll fresh (published s.id rs) = .ok (replies, l') →
      (∃ st', l'.standing s.id = .ok st' ∧
        (st'.ending.isSome = true → (lastAnnounced replies).isSome = true)) ∧
      (∀ reply ∈ replies, ∃ e, reply = .gameEnded s.id e) ∧
      ((∀ ps, ps <+: rs → l.Announced fresh s.id ps) ↔
        ∀ ps m, ps ++ [m] <+: rs → ¬ (s.logAll ps).Revises m) ∧
      ∀ ps m, ps ++ [m] <+: rs → (s.logAll ps).Revises m →
        (s.logAll ps).log.contains m.id = false ∧ ((s.logAll ps).before m).isOver = false := by
  have hnone := Session.ending?_of_live hst hlive
  constructor
  · intro rs hrs hroom
    exact exists_handleAll_of_live fresh hs hst hlive hrs hroom
  · intro rs replies l' h
    obtain ⟨hs', ⟨st', hst'⟩, hreplies⟩ := handleAll_published hs hst h
    refine ⟨⟨st', (standing_eq_ok_of_find? (s := s.logAll rs) hs').mpr hst', ?_⟩, hreplies, ?_, ?_⟩
    · intro hending
      apply isSome_lastAnnounced hs hst hnone h
      rwa [Session.ending?_of_standing hst']
    · constructor
      · intro hall ps m hps
        obtain ⟨replies₁, l₁, h₁⟩ := handleAll_of_prefix hps h
        have hbefore := hall ps ((List.prefix_append ps [m]).trans hps)
        exact (announced_concat_iff hs hst h₁ hbefore).mp (hall _ hps)
      · intro hall ps hps
        induction ps using List.reverseRecOn with
        | nil =>
          have hstart : l.handleAll fresh (published s.id []) = .ok ([], l) := rfl
          exact (announced_iff hs hst hstart).mpr hnone
        | append_singleton ps m ih =>
          obtain ⟨replies₁, l₁, h₁⟩ := handleAll_of_prefix hps h
          have hbefore := ih ((List.prefix_append ps [m]).trans hps)
          exact (announced_concat_iff hs hst h₁ hbefore).mpr (hall ps m hps)
    · intro ps m _ hrevises
      exact hrevises.early

end Lobby

/-- The kings stand in the corners, and each is within reach of a rook. -/
def Opening.facing : Opening where
  board := .ofRows [List.replicate 7 none ++ [some (.fresh .king .black)], [],
    [some (.fresh .rook .black)], [], [], List.replicate 7 none ++ [some (.fresh .rook .white)], [],
    [some (.fresh .king .white)]]
  phase := .werera
  turn := .white
  moveCount := 0

def Move.kingTaken : Move := ⟨.numbered 4, ⟨5, 7⟩, ⟨0, 7⟩, .white, .rook, some .king, 10⟩

/-- Black's king has stepped aside before. -/
def Move.kingAside : Move := ⟨.numbered 5, ⟨0, 7⟩, ⟨0, 6⟩, .black, .king, none, 5⟩

namespace Session

def facing : Session := start (.numbered 1) .senterej (friendly .senterej).seats .facing

private theorem exists_standing_facing :
    ∃ st, facing.standing = .ok st ∧ st.phase.isComplete = false :=
  ⟨_, standing_of_log_empty rfl rfl, by decide +kernel⟩

private theorem ending?_kingTaken :
    (facing.logAll [.kingTaken]).ending? = some ⟨.kingCaptured, some .white⟩ := by
  rw [ending?_of_isCanonical (MoveLog.isCanonical_foldl_insert MoveLog.isCanonical_empty _)]
  decide +kernel

private theorem ending?_kingAside : (facing.logAll [.kingTaken, .kingAside]).ending? = none := by
  rw [ending?_of_isCanonical (MoveLog.isCanonical_foldl_insert MoveLog.isCanonical_empty _)]
  decide +kernel

end Session

namespace Lobby

open Message

def hostingFacing : Lobby := (empty {}).adopt .facing

private theorem find?_hostingFacing : hostingFacing.find? Session.facing.id = some .facing :=
  find?_adopt_self rfl

theorem announced_kingTaken :
    hostingFacing.find? Session.facing.id = some .facing ∧
      (∃ st, Session.facing.standing = .ok st ∧ st.phase.isComplete = false) ∧
      hostingFacing.Announced (.numbered 9) Session.facing.id [.kingTaken] := by
  obtain ⟨st, hst, hlive⟩ := Session.exists_standing_facing
  refine ⟨find?_hostingFacing, ⟨st, hst, hlive⟩, ?_⟩
  obtain ⟨htotal, hall⟩ := announced_iff_not_revises (.numbered 9) find?_hostingFacing hst hlive
  obtain ⟨replies, l', h⟩ := htotal [.kingTaken] (by decide) (by decide)
  refine (hall _ _ _ h).2.2.1.mpr ?_ _ List.prefix_rfl
  intro ps m hps hrevises
  obtain ⟨rfl, -⟩ : ps = [] ∧ m = .kingTaken := by
    obtain ⟨ns, hns⟩ := hps
    cases ps with
    | nil => exact ⟨rfl, (List.cons.inj hns).1⟩
    | cons a ps => simp at hns
  rw [Session.logAll_nil, Session.Revises, Session.ending?_of_live hst hlive] at hrevises
  exact absurd hrevises.1 Bool.noConfusion

/-- The game is announced to have ended, the move that saves the king comes late, and the game goes on
without a word. -/
theorem kingTaken_revised :
    hostingFacing.find? Session.facing.id = some .facing ∧
      (∃ st, Session.facing.standing = .ok st ∧ st.phase.isComplete = false) ∧
      (∀ m ∈ [Move.kingTaken, .kingAside], m.OnBoard) ∧
      ∃ replies l' st, hostingFacing.handleAll (.numbered 9)
          (published Session.facing.id [.kingTaken, .kingAside]) = .ok (replies, l') ∧
        lastAnnounced replies = some ⟨.kingCaptured, some .white⟩ ∧
        l'.standing Session.facing.id = .ok st ∧ st.ending = none := by
  obtain ⟨st, hst, hlive⟩ := Session.exists_standing_facing
  have hboard : ∀ m ∈ [Move.kingTaken, .kingAside], m.OnBoard := by decide
  refine ⟨find?_hostingFacing, ⟨st, hst, hlive⟩, hboard, ?_⟩
  obtain ⟨replies, l', h⟩ := exists_handleAll_of_live (.numbered 9) find?_hostingFacing hst hlive
    hboard (by decide)
  have hfirst : [Move.kingTaken] <+: [.kingTaken, .kingAside] := ⟨[.kingAside], rfl⟩
  obtain ⟨replies₁, l₁, h₁⟩ := handleAll_of_prefix hfirst h
  have hstart : hostingFacing.handleAll (.numbered 9) (published Session.facing.id []) =
      .ok ([], hostingFacing) := rfl
  have hbefore : lastAnnounced replies₁ = some ⟨.kingCaptured, some .white⟩ := by
    rw [lastAnnounced_concat find?_hostingFacing hst hstart h₁,
      Session.logAll_nil, Session.ending?_of_live hst hlive, List.nil_append,
      Session.ending?_kingTaken]
    rfl
  have hlast : lastAnnounced replies = some ⟨.kingCaptured, some .white⟩ := by
    rw [lastAnnounced_concat find?_hostingFacing hst h₁ h, Session.ending?_kingTaken, hbefore]
    rfl
  obtain ⟨hs', ⟨st', hst'⟩, -⟩ := handleAll_published find?_hostingFacing hst h
  have hending := Session.ending?_kingAside
  rw [Session.ending?_of_standing hst'] at hending
  exact ⟨replies, l', st', h, hlast,
    (standing_eq_ok_of_find? (s := Session.facing.logAll _) hs').mpr hst', hending⟩

end Lobby

end WereraChess
