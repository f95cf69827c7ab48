import WereraChess.Proofs.Declarations
import WereraChess.Proofs.KingSafety
import WereraChess.Proofs.Messages
/-!
# Delivery in any order

Two lobbies that hold the same session and hear the same moves, resignations and timeouts of it, each
in an order of its own. No such message faults. They come to one standing exactly if the order cannot
show.
-/
namespace WereraChess

open Message

theorem Session.Playable.told {s : Session} {m : Message} {n : Nat} {id : Uuid}
    (h : s.Playable ((records [m]).length + n)) (hm : m.Tells id) :
    (s.told m).Playable n := by
  have hdeclared (e : Ending) (h : s.Playable (0 + n)) : (s.declared e).Playable n := by
    rw [declared_eq]
    rw [Nat.zero_add] at h
    exact ⟨h.onBoard, h.room⟩
  cases hm with
  | moved hx => exact Playable.logged (by rwa [Nat.add_comm]) hx
  | resigned side => exact hdeclared _ h
  | timedOut side => exact hdeclared _ h

namespace Lobby

variable {l l' : Lobby} {fresh : Uuid} {s : Session} {m : Message} {ms : List Message}

private theorem handle_declaration (l : Lobby) (fresh : Uuid) {e : Ending}
    (h : m.declaration? = some e) : l.handle fresh m = do
      let (e, l) ← l.update m.sessionId fun s => s.declare e
      return (some (.gameEnded m.sessionId e), l) := by
  cases m with
  | resigned id side | timedOut id side =>
    obtain rfl := Option.some.inj h
    rfl
  | _ => simp [declaration?] at h

private theorem deliver_declaration {e : Ending} (h : m.declaration? = some e)
    (hid : m.sessionId = s.id) (hs : l.find? s.id = some s) (hr : ∃ r, s.replayed = .ok r) :
    l.deliver fresh m = .ok (l.adopt (s.declared e)) := by
  obtain ⟨r, hr⟩ := hr
  have hhandle := handle_declaration l fresh h
  rw [update_of_find? (hid ▸ hs)] at hhandle
  rcases Session.declare_of_replayed (e := e) hr with hok | ⟨⟨refusal, hrefused⟩, hsame⟩
  · rw [hok] at hhandle
    rw [deliver, hhandle]
    rfl
  · rw [hsame, adopt_of_find? hs]
    rw [hrefused] at hhandle
    exact deliver_of_refused hhandle

theorem deliver_told (fresh : Uuid) (hm : m.Tells s.id) (hs : l.find? s.id = some s)
    (hplay : s.Playable (records [m]).length) :
    l.deliver fresh m = .ok (l.adopt (s.told m)) := by
  cases hm with
  | @moved x hx =>
    have hlogged : (s.logged x).Playable 0 := hplay.logged hx
    exact deliver_of_handled (.movePublished hs hplay.standing hx.text fun _ => hlogged.standing)
  | resigned side => exact deliver_declaration rfl rfl hs hplay.replayed
  | timedOut side => exact deliver_declaration rfl rfl hs hplay.replayed

/-- The lobby after messages in the order of the list. -/
def deliverAll (l : Lobby) (fresh : Uuid) (ms : List Message) : Except Fault Lobby :=
  ms.foldlM (fun l m => l.deliver fresh m) l

theorem deliverAll_told (fresh : Uuid) (hms : ∀ m ∈ ms, m.Tells s.id)
    (hs : l.find? s.id = some s) (hplay : s.Playable (records ms).length) :
    ∃ l', l.deliverAll fresh ms = .ok l' ∧ l'.find? s.id = some (s.toldAll ms) ∧
      (s.toldAll ms).Playable 0 := by
  induction ms generalizing l s with
  | nil => exact ⟨l, rfl, hs, hplay⟩
  | cons m ms ih =>
    obtain ⟨hm, hms⟩ := List.forall_mem_cons.mp hms
    rw [Session.records_cons, List.length_append] at hplay
    have hid : (s.told m).id = s.id := by rw [Session.told_eq]; rfl
    have hroom := hplay.room
    have hstep := deliver_told fresh hm hs ⟨hplay.onBoard, by omega⟩
    rw [← hid] at hms
    obtain ⟨l', hl', hs', hplay'⟩ := ih hms (find?_adopt_self rfl) (hplay.told hm)
    rw [hid] at hs'
    exact ⟨l', bind_eq_ok.mpr ⟨_, hstep, hl'⟩, hs', hplay'⟩

private theorem deliverAll_declarations (fresh : Uuid) {e : Ending} (hms : ∀ m ∈ ms, m.Tells s.id)
    (hs : l.find? s.id = some s) (hplay : s.Playable 0) (hnone : s.resolution = none)
    (hlive : s.isOver = false) (hrecords : records ms = []) (he : (declarations ms).head? = some e) :
    ∃ l' st, l.deliverAll fresh ms = .ok l' ∧ l'.standing s.id = .ok st ∧ st.ending = some e := by
  have hlength : (records ms).length = 0 := by rw [hrecords, List.length_nil]
  obtain ⟨l', hl', hs', -⟩ := deliverAll_told fresh hms hs (hlength ▸ hplay)
  obtain ⟨r, hr⟩ := hplay.replayed
  have hresolution : (s.toldAll ms).resolution = some e := by
    rw [Session.resolution_toldAll_of_live hnone _, he]
    intro rs hrs
    rw [hrecords, List.subset_nil] at hrs
    rw [hrs]
    exact hlive
  have hst := Session.standing_toldAll (s := s) (r := r) (by rw [hrecords]; exact hr)
  rw [hresolution] at hst
  refine ⟨l', _, hl', (standing_eq_ok_of_find? hs').mpr hst, ?_⟩
  exact Session.ending_elim_declare (Session.ending_of_not_isOver hr hlive) (some e)

/-- Lobbies that hold the same session come to one standing in whatever order they are told of moves,
resignations and timeouts exactly if the order cannot show. None of the messages faults, and there is
always a standing. -/
theorem deliverAll_standing_iff (hms : ∀ m ∈ ms, m.Tells s.id)
    (hids : ((records ms).map Move.id).Nodup) (hplay : s.Playable (records ms).length) :
    (∀ l fresh ns, l.find? s.id = some s → ns.Perm ms →
      ∃ l' st, deliverAll l fresh ns = .ok l' ∧ l'.standing s.id = .ok st) ∧
    ((∃ st, ∀ l fresh ns, l.find? s.id = some s → ns.Perm ms →
      ∃ l', deliverAll l fresh ns = .ok l' ∧ l'.standing s.id = .ok st) ↔ s.OrderFree ms) := by
  have htold (l : Lobby) (fresh : Uuid) (ns : List Message) (hs : l.find? s.id = some s)
      (hns : ns.Perm ms) : ∃ l', l.deliverAll fresh ns = .ok l' ∧
        ∀ st, l'.standing s.id = .ok st ↔ (s.toldAll ns).standing = .ok st := by
    have hlen : (records ns).length = (records ms).length := (hns.filterMap record?).length_eq
    obtain ⟨l', hl', hs', -⟩ :=
      deliverAll_told fresh (fun m hm => hms m (hns.subset hm)) hs (hlen ▸ hplay)
    exact ⟨l', hl', fun st => standing_eq_ok_of_find? hs'⟩
  have hholds : ((empty {}).adopt s).find? s.id = some s := find?_adopt_self rfl
  obtain ⟨-, -, -, hplay'⟩ := deliverAll_told s.id hms hholds hplay
  obtain ⟨r, hr⟩ := hplay'.replayed
  rw [Session.replayed_toldAll] at hr
  refine ⟨fun l fresh ns hs hns => ?_, fun ⟨st, hst⟩ => ?_, fun h => ?_⟩
  · obtain ⟨l', hl', hst⟩ := htold l fresh ns hs hns
    have hr' := (Session.replayed_logAll_perm hids hns).trans hr
    exact ⟨l', _, hl', (hst _).mpr (Session.standing_toldAll hr')⟩
  · have hsame (ns : List Message) (hns : ns.Perm ms) : (s.toldAll ns).standing = .ok st := by
      obtain ⟨l', hl', hst'⟩ := htold _ s.id ns hholds hns
      obtain ⟨l'', hl'', hst''⟩ := hst _ s.id ns hholds hns
      obtain rfl := Except.ok.inj (hl'.symm.trans hl'')
      exact (hst' st).mp hst''
    exact Session.orderFree_of_standing hids hr hsame
  · obtain ⟨st, hst⟩ := h.exists_standing hids hr
    refine ⟨st, fun l fresh ns hs hns => ?_⟩
    obtain ⟨l', hl', hst'⟩ := htold l fresh ns hs hns
    exact ⟨l', hl', (hst' st).mpr (hst ns hns)⟩

end Lobby

def Move.rookMate : Move := ⟨.numbered 4, ⟨5, 0⟩, ⟨0, 0⟩, .white, .rook, none, 10⟩

namespace Session

def mated : Session := backRow.logged .rookMate

theorem log_mated : mated.log.moves = [.rookMate] :=
  congrArg MoveLog.moves (MoveLog.insert_empty _)

private theorem replayed_mated : ∃ r, mated.replayed = .ok r ∧ r.phase = .complete .checkmate := by
  have hphase : mated.replayed.toOption.map (·.phase) = some (.complete .checkmate) := by
    rw [mated, replayed_logged_of_log_empty rfl]
    decide +kernel
  cases hr : mated.replayed with
  | error f => simp [hr, Except.toOption] at hphase
  | ok r =>
    rw [hr] at hphase
    exact ⟨r, rfl, Option.some.inj hphase⟩

theorem isOver_mated : mated.isOver = true := by
  obtain ⟨r, hr, hphase⟩ := replayed_mated
  rw [isOver_of_replayed hr, hphase]
  rfl

theorem not_isOver_friendly : (friendly .standard).isOver = false := by
  have hr : (friendly .standard).replayed =
      .ok ((Course.start .standard {} (.initial .standard)).standing .standard) := replay_nil ..
  rw [isOver_of_replayed hr]
  decide +kernel

end Session

def Message.mateAndResignation : List Message :=
  [.movePublished (.numbered 1) .rookMate, .resigned (.numbered 1) .white]

/-- A side resigns, and then the other. -/
def Message.resignations (side : Side) : List Message :=
  [.resigned (.numbered 1) side, .resigned (.numbered 1) side.opponent]

namespace Lobby

def hostingFriendly : Lobby := (empty {}).adopt (.friendly .standard)

theorem find?_hostingFriendly :
    hostingFriendly.find? (Session.friendly .standard).id = some (.friendly .standard) :=
  find?_adopt_self rfl

theorem deliverAll_mate :
    (∀ m ∈ mateAndResignation, m.Tells Session.backRow.id) ∧
      ((records mateAndResignation).map Move.id).Nodup ∧
      Session.backRow.Playable (records mateAndResignation).length ∧
      ∃ st, st.phase = .complete .checkmate ∧ ∀ l fresh ns,
        l.find? Session.backRow.id = some .backRow → ns.Perm mateAndResignation →
        ∃ l', deliverAll l fresh ns = .ok l' ∧ l'.standing Session.backRow.id = .ok st := by
  have htells : ∀ m ∈ mateAndResignation, m.Tells Session.backRow.id := by
    refine List.forall_mem_cons.mpr ⟨.moved (by decide), List.forall_mem_singleton.mpr ?_⟩
    exact .resigned .white
  have hids : ((records mateAndResignation).map Move.id).Nodup := by decide
  have hplay : Session.backRow.Playable (records mateAndResignation).length :=
    Session.playable_of_log_empty rfl (by decide)
  obtain ⟨r, hr, hmate⟩ := Session.replayed_mated
  have hending : r.ending.isSome = true := by
    rw [← Session.isComplete_eq_isSome_ending rfl hr, hmate]
    rfl
  obtain ⟨st, hst⟩ := (deliverAll_standing_iff htells hids hplay).2.mpr (.ended Session.isOver_mated)
  refine ⟨htells, hids, hplay, st, ?_, hst⟩
  have hholds : ((empty {}).adopt Session.backRow).find? Session.backRow.id = some .backRow :=
    find?_adopt_self rfl
  obtain ⟨l', hl', hst'⟩ := hst _ (.numbered 9) _ hholds (.refl _)
  obtain ⟨l'', hl'', hs', -⟩ := deliverAll_told (.numbered 9) htells hholds hplay
  obtain rfl := Except.ok.inj (hl'.symm.trans hl'')
  have heq := (standing_eq_ok_of_find? hs').mp hst'
  have hr' : (Session.backRow.logAll (records mateAndResignation)).replayed = .ok r := hr
  rw [Session.standing_toldAll hr', Session.elim_declare_of_ending hending] at heq
  rw [← Except.ok.inj heq, hmate]

theorem resignations_differ :
    ∃ l₁ l₂ st₁ st₂, hostingFriendly.find? (Session.friendly .standard).id =
        some (.friendly .standard) ∧
      (∀ side, ∀ m ∈ resignations side, m.Tells (Session.friendly .standard).id) ∧
      ((records (resignations .white)).map Move.id).Nodup ∧
      (resignations .black).Perm (resignations .white) ∧
      hostingFriendly.deliverAll (.numbered 9) (resignations .white) = .ok l₁ ∧
      hostingFriendly.deliverAll (.numbered 9) (resignations .black) = .ok l₂ ∧
      l₁.standing (Session.friendly .standard).id = .ok st₁ ∧
      l₂.standing (Session.friendly .standard).id = .ok st₂ ∧
      st₁.ending = some (.resignation .white) ∧ st₂.ending = some (.resignation .black) := by
  have htells (side : Side) : ∀ m ∈ resignations side, m.Tells (Session.friendly .standard).id :=
    List.forall_mem_cons.mpr ⟨.resigned side, List.forall_mem_singleton.mpr (.resigned _)⟩
  have hfirst (side : Side) := deliverAll_declarations (.numbered 9) (htells side)
    find?_hostingFriendly (Session.playable_of_log_empty rfl (by decide)) rfl
    Session.not_isOver_friendly rfl (e := .resignation side) rfl
  obtain ⟨l₁, st₁, hl₁, hst₁, hwhite⟩ := hfirst .white
  obtain ⟨l₂, st₂, hl₂, hst₂, hblack⟩ := hfirst .black
  exact ⟨l₁, l₂, st₁, st₂, find?_hostingFriendly, htells, List.nodup_nil, by decide, hl₁, hl₂,
    hst₁, hst₂, hwhite, hblack⟩

end Lobby

end WereraChess
