import Mathlib.Data.List.Perm.Subperm
import WereraChess.Proofs.InPlace
import WereraChess.Proofs.Printout
/-!
# Scripts followed from elsewhere

The messages that a script prints bring the game to any lobby that knows the session it began with.
The records of the accepted entries have different identifiers, so they make one log in whatever order
and how often they come; and a log of some of them is never longer than all, so no replay on the way
runs out of room.
-/
namespace WereraChess

namespace Session

variable {s : Session} {rs ps : List Move}

private theorem mem_log_logAll (hlog : s.log = .empty) {x : Move}
    (hx : x ∈ (s.logAll rs).log.moves) : x ∈ rs := by
  change x ∈ (rs.foldl MoveLog.insert s.log).moves at hx
  rw [hlog, MoveLog.mem_foldl_insert_iff] at hx
  rcases hx with hx | ⟨-, hfirst⟩
  · exact absurd hx List.not_mem_nil
  · exact hfirst.mem

private theorem length_log_logAll_le (hlog : s.log = .empty) (hps : ps ⊆ rs) :
    (s.logAll ps).log.moves.length ≤ rs.length := by
  have hcanonical : Move.IsCanonical (s.logAll ps).log.moves := by
    change Move.IsCanonical (ps.foldl MoveLog.insert s.log).moves
    rw [hlog]
    exact MoveLog.isCanonical_foldl_insert MoveLog.isCanonical_empty ps
  have hnodup : (s.logAll ps).log.moves.Nodup := hcanonical.distinct.of_map Move.id
  exact (List.subperm_of_subset hnodup fun x hx => hps (mem_log_logAll hlog hx)).length_le

private theorem exists_standing_logAll (hlog : s.log = .empty) (hrs : ∀ m ∈ rs, m.OnBoard)
    (hroom : s.opening.moveCount.toNat + rs.length < UInt32.size) (hps : ps ⊆ rs) :
    ∃ st, (s.logAll ps).standing = .ok st := by
  have hlength := length_log_logAll_le hlog hps
  apply standing_total
  · intro m hm
    exact hrs m (hps (mem_log_logAll hlog hm))
  · change s.opening.moveCount.toNat + _ < _
    omega

private theorem standing_logAll_congr (hids : (rs.map Move.id).Nodup) (h : ∀ x, x ∈ rs ↔ x ∈ ps) :
    (s.logAll ps).standing = (s.logAll rs).standing := by
  have hreplayed : (s.logAll rs).replayed = (s.logAll ps).replayed :=
    replayed_logAll_congr (List.inj_on_of_nodup_map hids) h
  rw [standing, standing, hreplayed]
  rfl

end Session

namespace Lobby

open Message

variable {l : Lobby} {s : Session} {rs : List Move} {ms : List Message}

private theorem exists_published {id : Uuid} (h : ∀ m, m ∈ ms ↔ m ∈ published id rs) :
    ∃ ps, ms = published id ps ∧ ∀ x, x ∈ rs ↔ x ∈ ps := by
  have hpublished (m : Message) (hm : m ∈ ms) : m.record?.map (movePublished id) = some m := by
    obtain ⟨r, -, rfl⟩ := List.mem_map.mp ((h m).mp hm)
    rfl
  have hms : ms = published id (records ms) := by
    rw [published, records, List.map_filterMap, List.filterMap_congr hpublished, List.filterMap_some]
  generalize records ms = ps at hms
  subst hms
  refine ⟨ps, rfl, ?_⟩
  intro x
  have hmem (rs : List Move) : movePublished id x ∈ published id rs ↔ x ∈ rs := by
    rw [published, List.mem_map_of_injective]
    intro r r' heq
    exact (Message.movePublished.inj heq).2
  rw [← hmem rs, ← h, hmem]

/-- A lobby with a new session handles published records in whatever order and how often, and comes to
the standing that they lead to. -/
theorem exists_handleAll_congr (fresh : Uuid) (hs : l.find? s.id = some s) (hlog : s.log = .empty)
    (hrs : ∀ m ∈ rs, m.OnBoard) (hids : (rs.map Move.id).Nodup)
    (hroom : s.opening.moveCount.toNat + rs.length < UInt32.size)
    (hms : ∀ m, m ∈ ms ↔ m ∈ published s.id rs) :
    ∃ replies l' t, l.handleAll fresh ms = .ok (replies, l') ∧ l'.find? s.id = some t ∧
      t.standing = (s.logAll rs).standing := by
  obtain ⟨ps, rfl, hmem⟩ := exists_published hms
  have hps : ps ⊆ rs := fun x hx => (hmem x).mpr hx
  have hstanding {qs : List Move} (hqs : qs <+: ps) : ∃ st, (s.logAll qs).standing = .ok st :=
    Session.exists_standing_logAll hlog hrs hroom fun x hx => hps (hqs.subset hx)
  obtain ⟨replies, l', h⟩ := exists_handleAll_published fresh hs (fun m hm => hrs m (hps hm))
    fun qs hqs => hstanding hqs
  obtain ⟨st, hst⟩ := hstanding List.nil_prefix
  obtain ⟨hs', -, -⟩ := handleAll_published hs hst h
  exact ⟨replies, l', s.logAll ps, h, hs', Session.standing_logAll_congr hids hmem⟩

private theorem line_of_find? {id : Uuid} {st : Standing} {a : Alphabet} (hs : l.find? id = some s)
    (hst : s.standing = .ok st) : l.line id a = .ok (st.fen a).line := by
  rw [line, get_eq_ok.mpr hs]
  change (liftM (s.line a) : Except Failure String) = _
  rw [Session.line, hst]
  rfl

end Lobby

namespace Script

open Message

/-- Whoever reads the text of a script finds in it the records of its accepted entries, and after
them the standing they lead to with its position line. A lobby that knows the session as it began
comes to this standing and this line once it has handled the messages, in whatever order and how often
they come. -/
theorem play_relayed {s : Script} {ids : Nat → Uuid} {now : UInt64} {rules : HouseRules}
    {v : Variant} {a : Alphabet} {s₀ : Session} {p : Performance} {out : String}
    (hopening : s.opening? ids rules v = .ok s₀) (hplay : s.play ids now rules v = .ok p)
    (htext : p.text a true = .ok out)
    (hroom : s₀.opening.moveCount.toNat + s.entries.length < UInt32.size)
    (hids : ((List.range' 4 s.entries.length).map ids).Nodup) :
    readMoves out = Lobby.published s₀.id p.records ∧
      ∃ st, p.session.standing = .ok st ∧ (∃ top, out = top ++ st.report a) ∧
        (∃ top, out = top ++ "fen:     " ++ (st.fen a).line ++ "\n") ∧
        ∀ (l : Lobby) (fresh : Uuid) (seats : Seats) (ms : List Message),
          l.find? s₀.id = some { s₀ with seats } → (∀ m, m ∈ ms ↔ m ∈ readMoves out) →
          ∃ replies l', l.handleAll fresh ms = .ok (replies, l') ∧ l'.standing s₀.id = .ok st ∧
            l'.line s₀.id a = .ok (st.fen a).line := by
  obtain ⟨hp, hlength⟩ := play_follows hopening hplay
  obtain ⟨hlog, hnone⟩ := opening?_fresh hopening
  obtain ⟨hmoves, top, st, hst, hout⟩ := Performance.readMoves_text hp htext
  have hcount : p.records.length ≤ s.entries.length := by
    rw [← hlength]
    exact List.length_filterMap_le ..
  have hnodup : (p.records.map Move.id).Nodup := by
    rw [hp.fresh]
    have hfirst : List.range' 4 p.records.length <+: List.range' 4 s.entries.length := by
      obtain ⟨k, hk⟩ := Nat.exists_eq_add_of_le hcount
      rw [hk, ← List.range'_append_1]
      exact List.prefix_append _ _
    exact (hfirst.sublist.map ids).nodup hids
  refine ⟨hmoves, st, hst, ⟨top, hout⟩, ?_, ?_⟩
  · refine ⟨top ++ (st.board.diagram a ++ "\n" ++ st.summary), ?_⟩
    rw [hout]
    unfold Standing.report
    simp only [String.append_assoc]
  · intro l fresh seats ms hs hms
    rw [hmoves] at hms
    have hroom' : s₀.opening.moveCount.toNat + p.records.length < UInt32.size := by omega
    obtain ⟨replies, l', t, h, ht, hstanding⟩ := Lobby.exists_handleAll_congr
      (s := { s₀ with seats }) fresh hs hlog hp.onBoard hnodup hroom' hms
    have hsame : (({ s₀ with seats } : Session).logAll p.records).standing = .ok st := by
      rw [← hst, hp.session]
      rfl
    rw [hsame] at hstanding
    exact ⟨replies, l', h, (Lobby.standing_eq_ok_of_find? ht).mpr hstanding,
      Lobby.line_of_find? ht hstanding⟩

/-- White's first pawn steps forward and Black's last one answers. In between White's hand has gone to
an empty square. -/
def fumbled : Script :=
  ⟨none, none, [⟨.white, "a2", "a3", some 10⟩, ⟨.white, "a4", "a5", some 15⟩,
    ⟨.black, "h7", "h6", some 20⟩]⟩

def still : Session :=
  .create (.numbered 3) .senterej ⟨.numbered 1, "white"⟩ ⟨.numbered 2, "black"⟩

def stepUp : Move := ⟨.numbered 4, ⟨6, 0⟩, ⟨5, 0⟩, .white, .pawn, none, 10⟩

def stepDown : Move := ⟨.numbered 5, ⟨1, 7⟩, ⟨2, 7⟩, .black, .pawn, none, 20⟩

private theorem log_stepUp : (still.logged stepUp).log = ⟨[stepUp]⟩ := MoveLog.insert_empty stepUp

private theorem exists_submit_stepUp : ∃ a, still.submit (.numbered 4) .white
    (⟨6, 0⟩ : Square).coord (⟨5, 0⟩ : Square).coord 10 = .ok (a, still.logged stepUp) ∧
      a.move = stepUp := by
  refine Session.exists_submit_of_checked ?_ nofun (by decide)
  rw [Session.checked, Session.standing_of_log_empty rfl rfl]
  decide

private theorem submit_emptyHand : (still.logged stepUp).submit (.numbered 5) .white
    (⟨4, 0⟩ : Square).coord (⟨3, 0⟩ : Square).coord 15 =
      .error (.refused (.illegalMove ⟨4, 0⟩ ⟨3, 0⟩ .noPiece)) := by
  have hchecked : (still.logged stepUp).checked (.numbered 5) .white (⟨4, 0⟩ : Square).coord
      (⟨3, 0⟩ : Square).coord 15 = .error (.refused (.illegalMove ⟨4, 0⟩ ⟨3, 0⟩ .noPiece)) := by
    rw [Session.checked, Session.standing, Session.replayed_logged_of_log_empty rfl]
    rfl
  rw [Session.submit_eq, hchecked]
  rfl

private theorem exists_submit_stepDown : ∃ a, (still.logged stepUp).submit (.numbered 5) .black
    (⟨1, 7⟩ : Square).coord (⟨2, 7⟩ : Square).coord 20 =
      .ok (a, (still.logged stepUp).logged stepDown) ∧ a.move = stepDown := by
  refine Session.exists_submit_of_checked ?_ ?_ ?_
  · rw [Session.checked, Session.standing, Session.replayed_logged_of_log_empty rfl]
    decide
  · rw [log_stepUp]
    decide
  · rw [log_stepUp]
    decide

theorem exists_text_fumbled : ∃ p out a b, fumbled.play .numbered 0 {} .senterej = .ok p ∧
    p.text .shared true = .ok out ∧
    p.events = [⟨1, ⟨6, 0⟩, ⟨5, 0⟩, .ok a⟩,
      ⟨2, ⟨4, 0⟩, ⟨3, 0⟩, .error (.illegalMove ⟨4, 0⟩ ⟨3, 0⟩ .noPiece)⟩,
      ⟨3, ⟨1, 7⟩, ⟨2, 7⟩, .ok b⟩] ∧ a.move = stepUp ∧ b.move = stepDown := by
  obtain ⟨a, ha, hup⟩ := exists_submit_stepUp
  obtain ⟨b, hb, hdown⟩ := exists_submit_stepDown
  let first : Event := ⟨1, ⟨6, 0⟩, ⟨5, 0⟩, .ok a⟩
  let second : Event := ⟨2, ⟨4, 0⟩, ⟨3, 0⟩, .error (.illegalMove ⟨4, 0⟩ ⟨3, 0⟩ .noPiece)⟩
  let third : Event := ⟨3, ⟨1, 7⟩, ⟨2, 7⟩, .ok b⟩
  have hfirst : (⟨still, 3, []⟩ : Performance).submit .numbered 0 1 ⟨.white, "a2", "a3", some 10⟩ =
      .ok ⟨still.logged stepUp, 4, [first]⟩ :=
    Performance.submit_eq_ok.mpr ⟨⟨6, 0⟩, ⟨5, 0⟩, rfl, rfl, .inl ⟨_, _, ha, rfl⟩⟩
  have hsecond : (⟨still.logged stepUp, 4, [first]⟩ : Performance).submit .numbered 0 2
      ⟨.white, "a4", "a5", some 15⟩ = .ok ⟨still.logged stepUp, 4, [first, second]⟩ :=
    Performance.submit_eq_ok.mpr ⟨⟨4, 0⟩, ⟨3, 0⟩, rfl, rfl, .inr ⟨_, submit_emptyHand, rfl⟩⟩
  have hthird : (⟨still.logged stepUp, 4, [first, second]⟩ : Performance).submit .numbered 0 3
      ⟨.black, "h7", "h6", some 20⟩ =
        .ok ⟨(still.logged stepUp).logged stepDown, 5, [first, second, third]⟩ :=
    Performance.submit_eq_ok.mpr ⟨⟨1, 7⟩, ⟨2, 7⟩, rfl, rfl, .inl ⟨_, _, hb, rfl⟩⟩
  have hplay : fumbled.play .numbered 0 {} .senterej = .ok _ :=
    bind_eq_ok.mpr ⟨still, rfl, bind_eq_ok.mpr ⟨_, hfirst,
      bind_eq_ok.mpr ⟨_, hsecond, bind_eq_ok.mpr ⟨_, hthird, rfl⟩⟩⟩⟩
  obtain ⟨-, _, _, _, after, -, -, -, -, hafter, -, hlogged⟩ := Session.submit_eq_ok.mp hb
  rw [← hlogged] at hafter
  have htext : (⟨(still.logged stepUp).logged stepDown, 5, [first, second, third]⟩ :
      Performance).text .shared true = .ok _ :=
    bind_eq_ok.mpr ⟨_, rfl, bind_eq_ok.mpr ⟨after, hafter, rfl⟩⟩
  exact ⟨_, _, a, b, hplay, htext, rfl, hup, hdown⟩

/-- Black's step is heard of before White's and once more after it. -/
theorem play_relayed_fumbled : ∃ p out, fumbled.opening? .numbered {} .senterej = .ok still ∧
    fumbled.play .numbered 0 {} .senterej = .ok p ∧ p.text .shared true = .ok out ∧
    still.opening.moveCount.toNat + fumbled.entries.length < UInt32.size ∧
    ((List.range' 4 fumbled.entries.length).map Uuid.numbered).Nodup ∧
    p.records = [stepUp, stepDown] ∧ (∃ e ∈ p.events, e.record? = none) ∧
    readMoves out = Lobby.published still.id [stepUp, stepDown] ∧
    ∃ replies l' st, ((Lobby.empty {}).adopt still).handleAll (.numbered 9)
        (Lobby.published still.id [stepDown, stepUp, stepDown]) = .ok (replies, l') ∧
      p.session.standing = .ok st ∧ l'.standing still.id = .ok st ∧
      l'.line still.id .shared = .ok (st.fen .shared).line := by
  obtain ⟨p, out, a, b, hplay, htext, hevents, hup, hdown⟩ := exists_text_fumbled
  have hroom : still.opening.moveCount.toNat + fumbled.entries.length < UInt32.size := by decide
  have hids : ((List.range' 4 fumbled.entries.length).map Uuid.numbered).Nodup := by decide
  have hrecords : p.records = [stepUp, stepDown] := by
    rw [Performance.records, hevents, ← hup, ← hdown]
    rfl
  have hrefused : ∃ e ∈ p.events, e.record? = none := by
    rw [hevents]
    exact ⟨_, .tail _ (.head _), rfl⟩
  obtain ⟨hmoves, st, hst, -, -, hlobby⟩ := play_relayed rfl hplay htext hroom hids
  rw [hrecords] at hmoves
  have hheard (m : Message) : m ∈ Lobby.published still.id [stepDown, stepUp, stepDown] ↔
      m ∈ readMoves out := by
    rw [hmoves]
    simp [Lobby.published, or_comm]
  obtain ⟨replies, l', h, hstanding, hline⟩ := hlobby ((Lobby.empty {}).adopt still) (.numbered 9)
    still.seats _ (Lobby.find?_adopt_self rfl) hheard
  exact ⟨p, out, rfl, hplay, htext, hroom, hids, hrecords, hrefused, hmoves, replies, l', st, h, hst,
    hstanding, hline⟩

end Script

end WereraChess
