import Mathlib.Data.List.Nodup
import WereraChess.Proofs.Relay
/-!
# Scripts without their refused entries

An entry that is refused leaves no trace in the game. Its submission changes neither the session nor
the supply of identifiers, so the entries after it meet the same session whether it was made or not.
A script from which some refused entries are left out is therefore played to the same session, though
its entries are counted anew. What is printed of it has other labels, but the same messages that
publish records and tell of the end, and the same report.
-/
namespace WereraChess

namespace Script

/-- The script without the entries of some numbers. -/
def without (s : Script) (ns : List Nat) : Script :=
  { s with entries := ((s.entries.zipIdx 1).filter (·.2 ∉ ns)).map Prod.fst }

def Event.accepted? (e : Event) : Option Accepted := e.result.toOption

namespace Performance

variable {p p' q : Performance} {ids : Nat → Uuid} {now : UInt64} {ns : List Nat}

/-- What the submitters of the accepted entries learn, in the order of the script. -/
def accepted (p : Performance) : List Accepted := p.events.filterMap Event.accepted?

/-- The numbers of the entries that are reported as rejected. -/
def rejected (p : Performance) : List Nat :=
  (p.events.filter (·.accepted?.isNone)).map Event.number

private theorem exists_event_of_submit {number : Nat} {entry : Entry}
    (h : p.submit ids now number entry = .ok p') :
    ∃ e, e.number = number ∧ p'.events = p.events ++ [e] := by
  obtain ⟨source, target, -, -, ⟨a, session, -, rfl⟩ | ⟨r, -, rfl⟩⟩ := submit_eq_ok.mp h
  · exact ⟨_, rfl, rfl⟩
  · exact ⟨_, rfl, rfl⟩

private theorem numbers_run {entries : List (Entry × Nat)}
    (h : entries.foldlM (fun p (e, number) => p.submit ids now number e) p = .ok p') :
    p.events <+: p'.events ∧
      p'.events.map Event.number = p.events.map Event.number ++ entries.map Prod.snd := by
  induction entries generalizing p with
  | nil =>
    obtain rfl := Except.ok.inj h
    exact ⟨List.prefix_rfl, (List.append_nil _).symm⟩
  | cons entry entries ih =>
    rw [List.foldlM_cons] at h
    obtain ⟨p₁, hp₁, h⟩ := bind_eq_ok.mp h
    obtain ⟨e, he, hevents⟩ := exists_event_of_submit hp₁
    obtain ⟨hfirst, hnumbers⟩ := ih h
    rw [hevents] at hfirst hnumbers
    refine ⟨(List.prefix_append _ _).trans hfirst, ?_⟩
    rw [hnumbers, List.map_append, List.map_singleton, he, List.map_cons, List.append_assoc]
    rfl

private theorem accepted?_of_mem_rejected (hnumbers : (p.events.map Event.number).Nodup) {e : Event}
    (he : e ∈ p.events) (hrejected : e.number ∈ p.rejected) : e.accepted? = none := by
  obtain ⟨e', he', heq⟩ := List.mem_map.mp hrejected
  obtain ⟨hmem, hnone⟩ := List.mem_filter.mp he'
  obtain rfl := List.inj_on_of_nodup_map hnumbers hmem he heq
  exact Option.isNone_iff_eq_none.mp hnone

/-- The two performances have come to the same game, and nothing is refused in the second one that was
not refused in the first one, whatever the entries are called. -/
structure Agrees (p q : Performance) : Prop where
  session : q.session = p.session
  used : q.used = p.used
  accepted : q.accepted = p.accepted
  refusals : ∀ e ∈ q.events, ∀ r, e.result = .error r → ∃ e' ∈ p.events, e'.result = .error r

private theorem Agrees.refl (p : Performance) : Agrees p p where
  session := rfl
  used := rfl
  accepted := rfl
  refusals e he _ hr := ⟨e, he, hr⟩

private theorem Agrees.concat (hpq : Agrees p q) (session : Session) (used : Nat) {e e' : Event}
    (he : e'.result = e.result) :
    Agrees ⟨session, used, p.events ++ [e]⟩ ⟨session, used, q.events ++ [e']⟩ where
  session := rfl
  used := rfl
  accepted := by
    have haccepted : e'.accepted? = e.accepted? := congrArg Except.toOption he
    have hlast : [e'].filterMap Event.accepted? = [e].filterMap Event.accepted? := by
      rw [List.filterMap_cons, List.filterMap_cons, haccepted]
    exact List.filterMap_append.trans
      ((congrArg₂ _ hpq.accepted hlast).trans List.filterMap_append.symm)
  refusals := by
    intro f hf r hr
    rcases List.mem_append.mp hf with hf | hf
    · obtain ⟨f', hf', hr'⟩ := hpq.refusals f hf r hr
      exact ⟨f', List.mem_append_left _ hf', hr'⟩
    · obtain rfl := List.mem_singleton.mp hf
      exact ⟨e, List.mem_concat_self, he.symm.trans hr⟩

private theorem Agrees.submit (hpq : Agrees p q) (now' : UInt64) {number : Nat} (number' : Nat)
    {entry : Entry} (htime : entry.timestamp.isSome) (h : p.submit ids now number entry = .ok p') :
    ∃ q', q.submit ids now' number' entry = .ok q' ∧ Agrees p' q' := by
  obtain ⟨timestamp, htimestamp⟩ := Option.isSome_iff_exists.mp htime
  obtain ⟨source, target, hsource, htarget, h⟩ := submit_eq_ok.mp h
  obtain ⟨_, _, events⟩ := q
  obtain rfl := hpq.session
  obtain rfl := hpq.used
  rw [htimestamp] at h
  rcases h with ⟨a, session, hsubmit, rfl⟩ | ⟨r, hsubmit, rfl⟩
  · refine ⟨_, submit_eq_ok.mpr ⟨source, target, hsource, htarget, .inl ⟨a, session, ?_, rfl⟩⟩,
      hpq.concat session (p.used + 1) rfl⟩
    rw [htimestamp]
    exact hsubmit
  · refine ⟨_, submit_eq_ok.mpr ⟨source, target, hsource, htarget, .inr ⟨r, ?_, rfl⟩⟩,
      hpq.concat p.session p.used rfl⟩
    rw [htimestamp]
    exact hsubmit

private theorem Agrees.omit (hpq : Agrees p q) {number : Nat} {entry : Entry}
    (h : p.submit ids now number entry = .ok p')
    (hrefused : ∀ e ∈ p'.events, e.number = number → e.accepted? = none) : Agrees p' q := by
  obtain ⟨source, target, -, -, ⟨a, session, -, rfl⟩ | ⟨r, -, rfl⟩⟩ := submit_eq_ok.mp h
  · exact absurd (hrefused _ List.mem_concat_self rfl) nofun
  · refine ⟨hpq.session, hpq.used, ?_, ?_⟩
    · have haccepted : Performance.accepted ⟨p.session, p.used, p.events ++
          [⟨number, source, target, .error r⟩]⟩ = p.accepted :=
        List.filterMap_append.trans (List.append_nil _)
      exact hpq.accepted.trans haccepted.symm
    · intro e he q hq
      obtain ⟨e', he', hr'⟩ := hpq.refusals e he q hq
      exact ⟨e', List.mem_append_left _ he', hr'⟩

/-- Entries of which some refused ones are left out and the others are counted anew come to the same
game. -/
theorem Agrees.run (hpq : Agrees p q) (now' : UInt64) {entries : List (Entry × Nat)} (k : Nat)
    (htimes : ∀ e ∈ entries, e.1.timestamp.isSome)
    (h : entries.foldlM (fun p (e, number) => p.submit ids now number e) p = .ok p')
    (hrefused : ∀ e ∈ p'.events, e.number ∈ ns → e.accepted? = none) :
    ∃ q', (((entries.filter (·.2 ∉ ns)).map Prod.fst).zipIdx k).foldlM
        (fun p (e, number) => p.submit ids now' number e) q = .ok q' ∧ Agrees p' q' := by
  induction entries generalizing p q k with
  | nil =>
    obtain rfl := Except.ok.inj h
    exact ⟨q, rfl, hpq⟩
  | cons entry entries ih =>
    obtain ⟨htime, htimes⟩ := List.forall_mem_cons.mp htimes
    rw [List.foldlM_cons] at h
    obtain ⟨p₁, hp₁, h⟩ := bind_eq_ok.mp h
    by_cases hmem : entry.2 ∈ ns
    -- The second run stays where it is, and its next entry still gets the number `k`.
    · have hfirst : p₁.events <+: p'.events := (numbers_run h).1
      have hp₁q : Agrees p₁ q := by
        refine hpq.omit hp₁ fun e he hnumber => hrefused e (hfirst.subset he) ?_
        rwa [hnumber]
      obtain ⟨q', hq', hagrees⟩ := ih hp₁q k htimes h
      refine ⟨q', ?_, hagrees⟩
      rwa [List.filter_cons_of_neg (by simpa using hmem)]
    · obtain ⟨q₁, hq₁, hp₁q₁⟩ := hpq.submit now' k htime hp₁
      obtain ⟨q', hq', hagrees⟩ := ih hp₁q₁ (k + 1) htimes h
      refine ⟨q', ?_, hagrees⟩
      rw [List.filter_cons_of_pos (by simpa using hmem), List.map_cons, List.zipIdx_cons,
        List.foldlM_cons]
      exact bind_eq_ok.mpr ⟨q₁, hq₁, hq'⟩

end Performance

theorem play_without_agrees {s : Script} {ids : Nat → Uuid} {now : UInt64} {rules : HouseRules}
    {v : Variant} {ns : List Nat} {p : Performance} (now' : UInt64)
    (htimes : ∀ e ∈ s.entries, e.timestamp.isSome) (h : s.play ids now rules v = .ok p)
    (hns : ns ⊆ p.rejected) :
    ∃ q, (s.without ns).play ids now' rules v = .ok q ∧ p.Agrees q := by
  obtain ⟨s₀, hs₀, h⟩ := bind_eq_ok.mp h
  have hnumbers : (p.events.map Event.number).Nodup := by
    rw [(Performance.numbers_run h).2, List.zipIdx_map_snd]
    exact List.nodup_range'
  have hentries (e : Entry × Nat) (he : e ∈ s.entries.zipIdx 1) : e.1.timestamp.isSome :=
    htimes e.1 (List.fst_mem_of_mem_zipIdx he)
  obtain ⟨q, hq, hpq⟩ := (Performance.Agrees.refl ⟨s₀, 3, []⟩).run now' 1 hentries h
    fun e he hmem => Performance.accepted?_of_mem_rejected hnumbers he (hns hmem)
  exact ⟨q, bind_eq_ok.mpr ⟨s₀, hs₀, hq⟩, hpq⟩

end Script

namespace Text

/-- The lines from the first empty one on. -/
def finalPart (text : String) : List String := (lines text).dropWhile (· ≠ "")

end Text

namespace Message

/-- Whether the message publishes a record or tells of the end of a game. -/
def tellsPlay : Message → Bool
  | movePublished _ _ | gameEnded _ _ => true
  | _ => false

/-- Whether the line is a message that publishes a record or tells of the end of a game. -/
def isPlayLine (line : String) : Bool := (JsonForm.ofText? line).any tellsPlay

def playLines (text : String) : List String := (Text.lines text).filter isPlayLine

private theorem isPlayLine_toText (m : Message) : isPlayLine (JsonForm.toText m) = m.tellsPlay := by
  rw [isPlayLine, JsonForm.ofText?_toText_of_lawful]
  rfl

private theorem isPlayLine_of_foreign {line : String} (h : Json.Foreign line) :
    isPlayLine line = false := by
  have hnone := h ""
  rw [String.append_empty] at hnone
  rw [isPlayLine, JsonForm.ofText?, hnone]
  rfl

private theorem playLines_of_carries_nil {text : String} (h : Carries text []) :
    playLines text = [] := by
  have hall : (Text.lines text).filterMap JsonForm.ofText? = ([] : List Message) := h.readAll_eq
  rw [playLines, List.filter_eq_nil_iff]
  intro line hline
  rw [isPlayLine, List.filterMap_eq_nil_iff.mp hall line hline]
  exact Bool.false_ne_true

end Message

namespace Script

open Text Message

/-- The line of a message, if messages are sent. -/
def sent (wire : Bool) (m : Message) : List String := if wire then [JsonForm.toText m] else []

/-- The lines that publish the record of an accepted entry and tell of the end. -/
def playMessages (id : Uuid) (wire : Bool) (a : Accepted) : List String :=
  sent wire (movePublished id a.move) ++ a.ending.toList.flatMap fun e => sent wire (gameEnded id e)

variable {e : Event} {id : Uuid} {wire : Bool} {ls : List String} {m : Message}

private theorem filter_sent :
    (sent wire m).filter isPlayLine = if m.tellsPlay then sent wire m else [] := by
  cases wire with
  | false => simp [sent]
  | true => cases h : m.tellsPlay <;> simp [sent, isPlayLine_toText, h]

private theorem filter_sent_movePublished {r : Move} :
    (sent wire (movePublished id r)).filter isPlayLine = sent wire (movePublished id r) := filter_sent

private theorem filter_sent_gameEnded {ending : Ending} :
    (sent wire (gameEnded id ending)).filter isPlayLine = sent wire (gameEnded id ending) :=
  filter_sent

private theorem filter_sent_moveRejected {reason text : String} :
    (sent wire (moveRejected id reason text)).filter isPlayLine = [] := filter_sent

private theorem mem_sent {line : String} (h : line ∈ sent wire m) : OneLine line ∧ line ≠ "" := by
  cases wire with
  | false => exact absurd h List.not_mem_nil
  | true =>
    obtain rfl := List.mem_singleton.mp h
    refine ⟨JsonForm.oneLine_toText m, ?_⟩
    intro hempty
    have hread : JsonForm.ofText? (JsonForm.toText m) = some m := JsonForm.ofText?_toText_of_lawful m
    have hnone : (JsonForm.ofText? "" : Option Message) = none := by decide
    rw [hempty, hnone] at hread
    exact absurd hread nofun

private theorem Event.note_line (e : Event) {word text : String} (hword : OneLine word)
    (htext : OneLine text) : OneLine (e.label ++ word ++ text) ∧ e.label ++ word ++ text ≠ "" := by
  refine ⟨oneLine_append.mpr ⟨oneLine_append.mpr ⟨e.oneLine_label, hword⟩, htext⟩, ?_⟩
  intro h
  simpa [label] using congrArg String.toList h

private theorem Event.isPlayLine_note (e : Event) (word text : String) :
    isPlayLine (e.label ++ word ++ text) = false :=
  isPlayLine_of_foreign ((e.foreign_label.append word).append text)

private theorem Event.lines_of_ok {a : Accepted} (h : e.result = .ok a) :
    e.lines id wire = .ok (sent wire (movePublished id a.move) ++
      a.ending.toList.flatMap fun ending =>
        (e.label ++ ": " ++ ending.message) :: sent wire (gameEnded id ending)) := by
  rw [lines, h]
  dsimp only
  cases a.ending with
  | none => rfl
  | some ending => simp [sent]

private theorem Event.lines_of_error {r : Refusal} (h : e.result = .error r) :
    e.lines id wire = r.message.map fun text =>
      (e.label ++ " rejected: " ++ text) :: sent wire (moveRejected id r.code text) := by
  rw [lines, h]
  dsimp only
  cases hmessage : r.message with
  | error f => rfl
  | ok text =>
    rw [rejection, hmessage]
    rfl

private theorem Event.lines_spec (h : e.lines id wire = .ok ls)
    (hr : ∀ r, e.result = .error r → r.OfSubmission) :
    (∀ line ∈ ls, OneLine line ∧ line ≠ "") ∧
      ls.filter isPlayLine = e.accepted?.toList.flatMap (playMessages id wire) := by
  have hwords : OneLine ": " ∧ OneLine " rejected: " := by decide
  have hnote (word text : String) : ¬ isPlayLine (e.label ++ word ++ text) = true := by
    rw [e.isPlayLine_note]
    exact Bool.false_ne_true
  cases hresult : e.result with
  | ok a =>
    have haccepted : e.accepted? = some a := congrArg Except.toOption hresult
    rw [lines_of_ok hresult] at h
    obtain rfl := Except.ok.inj h
    constructor
    · intro line hline
      rcases List.mem_append.mp hline with hmove | hended
      · exact mem_sent hmove
      · obtain ⟨ending, -, hmem⟩ := List.mem_flatMap.mp hended
        rcases List.mem_cons.mp hmem with rfl | hmem
        · exact e.note_line hwords.1 ending.oneLine_message
        · exact mem_sent hmem
    · rw [haccepted, Option.toList_some, List.flatMap_singleton, playMessages, List.filter_append,
        filter_sent_movePublished, List.filter_flatMap]
      congr 2
      funext ending
      rw [List.filter_cons_of_neg (hnote _ _), filter_sent_gameEnded]
  | error r =>
    have hnone : e.accepted? = none := congrArg Except.toOption hresult
    rw [lines_of_error hresult] at h
    obtain ⟨text, hmessage, rfl⟩ := map_eq_ok.mp h
    constructor
    · intro line hline
      rcases List.mem_cons.mp hline with rfl | hmem
      · exact e.note_line hwords.2 (Refusal.oneLine_message (hr r hresult) hmessage)
      · exact mem_sent hmem
    · rw [hnone, List.filter_cons_of_neg (hnote _ _), filter_sent_moveRejected]
      rfl

namespace Performance

variable {p q : Performance} {a : Alphabet} {out : String} {ids : Nat → Uuid} {s₀ : Session}

private theorem lines_spec {events : List Event} {lss : List (List String)}
    (h : events.mapM (fun e => e.lines id wire) = .ok lss)
    (hr : ∀ e ∈ events, ∀ r, e.result = .error r → r.OfSubmission) :
    (∀ line ∈ lss.flatten, OneLine line ∧ line ≠ "") ∧ lss.flatten.filter isPlayLine =
      (events.filterMap Event.accepted?).flatMap (playMessages id wire) := by
  rw [mapM_eq_ok] at h
  induction h with
  | nil => exact ⟨fun _ h => absurd h List.not_mem_nil, rfl⟩
  | @cons e ls events lss hls _ ih =>
    obtain ⟨he, hevents⟩ := List.forall_mem_cons.mp hr
    obtain ⟨hlines, hplay⟩ := e.lines_spec hls he
    obtain ⟨hrest, hplays⟩ := ih hevents
    rw [List.flatten_cons]
    refine ⟨List.forall_mem_append.mpr ⟨hlines, hrest⟩, ?_⟩
    rw [List.filter_append, hplay, hplays, List.filterMap_cons]
    cases e.accepted? <;> simp

private theorem Follows.lines_text (hp : p.Follows ids s₀) (h : p.text a wire = .ok out) :
    ∃ lss st, p.events.mapM (fun e => e.lines p.session.id wire) = .ok lss ∧
      p.session.standing = .ok st ∧ lines out = lss.flatten ++ "" :: lines (st.report a) := by
  obtain ⟨lss, hlss, h⟩ := bind_eq_ok.mp h
  obtain ⟨st, hst, h⟩ := bind_eq_ok.mp h
  obtain rfl := Except.ok.inj h
  have hlines := (lines_spec hlss hp.refusals).1
  have hbreak := lines_append (s := "") (by decide) (st.report a)
  rw [String.empty_append] at hbreak
  refine ⟨lss, st, hlss, hst, ?_⟩
  rw [String.append_assoc, lines_join_append fun line hline => (hlines line hline).1, hbreak]

/-- The text ends with the report of the standing after its first empty line, and of its other lines
those that tell of play depend only on what was accepted. -/
theorem Follows.text_spec (hp : p.Follows ids s₀) (h : p.text a wire = .ok out) :
    ∃ st, p.session.standing = .ok st ∧ finalPart out = "" :: lines (st.report a) ∧
      playLines out = p.accepted.flatMap (playMessages p.session.id wire) := by
  obtain ⟨lss, st, hlss, hst, hall⟩ := hp.lines_text h
  obtain ⟨hlines, hplay⟩ := lines_spec hlss hp.refusals
  refine ⟨st, hst, ?_, ?_⟩
  · rw [finalPart, hall, List.dropWhile_append_of_pos]
    · exact List.dropWhile_cons_of_neg (by simp)
    · intro line hline
      simpa using (hlines line hline).2
  · have hreport := playLines_of_carries_nil (st.carries_report a)
    rw [playLines] at hreport
    have hempty : ¬ isPlayLine "" = true := by decide
    rw [playLines, hall, List.filter_append, hplay, List.filter_cons_of_neg hempty, hreport,
      List.append_nil]
    rfl

/-- A rejected entry has a line in the text that says so. -/
theorem Follows.exists_line_of_mem_rejected (hp : p.Follows ids s₀) (h : p.text a wire = .ok out)
    {n : Nat} (hn : n ∈ p.rejected) :
    ∃ (e : Event) (r : Refusal) (text : String), e.number = n ∧ e.result = .error r ∧
      r.message = .ok text ∧ e.label ++ " rejected: " ++ text ∈ lines out := by
  obtain ⟨e, he, rfl⟩ := List.mem_map.mp hn
  obtain ⟨hmem, hnone⟩ := List.mem_filter.mp he
  obtain ⟨lss, st, hlss, -, hall⟩ := hp.lines_text h
  obtain ⟨ls, hls, hlines⟩ := exists_mem_of_mapM hlss hmem
  cases hresult : e.result with
  | ok a => simp [Event.accepted?, hresult, Except.toOption] at hnone
  | error r =>
    rw [Event.lines_of_error hresult] at hlines
    obtain ⟨text, hmessage, rfl⟩ := map_eq_ok.mp hlines
    refine ⟨e, r, text, rfl, hresult, hmessage, ?_⟩
    rw [hall]
    exact List.mem_append_left _ (List.mem_flatten.mpr ⟨_, hls, List.mem_cons_self⟩)

private theorem Agrees.exists_text (hpq : p.Agrees q) (h : p.text a wire = .ok out) :
    ∃ out', q.text a wire = .ok out' := by
  obtain ⟨lss, hlss, h⟩ := bind_eq_ok.mp h
  obtain ⟨st, hst, -⟩ := bind_eq_ok.mp h
  have hlines : ∀ e ∈ q.events, ∃ ls, e.lines q.session.id wire = .ok ls := by
    intro e he
    cases hresult : e.result with
    | ok a => exact ⟨_, Event.lines_of_ok hresult⟩
    | error r =>
      obtain ⟨e', he', hresult'⟩ := hpq.refusals e he r hresult
      obtain ⟨ls, -, hls⟩ := exists_mem_of_mapM hlss he'
      rw [Event.lines_of_error hresult'] at hls
      obtain ⟨text, hmessage, -⟩ := map_eq_ok.mp hls
      rw [Event.lines_of_error hresult, hmessage]
      exact ⟨_, rfl⟩
  obtain ⟨lss', hlss'⟩ := exists_mapM_eq_ok hlines
  rw [← hpq.session] at hst
  exact ⟨_, bind_eq_ok.mpr ⟨lss', hlss', bind_eq_ok.mpr ⟨st, hst, rfl⟩⟩⟩

end Performance

/-- Entries that are reported as rejected can be left out of a script whose entries have their own
times. It is played, whenever that is, to the same session, and its text has the same final part, which
is the report of the standing, and the same messages that publish records and tell of the end, which are
those of the accepted entries. -/
theorem play_without {s : Script} {ids : Nat → Uuid} {now : UInt64} {rules : HouseRules}
    {v : Variant} {a : Alphabet} {wire : Bool} {p : Performance} {out : String} {ns : List Nat}
    (htimes : ∀ e ∈ s.entries, e.timestamp.isSome) (hplay : s.play ids now rules v = .ok p)
    (htext : p.text a wire = .ok out) (hns : ns ⊆ p.rejected) (now' : UInt64) :
    ∃ q out', (s.without ns).play ids now' rules v = .ok q ∧ q.text a wire = .ok out' ∧
      q.session = p.session ∧
      (∃ st, p.session.standing = .ok st ∧ finalPart out = "" :: lines (st.report a)) ∧
      playLines out = p.accepted.flatMap (playMessages p.session.id wire) ∧
      finalPart out' = finalPart out ∧ playLines out' = playLines out := by
  obtain ⟨q, hplay', hpq⟩ := play_without_agrees now' htimes hplay hns
  obtain ⟨out', htext'⟩ := hpq.exists_text htext
  obtain ⟨s₀, hs₀, -⟩ := bind_eq_ok.mp hplay
  have hopening : s.opening? ids rules v = .ok s₀ := liftOpening_eq_ok.mp hs₀
  have hopening' : (s.without ns).opening? ids rules v = .ok s₀ := hopening
  obtain ⟨st, hst, hfinal, hlines⟩ := (play_follows hopening hplay).1.text_spec htext
  obtain ⟨st', hst', hfinal', hlines'⟩ := (play_follows hopening' hplay').1.text_spec htext'
  rw [hpq.session] at hst' hlines'
  obtain rfl := Except.ok.inj (hst.symm.trans hst')
  refine ⟨q, out', hplay', htext', hpq.session, ⟨st, hst, hfinal⟩, hlines, ?_, ?_⟩
  · rw [hfinal, hfinal']
  · rw [hlines, hlines', hpq.accepted]

def stepped : Script :=
  ⟨none, none, [⟨.white, "a2", "a3", some 10⟩, ⟨.black, "h7", "h6", some 20⟩]⟩

theorem play_without_fumbled : ∃ p out, fumbled.play .numbered 0 {} .senterej = .ok p ∧
    p.text .shared true = .ok out ∧ (∀ e ∈ fumbled.entries, e.timestamp.isSome) ∧
    [2] ⊆ p.rejected ∧ p.accepted ≠ [] ∧
    ∃ q out', stepped.play .numbered 60 {} .senterej = .ok q ∧ q.text .shared true = .ok out' ∧
      q.session = p.session ∧ finalPart out' = finalPart out ∧ playLines out' = playLines out := by
  obtain ⟨p, out, a, b, hplay, htext, hevents, -, -⟩ := exists_text_fumbled
  have htimes : ∀ e ∈ fumbled.entries, e.timestamp.isSome := by decide
  have hns : [2] ⊆ p.rejected := by
    rw [Performance.rejected, hevents]
    exact List.Subset.refl [2]
  have hne : p.accepted ≠ [] := by
    rw [Performance.accepted, hevents]
    exact List.cons_ne_nil a [b]
  obtain ⟨q, out', hplay', htext', hsession, -, -, hfinal, hlines⟩ :=
    play_without htimes hplay htext hns 60
  exact ⟨p, out, hplay, htext, htimes, hns, hne, q, out', hplay', htext', hsession, hfinal, hlines⟩

end Script

end WereraChess
