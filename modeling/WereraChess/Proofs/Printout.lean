import WereraChess.Proofs.Fen.RoundTrip
import WereraChess.Proofs.Json.Records
import WereraChess.Proofs.Performance
/-!
# Printed performances

The text of a performance mixes messages with lines for people. A message takes one line, and no line
for people begins as a document does. So whoever reads the text line by line finds in it the records
of the accepted entries as they are published, in the order of the script.
-/
namespace WereraChess

namespace Text

/-- The lines of a text. -/
def lines (text : String) : List String := (splitWhere (· = '\n') text.toList).map String.ofList

/-- There is no line break in the text. -/
def OneLine (s : String) : Prop := '\n' ∉ s.toList

instance : DecidablePred OneLine := fun s => inferInstanceAs (Decidable ('\n' ∉ s.toList))

@[simp] theorem oneLine_append {s t : String} : OneLine (s ++ t) ↔ OneLine s ∧ OneLine t := by
  simp [OneLine]

@[simp] theorem oneLine_repr (n : Nat) : OneLine n.repr := by
  intro h
  rw [Nat.toList_repr] at h
  exact absurd (isDigit_of_mem_decimal h) (by decide)

private theorem ofNat_ne_newline {n : Nat} (h : n ≠ 10) : Char.ofNat n ≠ '\n' := by
  by_cases hvalid : n.isValidChar
  · rw [Char.ofNat, dif_pos hvalid]
    exact fun heq => h (congrArg Char.toNat heq)
  · rw [Char.ofNat, dif_neg hvalid]
    decide

private theorem oneLine_ofNat {m n : Nat} (hm : m ≠ 10) (hn : n ≠ 10) :
    OneLine (String.ofList [Char.ofNat m, Char.ofNat n]) := by
  rw [OneLine, String.toList_ofList]
  simp [(ofNat_ne_newline hm).symm, (ofNat_ne_newline hn).symm]

theorem lines_append {s : String} (h : OneLine s) (rest : String) :
    lines (s ++ "\n" ++ rest) = s :: lines rest := by
  have hline : s.toList.splitOnP (· = '\n') = [s.toList] := by
    apply List.splitOnP_eq_singleton
    intro c hc
    rw [decide_eq_false_iff_not]
    rintro rfl
    exact h hc
  have hlist : (s ++ "\n" ++ rest).toList = s.toList ++ '\n' :: rest.toList := by
    simp [String.toList_append]
  rw [lines, lines, splitWhere_eq_splitOnP, splitWhere_eq_splitOnP, hlist,
    List.splitOnP_append_cons s.toList rest.toList (decide_eq_true rfl), hline, List.map_append,
    List.map_singleton, String.ofList_toList]
  rfl

theorem lines_join_append {ls : List String} (hls : ∀ l ∈ ls, OneLine l) (rest : String) :
    lines (String.join (ls.map (· ++ "\n")) ++ rest) = ls ++ lines rest := by
  induction ls with
  | nil => rw [List.map_nil, String.join_nil, String.empty_append, List.nil_append]
  | cons l ls ih =>
    obtain ⟨hl, hls⟩ := List.forall_mem_cons.mp hls
    rw [List.map_cons, String.join_cons, String.append_assoc, lines_append hl, ih hls]
    rfl

end Text

open Text

/-- No document begins with the text. -/
def Json.Foreign (s : String) : Prop := ∀ rest, ofText? (s ++ rest) = none

private theorem Json.foreign_of_scan {s : String}
    (h : (s.toList.foldlM Token.Scan.next? ⟨.between, []⟩).isNone = true) : Foreign s := by
  intro rest
  rw [ofText?, Token.scan?, String.toList_append, List.foldlM_append, Option.isNone_iff_eq_none.mp h]
  rfl

theorem Json.Foreign.append {s : String} (h : Foreign s) (t : String) : Foreign (s ++ t) := by
  intro rest
  rw [String.append_assoc]
  exact h (t ++ rest)

theorem JsonForm.oneLine_toText {α : Type} [JsonForm α] [LawfulJsonForm α] (a : α) :
    OneLine (toText a) := by
  intro h
  exact absurd (Json.le_of_mem_compact (LawfulJsonForm.plain a) h) (by decide)

namespace Message

/-- The messages among the lines of a text. -/
def readAll (text : String) : List Message := (lines text).filterMap JsonForm.ofText?

/-- The messages among the lines of a text that tell of a move. -/
def readMoves (text : String) : List Message := (readAll text).filter (·.record?.isSome)

/-- The text brings the messages, whatever follows it. -/
def Carries (text : String) (ms : List Message) : Prop :=
  ∀ rest, readAll (text ++ rest) = ms ++ readAll rest

variable {s t : String} {ms ns : List Message}

private theorem Carries.append (hs : Carries s ms) (ht : Carries t ns) :
    Carries (s ++ t) (ms ++ ns) := by
  intro rest
  rw [String.append_assoc, hs, ht, List.append_assoc]

private theorem carries_empty : Carries "" [] := by
  intro rest
  rw [String.empty_append, List.nil_append]

theorem Carries.readAll_eq (h : Carries s ms) : readAll s = ms := by
  have hall := h ""
  rw [String.append_empty] at hall
  rw [hall]
  exact List.append_nil ms

private theorem carries_line (h : OneLine s) : Carries (s ++ "\n") (JsonForm.ofText? s).toList := by
  intro rest
  rw [readAll, lines_append h, List.filterMap_cons]
  cases (JsonForm.ofText? s : Option Message) <;> rfl

private theorem carries_note (h : OneLine s) (hforeign : Json.Foreign s) :
    Carries (s ++ "\n") [] := by
  have hnone : (JsonForm.ofText? s : Option Message) = none := by
    have hdocument := hforeign ""
    rw [String.append_empty] at hdocument
    rw [JsonForm.ofText?, hdocument, Option.bind_none]
  have hline := carries_line h
  rwa [hnone] at hline

private theorem carries_break : Carries "\n" [] := by
  have hline := carries_line (s := "") (by decide)
  rwa [String.empty_append] at hline

private theorem carries_message (m : Message) : Carries (JsonForm.toText m ++ "\n") [m] := by
  have hline := carries_line (JsonForm.oneLine_toText m)
  rwa [JsonForm.ofText?_toText_of_lawful] at hline

end Message

open Message

section Words

@[simp] theorem Side.oneLine_name (s : Side) : OneLine s.name := by
  cases s <;> decide

@[simp] theorem EndReason.oneLine_name (r : EndReason) : OneLine r.name := by
  cases r <;> decide

@[simp] theorem Variant.oneLine_name (v : Variant) : OneLine v.name := by
  cases v <;> decide

@[simp] theorem IllegalCause.oneLine_text (c : IllegalCause) : OneLine c.text := by
  cases c <;> decide

@[simp] theorem Ending.oneLine_message (e : Ending) : OneLine e.message := by
  have hword : OneLine " wins by " ∧ OneLine "draw by " := by decide
  unfold message
  split <;> simp [hword]

@[simp] theorem Phase.oneLine_text (p : Phase) : OneLine p.text := by
  cases p with
  | werera => decide
  | normal => decide
  | complete r =>
    have hword : OneLine "complete(" ∧ OneLine ")" := by decide
    simp [text, hword]

@[simp] theorem Square.oneLine_name (s : Square) : OneLine s.name :=
  oneLine_ofNat (by omega) (by omega)

private theorem Coord.oneLine_name {c : Coord} {text : String} (h : c.name = .ok text) :
    OneLine text := by
  unfold name at h
  split at h
  case isTrue hfile =>
    obtain rfl := Except.ok.inj h
    exact oneLine_ofNat (by omega) (by omega)
  case isFalse => exact absurd h nofun

theorem Refusal.oneLine_message {r : Refusal} {text : String} (hr : r.OfSubmission)
    (h : r.message = .ok text) : OneLine text := by
  cases hr with
  | illegalMove source target cause =>
    obtain ⟨s, hs, h⟩ := bind_eq_ok.mp h
    obtain ⟨t, ht, h⟩ := bind_eq_ok.mp h
    obtain rfl := Except.ok.inj h
    have hword : OneLine "Illegal move " ∧ OneLine " -> " ∧ OneLine ": " := by decide
    simp [hword, Coord.oneLine_name hs, Coord.oneLine_name ht]
  | notYourTurn side =>
    obtain rfl := Except.ok.inj h
    have hword : OneLine "Not your turn: " ∧ OneLine " cannot move now" := by decide
    simp [hword]
  | gameOver reason =>
    obtain rfl := Except.ok.inj h
    have hword : OneLine "Game already over (" ∧ OneLine ")" := by decide
    simp [hword]
  | waitingForOpponent =>
    obtain rfl := Except.ok.inj h
    decide
  | staleTimestamp claimed latest =>
    obtain rfl := Except.ok.inj h
    have hword : OneLine "Stale timestamp " ∧ OneLine ": newest logged move is at " := by decide
    simp [hword]

private theorem Fen.oneLine_line (f : Fen) : OneLine f.line := by
  have hblank : isBlank '\n' = true := by decide
  rw [OneLine, line, String.toList_ofList, chars]
  intro h
  have hplacement : '\n' ∉ Placement.text f.alphabet f.board := by
    intro h
    rw [Placement.not_isBlank_text h] at hblank
    exact absurd hblank Bool.noConfusion
  have hside : '\n' ≠ sideLetter f.active := by
    cases f.active <;> decide
  have hphase : '\n' ∉ phaseWord f.phase := by
    have hwords : '\n' ∉ "werera".toList ∧ '\n' ∉ "normal".toList := by decide
    cases f.phase with
    | werera => exact hwords.1
    | normal => exact hwords.2
    | complete reason => exact hwords.2
  have hcount : '\n' ∉ decimal f.moveCount.toNat := by
    intro h
    exact absurd (isDigit_of_mem_decimal h) (by decide)
  simp [hplacement, hside, hphase, hcount] at h

end Words

namespace Board

private theorem oneLine_spaced {cs : List Char} (h : '\n' ∉ cs) :
    OneLine (String.ofList (cs.flatMap fun c => [' ', c])) := by
  rw [OneLine, String.toList_ofList, List.mem_flatMap]
  rintro ⟨c, hc, hmem⟩
  have hspace : '\n' ≠ ' ' := by decide
  simp only [List.mem_cons, List.not_mem_nil, or_false, hspace, false_or] at hmem
  exact h (hmem ▸ hc)

private theorem carries_diagramRow (b : Board) (a : Alphabet) (r : Fin 8) :
    Carries (b.diagramRow a r) [] := by
  have hforeign : ∀ r : Fin 8, ((toString (8 - r.val) ++ " |").toList.foldlM
      Json.Token.Scan.next? ⟨.between, []⟩).isNone = true := by decide
  apply carries_note
  · have hword : OneLine " |" := by decide
    refine oneLine_append.mpr ⟨oneLine_append.mpr ⟨oneLine_repr _, hword⟩, oneLine_spaced ?_⟩
    intro h
    obtain ⟨o, -, ho⟩ := List.mem_map.mp h
    cases o with
    | none =>
      have hpoint : '.' ≠ '\n' := by decide
      exact hpoint ho
    | some p =>
      have hblank : isBlank '\n' = false := ho ▸ a.not_isBlank_symbol p
      exact absurd hblank (by decide)
  · exact (Json.foreign_of_scan (hforeign r)).append _

private theorem carries_diagram (b : Board) (a : Alphabet) : Carries (b.diagram a) [] := by
  have hrows (rs : List (Fin 8)) : Carries (String.join (rs.map (b.diagramRow a))) [] := by
    induction rs with
    | nil => exact carries_empty
    | cons r rs ih =>
      rw [List.map_cons, String.join_cons]
      exact (b.carries_diagramRow a r).append ih
  apply (hrows (List.finRange 8)).append
  exact carries_note (s := "    a b c d e f g h") (by decide)
    (Json.foreign_of_scan (by decide))

end Board

namespace Standing

private theorem carries_fact {text word value : String} (htext : text = word ++ (value ++ "\n"))
    (hforeign : (word.toList.foldlM Json.Token.Scan.next? ⟨.between, []⟩).isNone = true)
    (hword : OneLine word) (hvalue : OneLine value) : Carries text [] := by
  rw [htext, ← String.append_assoc]
  exact carries_note (oneLine_append.mpr ⟨hword, hvalue⟩)
    ((Json.foreign_of_scan hforeign).append value)

private theorem oneLine_signed (n : Int) : OneLine (signed n) := by
  have hsign : OneLine "-" ∧ OneLine "+" := by decide
  unfold signed
  split <;> simp [hsign]

private theorem carries_turnLine (st : Standing) : Carries st.turnLine [] := by
  have hforeign : ("turn:    ".toList.foldlM Json.Token.Scan.next? ⟨.between, []⟩).isNone =
      true := by
    decide
  have hword : OneLine "turn:    " := by decide
  unfold turnLine
  split
  case h_1 =>
    have htext : "turn:    both players (werera)\n" =
        "turn:    " ++ ("both players (werera)" ++ "\n") := by
      decide
    exact carries_fact htext hforeign hword (by decide)
  case h_2 =>
    have hcheck : OneLine (if st.check then " (in check)" else "") := by
      cases st.check <;> decide
    have hvalue := oneLine_append.mpr ⟨st.turn.oneLine_name, hcheck⟩
    exact carries_fact (by simp only [String.append_assoc]) hforeign hword hvalue
  case h_3 =>
    split
    case h_1 e _ =>
      have hforeign : ("result:  ".toList.foldlM Json.Token.Scan.next? ⟨.between, []⟩).isNone =
          true := by
        decide
      exact carries_fact String.append_assoc hforeign (by decide) e.oneLine_message
    case h_2 => exact carries_empty

private theorem carries_materialLine (st : Standing) : Carries st.materialLine [] := by
  unfold materialLine
  dsimp only
  generalize st.captures.balance st.variant = balance
  have hleader : OneLine (if 0 < balance then Side.white.name
      else if balance < 0 then Side.black.name else "even") := by
    split
    · decide
    · split <;> decide
  generalize (if 0 < balance then Side.white.name
    else if balance < 0 then Side.black.name else "even") = leader at hleader ⊢
  split
  case isTrue => exact carries_empty
  case isFalse =>
    have hwords : OneLine " (" ∧ OneLine ")" := by decide
    have hclose : ")\n" = ")" ++ "\n" := by decide
    have htext : "material: " ++ leader ++ " (" ++ signed balance ++ ")\n" =
        "material: " ++ ((leader ++ " (" ++ signed balance ++ ")") ++ "\n") := by
      rw [hclose]
      simp only [String.append_assoc]
    apply carries_fact htext (by decide) (by decide)
    simp only [oneLine_append]
    exact ⟨⟨⟨hleader, hwords.1⟩, oneLine_signed balance⟩, hwords.2⟩

private theorem carries_skippedLine (st : Standing) : Carries st.skippedLine [] := by
  unfold skippedLine
  split
  case isTrue => exact carries_empty
  case isFalse =>
    have hword : OneLine " move(s)" := by decide
    have hclose : " move(s)\n" = " move(s)" ++ "\n" := by decide
    have htext : "skipped: " ++ toString st.skipped.length ++ " move(s)\n" =
        "skipped: " ++ ((toString st.skipped.length ++ " move(s)") ++ "\n") := by
      rw [hclose]
      simp only [String.append_assoc]
    apply carries_fact htext (by decide) (by decide)
    exact oneLine_append.mpr ⟨oneLine_repr _, hword⟩

private theorem carries_summary (st : Standing) : Carries st.summary [] := by
  have hvariant : Carries ("variant: " ++ (st.variant.name ++ "\n")) [] :=
    carries_fact rfl (by decide) (by decide) st.variant.oneLine_name
  have hphase : Carries ("phase:   " ++ (st.phase.text ++ "\n")) [] :=
    carries_fact rfl (by decide) (by decide) st.phase.oneLine_text
  have hcount : Carries ("moves:   " ++ (toString st.moveCount.toNat ++ "\n")) [] :=
    carries_fact rfl (by decide) (by decide) (oneLine_repr _)
  have hsummary : st.summary = "variant: " ++ (st.variant.name ++ "\n") ++
      ("phase:   " ++ (st.phase.text ++ "\n")) ++ st.turnLine ++
      ("moves:   " ++ (toString st.moveCount.toNat ++ "\n")) ++ st.materialLine ++
      st.skippedLine := by
    unfold summary
    simp only [String.append_assoc]
  rw [hsummary]
  exact ((((hvariant.append hphase).append st.carries_turnLine).append hcount).append
    st.carries_materialLine).append st.carries_skippedLine

theorem carries_report (st : Standing) (a : Alphabet) : Carries (st.report a) [] := by
  have hfen : Carries ("fen:     " ++ ((st.fen a).line ++ "\n")) [] :=
    carries_fact rfl (by decide) (by decide) (st.fen a).oneLine_line
  have hreport : st.report a = st.board.diagram a ++ "\n" ++ st.summary ++
      ("fen:     " ++ ((st.fen a).line ++ "\n")) := by
    simp only [report, String.append_assoc]
  rw [hreport]
  exact (((st.board.carries_diagram a).append carries_break).append st.carries_summary).append hfen

end Standing

namespace Script

variable {e : Event} {id : Uuid} {ls : List String}

private theorem Event.lines_cases (h : e.lines id true = .ok ls) :
    (∃ a, e.result = .ok a ∧ ls = JsonForm.toText (movePublished id a.move) ::
      a.ending.toList.flatMap fun ending =>
        [e.label ++ ": " ++ ending.message, JsonForm.toText (gameEnded id ending)]) ∨
    ∃ r text, e.result = .error r ∧ r.message = .ok text ∧ ls =
      [e.label ++ " rejected: " ++ text, JsonForm.toText (moveRejected id r.code text)] := by
  simp only [lines, if_true] at h
  split at h
  case h_1 a hresult =>
    obtain rfl := Except.ok.inj h
    refine .inl ⟨a, hresult, ?_⟩
    cases a.ending <;> rfl
  case h_2 r hresult =>
    obtain ⟨text, hmessage, h⟩ := bind_eq_ok.mp h
    have hnotice : rejection id r = .ok (moveRejected id r.code text) := by
      rw [rejection, hmessage]
      rfl
    rw [hnotice] at h
    exact .inr ⟨r, text, hresult, hmessage, (Except.ok.inj h).symm⟩

theorem Event.foreign_label (e : Event) : Json.Foreign e.label := by
  unfold label
  simp only [String.append_assoc]
  exact (Json.foreign_of_scan (by decide)).append _

theorem Event.oneLine_label (e : Event) : OneLine e.label := by
  have hwords : OneLine "#" ∧ OneLine " " ∧ OneLine "->" := by decide
  simp [label, hwords]

private theorem Event.carries_label (e : Event) {text : String} (h : OneLine text) :
    Carries (e.label ++ text ++ "\n") [] :=
  carries_note (oneLine_append.mpr ⟨e.oneLine_label, h⟩) (e.foreign_label.append text)

/-- Of the lines of an entry only the one that publishes its record tells of a move. -/
theorem Event.carries_lines (h : e.lines id true = .ok ls)
    (hr : ∀ r, e.result = .error r → r.OfSubmission) :
    ∃ ms, Carries (String.join (ls.map (· ++ "\n"))) ms ∧
      ms.filter (·.record?.isSome) = Lobby.published id e.record?.toList := by
  rcases lines_cases h with ⟨a, hresult, rfl⟩ | ⟨r, text, hresult, hmessage, rfl⟩
  · have hrecord : e.record? = some a.move := by
      rw [record?, hresult]
      rfl
    have hmove := carries_message (movePublished id a.move)
    rw [hrecord]
    cases a.ending with
    | none =>
      refine ⟨[movePublished id a.move], ?_, rfl⟩
      simpa using hmove
    | some ending =>
      have hword : OneLine ": " := by decide
      have hnote := e.carries_label (oneLine_append.mpr ⟨hword, ending.oneLine_message⟩)
      have hended := carries_message (gameEnded id ending)
      refine ⟨[movePublished id a.move, gameEnded id ending], ?_, rfl⟩
      simpa [String.append_assoc] using hmove.append (hnote.append hended)
  · have hrecord : e.record? = none := by
      rw [record?, hresult]
      rfl
    have hword : OneLine " rejected: " := by decide
    have hnote := e.carries_label
      (oneLine_append.mpr ⟨hword, Refusal.oneLine_message (hr r hresult) hmessage⟩)
    have hnotice := carries_message (moveRejected id r.code text)
    rw [hrecord]
    refine ⟨[moveRejected id r.code text], ?_, rfl⟩
    simpa [String.append_assoc] using hnote.append hnotice

theorem Performance.carries_lines {events : List Event} {lines : List (List String)}
    (h : events.mapM (fun e => e.lines id true) = .ok lines)
    (hr : ∀ e ∈ events, ∀ r, e.result = .error r → r.OfSubmission) :
    ∃ ms, Carries (String.join (lines.flatten.map (· ++ "\n"))) ms ∧
      ms.filter (·.record?.isSome) = Lobby.published id (events.filterMap Event.record?) := by
  induction events generalizing lines with
  | nil =>
    obtain rfl := Except.ok.inj h
    exact ⟨[], carries_empty, rfl⟩
  | cons e events ih =>
    rw [List.mapM_cons] at h
    obtain ⟨ls, hls, h⟩ := bind_eq_ok.mp h
    obtain ⟨rest, hrest, h⟩ := bind_eq_ok.mp h
    obtain rfl := Except.ok.inj h
    obtain ⟨he, hevents⟩ := List.forall_mem_cons.mp hr
    obtain ⟨ms, hms, hmove⟩ := e.carries_lines hls he
    obtain ⟨ns, hns, hmoves⟩ := ih hrest hevents
    refine ⟨ms ++ ns, ?_, ?_⟩
    · rw [List.flatten_cons, List.map_append, String.join_append]
      exact hms.append hns
    · rw [List.filter_append, hmove, hmoves, List.filterMap_cons]
      cases e.record? <;> rfl

/-- The text brings the records of the accepted entries in the order of the script, and ends with the
report of the standing. -/
theorem Performance.readMoves_text {p : Performance} {a : Alphabet} {out : String}
    {ids : Nat → Uuid} {s₀ : Session} (hp : p.Follows ids s₀) (h : p.text a true = .ok out) :
    readMoves out = Lobby.published s₀.id p.records ∧
      ∃ top st, p.session.standing = .ok st ∧ out = top ++ st.report a := by
  obtain ⟨lines, hlines, h⟩ := bind_eq_ok.mp h
  obtain ⟨st, hst, h⟩ := bind_eq_ok.mp h
  obtain rfl := Except.ok.inj h
  refine ⟨?_, _, st, hst, rfl⟩
  have hid : p.session.id = s₀.id := by
    rw [hp.session]
    rfl
  obtain ⟨ms, hms, hmoves⟩ := carries_lines hlines hp.refusals
  have hall := ((hms.append carries_break).append (st.carries_report a)).readAll_eq
  rw [readMoves, hall, List.append_nil, List.append_nil, hmoves, hid]
  rfl

end Script

end WereraChess
