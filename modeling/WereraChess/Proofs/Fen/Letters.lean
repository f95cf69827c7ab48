import WereraChess.Fen.Placement
import WereraChess.Proofs.Text
/-!
# The alphabet of a placement

A placement is read in an alphabet if every character is a digit or a letter of that alphabet and one
of them is a letter that the other lacks. The rest of the placements consist of digits, which are
read as shared, and of digits and the letter N, which are read as Senterej.
-/
namespace WereraChess

theorem Alphabet.not_isDigit_of_piece? {a : Alphabet} {c : Char} {p : Piece}
    (h : a.piece? c = some p) : c.isDigit = false := by
  rw [← Bool.not_eq_true]
  intro hdigit
  obtain ⟨k, hk, -⟩ := Option.map_eq_some_iff.mp h
  have hletter : a.letter k = c.toUpper := by simpa using List.find?_some hk
  rw [Text.toUpper_of_isDigit hdigit] at hletter
  rw [← hletter] at hdigit
  cases a <;> cases k <;> simp [Alphabet.letter] at hdigit

namespace Placement

variable {a : Alphabet}

/-- The letters that may stand in a placement of the alphabet. -/
def Admits (a : Alphabet) (c : Char) : Prop := isOwnLetter a c = true ∨ c.toLower = 'n'

theorem not_isDigit_of_isOwnLetter {c : Char} (h : isOwnLetter a c = true) :
    c.isDigit = false := by
  rw [isOwnLetter, decide_eq_true_eq] at h
  rw [← Bool.not_eq_true]
  intro hdigit
  rw [Text.toLower_of_isDigit hdigit] at h
  have hletters : a.ownLetters.all (fun d => !d.isDigit) = true := by
    cases a <;> decide
  have hletter := List.all_eq_true.mp hletters c h
  simp [hdigit] at hletter

private theorem not_admits_of_isOwnLetter {a' : Alphabet} {c : Char} (h : isOwnLetter a c = true)
    (hne : a ≠ a') : ¬ Admits a' c := by
  rw [isOwnLetter, decide_eq_true_eq] at h
  rw [Admits, isOwnLetter, decide_eq_true_eq]
  have hletters : a.ownLetters.all
      (fun d => decide (a ≠ a' → ¬ (d ∈ a'.ownLetters ∨ d = 'n'))) = true := by
    cases a <;> cases a' <;> decide
  exact of_decide_eq_true (List.all_eq_true.mp hletters c.toLower h) hne

private theorem isLetter_iff {c : Char} : isLetter c = true ↔ ∃ a, Admits a c := by
  simp only [isLetter, Admits, Bool.or_eq_true, decide_eq_true_eq]
  constructor
  · rintro ((h | h) | h)
    · exact ⟨.shared, .inl h⟩
    · exact ⟨.senterej, .inl h⟩
    · exact ⟨.shared, .inr h⟩
  · rintro ⟨a, h | h⟩
    · cases a <;> simp [h]
    · exact .inr h

private theorem admits_of_isLetter {c : Char} (h : isLetter c = true)
    (hother : ∀ a', a' ≠ a → isOwnLetter a' c = false) : Admits a c := by
  obtain ⟨a', hadmits⟩ := isLetter_iff.mp h
  by_cases heq : a' = a
  · exact heq ▸ hadmits
  · exact .inr (hadmits.resolve_left (by simp [hother a' heq]))

private theorem stray?_eq_none {ranks : List (List Char)} :
    stray? ranks = none ↔ ∀ c ∈ ranks.flatten, c.isDigit = true ∨ isLetter c = true := by
  have hnumbered : (ranks.zipIdx 1).map Prod.fst = ranks := List.zipIdx_map_fst 1 ranks
  simp only [stray?, List.findSome?_eq_none_iff, Option.map_eq_none_iff, List.find?_eq_none,
    Bool.and_eq_true, Bool.not_eq_true', not_and, Bool.not_eq_false, List.mem_flatten]
  constructor
  · rintro h c ⟨rank, hrank, hc⟩
    rw [← hnumbered] at hrank
    obtain ⟨numbered, hmem, rfl⟩ := List.mem_map.mp hrank
    have hletter := h numbered hmem c hc
    cases hdigit : c.isDigit with
    | true => exact .inl rfl
    | false => exact .inr (hletter hdigit)
  · rintro h numbered hmem c hc hdigit
    have hrank : numbered.1 ∈ ranks := hnumbered ▸ List.mem_map_of_mem hmem
    rcases h c ⟨numbered.1, hrank, hc⟩ with hdigit' | hletter
    · simp [hdigit] at hdigit'
    · exact hletter

private theorem find?_isOwnLetter_eq_none {cs : List Char} :
    (cs.filter fun c => !c.isDigit).find? (isOwnLetter a) = none ↔
      ∀ c ∈ cs, isOwnLetter a c = false := by
  simp only [List.find?_eq_none, List.mem_filter, Bool.not_eq_true', Bool.not_eq_true]
  constructor
  · intro h c hc
    rw [← Bool.not_eq_true]
    intro hown
    simp [h c ⟨hc, not_isDigit_of_isOwnLetter hown⟩] at hown
  · intro h c hc
    exact h c hc.1

/-- All characters are digits or letters of the alphabet, and one of the letters is its own. If the
alphabets have every letter in common, digits alone are read as shared and the letter N as
Senterej. -/
structure Selects (cs : List Char) (a : Alphabet) : Prop where
  admits : ∀ c ∈ cs, c.isDigit = true ∨ Admits a c
  own : (∃ c ∈ cs, isOwnLetter a c = true) ∨
    a = if cs.all Char.isDigit then .shared else .senterej

theorem Selects.eq_of_isOwnLetter {cs : List Char} {a' : Alphabet} {c : Char} (h : Selects cs a)
    (hc : c ∈ cs) (hown : isOwnLetter a' c = true) : a = a' := by
  rcases h.admits c hc with hdigit | hadmits
  · simp [not_isDigit_of_isOwnLetter hown] at hdigit
  · exact Decidable.byContradiction fun hne =>
      not_admits_of_isOwnLetter hown (Ne.symm hne) hadmits

private theorem selects_iff_of_isOwnLetter {cs : List Char} {a' : Alphabet} {c : Char}
    (hletters : ∀ x ∈ cs, x.isDigit = true ∨ isLetter x = true) (hc : c ∈ cs)
    (hown : isOwnLetter a' c = true) (hother : ∀ b, b ≠ a' → ∀ x ∈ cs, isOwnLetter b x = false) :
    Selects cs a ↔ a' = a := by
  constructor
  · intro h
    exact (h.eq_of_isOwnLetter hc hown).symm
  · rintro rfl
    refine ⟨fun x hx => (hletters x hx).imp_right fun hletter => ?_, .inl ⟨c, hc, hown⟩⟩
    exact admits_of_isLetter hletter fun b hb => hother b hb x hx

private theorem selects_iff_of_not_isOwnLetter {cs : List Char}
    (hletters : ∀ x ∈ cs, x.isDigit = true ∨ isLetter x = true)
    (hnone : ∀ b, ∀ x ∈ cs, isOwnLetter b x = false) :
    Selects cs a ↔ (if cs.all Char.isDigit then .shared else .senterej) = a := by
  constructor
  · intro h
    rcases h.own with ⟨c, hc, hown⟩ | heq
    · simp [hnone a c hc] at hown
    · exact heq.symm
  · intro h
    refine ⟨fun x hx => (hletters x hx).imp_right fun hletter => ?_, .inr h.symm⟩
    exact admits_of_isLetter hletter fun b _ => hnone b x hx

theorem alphabetOf_eq_ok {ranks : List (List Char)} :
    alphabetOf ranks = .ok a ↔ Selects ranks.flatten a := by
  unfold alphabetOf
  cases hstray : stray? ranks with
  | some stray =>
    refine ⟨nofun, fun h => ?_⟩
    have hletters : stray? ranks = none := by
      refine stray?_eq_none.mpr fun c hc => (h.admits c hc).imp_right fun hadmits => ?_
      exact isLetter_iff.mpr ⟨a, hadmits⟩
    simp [hstray] at hletters
  | none =>
    have hletters := stray?_eq_none.mp hstray
    generalize ranks.flatten = cs at hletters ⊢
    have hsome {b : Alphabet} {c : Char}
        (h : (cs.filter fun c => !c.isDigit).find? (isOwnLetter b) = some c) :
        c ∈ cs ∧ isOwnLetter b c = true :=
      ⟨(List.mem_filter.mp (List.mem_of_find?_eq_some h)).1, List.find?_some h⟩
    cases hshared : (cs.filter fun c => !c.isDigit).find? (isOwnLetter .shared) with
    | some c =>
      obtain ⟨hc, hown⟩ := hsome hshared
      cases hsenterej : (cs.filter fun c => !c.isDigit).find? (isOwnLetter .senterej) with
      | some d =>
        obtain ⟨hd, hown'⟩ := hsome hsenterej
        simp only [hshared, hsenterej, reduceCtorEq, false_iff]
        intro h
        have heq := (h.eq_of_isOwnLetter hc hown).symm.trans (h.eq_of_isOwnLetter hd hown')
        simp at heq
      | none =>
        have hnone := find?_isOwnLetter_eq_none.mp hsenterej
        rw [selects_iff_of_isOwnLetter hletters hc hown]
        · simp only [hshared, hsenterej, Except.ok.injEq]
        · rintro (_ | _) hne
          · exact absurd rfl hne
          · exact hnone
    | none =>
      have hnone := find?_isOwnLetter_eq_none.mp hshared
      cases hsenterej : (cs.filter fun c => !c.isDigit).find? (isOwnLetter .senterej) with
      | some d =>
        obtain ⟨hd, hown⟩ := hsome hsenterej
        rw [selects_iff_of_isOwnLetter hletters hd hown]
        · simp only [hshared, hsenterej, Except.ok.injEq]
        · rintro (_ | _) hne
          · exact hnone
          · exact absurd rfl hne
      | none =>
        have hnone' := find?_isOwnLetter_eq_none.mp hsenterej
        have hempty : (cs.filter fun c => !c.isDigit) = [] ↔ cs.all Char.isDigit = true := by
          simp [List.filter_eq_nil_iff]
        rw [selects_iff_of_not_isOwnLetter hletters]
        · simp only [hshared, hsenterej, hempty, Except.ok.injEq]
        · rintro (_ | _)
          · exact hnone
          · exact hnone'

theorem Selects.unique {cs : List Char} {a' : Alphabet} (h : Selects cs a) (h' : Selects cs a') :
    a = a' := by
  rw [← List.flatten_singleton (l := cs)] at h h'
  exact Except.ok.inj ((alphabetOf_eq_ok.mpr h).symm.trans (alphabetOf_eq_ok.mpr h'))

end Placement

end WereraChess
