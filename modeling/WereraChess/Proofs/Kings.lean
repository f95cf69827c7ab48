import Mathlib.Data.List.Nodup
import Mathlib.Data.List.Pairwise
import WereraChess.Proofs.Rows
import WereraChess.Proofs.Verdict
/-!
# Kings on a board

A relocation carries a king along and takes at most the other side's, so no side ever gets a second
king, and a game that began with a king on the board never loses the last one.
-/
namespace WereraChess

/-- The side whose king the piece is. -/
def Piece.kingOf? (p : Piece) : Option Side := if p.kind = .king then some p.owner else none

private theorem Piece.kingOf?_arrivedAt (p : Piece) (s : Square) :
    (p.arrivedAt s).kingOf? = p.kingOf? := by
  by_cases h : p.kind = .pawn
  · by_cases hrow : s.row = p.owner.promotionRow <;>
      simp [kingOf?, arrivedAt, promotesAt, h, hrow]
  · simp [kingOf?, arrivedAt, promotesAt, h]

def kingsOf (squares : List (Option Piece)) : List Side := squares.filterMap (·.bind Piece.kingOf?)

theorem kingsOf_append (xs ys : List (Option Piece)) :
    kingsOf (xs ++ ys) = kingsOf xs ++ kingsOf ys := List.filterMap_append

theorem kingsOf_replicate (n : Nat) : kingsOf (List.replicate n none) = [] := by
  simp [kingsOf]

theorem Square.nodup_all : Square.all.Nodup := by
  decide +kernel

namespace Board

/-- The side whose king stands on the square. -/
def kingAt (b : Board) (s : Square) : Option Side := (b.get s).bind Piece.kingOf?

/-- No side has two kings. -/
def HasLoneKings (b : Board) : Prop :=
  ∀ s t side, b.kingAt s = some side → b.kingAt t = some side → s = t

theorem ownerAt_of_kingAt {b : Board} {s : Square} {side : Side} (h : b.kingAt s = some side) :
    b.ownerAt s = some side := by
  obtain ⟨p, hp, hking⟩ := Option.bind_eq_some_iff.mp h
  refine ownerAt_eq_some.mpr ⟨p, hp, ?_⟩
  rw [Piece.kingOf?] at hking
  split at hking
  case isTrue => exact Option.some.inj hking
  case isFalse => simp at hking

private theorem any_isKing_iff {b : Board} {side : Side} {s : Square} :
    ((b.get s).any fun p => p.kind = .king ∧ p.owner = side) = true ↔ b.kingAt s = some side := by
  cases hp : b.get s with
  | none => simp [kingAt, hp]
  | some p => by_cases hk : p.kind = .king <;> simp [kingAt, hp, Piece.kingOf?, hk]

theorem kingAt_eq_some_iff {b : Board} {side : Side} {s : Square} :
    b.kingAt s = some side ↔ ∃ p, b.get s = some p ∧ p.kind = .king ∧ p.owner = side := by
  rw [← any_isKing_iff]
  simp only [Option.any_eq_true, decide_eq_true_eq]

theorem isSome_king?_iff {b : Board} {side : Side} :
    (b.king? side).isSome = true ↔ ∃ s, b.kingAt s = some side := by
  rw [king?, List.find?_isSome]
  constructor
  · rintro ⟨s, -, hs⟩
    exact ⟨s, any_isKing_iff.mp hs⟩
  · rintro ⟨s, hs⟩
    exact ⟨s, s.mem_all, any_isKing_iff.mpr hs⟩

private theorem kingAt_of_king? {b : Board} {side : Side} {s : Square} (h : b.king? side = some s) :
    b.kingAt s = some side := by
  rw [king?] at h
  have hfound := List.find?_some h
  exact any_isKing_iff.mp hfound

theorem HasLoneKings.king?_eq {b : Board} {side : Side} {s : Square} (hb : b.HasLoneKings)
    (hs : b.kingAt s = some side) : b.king? side = some s := by
  obtain ⟨t, ht⟩ := Option.isSome_iff_exists.mp (isSome_king?_iff.mpr ⟨s, hs⟩)
  rw [ht, hb t s side (kingAt_of_king? ht) hs]

private theorem HasLoneKings.king?_eq_some_iff {b : Board} {side : Side} {s : Square}
    (hb : b.HasLoneKings) : b.king? side = some s ↔ b.kingAt s = some side :=
  ⟨kingAt_of_king?, hb.king?_eq⟩

theorem inCheck_iff {b : Board} {v : Variant} {side : Side} (hb : b.HasLoneKings) :
    b.inCheck v side = true ↔
      ∃ s, b.kingAt s = some side ∧ b.reachedBy v side.opponent s = true := by
  simp only [← hb.king?_eq_some_iff]
  rw [inCheck]
  cases b.king? side <;> simp

theorem hasLoneKings_iff {b : Board} : b.HasLoneKings ↔ (kingsOf b.rows.flatten).Nodup := by
  have hkings : kingsOf b.rows.flatten = Square.all.filterMap b.kingAt := by
    rw [rows_flatten, kingsOf, List.filterMap_map]
    rfl
  rw [hkings, List.nodup_iff_pairwise_ne, List.pairwise_filterMap]
  constructor
  · intro h
    refine Square.nodup_all.imp fun {s t} hne x hx y hy heq => ?_
    exact hne (h s t x hx (heq ▸ hy))
  · intro h s t side hs ht
    by_contra hne
    have hsymm : Std.Symm fun s t => ∀ x, b.kingAt s = some x → ∀ y, b.kingAt t = some y →
        x ≠ y := ⟨fun s t h x hx y hy heq => h y hy x hx heq.symm⟩
    exact h.forall s.mem_all t.mem_all hne side hs side ht rfl

variable {b : Board} {s t : Square} {r : Relocation}

theorem relocate_eq_some :
    b.relocate s t = some r ↔ ∃ p, b.get s = some p ∧
      r = ⟨p, (b.get t).filter (·.owner ≠ p.owner), p.promotesAt t,
        (b.set s none).set t (some (p.arrivedAt t))⟩ := by
  simp only [relocate, Option.map_eq_some_iff]
  exact exists_congr fun p => and_congr_right fun _ => eq_comm

theorem kingAt_relocate (h : b.relocate s t = some r) (u : Square) :
    r.board.kingAt u =
      if t = u then b.kingAt s else if s = u then none else b.kingAt u := by
  obtain ⟨p, hp, rfl⟩ := relocate_eq_some.mp h
  simp only [kingAt, get_set]
  split
  case isTrue => simp [hp, Piece.kingOf?_arrivedAt]
  case isFalse => split <;> rfl

theorem HasLoneKings.relocate (hb : b.HasLoneKings) (h : b.relocate s t = some r) :
    r.board.HasLoneKings := by
  intro u w side hu hw
  rw [kingAt_relocate h] at hu hw
  by_cases htu : t = u
  · by_cases htw : t = w
    · rw [← htu, ← htw]
    · rw [if_pos htu] at hu
      rw [if_neg htw] at hw
      split at hw
      case isTrue => simp at hw
      case isFalse hsw => exact absurd (hb s w side hu hw) hsw
  · rw [if_neg htu] at hu
    split at hu
    case isTrue => simp at hu
    case isFalse hsu =>
      split at hw
      case isTrue => exact absurd (hb s u side hw hu) hsu
      case isFalse =>
        split at hw
        case isTrue => simp at hw
        case isFalse => exact hb u w side hu hw

theorem HasLoneKings.after (hb : b.HasLoneKings) (s t : Square) : (b.after s t).HasLoneKings := by
  rw [Board.after]
  cases h : b.relocate s t with
  | none => exact hb
  | some r => exact hb.relocate h

theorem exists_kingAt_relocate {side : Side} (h : b.relocate s t = some r)
    (htarget : b.kingAt t ≠ some side) (hking : ∃ u, b.kingAt u = some side) :
    ∃ u, r.board.kingAt u = some side := by
  obtain ⟨u, hu⟩ := hking
  by_cases hsu : s = u
  · refine ⟨t, ?_⟩
    rw [kingAt_relocate h, if_pos rfl, hsu, hu]
  · have htu : t ≠ u := by
      rintro rfl
      exact htarget hu
    refine ⟨u, ?_⟩
    rw [kingAt_relocate h, if_neg htu, if_neg hsu, hu]

theorem lostKing?_eq_none_iff : b.lostKing? = none ↔ ∀ side, ∃ u, b.kingAt u = some side := by
  simp only [← isSome_king?_iff]
  constructor
  · intro h side
    rw [lostKing?] at h
    cases hw : (b.king? .white).isSome <;> cases hb : (b.king? .black).isSome <;>
      simp [hw, hb] at h
    cases side
    · exact hw
    · exact hb
  · intro h
    rw [lostKing?, h, h]

private theorem exists_kingAt_of_ending?_eq_none {v : Variant} {toMove side : Side}
    {selfCheck : Bool} (h : b.ending? v toMove selfCheck = none) : ∃ u, b.kingAt u = some side := by
  rw [ending?, Option.or_eq_none_iff] at h
  exact lostKing?_eq_none_iff.mp h.1 side

end Board

namespace Course

variable {v : Variant} {rules : HouseRules} {c c' : Course} {m : Move}

theorem hasLoneKings_step (hc : c.board.HasLoneKings) (h : Step v rules c m c') :
    c'.board.HasLoneKings := by
  cases h with
  | ended => exact hc
  | blocked => exact hc
  | @applied s t r d hlive hs ht happ hr hd =>
    have hboard : d.board = r.board := (advance_eq_ok hd).1
    change d.board.HasLoneKings
    rw [hboard]
    exact hc.relocate hr

private theorem exists_kingAt_step (hc : Settled v rules c)
    (hking : ∃ u side, c.board.kingAt u = some side) (h : Step v rules c m c') :
    ∃ u side, c'.board.kingAt u = some side := by
  cases h with
  | ended => exact hking
  | blocked => exact hking
  | @applied s t r d hlive hs ht happ hr hd =>
    have hboard : d.board = r.board := (advance_eq_ok hd).1
    have htarget : c.board.kingAt t ≠ some m.mover :=
      fun hking => (applies_iff.mp happ).2 (Board.ownerAt_of_kingAt hking)
    obtain ⟨u, hu⟩ := Board.exists_kingAt_relocate hr htarget
      (Board.exists_kingAt_of_ending?_eq_none (hc.live hlive).2)
    refine ⟨u, m.mover, ?_⟩
    change d.board.kingAt u = some m.mover
    rw [hboard, hu]

theorem hasLoneKings_run {o : Opening} {ms : List Move} (ho : o.board.HasLoneKings)
    (h : ms.foldlM (play v rules) (start v rules o) = .ok c) : c.board.HasLoneKings :=
  run_induction (fun _ _ _ hc hstep => hasLoneKings_step hc hstep) h ho

theorem exists_kingAt_run {o : Opening} {ms : List Move}
    (ho : o.phase = .werera ∨ o.phase = .normal) (hking : ∃ u side, o.board.kingAt u = some side)
    (h : ms.foldlM (play v rules) (start v rules o) = .ok c) :
    ∃ u side, c.board.kingAt u = some side := by
  have hstep (c : Course) (m : Move) (c' : Course)
      (hc : Settled v rules c ∧ ∃ u side, c.board.kingAt u = some side)
      (h : Step v rules c m c') :
      Settled v rules c' ∧ ∃ u side, c'.board.kingAt u = some side :=
    ⟨settled_step hc.1 h, exists_kingAt_step hc.1 hc.2 h⟩
  exact (run_induction hstep h ⟨settled_start ho, hking⟩).2

end Course

end WereraChess
