import Mathlib.Tactic.Tauto
import WereraChess.Proofs.Course
/-!
# Where pieces go

The rules of movement in words of rows, columns and diagonals, and the walk along an open line
square by square. The squares that a piece reaches are those to which the rules let it go.
-/
namespace WereraChess

theorem mem_orthogonals {d : Displacement} :
    d ∈ orthogonals ↔ d = (0, 1) ∨ d = (0, -1) ∨ d = (1, 0) ∨ d = (-1, 0) := by
  simp [orthogonals]

theorem mem_diagonals {d : Displacement} :
    d ∈ diagonals ↔ d = (1, 1) ∨ d = (1, -1) ∨ d = (-1, 1) ∨ d = (-1, -1) := by
  simp [diagonals]

namespace Square

variable {s t u : Square} {d : Displacement} {n : Nat}

def offset (s t : Square) : Displacement := ((t.row : Int) - s.row, (t.col : Int) - s.col)

def rowGap (s t : Square) : Nat := (s.offset t).1.natAbs

def colGap (s t : Square) : Nat := (s.offset t).2.natAbs

/-- A number lies strictly between two others, whichever of them is the larger. -/
def Inside (a x b : Nat) : Prop := a < x ∧ x < b ∨ b < x ∧ x < a

/-- The second square lies strictly between the other two on a row, a column or a diagonal. -/
def Between (s u t : Square) : Prop :=
  (s.row = t.row ∧ u.row = s.row ∧ Inside s.col u.col t.col) ∨
    (s.col = t.col ∧ u.col = s.col ∧ Inside s.row u.row t.row) ∨
    (s.rowGap t = s.colGap t ∧ s.rowGap u = s.colGap u ∧
      Inside s.row u.row t.row ∧ Inside s.col u.col t.col)

/-- The second square is on the next row of a pawn of the side on the first. -/
def IsAhead (side : Side) (s t : Square) : Prop :=
  match side with
  | .white => t.row.val + 1 = s.row
  | .black => t.row.val = s.row + 1

theorem eq_iff_val : s = t ↔ s.row.val = t.row ∧ s.col.val = t.col := by
  rw [← Fin.ext_iff, ← Fin.ext_iff]
  cases s
  cases t
  rw [Square.mk.injEq]

private theorem exists_shift? (hrow : 0 ≤ (s.row : Int) + d.1 ∧ (s.row : Int) + d.1 < 8)
    (hcol : 0 ≤ (s.col : Int) + d.2 ∧ (s.col : Int) + d.2 < 8) : ∃ t, s.shift? d = some t := by
  rw [shift?, ofInts?, dif_pos ⟨hrow, hcol⟩]
  exact ⟨_, rfl⟩

private theorem shift?_eq_some_iff_offset : s.shift? d = some t ↔ s.offset t = d := by
  rw [shift?_eq_some, offset, Prod.ext_iff]
  constructor
  · intro h
    dsimp only
    omega
  · intro h
    dsimp only at h
    omega

private theorem mem_filterMap_shift? {ds : List Displacement} :
    t ∈ ds.filterMap s.shift? ↔ s.offset t ∈ ds := by
  simp only [List.mem_filterMap, shift?_eq_some_iff_offset, exists_eq_right']

private theorem offset_mem_neighbours :
    s.offset t ∈ orthogonals ++ diagonals ↔ max (s.rowGap t) (s.colGap t) = 1 := by
  rw [List.mem_append, mem_orthogonals, mem_diagonals]
  simp only [rowGap, colGap, Prod.ext_iff]
  omega

private theorem offset_mem_diagonals :
    s.offset t ∈ diagonals ↔ s.rowGap t = 1 ∧ s.colGap t = 1 := by
  rw [mem_diagonals]
  simp only [rowGap, colGap, Prod.ext_iff]
  omega

private theorem offset_mem_knightJumps :
    s.offset t ∈ knightJumps ↔
      s.rowGap t = 1 ∧ s.colGap t = 2 ∨ s.rowGap t = 2 ∧ s.colGap t = 1 := by
  simp only [knightJumps, rowGap, colGap, List.mem_cons, List.not_mem_nil, or_false, Prod.ext_iff]
  omega

private theorem offset_mem_elephantJumps :
    s.offset t ∈ elephantJumps ↔ s.rowGap t = 2 ∧ s.colGap t = 2 := by
  simp only [elephantJumps, rowGap, colGap, List.mem_cons, List.not_mem_nil, or_false,
    Prod.ext_iff]
  omega

/-- So many steps lead from the first square to the second. -/
def Leads (s : Square) (d : Displacement) (n : Nat) (t : Square) : Prop :=
  s.shift? (n * d.1, n * d.2) = some t

theorem leads_iff :
    s.Leads d n t ↔ (t.row : Int) = s.row + n * d.1 ∧ (t.col : Int) = s.col + n * d.2 :=
  shift?_eq_some

private theorem leads_one : s.Leads d 1 t ↔ s.shift? d = some t := by
  rw [Leads, Int.natCast_one, Int.one_mul, Int.one_mul]

private theorem leads_succ (h : s.shift? d = some t) : s.Leads d (n + 1) u ↔ t.Leads d n u := by
  rw [shift?_eq_some] at h
  rw [leads_iff, leads_iff, h.1, h.2, Int.natCast_add, Int.add_mul, Int.add_mul, Int.natCast_one,
    Int.one_mul, Int.one_mul]
  constructor
  · intro hu
    omega
  · intro hu
    omega

private theorem exists_step_of_leads (hd : d ∈ orthogonals ++ diagonals) (h : s.Leads d (n + 1) u) :
    ∃ t, s.shift? d = some t := by
  rw [leads_iff] at h
  rw [List.mem_append, mem_orthogonals, mem_diagonals] at hd
  have hrow : (u.row : Int) < 8 := by omega
  have hcol : (u.col : Int) < 8 := by omega
  rcases hd with (rfl | rfl | rfl | rfl) | (rfl | rfl | rfl | rfl) <;>
    exact exists_shift? (by omega) (by omega)

private theorem not_leads_eight (hd : d ∈ orthogonals ++ diagonals) : ¬ s.Leads d 8 u := by
  intro h
  rw [leads_iff] at h
  rw [List.mem_append, mem_orthogonals, mem_diagonals] at hd
  rcases hd with (rfl | rfl | rfl | rfl) | (rfl | rfl | rfl | rfl) <;> omega

private theorem ray_of_step (hd : d ∈ orthogonals ++ diagonals) (h : s.shift? d = some t) :
    s.ray d = t :: t.ray d := by
  have hshift (k : Nat) : s.shift? (↑(k + 1) * d.1, ↑(k + 1) * d.2) =
      t.shift? (k * d.1, k * d.2) := by
    ext u
    exact leads_succ h
  have hfirst : s.shift? ((1 : Nat) * d.1, (1 : Nat) * d.2) = some t := leads_one.mpr h
  have hseven : [7].filterMap (fun (k : Nat) => t.shift? (k * d.1, k * d.2)) = [] := by
    apply List.filterMap_cons_none
    rw [← hshift, Option.eq_none_iff_forall_ne_some]
    intro u hu
    exact not_leads_eight hd hu
  have hrest : List.range' 2 6 = (List.range' 1 6).map (· + 1) := rfl
  have hrange : List.range' 1 7 = List.range' 1 6 ++ [7] := rfl
  calc s.ray d = t :: (List.range' 2 6).filterMap fun (k : Nat) => s.shift? (k * d.1, k * d.2) :=
        List.filterMap_cons_some hfirst
    _ = t :: (List.range' 1 6).filterMap fun (k : Nat) => t.shift? (k * d.1, k * d.2) := by
        rw [hrest, List.filterMap_map]
        simp only [Function.comp_def, hshift]
    _ = t :: t.ray d := by
        rw [ray, hrange, List.filterMap_append, hseven, List.append_nil]

private theorem ray_of_edge (hd : d ∈ orthogonals ++ diagonals) (h : s.shift? d = none) :
    s.ray d = [] := by
  rw [ray, List.filterMap_eq_nil_iff]
  intro k hk
  rw [Option.eq_none_iff_forall_ne_some]
  intro u hu
  obtain ⟨n, rfl⟩ : ∃ n, k = n + 1 := Nat.exists_eq_add_one.mpr (List.mem_range'_1.mp hk).1
  obtain ⟨t, ht⟩ := exists_step_of_leads hd hu
  simp [h] at ht

theorem between_iff (hd : d ∈ orthogonals ++ diagonals) (ht : s.Leads d (n + 1) t) :
    s.Between u t ↔ ∃ k < n, s.Leads d (k + 1) u := by
  rw [leads_iff] at ht
  rw [List.mem_append, mem_orthogonals, mem_diagonals] at hd
  simp only [leads_iff, Between, Inside, rowGap, colGap, offset, Fin.ext_iff]
  constructor
  · intro hu
    refine ⟨(if d.1 = 0 then s.colGap u else s.rowGap u) - 1, ?_⟩
    rcases hd with (rfl | rfl | rfl | rfl) | (rfl | rfl | rfl | rfl) <;>
      simp only [rowGap, colGap, offset, reduceIte, Int.reduceEq, Int.reduceNeg] <;> omega
  · intro ⟨k, hk, hu⟩
    rcases hd with (rfl | rfl | rfl | rfl) | (rfl | rfl | rfl | rfl) <;> omega

theorem exists_orthogonal_iff :
    (∃ d ∈ orthogonals, ∃ n, s.Leads d (n + 1) t) ↔
      s ≠ t ∧ (s.row = t.row ∨ s.col = t.col) := by
  simp only [leads_iff, mem_orthogonals, ne_eq, eq_iff_val, Fin.ext_iff]
  constructor
  · intro ⟨d, hd, n, ht⟩
    rcases hd with rfl | rfl | rfl | rfl <;> omega
  · intro ⟨hne, h⟩
    by_cases hrow : s.row.val = t.row
    · by_cases hcol : s.col.val < t.col
      · exact ⟨(0, 1), by simp, t.col - s.col - 1, by omega⟩
      · exact ⟨(0, -1), by simp, s.col - t.col - 1, by omega⟩
    · by_cases hlt : s.row.val < t.row
      · exact ⟨(1, 0), by simp, t.row - s.row - 1, by omega⟩
      · exact ⟨(-1, 0), by simp, s.row - t.row - 1, by omega⟩

theorem exists_diagonal_iff :
    (∃ d ∈ diagonals, ∃ n, s.Leads d (n + 1) t) ↔
      s.rowGap t = s.colGap t ∧ 1 ≤ s.rowGap t := by
  simp only [leads_iff, mem_diagonals, rowGap, colGap, offset]
  constructor
  · intro ⟨d, hd, n, ht⟩
    rcases hd with rfl | rfl | rfl | rfl <;> omega
  · intro ⟨heq, hne⟩
    by_cases hrow : s.row.val < t.row
    · by_cases hcol : s.col.val < t.col
      · exact ⟨(1, 1), by simp, t.row - s.row - 1, by omega⟩
      · exact ⟨(1, -1), by simp, t.row - s.row - 1, by omega⟩
    · by_cases hcol : s.col.val < t.col
      · exact ⟨(-1, 1), by simp, s.row - t.row - 1, by omega⟩
      · exact ⟨(-1, -1), by simp, s.row - t.row - 1, by omega⟩

theorem exists_direction_iff :
    (∃ d ∈ orthogonals ++ diagonals, ∃ n, s.Leads d (n + 1) t) ↔
      s ≠ t ∧ (s.row = t.row ∨ s.col = t.col ∨ s.rowGap t = s.colGap t) := by
  simp only [List.mem_append, or_and_right, exists_or, exists_orthogonal_iff, exists_diagonal_iff]
  simp only [rowGap, colGap, offset, ne_eq, eq_iff_val, Fin.ext_iff]
  omega

end Square

namespace Board

variable {b : Board} {v : Variant} {side : Side} {s t u : Square} {d : Displacement}

/-- Every square strictly between the two is empty. -/
def Clear (b : Board) (s t : Square) : Prop := ∀ u, s.Between u t → b.get u = none

/-- By the rules of the variant the piece goes from `s` to `t`, if its own side does not stand
there. -/
def IsMove (b : Board) (v : Variant) (p : Piece) (s t : Square) : Prop :=
  match p.kind, v with
  | .king, _ => max (s.rowGap t) (s.colGap t) = 1
  | .knight, _ => s.rowGap t = 1 ∧ s.colGap t = 2 ∨ s.rowGap t = 2 ∧ s.colGap t = 1
  | .rook, _ => s ≠ t ∧ (s.row = t.row ∨ s.col = t.col) ∧ b.Clear s t
  | .minister, .senterej => s.rowGap t = 1 ∧ s.colGap t = 1
  | .minister, .standard =>
    (s.row = t.row ∨ s.col = t.col ∨ s.rowGap t = s.colGap t) ∧ b.Clear s t
  | .elephant, .senterej => s.rowGap t = 2 ∧ s.colGap t = 2
  | .elephant, .standard => (s.rowGap t = s.colGap t ∧ 1 ≤ s.rowGap t) ∧ b.Clear s t
  | .pawn, _ =>
    s.IsAhead p.owner t ∧ (t.col = s.col ∧ b.get t = none ∨
      s.colGap t = 1 ∧ b.ownerAt t = some p.owner.opponent)

/-- The squares that a walk from a cursor collects. It goes on over empty squares and stops at the
edge of the board or at the first piece, which it takes if it is not of its own side. -/
inductive Walk (b : Board) (side : Side) (d : Displacement) : Option Square → List Square → Prop
  | edge : Walk b side d none []
  | free {s : Square} {line : List Square} (h : b.ownerAt s = none)
      (hrest : Walk b side d (s.shift? d) line) : Walk b side d (some s) (s :: line)
  | own {s : Square} (h : b.ownerAt s = some side) : Walk b side d (some s) []
  | taken {s : Square} (h : b.ownerAt s = some side.opponent) : Walk b side d (some s) [s]

/-- Every walk comes to an end, and has collected what a slider reaches. -/
theorem walk_slideAlong (b : Board) (side : Side) (hd : d ∈ orthogonals ++ diagonals) (s : Square) :
    b.Walk side d (s.shift? d) (b.slideAlong side (s.ray d)) := by
  generalize hline : s.ray d = line
  induction line generalizing s with
  | nil =>
    cases hstep : s.shift? d with
    | none => exact .edge
    | some t => simp [Square.ray_of_step hd hstep] at hline
  | cons t line ih =>
    cases hstep : s.shift? d with
    | none => simp [Square.ray_of_edge hd hstep] at hline
    | some t' =>
      rw [Square.ray_of_step hd hstep] at hline
      obtain ⟨rfl, hrest⟩ := List.cons.inj hline
      rw [slideAlong]
      split
      case h_1 hfree => exact .free hfree (ih t' hrest)
      case h_2 owner howner =>
        split
        case isTrue heq => exact .own (heq ▸ howner)
        case isFalse hne => exact .taken (Side.eq_opponent_of_ne hne ▸ howner)

/-- Steps in the direction lead to the square, all squares before it are empty and the side does not
stand on it. -/
def Open (b : Board) (side : Side) (d : Displacement) (s t : Square) : Prop :=
  ∃ n, s.Leads d (n + 1) t ∧ b.ownerAt t ≠ some side ∧
    ∀ k < n, ∀ u, s.Leads d (k + 1) u → b.ownerAt u = none

private theorem not_open_of_edge (hd : d ∈ orthogonals ++ diagonals) (h : s.shift? d = none) :
    ¬ b.Open side d s t := by
  intro ⟨n, ht, _⟩
  have hstep := Square.exists_step_of_leads hd ht
  simp [h] at hstep

private theorem open_iff_of_step (h : s.shift? d = some u) :
    b.Open side d s t ↔
      u = t ∧ b.ownerAt u ≠ some side ∨ b.ownerAt u = none ∧ b.Open side d u t := by
  have hfirst {w : Square} : s.Leads d 1 w ↔ u = w := by
    rw [Square.leads_one, h, Option.some.injEq]
  constructor
  · intro ⟨n, ht, howner, hclear⟩
    cases n with
    | zero =>
      obtain rfl := hfirst.mp ht
      exact .inl ⟨rfl, howner⟩
    | succ n =>
      have hfree : b.ownerAt u = none := hclear 0 (Nat.succ_pos n) u (hfirst.mpr rfl)
      refine .inr ⟨hfree, n, (Square.leads_succ h).mp ht, howner, ?_⟩
      intro k hk w hw
      exact hclear (k + 1) (Nat.succ_lt_succ hk) w ((Square.leads_succ h).mpr hw)
  · intro hopen
    rcases hopen with ⟨rfl, howner⟩ | ⟨hfree, n, ht, howner, hclear⟩
    · exact ⟨0, hfirst.mpr rfl, howner, nofun⟩
    · refine ⟨n + 1, (Square.leads_succ h).mpr ht, howner, ?_⟩
      intro k hk w hw
      cases k with
      | zero => exact hfirst.mp hw ▸ hfree
      | succ k =>
        exact hclear k (Nat.lt_of_succ_lt_succ hk) w ((Square.leads_succ h).mp hw)

private theorem Walk.mem_iff {cursor : Option Square} {line : List Square}
    (h : b.Walk side d cursor line) (hd : d ∈ orthogonals ++ diagonals) (hs : s.shift? d = cursor) :
    t ∈ line ↔ b.Open side d s t := by
  induction h generalizing s with
  | edge => simp [not_open_of_edge hd hs]
  | free hfree _ ih =>
    rw [List.mem_cons, ih rfl, open_iff_of_step hs]
    simp [hfree, eq_comm]
  | own hown =>
    rw [open_iff_of_step hs]
    simp [hown]
  | taken htaken =>
    rw [open_iff_of_step hs]
    simp [htaken, side.opponent_ne, eq_comm (a := t)]

theorem ownerAt_eq_none : b.ownerAt s = none ↔ b.get s = none := Option.map_eq_none_iff

private theorem open_iff (hd : d ∈ orthogonals ++ diagonals) :
    b.Open side d s t ↔ (∃ n, s.Leads d (n + 1) t) ∧ b.Clear s t ∧ b.ownerAt t ≠ some side := by
  constructor
  · intro ⟨n, ht, howner, hclear⟩
    refine ⟨⟨n, ht⟩, ?_, howner⟩
    intro u hu
    obtain ⟨k, hk, hu⟩ := (Square.between_iff hd ht).mp hu
    exact ownerAt_eq_none.mp (hclear k hk u hu)
  · intro ⟨⟨n, ht⟩, hclear, howner⟩
    refine ⟨n, ht, howner, ?_⟩
    intro k hk u hu
    exact ownerAt_eq_none.mpr (hclear u ((Square.between_iff hd ht).mpr ⟨k, hk, hu⟩))

private theorem mem_reachBy_slides {ds : List Displacement} (hds : ds ⊆ orthogonals ++ diagonals) :
    t ∈ b.reachBy side s (.slides ds) ↔
      (∃ d ∈ ds, ∃ n, s.Leads d (n + 1) t) ∧ b.Clear s t ∧ b.ownerAt t ≠ some side := by
  have hslide {d : Displacement} (hd : d ∈ ds) : t ∈ b.slideAlong side (s.ray d) ↔
      (∃ n, s.Leads d (n + 1) t) ∧ b.Clear s t ∧ b.ownerAt t ≠ some side := by
    rw [(walk_slideAlong b side (hds hd) s).mem_iff (hds hd) rfl, open_iff (hds hd)]
  rw [reachBy, List.mem_flatMap]
  constructor
  · intro ⟨d, hd, ht⟩
    obtain ⟨hleads, hrest⟩ := (hslide hd).mp ht
    exact ⟨⟨d, hd, hleads⟩, hrest⟩
  · intro ⟨⟨d, hd, hleads⟩, hrest⟩
    exact ⟨d, hd, (hslide hd).mpr ⟨hleads, hrest⟩⟩

private theorem mem_reachBy_leaps {ds : List Displacement} :
    t ∈ b.reachBy side s (.leaps ds) ↔ s.offset t ∈ ds ∧ b.ownerAt t ≠ some side := by
  rw [reachBy, List.mem_filter, Square.mem_filterMap_shift?, decide_eq_true_eq]

private theorem mem_reachBy_pawn :
    t ∈ b.reachBy side s .pawn ↔ s.IsAhead side t ∧
      (t.col = s.col ∧ b.get t = none ∨
        s.colGap t = 1 ∧ b.ownerAt t = some side.opponent) := by
  have hahead (c : Int) : s.offset t = (side.forward, c) ↔
      s.IsAhead side t ∧ (t.col : Int) - s.col = c := by
    rw [Square.offset, Prod.mk.injEq]
    apply and_congr_left
    intro _
    cases side <;> simp only [Side.forward, Square.IsAhead] <;> omega
  have hcol : t.col = s.col ↔ (t.col : Int) - s.col = 0 := by omega
  have hgap : s.colGap t = 1 ↔ (t.col : Int) - s.col = -1 ∨ (t.col : Int) - s.col = 1 := by
    simp only [Square.colGap, Square.offset]
    omega
  simp only [reachBy, List.mem_append, List.mem_filter, Square.mem_filterMap_shift?,
    decide_eq_true_eq, ownerAt_eq_none, List.mem_cons, List.not_mem_nil, or_false, hahead, hcol,
    hgap]
  grind

theorem ne_of_ownerAt_ne {p : Piece} (hp : b.get s = some p) (ht : b.ownerAt t ≠ some p.owner) :
    s ≠ t := by
  rintro rfl
  exact ht (ownerAt_eq_some.mpr ⟨p, hp, rfl⟩)

/-- Gaits and rules agree, kind by kind. -/
theorem mem_reachBy_gait {p : Piece} (hp : b.get s = some p) :
    t ∈ b.reachBy p.owner s (p.kind.gait v) ↔
      b.ownerAt t ≠ some p.owner ∧ b.IsMove v p s t := by
  have hne := ne_of_ownerAt_ne (t := t) hp
  cases hkind : p.kind with
  | king =>
    simp only [IsMove, hkind]
    rw [Kind.gait, mem_reachBy_leaps, Square.offset_mem_neighbours, and_comm]
  | knight =>
    simp only [IsMove, hkind]
    rw [Kind.gait, mem_reachBy_leaps, Square.offset_mem_knightJumps, and_comm]
  | rook =>
    simp only [IsMove, hkind]
    rw [Kind.gait, mem_reachBy_slides (List.subset_append_left _ _), Square.exists_orthogonal_iff]
    tauto
  | minister =>
    cases v with
    | senterej =>
      simp only [IsMove, hkind]
      rw [Kind.gait, mem_reachBy_leaps, Square.offset_mem_diagonals, and_comm]
    | standard =>
      simp only [IsMove, hkind]
      rw [Kind.gait, mem_reachBy_slides (List.Subset.refl _), Square.exists_direction_iff]
      tauto
  | elephant =>
    cases v with
    | senterej =>
      simp only [IsMove, hkind]
      rw [Kind.gait, mem_reachBy_leaps, Square.offset_mem_elephantJumps, and_comm]
    | standard =>
      simp only [IsMove, hkind]
      rw [Kind.gait, mem_reachBy_slides (List.subset_append_right _ _), Square.exists_diagonal_iff]
      tauto
  | pawn =>
    simp only [IsMove, hkind]
    rw [Kind.gait, mem_reachBy_pawn, ← ownerAt_eq_none]
    have hopponent := p.owner.opponent_ne
    grind

/-- A piece may go to the squares to which the rules let it go and on which its own side does not
stand, and every walk along a line comes to an end with the squares that a slider reaches on it. -/
theorem mem_destinations_iff_isMove {p : Piece} (hp : b.get s = some p) :
    (t ∈ b.destinations v s ↔ b.ownerAt t ≠ some p.owner ∧ b.IsMove v p s t) ∧
      ∀ d ∈ orthogonals ++ diagonals,
        b.Walk p.owner d (s.shift? d) (b.slideAlong p.owner (s.ray d)) := by
  constructor
  · rw [mem_destinations, reach, hp]
    exact mem_reachBy_gait hp
  · intro d hd
    exact walk_slideAlong b p.owner hd s

/-- White's queen on d4 looks at a black pawn on f6 and at its own pawn on d6. -/
def outpost : Board :=
  .ofRows [[], [], List.replicate 3 none ++ [some (.fresh .pawn .white), none,
    some (.fresh .pawn .black)], [], List.replicate 3 none ++ [some (.fresh .minister .white)]]

theorem outpost_isMove :
    outpost.get ⟨4, 3⟩ = some (.fresh .minister .white) ∧
      outpost.IsMove .standard (.fresh .minister .white) ⟨4, 3⟩ ⟨2, 5⟩ ∧
      ¬ outpost.IsMove .standard (.fresh .minister .white) ⟨4, 3⟩ ⟨1, 6⟩ ∧
      outpost.Walk .white (-1, 1) (some ⟨3, 4⟩) [⟨3, 4⟩, ⟨2, 5⟩] := by
  have hp : outpost.get ⟨4, 3⟩ = some (.fresh .minister .white) := by decide +kernel
  have hpawn : (⟨2, 5⟩ : Square) ∈ outpost.destinations .standard ⟨4, 3⟩ := by decide +kernel
  have hbeyond : (⟨1, 6⟩ : Square) ∉ outpost.destinations .standard ⟨4, 3⟩ := by decide +kernel
  have hfree : outpost.ownerAt ⟨1, 6⟩ ≠ some .white := by decide +kernel
  obtain ⟨hcapture, hwalk⟩ := mem_destinations_iff_isMove (v := .standard) (t := ⟨2, 5⟩) hp
  refine ⟨hp, (hcapture.mp hpawn).2, fun hmove => hbeyond ?_, ?_⟩
  · exact (mem_destinations_iff_isMove hp).1.mpr ⟨hfree, hmove⟩
  · have hline : outpost.slideAlong .white (Square.ray ⟨4, 3⟩ (-1, 1)) = [⟨3, 4⟩, ⟨2, 5⟩] := by
      decide +kernel
    exact hline ▸ hwalk (-1, 1) (by decide)

end Board

end WereraChess
