import WereraChess.Proofs.Liveness
import WereraChess.Proofs.Reach
/-!
# Attack

A piece attacks the squares to which the rules let it go, but a pawn the two squares diagonally in
front of it. What stands on the square that is attacked does not matter. A king is in check exactly
if the opponent attacks its square, so the moves that expose a king can be told from the geometry of
the board after them.
-/
namespace WereraChess

namespace Square

variable {s t : Square} {d : Displacement} {m n : Nat}

private theorem leads_injective (hd : d ∈ orthogonals ++ diagonals) (hn : s.Leads d n t)
    (hm : s.Leads d m t) : n = m := by
  rw [leads_iff] at hn hm
  rw [List.mem_append, mem_orthogonals, mem_diagonals] at hd
  rcases hd with (rfl | rfl | rfl | rfl) | (rfl | rfl | rfl | rfl) <;> omega

private theorem steps_of_neighbours {q : Square} (hd : d ∈ orthogonals ++ diagonals)
    (hs : q.Leads d n s) (ht : q.Leads d m t) (hstep : max (s.rowGap t) (s.colGap t) = 1) :
    m ≤ n + 1 := by
  rw [leads_iff] at hs ht
  rw [List.mem_append, mem_orthogonals, mem_diagonals] at hd
  simp only [rowGap, colGap, offset] at hstep
  rcases hd with (rfl | rfl | rfl | rfl) | (rfl | rfl | rfl | rfl) <;> omega

end Square

private theorem Kind.subset_of_gait {kind : Kind} {v : Variant} {ds : List Displacement}
    (h : kind.gait v = .slides ds) : ds ⊆ orthogonals ++ diagonals := by
  cases kind <;> cases v <;> simp [gait] at h <;> simp [← h]

namespace Board

variable {b : Board} {v : Variant} {side : Side} {p a : Piece} {s t u q : Square}
  {d : Displacement} {ds : List Displacement} {n m : Nat}

/-- The piece on `s` attacks `t`, occupied or not. -/
def Attacks (b : Board) (v : Variant) (p : Piece) (s t : Square) : Prop :=
  s ≠ t ∧ match p.kind with
  | .pawn => s.IsAhead p.owner t ∧ s.colGap t = 1
  | _ => b.IsMove v p s t

/-- A piece of the side attacks the square. -/
def IsAttackedBy (b : Board) (v : Variant) (side : Side) (t : Square) : Prop :=
  ∃ s p, b.get s = some p ∧ p.owner = side ∧ b.Attacks v p s t

/-- A piece reaches the squares of opposing pieces that it attacks. -/
theorem mem_reach_iff_attacks (hp : b.get s = some p)
    (ht : b.ownerAt t = some p.owner.opponent) : t ∈ b.reach v s ↔ b.Attacks v p s t := by
  have hfree : b.ownerAt t ≠ some p.owner := by simp [ht, p.owner.opponent_ne]
  have hoccupied : b.get t ≠ none := by simp [← ownerAt_eq_none, ht]
  rw [reach, hp]
  refine (mem_reachBy_gait hp).trans ?_
  rw [and_iff_right hfree, Attacks, and_iff_right (ne_of_ownerAt_ne hp hfree)]
  cases hkind : p.kind with
  | pawn => simp [IsMove, hkind, ht, hoccupied]
  | _ => simp

private theorem reachedBy_iff_isAttackedBy (ht : b.ownerAt t = some side.opponent) :
    b.reachedBy v side t = true ↔ b.IsAttackedBy v side t := by
  simp only [reachedBy_iff, IsAttackedBy, ownerAt_eq_some, ← exists_and_right, and_assoc]
  apply exists_congr
  intro s
  apply exists_congr
  intro p
  apply and_congr_right
  intro hp
  apply and_congr_right
  intro howner
  exact mem_reach_iff_attacks hp (howner ▸ ht)

private theorem inCheck_iff_isAttackedBy (hb : b.HasLoneKings) :
    b.inCheck v side = true ↔
      ∃ k, b.kingAt k = some side ∧ b.IsAttackedBy v side.opponent k := by
  rw [inCheck_iff hb]
  apply exists_congr
  intro k
  apply and_congr_right
  intro hk
  apply reachedBy_iff_isAttackedBy
  rw [side.opponent_opponent]
  exact ownerAt_of_kingAt hk

/-- A move vacates its source, and its target holds the piece alone, as a minister if it is a pawn
on its last row. -/
theorem get_after (hp : b.get s = some p) (t u : Square) :
    (b.after s t).get u =
      if u = t then
        some ⟨if p.kind = .pawn ∧ t.row = p.owner.promotionRow then .minister else p.kind, p.owner,
          true⟩
      else if u = s then none else b.get u := by
  rw [after, relocate, hp]
  simp only [Option.map_some, get_set, eq_comm (a := u), Piece.arrivedAt, Piece.promotesAt,
    decide_eq_true_eq]

private theorem exists_kingAt_after {P : Square → Prop} (hp : b.get s = some p)
    (ht : b.kingAt t ≠ some side) :
    (∃ k, (b.after s t).kingAt k = some side ∧ P k) ↔
      ∃ k, b.kingAt k = some side ∧ P (if k = s then t else k) := by
  obtain ⟨r, hr⟩ : ∃ r, b.relocate s t = some r := ⟨_, by rw [relocate, hp]; rfl⟩
  have hafter : b.after s t = r.board := by rw [after, hr]
  simp only [hafter, kingAt_relocate hr]
  constructor
  · rintro ⟨k, hk, h⟩
    split at hk
    case isTrue heq => exact ⟨s, hk, by rwa [if_pos rfl, heq]⟩
    case isFalse =>
      split at hk
      case isTrue => simp at hk
      case isFalse hne => exact ⟨k, hk, by rwa [if_neg (Ne.symm hne)]⟩
  · rintro ⟨k, hk, h⟩
    by_cases heq : k = s
    · rw [if_pos heq] at h
      exact ⟨t, by rw [if_pos rfl, ← heq, hk], h⟩
    · rw [if_neg heq] at h
      have hne : t ≠ k := fun htk => ht (htk ▸ hk)
      exact ⟨k, by rw [if_neg hne, if_neg (Ne.symm heq), hk], h⟩

private theorem kingAt_ne_owner (hp : b.get s = some p) (ht : t ∈ b.reach v s) :
    b.kingAt t ≠ some p.owner :=
  fun hking => ownerAt_of_mem_reach hp ht (ownerAt_of_kingAt hking)

private theorem exposesKing_iff_isAttackedBy (hb : b.HasLoneKings) (hp : b.get s = some p)
    (ht : t ∈ b.reach v s) :
    b.exposesKing v s t = true ↔ ∃ k, b.kingAt k = some p.owner ∧
      (b.after s t).IsAttackedBy v p.owner.opponent (if k = s then t else k) := by
  rw [exposesKing, hp]
  exact (inCheck_iff_isAttackedBy (hb.after s t)).trans
    (exists_kingAt_after hp (kingAt_ne_owner hp ht))

private theorem attacks_slider (hgait : p.kind.gait v = .slides ds) :
    b.Attacks v p s t ↔ (∃ d ∈ ds, ∃ n, s.Leads d (n + 1) t) ∧ b.Clear s t := by
  cases hkind : p.kind with
  | rook =>
    obtain rfl : orthogonals = ds := by simpa [hkind, Kind.gait] using hgait
    rw [Square.exists_orthogonal_iff]
    simp only [Attacks, IsMove, hkind]
    tauto
  | minister =>
    cases v with
    | senterej => simp [hkind, Kind.gait] at hgait
    | standard =>
      obtain rfl : orthogonals ++ diagonals = ds := by simpa [hkind, Kind.gait] using hgait
      rw [Square.exists_direction_iff]
      simp only [Attacks, IsMove, hkind]
      tauto
  | elephant =>
    cases v with
    | senterej => simp [hkind, Kind.gait] at hgait
    | standard =>
      obtain rfl : diagonals = ds := by simpa [hkind, Kind.gait] using hgait
      rw [Square.exists_diagonal_iff]
      have hne : 1 ≤ s.rowGap t → s ≠ t := by
        intro hgap heq
        simp [heq, Square.rowGap, Square.offset] at hgap
      simp only [Attacks, IsMove, hkind]
      tauto
  | king | knight | pawn => simp [hkind, Kind.gait] at hgait

private theorem clear_after (hd : d ∈ orthogonals ++ diagonals) (hp : b.get s = some p)
    (hs : q.Leads d (n + 1) s) (ht : q.Leads d (m + 1) t)
    (hstep : max (s.rowGap t) (s.colGap t) = 1) (hclear : b.Clear q s) :
    (b.after s t).Clear q t := by
  intro u hu
  obtain ⟨k, hk, hu⟩ := (Square.between_iff hd ht).mp hu
  have hle := Square.steps_of_neighbours hd hs ht hstep
  have hut : u ≠ t := by
    intro heq
    have hkm := Square.leads_injective hd hu (heq ▸ ht)
    omega
  rw [get_after hp, if_neg hut]
  by_cases hus : u = s
  · rw [if_pos hus]
  · rw [if_neg hus]
    have hne : k ≠ n := fun hkn => hus (Option.some.inj ((hkn ▸ hu).symm.trans hs))
    exact hclear u ((Square.between_iff hd hs).mpr ⟨k, by omega, hu⟩)

/-- A king is exposed on a square that an opposing piece attacks once it is there. -/
theorem exposesKing_of_king (hb : b.HasLoneKings) (hp : b.get s = some p) (hking : p.kind = .king)
    (ht : t ∈ b.reach v s) (ha : b.get q = some a) (howner : a.owner = p.owner.opponent)
    (hattack : (b.after s t).Attacks v a q t) : b.exposesKing v s t = true := by
  have hqs : q ≠ s := by
    intro heq
    rw [heq, hp, Option.some.injEq] at ha
    rw [← ha] at howner
    exact p.owner.opponent_ne howner.symm
  refine (exposesKing_iff_isAttackedBy hb hp ht).mpr
    ⟨s, kingAt_eq_some_iff.mpr ⟨p, hp, hking, rfl⟩, q, a, ?_, howner, ?_⟩
  · rw [get_after hp, if_neg hattack.1, if_neg hqs, ha]
  · rwa [if_pos rfl]

/-- A king that steps along the line of a slider is attacked by it again. -/
theorem exposesKing_along (hb : b.HasLoneKings) (hp : b.get s = some p) (hking : p.kind = .king)
    (ht : t ∈ b.reach v s) (ha : b.get q = some a) (howner : a.owner = p.owner.opponent)
    (hgait : a.kind.gait v = .slides ds) (hd : d ∈ ds) (hattack : b.Attacks v a q s)
    (hs : q.Leads d (n + 1) s) (hline : q.Leads d (m + 1) t) : b.exposesKing v s t = true := by
  have hdirection := Kind.subset_of_gait hgait hd
  have hclear := ((attacks_slider hgait).mp hattack).2
  have hstep : max (s.rowGap t) (s.colGap t) = 1 := by
    rw [reach, hp] at ht
    have hmove := ((mem_reachBy_gait hp).mp ht).2
    simpa only [IsMove, hking] using hmove
  apply exposesKing_of_king hb hp hking ht ha howner
  rw [attacks_slider hgait]
  exact ⟨⟨d, hd, m, hline⟩, clear_after hdirection hp hs hline hstep hclear⟩

/-- Exactly those moves expose a king after which an opposing piece attacks its square. A king so
exposes itself on a square that a pawn attacks, and along the line of a slider that attacks it. -/
theorem exposesKing_iff_attacked (hb : b.HasLoneKings) (hp : b.get s = some p)
    (ht : t ∈ b.destinations v s) :
    (b.exposesKing v s t = true ↔ ∃ k, b.kingAt k = some p.owner ∧
      (b.after s t).IsAttackedBy v p.owner.opponent (if k = s then t else k)) ∧
    (∀ u, (b.after s t).get u =
      if u = t then
        some ⟨if p.kind = .pawn ∧ t.row = p.owner.promotionRow then .minister else p.kind, p.owner,
          true⟩
      else if u = s then none else b.get u) ∧
    (p.kind = .king → ∀ q a, b.get q = some a → a.owner = p.owner.opponent →
      (a.kind = .pawn → b.Attacks v a q t → b.exposesKing v s t = true) ∧
      ∀ ds d n m, a.kind.gait v = .slides ds → d ∈ ds → b.Attacks v a q s →
        q.Leads d (n + 1) s → q.Leads d (m + 1) t → b.exposesKing v s t = true) := by
  have hreach := mem_destinations.mp ht
  refine ⟨exposesKing_iff_isAttackedBy hb hp hreach, get_after hp t, ?_⟩
  intro hking q a ha howner
  constructor
  · intro hpawn hattack
    apply exposesKing_of_king hb hp hking hreach ha howner
    simpa only [Attacks, hpawn] using hattack
  · intro ds d n m hgait hd hattack hs hline
    exact exposesKing_along hb hp hking hreach ha howner hgait hd hattack hs hline

/-- White's king on e4 between a black rook on e8 and a black pawn on c5. -/
def crossfire : Board :=
  .ofRows [List.replicate 4 none ++ [some (.fresh .rook .black)], [], [],
    List.replicate 2 none ++ [some (.fresh .pawn .black)],
    List.replicate 4 none ++ [some (.fresh .king .white)]]

theorem crossfire_exposesKing :
    crossfire.HasLoneKings ∧ crossfire.get ⟨4, 4⟩ = some (.fresh .king .white) ∧
      (⟨4, 3⟩ ∈ crossfire.destinations .standard ⟨4, 4⟩ ∧ crossfire.get ⟨4, 3⟩ = none ∧
        crossfire.exposesKing .standard ⟨4, 4⟩ ⟨4, 3⟩ = true) ∧
      (⟨5, 4⟩ ∈ crossfire.destinations .standard ⟨4, 4⟩ ∧
        crossfire.exposesKing .standard ⟨4, 4⟩ ⟨5, 4⟩ = true) ∧
      ⟨4, 5⟩ ∈ crossfire.destinations .standard ⟨4, 4⟩ ∧
        ¬ (crossfire.after ⟨4, 4⟩ ⟨4, 5⟩).IsAttackedBy .standard .black ⟨4, 5⟩ := by
  have hb : crossfire.HasLoneKings := hasLoneKings_iff.mpr (by decide +kernel)
  have hking : crossfire.get ⟨4, 4⟩ = some (.fresh .king .white) := by decide +kernel
  have hrook : crossfire.get ⟨0, 4⟩ = some (.fresh .rook .black) := by decide +kernel
  have hpawn : crossfire.get ⟨3, 2⟩ = some (.fresh .pawn .black) := by decide +kernel
  have hguarded : ⟨4, 3⟩ ∈ crossfire.destinations .standard ⟨4, 4⟩ := by decide +kernel
  have hbeyond : ⟨5, 4⟩ ∈ crossfire.destinations .standard ⟨4, 4⟩ := by decide +kernel
  have haside : ⟨4, 5⟩ ∈ crossfire.destinations .standard ⟨4, 4⟩ := by decide +kernel
  have hfree : crossfire.get ⟨4, 3⟩ = none := by decide +kernel
  have hattack : crossfire.Attacks .standard (.fresh .rook .black) ⟨0, 4⟩ ⟨4, 4⟩ :=
    (mem_reach_iff_attacks hrook (by decide +kernel)).mp (by decide +kernel)
  have hguard : crossfire.Attacks .standard (.fresh .pawn .black) ⟨3, 2⟩ ⟨4, 3⟩ :=
    ⟨by decide, rfl, rfl⟩
  obtain ⟨-, -, hpawns⟩ := exposesKing_iff_attacked hb hking hguarded
  obtain ⟨-, -, hlines⟩ := exposesKing_iff_attacked hb hking hbeyond
  have hiff := (exposesKing_iff_attacked hb hking haside).1
  refine ⟨hb, hking, ⟨hguarded, hfree, ?_⟩, ⟨hbeyond, ?_⟩, haside, ?_⟩
  · exact (hpawns rfl _ _ hpawn rfl).1 rfl hguard
  · exact (hlines rfl _ _ hrook rfl).2 orthogonals (1, 0) 3 4 rfl (by decide) hattack rfl rfl
  · intro hattacked
    have hexposes := hiff.mpr ⟨⟨4, 4⟩, by decide +kernel, hattacked⟩
    exact absurd hexposes (by decide +kernel)

end Board
end WereraChess
