import Mathlib.Logic.Function.Basic
import WereraChess.Proofs.Kings
import WereraChess.Proofs.Liveness
import WereraChess.Proofs.Reach
/-!
# The board seen from the other side

The mirror turns the rows over and swaps the colours. Every piece then goes to the mirrored squares,
a check is a check of the other king, and the ending of a position is the mirrored ending. No side
may have two kings: the first of them, row by row, is not the first of the mirrored board.
-/
namespace WereraChess

namespace Square

def mirror (s : Square) : Square := ⟨s.row.rev, s.col⟩

@[simp] theorem mirror_mirror (s : Square) : s.mirror.mirror = s := by
  simp [mirror]

private theorem mirror_involutive : Function.Involutive mirror := mirror_mirror

@[simp] theorem mirror_inj {s t : Square} : s.mirror = t.mirror ↔ s = t :=
  mirror_involutive.injective.eq_iff

private theorem exists_mirror {P : Square → Prop} : (∃ s, P s) ↔ ∃ s, P (mirror s) :=
  mirror_involutive.surjective.exists

private theorem forall_mirror {P : Square → Prop} : (∀ s, P s) ↔ ∀ s, P (mirror s) :=
  mirror_involutive.surjective.forall

variable {s t u : Square}

@[simp] theorem row_mirror (s : Square) : (s.mirror.row : Nat) = 7 - s.row := by
  rw [mirror, Fin.val_rev]
  omega

@[simp] theorem col_mirror (s : Square) : s.mirror.col = s.col := rfl

private theorem row_mirror_inj : s.mirror.row = t.mirror.row ↔ s.row = t.row := Fin.rev_inj

private theorem rowGap_mirror (s t : Square) : s.mirror.rowGap t.mirror = s.rowGap t := by
  simp only [rowGap, offset, row_mirror]
  omega

theorem colGap_mirror (s t : Square) : s.mirror.colGap t.mirror = s.colGap t := rfl

private theorem inside_mirror :
    Inside s.mirror.row u.mirror.row t.mirror.row ↔ Inside s.row u.row t.row := by
  simp only [Inside, row_mirror]
  omega

private theorem between_mirror : s.mirror.Between u.mirror t.mirror ↔ s.Between u t := by
  simp only [Between, rowGap_mirror, colGap_mirror, row_mirror_inj, col_mirror, inside_mirror]

private theorem isAhead_mirror {side : Side} :
    IsAhead side.opponent s.mirror t.mirror ↔ IsAhead side s t := by
  cases side <;> simp only [IsAhead, Side.opponent, row_mirror] <;> omega

private theorem row_mirror_eq_promotionRow {side : Side} :
    s.mirror.row = side.opponent.promotionRow ↔ s.row = side.promotionRow := by
  cases side <;> simp only [Side.opponent, Side.promotionRow, Fin.ext_iff, row_mirror] <;> omega

end Square

private theorem Side.opponent_inj {side other : Side} :
    side.opponent = other.opponent ↔ side = other :=
  Function.Injective.eq_iff (Function.LeftInverse.injective opponent_opponent)

private theorem Side.map_opponent_eq_some {owner : Option Side} {side : Side} :
    owner.map opponent = some side.opponent ↔ owner = some side := by
  cases owner <;> simp [opponent_inj]

namespace Piece

def mirror (p : Piece) : Piece := { p with owner := p.owner.opponent }

private theorem kingOf?_mirror (p : Piece) : p.mirror.kingOf? = p.kingOf?.map Side.opponent := by
  rw [kingOf?, kingOf?]
  change (if p.kind = .king then some p.owner.opponent else none) = _
  split <;> rfl

private theorem promotesAt_mirror (p : Piece) (s : Square) :
    p.mirror.promotesAt s.mirror = p.promotesAt s := by
  simp only [promotesAt, mirror, Square.row_mirror_eq_promotionRow]

private theorem arrivedAt_mirror (p : Piece) (s : Square) :
    p.mirror.arrivedAt s.mirror = (p.arrivedAt s).mirror := by
  simp only [arrivedAt, promotesAt_mirror]
  rfl

end Piece

/-- The mirrored board. It is read by `get_mirror` and never unfolded. -/
@[irreducible] def Board.mirror (b : Board) : Board :=
  .ofFn fun s => (b.get s.mirror).map Piece.mirror

def Relocation.mirror (r : Relocation) : Relocation :=
  ⟨r.piece.mirror, r.captured.map Piece.mirror, r.promoted, r.board.mirror⟩

namespace Board

variable {b : Board} {v : Variant} {side : Side} {s t : Square}

@[simp] theorem get_mirror (b : Board) (s : Square) :
    b.mirror.get s.mirror = (b.get s).map Piece.mirror := by
  rw [mirror, get_ofFn, Square.mirror_mirror]

@[simp] theorem ownerAt_mirror (b : Board) (s : Square) :
    b.mirror.ownerAt s.mirror = (b.ownerAt s).map Side.opponent := by
  rw [ownerAt, get_mirror, ownerAt, Option.map_map, Option.map_map]
  rfl

theorem ownerAt_mirror_eq_some :
    b.mirror.ownerAt s.mirror = some side.opponent ↔ b.ownerAt s = some side := by
  rw [ownerAt_mirror, Side.map_opponent_eq_some]

theorem kingAt_mirror_eq_some :
    b.mirror.kingAt s.mirror = some side.opponent ↔ b.kingAt s = some side := by
  have hking : b.mirror.kingAt s.mirror = (b.kingAt s).map Side.opponent := by
    rw [kingAt, get_mirror, kingAt]
    cases b.get s with
    | none => rfl
    | some p => exact p.kingOf?_mirror
  rw [hking, Side.map_opponent_eq_some]

theorem clear_mirror : b.mirror.Clear s.mirror t.mirror ↔ b.Clear s t := by
  rw [Clear, Square.forall_mirror]
  simp only [Square.between_mirror, get_mirror, Option.map_eq_none_iff]
  rfl

theorem isMove_mirror {p : Piece} :
    b.mirror.IsMove v p.mirror s.mirror t.mirror ↔ b.IsMove v p s t := by
  have hne : s.mirror ≠ t.mirror ↔ s ≠ t := Square.mirror_inj.not
  have hkind : p.mirror.kind = p.kind := rfl
  have howner : p.mirror.owner = p.owner.opponent := rfl
  unfold IsMove
  simp only [hkind, howner, hne, Square.rowGap_mirror, Square.colGap_mirror, Square.row_mirror_inj,
    Square.col_mirror, Square.isAhead_mirror, clear_mirror, get_mirror, Option.map_eq_none_iff,
    ownerAt_mirror_eq_some]

theorem mem_reach_mirror : t.mirror ∈ b.mirror.reach v s.mirror ↔ t ∈ b.reach v s := by
  have hp' := get_mirror b s
  rw [reach, reach]
  cases hp : b.get s with
  | none => simp [hp]
  | some p =>
    rw [hp, Option.map_some] at hp'
    rw [hp']
    change t.mirror ∈ b.mirror.reachBy p.mirror.owner s.mirror (p.mirror.kind.gait v) ↔
      t ∈ b.reachBy p.owner s (p.kind.gait v)
    rw [mem_reachBy_gait hp', mem_reachBy_gait hp, isMove_mirror]
    exact and_congr_left fun _ => ownerAt_mirror_eq_some.not

theorem set_mirror (b : Board) (s : Square) (p : Option Piece) :
    b.mirror.set s.mirror (p.map Piece.mirror) = (b.set s p).mirror := by
  ext1 u
  obtain ⟨u, rfl⟩ := Square.mirror_involutive.surjective u
  simp only [get_set, get_mirror, Square.mirror_inj]
  split <;> rfl

theorem relocate_mirror (b : Board) (s t : Square) :
    b.mirror.relocate s.mirror t.mirror =
      (b.relocate s t).map Relocation.mirror := by
  rw [relocate, relocate, get_mirror, get_mirror]
  cases b.get s with
  | none => rfl
  | some p =>
    have hcaptured : ((b.get t).map Piece.mirror).filter (·.owner ≠ p.mirror.owner) =
        ((b.get t).filter (·.owner ≠ p.owner)).map Piece.mirror := by
      cases b.get t with
      | none => rfl
      | some q =>
        simp only [Option.map_some, Option.filter_some, Piece.mirror, ne_eq, Side.opponent_inj]
        split <;> rfl
    simp only [Option.map_some, Relocation.mirror, hcaptured, Piece.promotesAt_mirror,
      Piece.arrivedAt_mirror]
    rw [← set_mirror, ← set_mirror]
    rfl

theorem after_mirror (b : Board) (s t : Square) :
    b.mirror.after s.mirror t.mirror = (b.after s t).mirror := by
  rw [after, relocate_mirror, after]
  cases b.relocate s t <;> rfl

theorem reachedBy_mirror :
    b.mirror.reachedBy v side.opponent t.mirror = b.reachedBy v side t := by
  rw [Bool.eq_iff_iff, reachedBy_iff, reachedBy_iff, Square.exists_mirror]
  simp only [ownerAt_mirror_eq_some, mem_reach_mirror]

theorem isSome_king?_mirror (side : Side) :
    (b.mirror.king? side.opponent).isSome = (b.king? side).isSome := by
  rw [Bool.eq_iff_iff, isSome_king?_iff, isSome_king?_iff, Square.exists_mirror]
  simp only [kingAt_mirror_eq_some]

theorem HasLoneKings.mirror (hb : b.HasLoneKings) : b.mirror.HasLoneKings := by
  intro s t side hs ht
  obtain ⟨s, rfl⟩ := Square.mirror_involutive.surjective s
  obtain ⟨t, rfl⟩ := Square.mirror_involutive.surjective t
  rw [← side.opponent_opponent, kingAt_mirror_eq_some] at hs ht
  rw [hb s t _ hs ht]

theorem inCheck_mirror (hb : b.HasLoneKings) :
    b.mirror.inCheck v side.opponent = b.inCheck v side := by
  rw [Bool.eq_iff_iff, inCheck_iff hb, inCheck_iff hb.mirror, Square.exists_mirror]
  simp only [kingAt_mirror_eq_some, reachedBy_mirror]

theorem exposesKing_mirror (hb : b.HasLoneKings) :
    b.mirror.exposesKing v s.mirror t.mirror = b.exposesKing v s t := by
  rw [exposesKing, exposesKing, get_mirror]
  cases b.get s with
  | none => rfl
  | some p =>
    rw [Option.map_some, after_mirror]
    exact inCheck_mirror (hb.after s t)

theorem hasMove_mirror : b.mirror.hasMove v side.opponent = b.hasMove v side := by
  rw [Bool.eq_iff_iff, hasMove_iff, hasMove_iff, Square.exists_mirror]
  simp only [ownerAt_mirror_eq_some, Square.exists_mirror (P := (· ∈ b.mirror.reach v _)),
    mem_reach_mirror]

theorem hasSafeMove_mirror (hb : b.HasLoneKings) :
    b.mirror.hasSafeMove v side.opponent = b.hasSafeMove v side := by
  rw [Bool.eq_iff_iff, hasSafeMove_iff, hasSafeMove_iff, Square.exists_mirror]
  simp only [ownerAt_mirror_eq_some]
  apply exists_congr
  intro s
  apply and_congr_right
  intro _
  rw [Square.exists_mirror]
  simp only [mem_reach_mirror, exposesKing_mirror hb]

private theorem nodup_piecesOf (b : Board) (side : Side) : (b.piecesOf side).Nodup := by
  apply List.Nodup.filter
  apply Square.nodup_all.filterMap
  intro s t x hs ht
  obtain ⟨p, -, rfl⟩ := Option.map_eq_some_iff.mp hs
  obtain ⟨q, -, hpair⟩ := Option.map_eq_some_iff.mp ht
  exact (Prod.mk.inj hpair).1.symm

private theorem isBareKing_iff :
    b.isBareKing side = true ↔
      ∃ s, b.kingAt s = some side ∧ ∀ t, b.ownerAt t = some side → t = s := by
  simp only [kingAt_eq_some_iff, ownerAt_eq_some]
  constructor
  · intro h
    rw [isBareKing] at h
    split at h
    case h_1 s p hpieces =>
      have hmem {t : Square} {q : Piece} :
          b.get t = some q ∧ q.owner = side ↔ t = s ∧ q = p := by
        rw [← mem_piecesOf, hpieces, List.mem_singleton, Prod.mk.injEq]
      obtain ⟨hp, howner⟩ := hmem.mpr ⟨rfl, rfl⟩
      refine ⟨s, ⟨p, hp, of_decide_eq_true h, howner⟩, ?_⟩
      intro t ⟨q, hq⟩
      exact (hmem.mp hq).1
    case h_2 => exact absurd h Bool.false_ne_true
  · intro ⟨s, ⟨p, hp, hking, howner⟩, honly⟩
    have hpieces : b.piecesOf side = [(s, p)] := by
      apply List.perm_singleton.mp
      apply (List.perm_ext_iff_of_nodup (b.nodup_piecesOf side) (List.nodup_singleton _)).mpr
      intro ⟨t, q⟩
      rw [mem_piecesOf, List.mem_singleton, Prod.mk.injEq]
      constructor
      · intro hq
        obtain rfl := honly t ⟨q, hq⟩
        exact ⟨rfl, Option.some.inj (hq.1.symm.trans hp)⟩
      · intro ⟨ht, hq⟩
        rw [ht, hq]
        exact ⟨hp, howner⟩
    rw [isBareKing, hpieces]
    exact decide_eq_true hking

theorem isBareKing_mirror (side : Side) :
    b.mirror.isBareKing side.opponent = b.isBareKing side := by
  rw [Bool.eq_iff_iff, isBareKing_iff, isBareKing_iff, Square.exists_mirror]
  simp only [kingAt_mirror_eq_some]
  apply exists_congr
  intro s
  rw [Square.forall_mirror]
  simp only [ownerAt_mirror_eq_some, Square.mirror_inj]

end Board

def Ending.mirror (e : Ending) : Ending := { e with winner := e.winner.map Side.opponent }

namespace Board

variable {b : Board} {v : Variant} {side : Side} {selfCheck : Bool}

theorem lostKing?_mirror : b.mirror.lostKing? = b.lostKing?.map Ending.mirror := by
  have hwhite : (b.mirror.king? .white).isSome = (b.king? .black).isSome :=
    isSome_king?_mirror .black
  have hblack : (b.mirror.king? .black).isSome = (b.king? .white).isSome :=
    isSome_king?_mirror .white
  rw [lostKing?, lostKing?, hwhite, hblack]
  cases (b.king? .white).isSome <;> cases (b.king? .black).isSome <;> rfl

theorem bareKing?_mirror : b.mirror.bareKing? v = (b.bareKing? v).map Ending.mirror := by
  have hwhite : b.mirror.isBareKing .white = b.isBareKing .black :=
    isBareKing_mirror .black
  have hblack : b.mirror.isBareKing .black = b.isBareKing .white :=
    isBareKing_mirror .white
  cases v with
  | standard => rfl
  | senterej =>
    simp only [bareKing?, hwhite, hblack]
    cases b.isBareKing .white <;> cases b.isBareKing .black <;> rfl

theorem noMove?_mirror (hb : b.HasLoneKings) :
    b.mirror.noMove? v side.opponent selfCheck =
      (b.noMove? v side selfCheck).map Ending.mirror := by
  unfold noMove?
  rw [hasMove_mirror, hasSafeMove_mirror hb, inCheck_mirror hb]
  generalize (if selfCheck = true then b.hasMove v side else b.hasSafeMove v side) = able
  cases able <;> cases b.inCheck v side <;> cases v <;> rfl

theorem ending?_mirror (hb : b.HasLoneKings) :
    b.mirror.ending? v side.opponent selfCheck =
      (b.ending? v side selfCheck).map Ending.mirror := by
  rw [ending?, ending?, lostKing?_mirror, bareKing?_mirror, noMove?_mirror hb]
  cases b.lostKing? <;> cases b.bareKing? v <;> rfl

end Board

end WereraChess
