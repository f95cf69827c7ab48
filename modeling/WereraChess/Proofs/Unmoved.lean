import WereraChess.Proofs.Course
/-!
# Flags of moved pieces

Whether a piece has moved is shown and kept, but no rule asks for it: what is reached, check and the
ending of a position do not depend on the flags, and neither does any part of a standing but the
flags on its board.
-/
namespace WereraChess

/-- The piece as it is set up. -/
def Piece.unmoved (p : Piece) : Piece := .fresh p.kind p.owner

namespace Board

/-- The same pieces as they are set up. -/
@[irreducible] def unmoved (b : Board) : Board := ofFn fun s => (b.get s).map Piece.unmoved

variable {v : Variant} {side : Side} {s t : Square}

@[simp] theorem get_unmoved (b : Board) (s : Square) :
    b.unmoved.get s = (b.get s).map Piece.unmoved := by
  rw [unmoved, get_ofFn]

theorem unmoved_eq_iff {b c : Board} :
    b.unmoved = c.unmoved ↔
      ∀ s, (b.get s).map Piece.unmoved = (c.get s).map Piece.unmoved := by
  constructor
  · intro h s
    rw [← get_unmoved, ← get_unmoved, h]
  · intro h
    ext1 s
    rw [get_unmoved, get_unmoved, h]

@[simp] theorem unmoved_unmoved (b : Board) : b.unmoved.unmoved = b.unmoved := by
  rw [unmoved_eq_iff]
  intro s
  rw [get_unmoved, Option.map_map]
  rfl

@[simp] theorem ownerAt_unmoved (b : Board) (s : Square) : b.unmoved.ownerAt s = b.ownerAt s := by
  simp only [ownerAt, get_unmoved, Option.map_map]
  rfl

theorem piecesOf_unmoved (b : Board) (side : Side) :
    b.unmoved.piecesOf side = (b.piecesOf side).map (Prod.map id Piece.unmoved) := by
  have hoccupied : b.unmoved.occupied = b.occupied.map (Prod.map id Piece.unmoved) := by
    simp only [occupied, List.map_filterMap, get_unmoved, Option.map_map]
    rfl
  rw [piecesOf, hoccupied, List.filter_map]
  rfl

@[simp] theorem king?_unmoved (b : Board) (side : Side) : b.unmoved.king? side = b.king? side := by
  simp only [king?, get_unmoved, Option.any_map]
  rfl

theorem slideAlong_unmoved (b : Board) (side : Side) (line : List Square) :
    b.unmoved.slideAlong side line = b.slideAlong side line := by
  induction line with
  | nil => simp only [slideAlong]
  | cons s line ih => rw [slideAlong, slideAlong, ownerAt_unmoved, ih]

@[simp] theorem reach_unmoved (b : Board) (v : Variant) (s : Square) :
    b.unmoved.reach v s = b.reach v s := by
  have hreach (side : Side) (g : Gait) : b.unmoved.reachBy side s g = b.reachBy side s g := by
    cases g <;> simp only [reachBy, ownerAt_unmoved, slideAlong_unmoved]
  rw [reach, get_unmoved, reach]
  cases b.get s with
  | none => rfl
  | some p => exact hreach p.owner (p.kind.gait v)

@[simp] theorem inCheck_unmoved (b : Board) (v : Variant) (side : Side) :
    b.unmoved.inCheck v side = b.inCheck v side := by
  have hreached (side : Side) (t : Square) :
      b.unmoved.reachedBy v side t = b.reachedBy v side t := by
    simp only [reachedBy, piecesOf_unmoved, List.any_map, reach_unmoved, Function.comp_def,
      Prod.map_fst, id]
  simp only [inCheck, king?_unmoved, hreached]

end Board

def Relocation.unmoved (r : Relocation) : Relocation :=
  ⟨r.piece.unmoved, r.captured.map Piece.unmoved, r.promoted, r.board.unmoved⟩

namespace Board

theorem unmoved_set (b : Board) (s : Square) (p : Option Piece) :
    (b.set s p).unmoved = b.unmoved.set s (p.map Piece.unmoved) := by
  ext1 t
  rw [get_unmoved, get_set, get_set, get_unmoved]
  split <;> rfl

theorem unmoved_arrivedAt (p : Piece) (s : Square) :
    (p.unmoved.arrivedAt s).unmoved = (p.arrivedAt s).unmoved := rfl

theorem relocate_unmoved (b : Board) (s t : Square) :
    (b.unmoved.relocate s t).map Relocation.unmoved = (b.relocate s t).map Relocation.unmoved := by
  rw [relocate, relocate, get_unmoved b s]
  cases b.get s with
  | none => rfl
  | some p =>
    simp only [Option.map_some, Relocation.unmoved, get_unmoved, Option.filter_map, unmoved_set,
      unmoved_unmoved, Option.map_map, unmoved_arrivedAt]
    rfl

theorem after_unmoved (b : Board) (s t : Square) :
    (b.unmoved.after s t).unmoved = (b.after s t).unmoved := by
  have hafter (b : Board) : (b.after s t).unmoved =
      ((b.relocate s t).map Relocation.unmoved).elim b.unmoved Relocation.board := by
    rw [after]
    cases b.relocate s t <;> rfl
  rw [hafter, hafter, relocate_unmoved, unmoved_unmoved]

@[simp] theorem exposesKing_unmoved (b : Board) (v : Variant) (s t : Square) :
    b.unmoved.exposesKing v s t = b.exposesKing v s t := by
  rw [exposesKing, exposesKing, get_unmoved]
  cases b.get s with
  | none => rfl
  | some p =>
    have hcheck : (b.unmoved.after s t).inCheck v p.owner = (b.after s t).inCheck v p.owner := by
      rw [← inCheck_unmoved, after_unmoved, inCheck_unmoved]
    exact hcheck

theorem isBareKing_unmoved (b : Board) (side : Side) :
    b.unmoved.isBareKing side = b.isBareKing side := by
  rw [isBareKing, isBareKing, piecesOf_unmoved]
  match b.piecesOf side with
  | [] => rfl
  | [_] => rfl
  | _ :: _ :: _ => rfl

theorem noMove?_unmoved (b : Board) (v : Variant) (side : Side) (selfCheck : Bool) :
    b.unmoved.noMove? v side selfCheck = b.noMove? v side selfCheck := by
  have hsafe : b.unmoved.hasSafeMove v side = b.hasSafeMove v side := by
    simp only [hasSafeMove, piecesOf_unmoved, List.any_map, reach_unmoved, exposesKing_unmoved,
      Function.comp_def, Prod.map_fst, id]
  have hmove : b.unmoved.hasMove v side = b.hasMove v side := by
    simp only [hasMove, piecesOf_unmoved, List.any_map, reach_unmoved, Function.comp_def,
      Prod.map_fst, id]
  simp only [noMove?, hsafe, hmove, inCheck_unmoved]

@[simp] theorem ending?_unmoved (b : Board) (v : Variant) (side : Side) (selfCheck : Bool) :
    b.unmoved.ending? v side selfCheck = b.ending? v side selfCheck := by
  have hlost : b.unmoved.lostKing? = b.lostKing? := by
    rw [lostKing?, lostKing?, king?_unmoved, king?_unmoved]
  have hbare : b.unmoved.bareKing? v = b.bareKing? v := by
    cases v with
    | senterej => simp only [bareKing?, isBareKing_unmoved]
    | standard => rfl
  rw [ending?, ending?, hlost, hbare, noMove?_unmoved]

end Board

namespace Course

variable {v : Variant} {rules : HouseRules}

/-- The same course on unmoved pieces. -/
def unmoved (c : Course) : Course := { c with board := c.board.unmoved }

theorem settle_unmoved (c : Course) (side : Side) :
    c.unmoved.settle v rules side = (c.settle v rules side).unmoved := by
  simp only [settle, unmoved, Board.ending?_unmoved]

theorem applies_unmoved (c : Course) (m : Move) (s t : Square) :
    c.unmoved.applies m s t = c.applies m s t := by
  simp only [applies, unmoved, Board.ownerAt_unmoved]

theorem advance_unmoved (c : Course) (mover : Side) (r : Relocation) :
    c.unmoved.advance mover r.unmoved = (c.advance mover r).map unmoved := by
  have hcount : c.unmoved.moveCount = c.moveCount := rfl
  simp only [advance, hcount]
  split
  case isTrue =>
    obtain ⟨piece, captured, promoted, board⟩ := r
    cases captured <;> rfl
  case isFalse => rfl

@[simp] theorem unmoved_unmoved (c : Course) : c.unmoved.unmoved = c.unmoved := by
  simp only [unmoved, Board.unmoved_unmoved]

private theorem map_advance_unmoved (c : Course) (mover : Side) {r r' : Relocation}
    (h : r'.unmoved = r.unmoved) :
    (c.unmoved.advance mover r').map unmoved = (c.advance mover r).map unmoved := by
  rw [← advance_unmoved, ← advance_unmoved, unmoved_unmoved, h]

theorem play_unmoved (c : Course) (m : Move) :
    (c.unmoved.play v rules m).map unmoved = (c.play v rules m).map unmoved := by
  apply play_congr
  · rfl
  · exact c.applies_unmoved m
  · simp only [skip, unmoved, Board.unmoved_unmoved]
  · intro s t r r' hr hr'
    have hrelocate := c.board.relocate_unmoved s t
    change (c.unmoved.board.relocate s t).map _ = _ at hrelocate
    rw [hr, hr'] at hrelocate
    have hsettle (x : Except Fault Course) :
        x.map (fun d => (d.settle v rules m.mover.opponent).unmoved) =
          (x.map unmoved).map (·.settle v rules m.mover.opponent) := by
      cases x with
      | error f => rfl
      | ok d => exact congrArg Except.ok (d.settle_unmoved m.mover.opponent).symm
    rw [hsettle, hsettle, c.map_advance_unmoved m.mover (Option.some.inj hrelocate)]

theorem run_unmoved {c d : Course} (h : c.unmoved = d.unmoved) (ms : List Move) :
    (ms.foldlM (play v rules) c).map unmoved = (ms.foldlM (play v rules) d).map unmoved := by
  induction ms generalizing c d with
  | nil => exact congrArg Except.ok h
  | cons m ms ih =>
    have hplay : (c.play v rules m).map unmoved = (d.play v rules m).map unmoved := by
      rw [← play_unmoved c, h, play_unmoved]
    rw [List.foldlM_cons, List.foldlM_cons, map_bind_eq, map_bind_eq]
    exact bind_congr_of_map hplay fun _ _ => ih

end Course

def Opening.unmoved (o : Opening) : Opening := { o with board := o.board.unmoved }

def Standing.unmoved (s : Standing) : Standing := { s with board := s.board.unmoved }

theorem Course.standing_unmoved (v : Variant) (c : Course) :
    c.unmoved.standing v = (c.standing v).unmoved := by
  simp only [standing, unmoved, Standing.unmoved, Board.inCheck_unmoved]

theorem Course.start_unmoved (v : Variant) (rules : HouseRules) (o : Opening) :
    (start v rules o.unmoved) = (start v rules o).unmoved :=
  settle_unmoved (v := v) ⟨o.board, .resume o.phase o.turn, .none, o.moveCount, []⟩ o.turn

/-- The flags of moved pieces at the start have no part in a replay but in the flags at its end. -/
theorem replay_unmoved (v : Variant) (rules : HouseRules) (o : Opening) (ms : List Move) :
    (replay v rules o.unmoved ms).map Standing.unmoved =
      (replay v rules o ms).map Standing.unmoved := by
  have hreplay (o : Opening) : (replay v rules o ms).map Standing.unmoved =
      (((Move.canonical ms).foldlM (Course.play v rules) (Course.start v rules o)).map
        Course.unmoved).map (Course.standing v) := by
    rw [replay]
    cases (Move.canonical ms).foldlM (Course.play v rules) (Course.start v rules o) with
    | error f => rfl
    | ok c => exact congrArg Except.ok (c.standing_unmoved v).symm
  have hstart : (Course.start v rules o.unmoved).unmoved = (Course.start v rules o).unmoved := by
    rw [Course.start_unmoved, Course.unmoved_unmoved]
  rw [hreplay, hreplay, Course.run_unmoved hstart]

end WereraChess
