import Mathlib.Data.PFun
import WereraChess.Proofs.Reach
/-!
# Movement on pairs of bytes

A board can be asked for any pair of bytes and a step is a sum of signed bytes, so both may fault;
and nothing bounds the walk along a line. From a square of the board neither faults, the walk comes
to an end, and what is collected are the squares that the piece reaches.
-/
namespace WereraChess

/-- A computation that may fault, and need not come to an end. -/
abbrev Attempt := ExceptT Fault Part

section

variable {α β γ : Type} {l : List α}

theorem liftAttempt_ok (a : α) : (liftM (.ok a : Except Fault α) : Attempt α) = pure a := rfl

private theorem liftAttempt_error (f : Fault) :
    (liftM (.error f : Except Fault α) : Attempt α) = throw f :=
  rfl

theorem liftAttempt_bind (x : Except Fault α) (k : α → Except Fault β) :
    (liftM (x >>= k) : Attempt β) = liftM x >>= fun a => liftM (k a) := by
  cases x with
  | error f => exact (throw_bind f fun a => liftM (k a)).symm
  | ok a => exact (pure_bind a fun a => (liftM (k a) : Attempt β)).symm

/-- Repeats a computation until it faults or gives a result. -/
def loop (round : α → Attempt (β ⊕ α)) (a : α) : Attempt β :=
  ExceptT.mk <| PFun.fix (fun a => (round a).run.map fun
    | .error f => .inl (.error f)
    | .ok (.inl b) => .inl (.ok b)
    | .ok (.inr a) => .inr a) a

private theorem loop_done {round : α → Attempt (β ⊕ α)} {a : α} {b : β}
    (h : round a = pure (.inl b)) : loop round a = pure b := by
  apply Part.eq_some_iff.mpr
  apply PFun.fix_stop
  rw [h]
  exact Part.mem_map _ (Part.mem_some _)

private theorem loop_next {round : α → Attempt (β ⊕ α)} {a a' : α} (h : round a = pure (.inr a')) :
    loop round a = loop round a' := by
  apply PFun.fix_fwd_eq
  rw [h]
  exact Part.mem_map _ (Part.mem_some _)

theorem filterMapM_map_eq_pure (k : α → β) {f : β → Attempt (Option γ)} {g : α → Option γ}
    (h : ∀ a ∈ l, f (k a) = pure (g a)) : (l.map k).filterMapM f = pure (l.filterMap g) := by
  induction l with
  | nil => rfl
  | cons a l ih =>
    rw [List.forall_mem_cons] at h
    rw [List.map_cons, List.filterMapM_cons, h.1, pure_bind, ih h.2, List.filterMap_cons]
    cases g a <;> simp

private theorem filterMapM_eq_pure {f : α → Attempt (Option β)} {g : α → Option β}
    (h : ∀ a ∈ l, f a = pure (g a)) : l.filterMapM f = pure (l.filterMap g) := by
  rw [← filterMapM_map_eq_pure id h, List.map_id]

theorem findM?_map_eq_pure (k : α → β) {f : β → Attempt Bool} {g : α → Bool}
    (h : ∀ a ∈ l, f (k a) = pure (g a)) : (l.map k).findM? f = pure ((l.find? g).map k) := by
  induction l with
  | nil => rfl
  | cons a l ih =>
    rw [List.forall_mem_cons] at h
    rw [List.map_cons, List.findM?, h.1, pure_bind, ih h.2, List.find?_cons]
    cases g a <;> simp

theorem anyM_map_eq_pure (k : α → β) {f : β → Attempt Bool} {g : α → Bool}
    (h : ∀ a ∈ l, f (k a) = pure (g a)) : (l.map k).anyM f = pure (l.any g) := by
  induction l with
  | nil => rfl
  | cons a l ih =>
    rw [List.forall_mem_cons] at h
    rw [List.map_cons, List.anyM, h.1, pure_bind, ih h.2, List.any_cons]
    cases g a <;> simp

end

namespace Coord

def step (c : Coord) (d : Displacement) : Attempt (Option Coord) := do
  return (← c.shift d).map Square.coord

end Coord

/-- No row or column changes by more than two. -/
def Displacement.IsShort (d : Displacement) : Prop :=
  (-2 ≤ d.1 ∧ d.1 ≤ 2) ∧ -2 ≤ d.2 ∧ d.2 ≤ 2

instance : DecidablePred Displacement.IsShort := fun _ => inferInstanceAs (Decidable (_ ∧ _))

namespace Square

variable {s : Square} {d : Displacement}

private theorem shift_coord (hd : d.IsShort) : s.coord.shift d = .ok (s.shift? d) := by
  obtain ⟨hrow, hcol⟩ := hd
  have hr : s.coord.row.toNat = s.row.val := by
    simp [coord]
    omega
  have hc : s.coord.col.toNat = s.col.val := by
    simp [coord]
    omega
  have hbyte (i : Fin 8) : Int.bmod i.val 256 = i.val := Int.bmod_eq_of_le (by omega) (by omega)
  have hrange : (-128 ≤ (s.row : Int) + d.1 ∧ (s.row : Int) + d.1 ≤ 127) ∧
      -128 ≤ (s.col : Int) + d.2 ∧ (s.col : Int) + d.2 ≤ 127 := by omega
  unfold Coord.shift
  rw [hr, hc, hbyte, hbyte]
  exact if_pos hrange

private theorem step_coord (hd : d.IsShort) : s.coord.step d = pure ((s.shift? d).map coord) := by
  rw [Coord.step, shift_coord hd, liftAttempt_ok, pure_bind]

end Square

def Gait.IsShort : Gait → Prop
  | .leaps ds => ∀ d ∈ ds, d.IsShort
  | .slides ds => ds ⊆ orthogonals ++ diagonals
  | .pawn => True

private theorem isShort_gait (kind : Kind) (v : Variant) : (kind.gait v).IsShort := by
  cases kind <;> cases v <;> simp only [Kind.gait, Gait.IsShort] <;> decide

private theorem isShort_of_mem {d : Displacement} (hd : d ∈ orthogonals ++ diagonals) :
    d.IsShort := by
  revert d
  decide

namespace Board

variable {b : Board} {side : Side} {s : Square} {d : Displacement} {c : Coord} {f : Fault}

def pieceOn (b : Board) (c : Coord) : Attempt (Option Piece) := do
  return b.get (← c.onBoard)

def ownerOn (b : Board) (c : Coord) : Attempt (Option Side) := do
  return (← b.pieceOn c).map Piece.owner

/-- Goes on over an empty square, and stops at the edge or at the first piece. -/
def slideRound (b : Board) (side : Side) (d : Displacement) :
    List Coord × Option Coord → Attempt (List Coord ⊕ List Coord × Option Coord)
  | (line, none) => return .inl line
  | (line, some c) => do
    match ← b.ownerOn c with
    | none => return .inr (line ++ [c], ← c.step d)
    | some owner => return .inl (if owner = side then line else line ++ [c])

def slideOn (b : Board) (side : Side) (c : Coord) (d : Displacement) : Attempt (List Coord) := do
  loop (b.slideRound side d) ([], ← c.step d)

/-- The pair that one step leads to, if the piece may land where its owner is. -/
def landOn (b : Board) (c : Coord) (admits : Option Side → Bool) (d : Displacement) :
    Attempt (Option Coord) := do
  match ← c.step d with
  | none => return none
  | some t => return if admits (← b.ownerOn t) then some t else none

/-- The pairs that a piece of `side` on the pair reaches by the gait. -/
def reachByOn (b : Board) (side : Side) (c : Coord) : Gait → Attempt (List Coord)
  | .leaps ds => ds.filterMapM (b.landOn c (· ≠ some side))
  | .slides ds => return (← ds.mapM (b.slideOn side c)).flatten
  | .pawn => do
    let pushes ← [(side.forward, 0)].filterMapM (b.landOn c (· = none))
    let captures ← [(side.forward, -1), (side.forward, 1)].filterMapM
      (b.landOn c (· = some side.opponent))
    return pushes ++ captures

def reachOn (b : Board) (v : Variant) (c : Coord) : Attempt (List Coord) := do
  match ← b.pieceOn c with
  | none => return []
  | some p => b.reachByOn p.owner c (p.kind.gait v)

@[simp] theorem pieceOn_coord (b : Board) (s : Square) : b.pieceOn s.coord = pure (b.get s) := by
  rw [pieceOn, Coord.onBoard_eq_ok.mpr (Coord.square?_coord s), liftAttempt_ok, pure_bind]

@[simp] theorem ownerOn_coord (b : Board) (s : Square) :
    b.ownerOn s.coord = pure (b.ownerAt s) := by
  rw [ownerOn, pieceOn_coord, pure_bind]
  rfl

theorem pieceOn_error (h : c.onBoard = .error f) : b.pieceOn c = throw f := by
  rw [pieceOn, h, liftAttempt_error, throw_bind]

theorem ownerOn_error (h : c.onBoard = .error f) : b.ownerOn c = throw f := by
  rw [ownerOn, pieceOn_error h, throw_bind]

/-- A walk between squares of the board comes to its end. -/
theorem Walk.loop_eq {cursor : Option Square} {line : List Square}
    (h : b.Walk side d cursor line) (hd : d.IsShort) (before : List Coord) :
    loop (b.slideRound side d) (before, cursor.map Square.coord) =
      pure (before ++ line.map Square.coord) := by
  induction h generalizing before with
  | edge =>
    rw [List.map_nil, List.append_nil]
    exact loop_done rfl
  | @free s line hfree _ ih =>
    have hround : b.slideRound side d (before, some s.coord) =
        pure (.inr (before ++ [s.coord], (s.shift? d).map Square.coord)) := by
      rw [slideRound, ownerOn_coord, pure_bind, hfree]
      simp only [Square.step_coord hd, pure_bind]
    rw [Option.map_some, loop_next hround, ih, List.map_cons, List.append_assoc]
    rfl
  | @own s hown =>
    apply loop_done
    rw [Option.map_some, slideRound, ownerOn_coord, pure_bind, hown]
    simp
  | @taken s htaken =>
    apply loop_done
    rw [Option.map_some, slideRound, ownerOn_coord, pure_bind, htaken]
    simp [side.opponent_ne]

private theorem slideOn_coord (b : Board) (side : Side) (s : Square)
    (hd : d ∈ orthogonals ++ diagonals) :
    b.slideOn side s.coord d = pure ((b.slideAlong side (s.ray d)).map Square.coord) := by
  have hshort := isShort_of_mem hd
  rw [slideOn, Square.step_coord hshort, pure_bind]
  exact (walk_slideAlong b side hd s).loop_eq hshort []

private theorem landOn_coord (b : Board) (admits : Option Side → Bool) (hd : d.IsShort) :
    b.landOn s.coord admits d =
      pure (((s.shift? d).filter fun t => admits (b.ownerAt t)).map Square.coord) := by
  rw [landOn, Square.step_coord hd, pure_bind]
  cases s.shift? d with
  | none => rfl
  | some t =>
    simp only [Option.map_some, ownerOn_coord, pure_bind, Option.filter_some]
    cases admits (b.ownerAt t) <;> rfl

private theorem filterMapM_landOn (b : Board) (s : Square) (admits : Option Side → Bool)
    {ds : List Displacement} (hds : ∀ d ∈ ds, d.IsShort) :
    ds.filterMapM (b.landOn s.coord admits) =
      pure (((ds.filterMap s.shift?).filter fun t => admits (b.ownerAt t)).map Square.coord) := by
  rw [filterMapM_eq_pure fun d hd => b.landOn_coord admits (hds d hd), List.filter_filterMap,
    List.map_filterMap]

private theorem reachByOn_coord (b : Board) (side : Side) (s : Square) {g : Gait} (hg : g.IsShort) :
    b.reachByOn side s.coord g = pure ((b.reachBy side s g).map Square.coord) := by
  cases g with
  | leaps ds => exact b.filterMapM_landOn s _ hg
  | slides ds =>
    rw [reachByOn, mapM_eq_pure fun d hd => b.slideOn_coord side s (hg hd), pure_bind, reachBy,
      List.map_flatMap]
    rfl
  | pawn =>
    have hahead : ∀ d ∈ [(side.forward, 0)], Displacement.IsShort d := by
      cases side <;> decide
    have haside : ∀ d ∈ [(side.forward, -1), (side.forward, 1)], Displacement.IsShort d := by
      cases side <;> decide
    rw [reachByOn, filterMapM_landOn b s _ hahead, pure_bind, filterMapM_landOn b s _ haside,
      pure_bind, ← List.map_append]
    rfl

/-- From every square of the board the generation of moves comes to an end without a fault. -/
@[simp] theorem reachOn_coord (b : Board) (v : Variant) (s : Square) :
    b.reachOn v s.coord = pure ((b.reach v s).map Square.coord) := by
  rw [reachOn, pieceOn_coord, pure_bind, reach]
  cases b.get s with
  | none => rfl
  | some p => exact b.reachByOn_coord p.owner s (isShort_gait p.kind v)

end Board

end WereraChess
