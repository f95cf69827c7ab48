import Mathlib.Data.Prod.Basic
import WereraChess.Proofs.Bytes.Replay
import WereraChess.Proofs.Checkpoint
import WereraChess.Proofs.Rows
/-!
# Play without faults

From squares of the board moves lead to squares of the board, and a line counts its runs of empty
squares in a byte that has room for them. So as long as the move counter has room, the records and
submissions of a game on the board never fault.
-/
namespace WereraChess

namespace Placement

/-- The sum of two bytes, if it is one. -/
def byteSum? (m n : UInt8) : Option UInt8 :=
  if m.toNat + n.toNat < UInt8.size then some (m + n) else none

/-- The run that a byte has counted. -/
def runOn (n : UInt8) : Option (List Char) :=
  if n = 0 then some [] else (byteSum? 48 n).map fun code => [Char.ofNat code.toNat]

def rankTextOn (a : Alphabet) : UInt8 → List (Option Piece) → Option (List Char)
  | n, [] => runOn n
  | n, none :: squares => do rankTextOn a (← byteSum? n 1) squares
  | n, some p :: squares => do return (← runOn n) ++ a.symbol p :: (← rankTextOn a 0 squares)

def textOn (a : Alphabet) (b : Board) : Option (List Char) := do
  return ['/'].intercalate (← b.rows.mapM (rankTextOn a 0))

private theorem exists_byteSum? {m n : UInt8} (h : m.toNat + n.toNat < UInt8.size) :
    ∃ k, byteSum? m n = some k ∧ k.toNat = m.toNat + n.toNat := by
  refine ⟨m + n, if_pos h, ?_⟩
  rw [UInt8.toNat_add]
  exact Nat.mod_eq_of_lt h

private theorem runOn_eq {n : UInt8} (h : n.toNat ≤ 8) : runOn n = some (run n.toNat) := by
  have hdigit : ∀ k ≤ 8, Char.ofNat (48 + k) = Nat.digitChar k := by decide
  by_cases hn : n = 0
  · rw [hn]
    rfl
  · have hpos : n.toNat ≠ 0 := fun hzero => hn (UInt8.toNat_inj.mp hzero)
    have hsum : (48 : UInt8).toNat + n.toNat < UInt8.size :=
      Nat.lt_of_le_of_lt (Nat.add_le_add_left h _) (by decide)
    obtain ⟨k, hk, hvalue⟩ := exists_byteSum? hsum
    rw [runOn, if_neg hn, hk, Option.map_some, hvalue]
    obtain ⟨i, hi⟩ := Nat.exists_eq_succ_of_ne_zero hpos
    rw [hi] at h ⊢
    exact congrArg (some [·]) (hdigit _ h)

private theorem rankTextOn_eq (a : Alphabet) {n : UInt8} {squares : List (Option Piece)}
    (h : n.toNat + squares.length ≤ 8) :
    rankTextOn a n squares = some (rankText a n.toNat squares) := by
  induction squares generalizing n with
  | nil => exact runOn_eq h
  | cons square squares ih =>
    rw [List.length_cons] at h
    cases square with
    | none =>
      have hsum : n.toNat + (1 : UInt8).toNat < UInt8.size :=
        Nat.lt_of_le_of_lt (Nat.add_le_add_right (by omega : n.toNat ≤ 7) _) (by decide)
      obtain ⟨k, hk, hvalue⟩ := exists_byteSum? hsum
      have hnext : k.toNat = n.toNat + 1 := hvalue
      rw [rankTextOn, hk, rankText, ← hnext]
      exact ih (by omega)
    | some p =>
      have hrest : (0 : UInt8).toNat + squares.length ≤ 8 := by
        rw [UInt8.toNat_zero]
        omega
      rw [rankTextOn, runOn_eq (by omega), ih hrest]
      rfl

private theorem textOn_eq (a : Alphabet) (b : Board) : textOn a b = some (text a b) := by
  have hrow : ∀ row ∈ b.rows, rankTextOn a 0 row = pure (rankText a 0 row) := by
    intro row hrow
    apply rankTextOn_eq
    rw [Board.length_of_mem_rows hrow]
    exact Nat.le_refl 8
  rw [textOn, mapM_eq_pure hrow, pure_bind]
  rfl

end Placement

def Fen.lineOn (f : Fen) : Option String := do
  let field ← Placement.textOn f.alphabet f.board
  return String.ofList (field ++ ' ' :: sideLetter f.active :: ' ' :: phaseWord f.phase
    ++ ' ' :: Text.decimal f.moveCount.toNat)

theorem Fen.lineOn_eq (f : Fen) : f.lineOn = some f.line := by
  rw [lineOn, Placement.textOn_eq]
  rfl

def Coord.OnBoard (c : Coord) : Prop := c.row < 8 ∧ c.col < 8

private theorem Square.onBoard_coord (s : Square) : s.coord.OnBoard := by
  have hall : ∀ s ∈ Square.all, s.coord.row < 8 ∧ s.coord.col < 8 := by decide
  exact hall s s.mem_all

namespace Board

/-- The pairs that the piece on the pair reaches without leaving its own king in check. -/
def safeReachOn (b : Board) (v : Variant) (c : Coord) : Attempt (List Coord) := do
  (← b.reachOn v c).filterMapM fun t => return if ← b.exposesOn v c t then none else some t

/-- The moves open to a side, own king's safety aside. -/
def movesOn (b : Board) (v : Variant) (side : Side) : Attempt (List (Coord × Coord)) := do
  let moves ← (← b.piecesOn side).mapM fun (c, _) => return (← b.reachOn v c).map (c, ·)
  return moves.flatten

/-- What moves lead to are pairs of the board, and they are those of the squares. -/
structure Generates (b : Board) (v : Variant) : Prop where
  destinations : ∀ s, ∃ cs, b.reachOn v s.coord = pure cs ∧ (∀ c ∈ cs, c.OnBoard) ∧
    ∀ t, t.coord ∈ cs ↔ t ∈ b.destinations v s
  safe : ∀ s, ∃ cs, b.safeReachOn v s.coord = pure cs ∧ (∀ c ∈ cs, c.OnBoard) ∧
    ∀ t, t.coord ∈ cs ↔ t ∈ b.safeDestinations v s
  moves : ∀ side, ∃ cs, b.movesOn v side = pure cs ∧ (∀ m ∈ cs, m.1.OnBoard ∧ m.2.OnBoard) ∧
    ∀ s t, (s.coord, t.coord) ∈ cs ↔ (s, t) ∈ b.movesOf v side

private theorem onBoard_of_mem {line : List Square} {c : Coord} (hc : c ∈ line.map Square.coord) :
    c.OnBoard := by
  obtain ⟨s, -, rfl⟩ := List.mem_map.mp hc
  exact s.onBoard_coord

private theorem safeReachOn_coord (b : Board) (v : Variant) (s : Square) :
    b.safeReachOn v s.coord =
      pure (((b.reach v s).filter fun t => !b.exposesKing v s t).map Square.coord) := by
  have hsafe (t : Square) (_ : t ∈ b.reach v s) :
      (do return if ← b.exposesOn v s.coord t.coord then none else some t.coord) =
        (pure (((some t).filter fun t => !b.exposesKing v s t).map Square.coord) :
          Attempt (Option Coord)) := by
    rw [exposesOn_coord, pure_bind]
    cases h : b.exposesKing v s t <;> simp [h, Option.filter]
  rw [safeReachOn, reachOn_coord, pure_bind, filterMapM_map_eq_pure _ hsafe, ← List.map_filterMap,
    ← List.filter_filterMap, List.filterMap_some]

theorem movesOn_eq (b : Board) (v : Variant) (side : Side) :
    b.movesOn v side = pure (((b.piecesOf side).flatMap fun (s, _) => (b.reach v s).map (s, ·)).map
      (Prod.map Square.coord Square.coord)) := by
  have hmoves (a : Square × Piece) (_ : a ∈ b.piecesOf side) :
      (do return (← b.reachOn v a.1.coord).map (a.1.coord, ·)) =
        (pure (((b.reach v a.1).map (a.1, ·)).map (Prod.map Square.coord Square.coord)) :
          Attempt (List (Coord × Coord))) := by
    rw [reachOn_coord, pure_bind, List.map_map, List.map_map]
    rfl
  rw [movesOn, piecesOn_eq, pure_bind, List.mapM_map]
  refine (congrArg (· >>= _) (mapM_eq_pure hmoves)).trans ?_
  rw [pure_bind, List.map_flatMap]
  rfl

private theorem generates (b : Board) (v : Variant) : b.Generates v where
  destinations s := by
    refine ⟨_, b.reachOn_coord v s, fun _ => onBoard_of_mem, fun t => ?_⟩
    rw [List.mem_map_of_injective Square.coord_injective, mem_destinations]
  safe s := by
    refine ⟨_, b.safeReachOn_coord v s, fun _ => onBoard_of_mem, fun t => ?_⟩
    rw [List.mem_map_of_injective Square.coord_injective, safeDestinations, List.mem_filter,
      List.mem_filter, mem_destinations]
  moves side := by
    refine ⟨_, b.movesOn_eq v side, ?_, fun s t => ?_⟩
    · intro m hm
      obtain ⟨⟨s, t⟩, -, rfl⟩ := List.mem_map.mp hm
      exact ⟨s.onBoard_coord, t.onBoard_coord⟩
    · have hinjective := Square.coord_injective.prodMap Square.coord_injective
      rw [← Prod.map_apply, List.mem_map_of_injective hinjective]
      simp [movesOf, mem_destinations]

end Board

private theorem judged_total {α : Type} {x : Except Failure α} (h : ∀ f, x ≠ .error (.fault f)) :
    ∃ r, judged x = ExceptT.mk (pure r) := by
  cases x with
  | ok a => exact ⟨.ok a, rfl⟩
  | error e =>
    cases e with
    | fault f => exact absurd rfl (h f)
    | refused r => exact ⟨.error r, rfl⟩

private theorem Coord.exists_name {c : Coord} (hc : c.square?.isSome = true) :
    ∃ name, c.name = .ok name := by
  obtain ⟨s, hs⟩ := Option.isSome_iff_exists.mp hc
  rw [← Coord.coord_of_square? hs]
  exact ⟨_, s.name_coord⟩

/-- Records of the board are replayed and written down without a fault if the move counter has room
for all of them, and so is a submission on the board for which there is room besides. What moves are
generated lead from squares of the board to squares of the board. -/
theorem replay_submit_faultless (v : Variant) (rules : HouseRules) {o : Opening} {ms : List Move}
    (hms : ∀ m ∈ ms, m.OnBoard) (hroom : o.moveCount.toNat + ms.length ≤ 4294967295) :
    (∃ st, replay v rules o ms = .ok st ∧ replayOn v rules o ms = pure st ∧
      (∀ a, (st.fen a).lineOn = some (st.fen a).line) ∧ ∀ m ∈ ms, ∃ text, m.text = .ok text) ∧
    (o.moveCount.toNat + ms.length + 1 ≤ 4294967295 →
      ∀ s : Session, s.variant = v → s.rules = rules → s.opening = o → s.log.moves = ms →
        ∀ id side timestamp, ∀ source target : Coord,
          source.square?.isSome = true → target.square?.isSome = true →
            (∃ r, s.submitOn id side source target timestamp = ExceptT.mk (pure r)) ∧
              (∃ name, source.name = .ok name) ∧ ∃ name, target.name = .ok name) ∧
    ∀ b : Board, b.Generates v := by
  have hsize : UInt32.size = 4294967296 := rfl
  refine ⟨?_, ?_, fun b => b.generates v⟩
  · rcases replay_total v rules o hms with ⟨st, hst⟩ | ⟨-, hfull⟩
    · refine ⟨st, hst, ?_, fun a => (st.fen a).lineOn_eq, fun m hm => (hms m hm).text⟩
      rw [replayOn_eq, hst, liftAttempt_ok]
    · omega
  · rintro hmore s rfl rfl rfl rfl id side timestamp source target hsource htarget
    obtain ⟨origin, ho⟩ := Option.isSome_iff_exists.mp hsource
    refine ⟨?_, Coord.exists_name hsource, Coord.exists_name htarget⟩
    rw [Session.submitOn_eq]
    apply judged_total
    intro f
    exact Session.submit_ne_fault f hms (by omega) ho

def Opening.backRowLate : Opening := { backRow with moveCount := 4294967292 }

/-- The rook comes to the edge; the counter is full after the move that is submitted. -/
theorem replay_submit_faultless_approach :
    (∀ m ∈ Move.approach, m.OnBoard) ∧
      (∃ st, replay .standard {} .backRowLate Move.approach = .ok st ∧
        replayOn .standard {} .backRowLate Move.approach = pure st) ∧
      (∃ r, ({ Session.friendly .standard with
          opening := .backRowLate, log := ⟨Move.approach⟩ } : Session).submitOn
            (.numbered 5) .white ⟨4, 0⟩ ⟨0, 0⟩ 20 = ExceptT.mk (pure r)) ∧
      Opening.backRow.board.Generates .standard := by
  have hms : ∀ m ∈ Move.approach, m.OnBoard := by decide
  obtain ⟨⟨st, hst, hstOn, -⟩, hsubmit, hmoves⟩ :=
    replay_submit_faultless .standard {} (o := .backRowLate) hms (by decide)
  have hanswer := hsubmit (by decide) { Session.friendly .standard with
    opening := .backRowLate, log := ⟨Move.approach⟩ } rfl rfl rfl rfl (.numbered 5) .white 20
      ⟨4, 0⟩ ⟨0, 0⟩ rfl rfl
  exact ⟨hms, ⟨st, hst, hstOn⟩, hanswer.1, hmoves _⟩

end WereraChess
