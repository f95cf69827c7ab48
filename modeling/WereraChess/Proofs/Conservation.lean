import WereraChess.Proofs.Kings
/-!
# Pieces are conserved

A replay moves pieces, takes them and promotes pawns, and does nothing else with them: whatever was
on the board is on it still or among the captures, and a pawn is missing exactly where a minister
has come up.
-/
namespace WereraChess

private theorem countP_add_toNat {α : Type} {f g : α → Bool} {xs : List α} {a : α} (hxs : xs.Nodup)
    (ha : a ∈ xs) (h : ∀ x, x ≠ a → f x = g x) :
    xs.countP f + (g a).toNat = xs.countP g + (f a).toNat := by
  induction xs with
  | nil => simp at ha
  | cons x xs ih =>
    obtain ⟨hx, hxs⟩ := List.nodup_cons.mp hxs
    have hcons (p : α → Bool) : (x :: xs).countP p = xs.countP p + (p x).toNat := by
      cases hp : p x <;> simp [hp]
    rw [hcons, hcons]
    by_cases heq : x = a
    · subst heq
      have hrest : xs.countP f = xs.countP g := by
        apply List.countP_congr
        intro y hy
        rw [h y (ne_of_mem_of_not_mem hy hx)]
      omega
    · have hmem : a ∈ xs := (List.mem_cons.mp ha).resolve_left (Ne.symm heq)
      have hrest := ih hxs hmem
      rw [h x heq]
      omega

def Piece.isOf (p : Piece) (side : Side) (q : Kind → Bool) : Bool := p.owner = side && q p.kind

namespace Board

variable {b : Board} {side : Side} {q : Kind → Bool} {s t : Square} {r : Relocation}

/-- The number of pieces of the side whose kinds satisfy the condition. -/
def tally (b : Board) (side : Side) (q : Kind → Bool) : Nat :=
  (b.piecesOf side).countP fun x => q x.2.kind

/-- The number of pieces of the side that are of the kind. -/
def countOf (b : Board) (side : Side) (kind : Kind) : Nat := b.tally side (· = kind)

private theorem count_eq_tally (b : Board) (side : Side) :
    b.count side = b.tally side fun _ => true := by
  rw [count, tally, List.countP_true]

private theorem tally_eq_countP (b : Board) (side : Side) (q : Kind → Bool) :
    b.tally side q = Square.all.countP fun s => (b.get s).any (·.isOf side q) := by
  rw [tally, piecesOf, occupied, List.countP_filter, List.countP_filterMap]
  apply List.countP_congr
  intro s _
  cases b.get s <;> simp [Piece.isOf, and_comm]

private theorem tally_set (b : Board) (s : Square) (p : Option Piece) (side : Side)
    (q : Kind → Bool) : (b.set s p).tally side q + ((b.get s).any (·.isOf side q)).toNat =
      b.tally side q + (p.any (·.isOf side q)).toNat := by
  rw [tally_eq_countP, tally_eq_countP]
  have hsquares := countP_add_toNat (f := fun t => ((b.set s p).get t).any (·.isOf side q))
    (g := fun t => (b.get t).any (·.isOf side q)) Square.nodup_all s.mem_all fun t ht => by
      rw [get_set_ne b p (Ne.symm ht)]
  rwa [get_set_self] at hsquares

private theorem tally_relocate (h : b.relocate s t = some r) (hst : s ≠ t) :
    r.board.tally side q + ((b.get t).any (·.isOf side q)).toNat + (r.piece.isOf side q).toNat =
      b.tally side q + ((r.piece.arrivedAt t).isOf side q).toNat := by
  obtain ⟨p, hp, rfl⟩ := relocate_eq_some.mp h
  have hleft := b.tally_set s none side q
  have hcome := (b.set s none).tally_set t (some (p.arrivedAt t)) side q
  rw [get_set_ne b none hst] at hcome
  simp only [hp, Option.any_some, Option.any_none, Bool.toNat_false] at hleft hcome ⊢
  omega

end Board

namespace Piece

def promotions (p : Piece) (s : Square) (side : Side) : Nat :=
  (p.promotesAt s && p.owner = side).toNat

private theorem isOf_arrivedAt (p : Piece) (s : Square) (side : Side) (q : Kind → Bool) :
    ((p.arrivedAt s).isOf side q).toNat + p.promotions s side * (q .pawn).toNat =
      (p.isOf side q).toNat + p.promotions s side * (q .minister).toNat := by
  cases hpromotes : p.promotesAt s with
  | false => simp [promotions, hpromotes, arrivedAt, isOf]
  | true =>
    have hpawn : p.kind = .pawn := by
      rw [promotesAt, decide_eq_true_eq] at hpromotes
      exact hpromotes.1
    by_cases howner : p.owner = side
    · simp [promotions, hpromotes, arrivedAt, isOf, hpawn, howner, Nat.add_comm]
    · simp [promotions, hpromotes, arrivedAt, isOf, howner]

private theorem row_ne_promotionRow {p : Piece} {s : Square} (h : (p.arrivedAt s).kind = .pawn) :
    s.row ≠ (p.arrivedAt s).owner.promotionRow := by
  intro hrow
  by_cases hkind : p.kind = .pawn
  · have hpromotes : p.promotesAt s = true := by
      rw [promotesAt, decide_eq_true_eq]
      exact ⟨hkind, hrow⟩
    simp [arrivedAt, hpromotes] at h
  · simp [arrivedAt, promotesAt, hkind] at h

end Piece

/-- The pieces that were taken from the side, as far as their kinds satisfy the condition. -/
def Captures.tally (c : Captures) (side : Side) (q : Kind → Bool) : Nat :=
  (c.takenBy side.opponent).countP q

private theorem Captures.tally_add (c : Captures) (p : Piece) (side : Side) (q : Kind → Bool) :
    (c.add p.owner p.kind).tally side q = c.tally side q + (p.isOf side q).toNat := by
  rw [tally, tally, takenBy_add]
  by_cases h : p.owner = side
  · subst h
    rw [if_neg p.owner.opponent_ne, List.countP_append]
    cases hq : q p.kind <;> simp [Piece.isOf, hq]
  · have hopponent : side.opponent = p.owner := (Side.eq_opponent_of_ne h).symm
    rw [if_pos hopponent]
    simp [Piece.isOf, h]

namespace Course

variable {v : Variant} {rules : HouseRules} {c c' d : Course} {m : Move} {r : Relocation}

/-- The pieces of the side on the board and among the captures. -/
def tally (c : Course) (side : Side) (q : Kind → Bool) : Nat :=
  c.board.tally side q + c.captures.tally side q

private theorem captures_advance {mover : Side} (h : c.advance mover r = .ok d) (side : Side)
    (q : Kind → Bool) :
    d.captures.tally side q =
      c.captures.tally side q + (r.captured.any (·.isOf side q)).toNat := by
  rw [advance] at h
  split at h
  case isTrue =>
    obtain rfl := Except.ok.inj h
    cases hcaptured : r.captured with
    | none => simp
    | some p => exact c.captures.tally_add p side q
  case isFalse => simp at h

theorem captured_of_applies {s t : Square} (h : c.applies m s t = true)
    (hr : c.board.relocate s t = some r) : r.captured = c.board.get t := by
  obtain ⟨hsource, htarget⟩ := applies_iff.mp h
  obtain ⟨p, hp, rfl⟩ := Board.relocate_eq_some.mp hr
  have howner : p.owner = m.mover := by
    obtain ⟨p', hp', howner⟩ := Board.ownerAt_eq_some.mp hsource
    obtain rfl := Option.some.inj (hp.symm.trans hp')
    exact howner
  cases ht : c.board.get t with
  | none => rfl
  | some p' =>
    dsimp only
    apply Option.filter_some_pos
    rw [decide_eq_true_eq, howner]
    intro heq
    exact htarget (Board.ownerAt_eq_some.mpr ⟨p', ht, heq⟩)

private theorem ne_of_applies {s t : Square} (h : c.applies m s t = true) : s ≠ t := by
  obtain ⟨hsource, htarget⟩ := applies_iff.mp h
  rintro rfl
  exact htarget hsource

/-- A step keeps every piece of a side but for the pawns that it promotes. -/
theorem tally_step (h : Step v rules c m c') :
    ∃ n : Side → Nat, ∀ side q, c'.tally side q + n side * (q .pawn).toNat =
      c.tally side q + n side * (q .minister).toNat := by
  cases h with
  | ended => exact ⟨fun _ => 0, fun side q => by simp [skip, tally]⟩
  | blocked => exact ⟨fun _ => 0, fun side q => by simp [skip, tally]⟩
  | @applied s t r d hlive hs ht happ hr hd =>
    refine ⟨r.piece.promotions t, fun side q => ?_⟩
    have hboard : d.board = r.board := (advance_eq_ok hd).1
    have hcaptures := captures_advance hd side q
    rw [captured_of_applies happ hr] at hcaptures
    have hmoved : r.board.tally side q + ((c.board.get t).any (·.isOf side q)).toNat +
        (r.piece.isOf side q).toNat =
        c.board.tally side q + ((r.piece.arrivedAt t).isOf side q).toNat :=
      Board.tally_relocate hr (ne_of_applies happ)
    have harrived := r.piece.isOf_arrivedAt t side q
    change d.board.tally side q + d.captures.tally side q + _ = c.board.tally side q +
      c.captures.tally side q + _
    rw [hboard]
    omega

theorem tally_run {o : Opening} {ms : List Move}
    (h : ms.foldlM (play v rules) (start v rules o) = .ok c) :
    ∃ n : Side → Nat, ∀ side q, c.tally side q + n side * (q .pawn).toNat =
      o.board.tally side q + n side * (q .minister).toNat := by
  refine run_induction (P := fun c => ∃ n : Side → Nat, ∀ side q,
    c.tally side q + n side * (q .pawn).toNat =
      o.board.tally side q + n side * (q .minister).toNat) ?_ h ⟨fun _ => 0, fun side q => ?_⟩
  · intro c m c' ⟨n, hn⟩ hstep
    obtain ⟨k, hk⟩ := tally_step hstep
    refine ⟨fun side => n side + k side, fun side q => ?_⟩
    have hbefore := hn side q
    have hafter := hk side q
    rw [Nat.add_mul, Nat.add_mul]
    omega
  · have hnone : Captures.none.tally side q = 0 := by cases side <;> rfl
    change o.board.tally side q + Captures.none.tally side q + _ = _
    simp [hnone]

private theorem get_of_pawn_step {u : Square} {p : Piece} (h : Step v rules c m c')
    (hp : c'.board.get u = some p) (hkind : p.kind = .pawn) (hrow : u.row = p.owner.promotionRow) :
    c.board.get u = some p := by
  cases h with
  | ended => exact hp
  | blocked => exact hp
  | @applied s t r d hlive hs ht happ hr hd =>
    change d.board.get u = some p at hp
    rw [(advance_eq_ok hd).1] at hp
    obtain ⟨p', -, rfl⟩ := Board.relocate_eq_some.mp hr
    rw [Board.get_set, Board.get_set] at hp
    split at hp
    case isTrue htu =>
      subst htu
      obtain rfl := Option.some.inj hp
      exact absurd hrow (Piece.row_ne_promotionRow hkind)
    case isFalse =>
      split at hp
      case isTrue => simp at hp
      case isFalse => exact hp

private theorem get_of_pawn_run {o : Opening} {ms : List Move} {u : Square} {p : Piece}
    (h : ms.foldlM (play v rules) (start v rules o) = .ok c) (hp : c.board.get u = some p)
    (hkind : p.kind = .pawn) (hrow : u.row = p.owner.promotionRow) : o.board.get u = some p := by
  refine run_induction (P := fun c => c.board.get u = some p → o.board.get u = some p) ?_ h id hp
  intro c m c' hc hstep hp
  exact hc (get_of_pawn_step hstep hp hkind hrow)

end Course

/-- What became of the pieces of a board. -/
structure Standing.Conserves (b : Board) (s : Standing) : Prop where
  count (side : Side) :
    b.count side = s.board.count side + (s.captures.takenBy side.opponent).length
  kind (side : Side) (k : Kind) (hk : k ∈ [.king, .elephant, .knight, .rook]) :
    b.countOf side k = s.board.countOf side k + (s.captures.takenBy side.opponent).count k
  promotions (side : Side) : ∃ n,
    b.countOf side .pawn =
      s.board.countOf side .pawn + (s.captures.takenBy side.opponent).count .pawn + n ∧
    b.countOf side .minister + n =
      s.board.countOf side .minister + (s.captures.takenBy side.opponent).count .minister
  lastRow (u : Square) (p : Piece) (hp : s.board.get u = some p) (hkind : p.kind = .pawn)
    (hrow : u.row = p.owner.promotionRow) : b.get u = some p
  kings (side : Side) : s.board.countOf side .king ≤ b.countOf side .king

namespace Course

variable {v : Variant} {rules : HouseRules} {c : Course}

private theorem tally_kind (c : Course) (side : Side) (k : Kind) :
    c.tally side (· = k) =
      c.board.countOf side k + (c.captures.takenBy side.opponent).count k := by
  have hcount : (fun x => decide (x = k)) = (· == k) := by
    funext x
    rw [Bool.beq_eq_decide_eq]
  rw [tally, Captures.tally, Board.countOf, List.count, hcount]

theorem conserves_standing {o : Opening} {ms : List Move}
    (h : ms.foldlM (play v rules) (start v rules o) = .ok c) :
    (c.standing v).Conserves o.board := by
  obtain ⟨n, hn⟩ := tally_run h
  have hkind (side : Side) (k : Kind) (hpawn : k ≠ .pawn) (hminister : k ≠ .minister) :
      o.board.countOf side k =
        c.board.countOf side k + (c.captures.takenBy side.opponent).count k := by
    have hk := hn side (· = k)
    simp only [tally_kind, hpawn.symm, hminister.symm, decide_false, Bool.toNat_false,
      Nat.mul_zero, Nat.add_zero] at hk
    exact hk.symm
  constructor
  case count =>
    intro side
    have hall := hn side fun _ => true
    rw [tally, ← Board.count_eq_tally, ← Board.count_eq_tally, Captures.tally,
      List.countP_true] at hall
    exact (Nat.add_right_cancel hall).symm
  case kind =>
    intro side k hk
    apply hkind side k
    · rintro rfl
      simp at hk
    · rintro rfl
      simp at hk
  case promotions =>
    intro side
    have hpawn := hn side (· = .pawn)
    have hminister := hn side (· = .minister)
    simp only [tally_kind, reduceCtorEq, decide_true, decide_false, Bool.toNat_true,
      Bool.toNat_false, Nat.mul_one, Nat.mul_zero, Nat.add_zero] at hpawn hminister
    exact ⟨n side, hpawn.symm, hminister.symm⟩
  case lastRow =>
    intro u p hp hkind hrow
    exact get_of_pawn_run h hp hkind hrow
  case kings =>
    intro side
    rw [hkind side .king nofun nofun]
    exact Nat.le_add_right _ _

end Course

/-- Records on the board have a replay that keeps the pieces of the opening, unless the counter runs
out of room for them. -/
theorem replay_conserves (v : Variant) (rules : HouseRules) (o : Opening) {ms : List Move}
    (hms : ∀ m ∈ ms, m.OnBoard) :
    (∃ s, replay v rules o ms = .ok s ∧ s.Conserves o.board) ∨
      replay v rules o ms = .error .counterFull ∧
        UInt32.size ≤ o.moveCount.toNat + ms.length := by
  rcases replay_total v rules o hms with ⟨s, hs⟩ | hfull
  · obtain ⟨c, hc, rfl⟩ := replay_eq_ok.mp hs
    exact .inl ⟨_, hs, Course.conserves_standing hc⟩
  · exact .inr hfull

/-- A rook jumps onto a pawn, a pawn to its promotion row, and a rook onto its own king. -/
def Move.forged : List Move :=
  [⟨.numbered 1, ⟨5, 0⟩, ⟨1, 7⟩, .white, .knight, none, 10⟩,
    ⟨.numbered 2, ⟨1, 6⟩, ⟨7, 4⟩, .black, .pawn, none, 20⟩,
    ⟨.numbered 3, ⟨1, 7⟩, ⟨7, 1⟩, .white, .rook, some .king, 30⟩]

theorem replay_forged_conserves :
    (∀ m ∈ Move.forged, m.OnBoard) ∧
      ∃ s, replay .senterej {} .backRow Move.forged = .ok s ∧ s.Conserves Opening.backRow.board ∧
        s.captures = ⟨[.pawn], []⟩ ∧ s.board.get ⟨7, 4⟩ = some ⟨.minister, .black, true⟩ ∧
        s.skipped = [.numbered 3] := by
  have hms : ∀ m ∈ Move.forged, m.OnBoard := by decide
  have hcanonical : Move.IsCanonical Move.forged := ⟨by decide, by decide⟩
  have hreplay : (replay .senterej {} .backRow Move.forged).toOption.map
      (fun s => (s.captures, s.board.get ⟨7, 4⟩, s.skipped)) =
        some (⟨[.pawn], []⟩, some ⟨.minister, .black, true⟩, [.numbered 3]) := by
    rw [replay_of_isCanonical _ _ _ hcanonical]
    decide +kernel
  rcases replay_conserves .senterej {} .backRow hms with ⟨s, hs, hconserves⟩ | ⟨-, hfull⟩
  · rw [hs] at hreplay
    obtain ⟨hcaptures, hrest⟩ := Prod.mk.inj (Option.some.inj hreplay)
    obtain ⟨hminister, hskipped⟩ := Prod.mk.inj hrest
    exact ⟨hms, s, hs, hconserves, hcaptures, hminister, hskipped⟩
  · exact absurd hfull (by decide)

end WereraChess
