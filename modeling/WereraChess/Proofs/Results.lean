import Mathlib.Data.List.Forall2
import WereraChess.Refusal
/-!
# Results

Computations one after the other that may fail, and those that fault or refuse among them. The whole
gives a result if each of them does, and fails as the first that fails.
-/
namespace WereraChess

variable {ε α β γ : Type} {m : Type → Type}

theorem bind_eq_ok {x : Except ε α} {f : α → Except ε β} {b : β} :
    x >>= f = .ok b ↔ ∃ a, x = .ok a ∧ f a = .ok b := by
  cases x with
  | error e => exact ⟨nofun, nofun⟩
  | ok a => exact ⟨fun h => ⟨a, rfl, h⟩, fun ⟨_, rfl, h⟩ => h⟩

theorem bind_eq_error {x : Except ε α} {f : α → Except ε β} {e : ε} :
    x >>= f = .error e ↔ x = .error e ∨ ∃ a, x = .ok a ∧ f a = .error e := by
  cases x with
  | error e' => simp [bind, Except.bind]
  | ok a => simp [bind, Except.bind]

/-- Computations whose results agree under `f` can be continued alike by what asks for no more. -/
theorem bind_congr_of_map {x y : Except ε α} {f : α → γ} {k l : α → Except ε β}
    (h : x.map f = y.map f) (hk : ∀ a b, f a = f b → k a = l b) : x >>= k = y >>= l := by
  cases x with
  | error e =>
    cases y with
    | error e' => exact congrArg Except.error (Except.error.inj h)
    | ok b => exact absurd h nofun
  | ok a =>
    cases y with
    | error e => exact absurd h nofun
    | ok b => exact hk a b (Except.ok.inj h)

theorem map_eq_ok {x : Except ε α} {g : α → β} {b : β} :
    x.map g = .ok b ↔ ∃ a, x = .ok a ∧ g a = b := by
  cases x <;> simp [Except.map]

theorem map_bind_eq (x : Except ε α) (k : α → Except ε β) (g : β → γ) :
    (x >>= k).map g = x >>= fun a => (k a).map g := by
  cases x <;> rfl

theorem map_bind_left (x : Except ε α) (f : α → β) (k : β → Except ε γ) :
    x.map f >>= k = x >>= fun a => k (f a) := by
  cases x <;> rfl

theorem pure_eq_ok {x y : α} : (pure x : Except ε α) = .ok y ↔ x = y :=
  ⟨Except.ok.inj, congrArg Except.ok⟩

theorem throw_eq_ok {e : ε} {x : α} : (throw e : Except ε α) = .ok x ↔ False :=
  ⟨nofun, nofun⟩

theorem pure_eq_error {e : ε} {x : α} : (pure x : Except ε α) = .error e ↔ False :=
  ⟨nofun, nofun⟩

theorem throw_eq_error {e e' : ε} : (throw e : Except ε α) = .error e' ↔ e = e' :=
  ⟨Except.error.inj, congrArg Except.error⟩

theorem throw_bind [Monad m] [LawfulMonad m] (e : ε) (k : α → ExceptT ε m β) :
    (throw e : ExceptT ε m α) >>= k = throw e := by
  apply ExceptT.ext
  simp

theorem mapM_eq_pure {l : List α} [Monad m] [LawfulMonad m] {f : α → m β} {g : α → β}
    (h : ∀ a ∈ l, f a = pure (g a)) : l.mapM f = pure (l.map g) := by
  induction l with
  | nil => rfl
  | cons a l ih =>
    rw [List.forall_mem_cons] at h
    rw [List.mapM_cons, h.1, pure_bind, ih h.2, pure_bind, List.map_cons]

theorem mapM_eq_ok {l : List α} {f : α → Except ε β} {bs : List β} :
    l.mapM f = .ok bs ↔ List.Forall₂ (fun a b => f a = .ok b) l bs := by
  induction l generalizing bs with
  | nil => rw [List.forall₂_nil_left_iff, List.mapM_nil, pure_eq_ok, eq_comm]
  | cons a l ih =>
    rw [List.mapM_cons, List.forall₂_cons_left_iff]
    simp only [bind_eq_ok, ih, pure_eq_ok]
    constructor
    · rintro ⟨b, hb, cs, hcs, rfl⟩
      exact ⟨b, cs, hb, hcs, rfl⟩
    · rintro ⟨b, cs, hb, hcs, rfl⟩
      exact ⟨b, hb, cs, hcs, rfl⟩

theorem exists_mem_of_mapM {l : List α} {f : α → Except ε β} {bs : List β} {a : α}
    (h : l.mapM f = .ok bs) (ha : a ∈ l) : ∃ b ∈ bs, f a = .ok b := by
  rw [mapM_eq_ok] at h
  induction h with
  | nil => exact absurd ha List.not_mem_nil
  | @cons a' b l bs hb _ ih =>
    rcases List.mem_cons.mp ha with rfl | ha
    · exact ⟨b, List.mem_cons_self, hb⟩
    · obtain ⟨b', hb', hab'⟩ := ih ha
      exact ⟨b', List.mem_cons_of_mem b hb', hab'⟩

theorem exists_mapM_eq_ok {l : List α} {f : α → Except ε β} (h : ∀ a ∈ l, ∃ b, f a = .ok b) :
    ∃ bs, l.mapM f = .ok bs := by
  induction l with
  | nil => exact ⟨[], rfl⟩
  | cons a l ih =>
    obtain ⟨⟨b, hb⟩, hl⟩ := List.forall_mem_cons.mp h
    obtain ⟨bs, hbs⟩ := ih hl
    exact ⟨b :: bs, mapM_eq_ok.mpr ((mapM_eq_ok.mp hbs).cons hb)⟩

theorem liftFault_ok (a : α) : (liftM (.ok a : Except Fault α) : Except Failure α) = pure a := rfl

theorem liftFault_eq_ok {x : Except Fault α} {a : α} :
    (liftM x : Except Failure α) = .ok a ↔ x = .ok a := by
  cases x with
  | error f => exact ⟨nofun, nofun⟩
  | ok b => exact ⟨fun h => congrArg _ (Except.ok.inj h), fun h => congrArg _ (Except.ok.inj h)⟩

theorem liftRefusal_eq_ok {x : Except Refusal α} {a : α} :
    (liftM x : Except Failure α) = .ok a ↔ x = .ok a := by
  cases x with
  | error r => exact ⟨nofun, nofun⟩
  | ok b => exact ⟨fun h => congrArg _ (Except.ok.inj h), fun h => congrArg _ (Except.ok.inj h)⟩

theorem liftFault_eq_fault {x : Except Fault α} {f : Fault} :
    (liftM x : Except Failure α) = .error (.fault f) ↔ x = .error f := by
  cases x with
  | error g =>
    constructor
    · exact fun h => congrArg _ (Failure.fault.inj (Except.error.inj h))
    · exact fun h => congrArg (Except.error ∘ Failure.fault) (Except.error.inj h)
  | ok b => exact ⟨nofun, nofun⟩

theorem liftFault_ne_refused {x : Except Fault α} {r : Refusal} :
    (liftM x : Except Failure α) ≠ .error (.refused r) := by
  cases x <;> nofun

theorem liftRefusal_ne_fault {x : Except Refusal α} {f : Fault} :
    (liftM x : Except Failure α) ≠ .error (.fault f) := by
  cases x <;> nofun

theorem liftRefusal_eq_refused {x : Except Refusal α} {r : Refusal} :
    (liftM x : Except Failure α) = .error (.refused r) ↔ x = .error r := by
  cases x with
  | error q =>
    constructor
    · exact fun h => congrArg _ (Failure.refused.inj (Except.error.inj h))
    · exact fun h => congrArg (Except.error ∘ Failure.refused) (Except.error.inj h)
  | ok b => exact ⟨nofun, nofun⟩

theorem map_liftFault (x : Except Fault α) (f : α → β) :
    (liftM x : Except Failure α).map f = liftM (x.map f) := by
  cases x <;> rfl

end WereraChess
