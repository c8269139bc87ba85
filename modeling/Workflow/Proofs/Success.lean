import Mathlib.Data.List.Forall2

/-!
When the steps of a computation that may refuse give a result.
-/

namespace Workflow

variable {ε δ α β : Type} {result : Except ε α} {b : β}

theorem Except.map_eq_ok_iff {f : α → β} :
    result.map f = .ok b ↔ ∃ a, result = .ok a ∧ f a = b := by
  cases result <;> simp [Except.map]

theorem Except.bind_eq_ok_iff {f : α → Except ε β} :
    result.bind f = .ok b ↔ ∃ a, result = .ok a ∧ f a = .ok b := by
  cases result <;> simp [Except.bind]

@[simp]
theorem Except.ok_andThen (a : α) (f : α → Except ε β) :
    ((Except.ok a : Except ε α) >>= f) = f a := rfl

@[simp]
theorem Except.error_andThen (fault : ε) (f : α → Except ε β) :
    ((Except.error fault : Except ε α) >>= f) = .error fault := rfl

/-- The same for steps that are written one after the other. -/
theorem Except.andThen_eq_ok_iff {f : α → Except ε β} :
    (result >>= f) = .ok b ↔ ∃ a, result = .ok a ∧ f a = .ok b := Except.bind_eq_ok_iff

theorem Except.andThen_eq_error_iff {f : α → Except ε β} {fault : ε} :
    (result >>= f) = .error fault ↔
      result = .error fault ∨ ∃ a, result = .ok a ∧ f a = .error fault := by
  cases result <;> simp

@[simp]
theorem Except.mapError_ok (f : ε → δ) (a : α) : (Except.ok a : Except ε α).mapError f = .ok a := rfl

@[simp]
theorem Except.mapError_error (f : ε → δ) (fault : ε) :
    (Except.error fault : Except ε α).mapError f = .error (f fault) := rfl

theorem Except.mapError_eq_ok_iff {f : ε → δ} {a : α} :
    result.mapError f = .ok a ↔ result = .ok a := by
  cases result <;> simp

theorem Except.toOption_map (f : α → β) : (result.map f).toOption = result.toOption.map f := by
  cases result <;> rfl

theorem Except.toOption_bind (f : α → Except ε β) :
    (result.bind f).toOption = result.toOption.bind fun a => (f a).toOption := by
  cases result <;> rfl

theorem Except.toOption_eq_some_iff {a : α} : result.toOption = some a ↔ result = .ok a := by
  cases result <;> simp [Except.toOption]

theorem Except.exists_ok_iff : (∃ a, result = .ok a) ↔ result.toOption.isSome = true := by
  cases result <;> simp [Except.toOption]

theorem Except.exists_mapM_ok {f : α → Except ε β} {items : List α}
    (all : ∀ item ∈ items, ∃ b, f item = .ok b) : ∃ bs, items.mapM f = .ok bs := by
  induction items with
  | nil => exact ⟨[], rfl⟩
  | cons item items ih =>
      rw [List.forall_mem_cons] at all
      obtain ⟨⟨b, first⟩, later⟩ := all
      obtain ⟨bs, others⟩ := ih later
      exact ⟨b :: bs, by rw [List.mapM_cons, first, others]; rfl⟩

theorem Except.mapM_eq_ok {f : α → Except ε β} {items : List α} {bs : List β}
    (each : List.Forall₂ (fun item b => f item = .ok b) items bs) : items.mapM f = .ok bs := by
  induction each with
  | nil => rfl
  | cons first _ ih =>
      rw [List.mapM_cons, first, ih]
      rfl

end Workflow
