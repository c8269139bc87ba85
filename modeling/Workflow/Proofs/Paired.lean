import Mathlib.Data.List.Forall2
import Mathlib.Data.List.Perm.Basic

/-!
Lists and options whose items go together: what such a pairing says of the parts of both, and what
is left of it after both are changed in the same way.
-/

namespace Workflow

variable {α β γ δ : Type} {related : α → β → Prop} {related' : γ → δ → Prop}

theorem exists_left_of_forall₂ {items : List α} {others : List β}
    (paired : List.Forall₂ related items others) {b : β} (member : b ∈ others) :
    ∃ a ∈ items, related a b := by
  induction paired with
  | nil => cases member
  | @cons a other items others first _ ih =>
      rcases List.mem_cons.mp member with rfl | later
      · exact ⟨a, List.mem_cons_self, first⟩
      · obtain ⟨c, listed, holds⟩ := ih later
        exact ⟨c, List.mem_cons_of_mem a listed, holds⟩

theorem forall_mem_iff_of_forall₂ {items : List α} {others : List β}
    (paired : List.Forall₂ related items others) {P : α → Prop} {Q : β → Prop}
    (steady : ∀ a b, related a b → (P a ↔ Q b)) : (∀ a ∈ items, P a) ↔ ∀ b ∈ others, Q b := by
  induction paired with
  | nil => simp
  | cons first _ ih => rw [List.forall_mem_cons, List.forall_mem_cons, steady _ _ first, ih]

theorem map_eq_map_iff_forall₂ {f : α → γ} {g : β → γ} {items : List α} {others : List β} :
    items.map f = others.map g ↔ List.Forall₂ (fun a b => f a = g b) items others := by
  rw [← List.forall₂_eq_eq_eq, List.forall₂_map_left_iff, List.forall₂_map_right_iff]

theorem flatMap_perm_of_forall₂ {f : α → List γ} {g : β → List γ} {items : List α}
    {others : List β} (paired : List.Forall₂ related items others)
    (each : ∀ a b, related a b → (f a).Perm (g b)) :
    (items.flatMap f).Perm (others.flatMap g) := by
  induction paired with
  | nil => exact .refl _
  | @cons a b items others first _ ih =>
      rw [List.flatMap_cons, List.flatMap_cons]
      exact (each a b first).append ih

theorem forall₂_flatMap {f : α → List γ} {g : β → List δ} {items : List α} {others : List β}
    (paired : List.Forall₂ (fun a b => List.Forall₂ related' (f a) (g b)) items others) :
    List.Forall₂ related' (items.flatMap f) (others.flatMap g) := by
  induction paired with
  | nil => exact .nil
  | cons first _ ih => exact List.rel_append first ih

theorem forall₂_zipIdx {items : List α} {others : List β}
    (paired : List.Forall₂ related items others) (start : Nat) :
    List.Forall₂ (fun item other => related item.1 other.1 ∧ item.2 = other.2)
      (items.zipIdx start) (others.zipIdx start) := by
  induction paired generalizing start with
  | nil => exact .nil
  | cons first _ ih => exact .cons ⟨first, rfl⟩ (ih (start + 1))

theorem findSome?_eq_of_forall₂ {f : α → Option γ} {g : β → Option γ} {items : List α}
    {others : List β} (paired : List.Forall₂ (fun a b => f a = g b) items others) :
    items.findSome? f = others.findSome? g := by
  induction paired with
  | nil => rfl
  | cons first _ ih => rw [List.findSome?_cons, List.findSome?_cons, first, ih]

/-- The first items that pass a test go together where the test is the same on both sides. -/
theorem rel_find? {items : List α} {others : List β} (paired : List.Forall₂ related items others)
    {p : α → Bool} {q : β → Bool} (same : ∀ a b, related a b → p a = q b) :
    Option.Rel related (items.find? p) (others.find? q) := by
  induction paired with
  | nil => exact .none
  | @cons a b items others first _ ih =>
      rw [List.find?_cons, List.find?_cons, same a b first]
      cases q b
      · exact ih
      · exact .some first

theorem rel_map {f : α → γ} {g : β → δ} {o : Option α} {o' : Option β}
    (paired : Option.Rel related o o')
    (step : ∀ a b, o = some a → related a b → related' (f a) (g b)) :
    Option.Rel related' (o.map f) (o'.map g) := by
  cases paired with
  | some same => exact .some (step _ _ rfl same)
  | none => exact .none

end Workflow
