import Mathlib.Data.List.Chain
import Mathlib.Data.List.Dedup
import Mathlib.Data.List.Nodup
import Mathlib.Data.List.Sort
import Mathlib.Logic.Relation
import Mathlib.Order.Extension.Linear

/-!
Cycles of a relation. A cycle is a walk that ends where it starts and meets no other place twice;
a relation has one exactly where a place leads back to itself in one step or more. Places of which
none does can be put in an order that the relation follows.
-/

namespace Workflow

open Relation

variable {α β : Type}

/-- A walk of at least one step that ends where it starts, through distinct places. -/
structure IsCycle (leads : α → α → Prop) (path : List α) : Prop where
  long : 2 ≤ path.length
  closed : path.head? = path.getLast?
  simple : path.dropLast.Nodup
  chained : path.IsChain leads

/-- No place that `root` leads to, itself included, leads back to itself. -/
def AcyclicFrom (leads : α → α → Prop) (root : α) : Prop :=
  ∀ place, ReflTransGen leads root place → ¬ TransGen leads place place

namespace IsCycle

variable {leads : α → α → Prop} {path : List α}

/-- A walk that is listed backwards is closed by a step from its end to its start. -/
theorem of_backwards {start : α} {later : List α}
    (chained : (later ++ [start]).IsChain fun after before => leads before after)
    (distinct : (later ++ [start]).Nodup)
    (closing : ∀ last, (later ++ [start]).head? = some last → leads last start) :
    IsCycle leads (start :: later.reverse ++ [start]) where
  long := by simp
  closed := by rw [List.getLast?_concat, List.cons_append, List.head?_cons]
  simple := by
    rw [List.dropLast_concat]
    simpa using List.nodup_reverse.mpr distinct
  chained := by
    have backwards : start :: later.reverse ++ [start] =
        (start :: (later ++ [start])).reverse := by simp
    rw [backwards, List.isChain_reverse, List.isChain_cons]
    exact ⟨closing, chained⟩

theorem exists_head (cycle : IsCycle leads path) : ∃ first, path.head? = some first := by
  cases path with
  | nil => exact absurd cycle.long (by simp)
  | cons first rest => exact ⟨first, rfl⟩

theorem transGen (cycle : IsCycle leads path) {first : α} (head : path.head? = some first) :
    TransGen leads first first := by
  have long := cycle.long
  have closed := cycle.closed
  have chained := cycle.chained
  match path, head with
  | [_], _ => simp at long
  | _ :: next :: rest, rfl =>
      have step := (List.isChain_cons_cons.mp chained).1
      have walk := List.relationReflTransGen_of_exists_isChain_cons rest
        (List.isChain_cons_cons.mp chained).2 rfl
      have last : (next :: rest).getLast (by simp) = first := by
        have ends : (next :: rest).getLast? = some ((next :: rest).getLast (by simp)) :=
          List.getLast?_eq_getLast_of_ne_nil (by simp)
        rw [List.getLast?_cons_cons] at closed
        simpa [ends] using closed.symm
      rw [last] at walk
      exact TransGen.head' step walk

theorem map {leads' : β → β → Prop} (f : α → β) (cycle : IsCycle leads path)
    (steps : ∀ a b, leads a b → leads' (f a) (f b))
    (distinct : ∀ a ∈ path, ∀ b ∈ path, f a = f b → a = b) : IsCycle leads' (path.map f) where
  long := by simpa using cycle.long
  closed := by simp [cycle.closed]
  simple := by
    rw [← List.map_dropLast]
    apply List.Nodup.map_on _ cycle.simple
    intro a aMember b bMember same
    exact distinct a (List.dropLast_subset path aMember) b (List.dropLast_subset path bMember) same
  chained := List.isChain_map_of_isChain f steps cycle.chained

/-- Every place of a cycle is the start of one of its steps. -/
theorem exists_step (cycle : IsCycle leads path) {place : α} (member : place ∈ path) :
    ∃ next, leads place next := by
  obtain ⟨i, bound, rfl⟩ := List.getElem_of_mem member
  have long := cycle.long
  have steps := List.isChain_iff_getElem.mp cycle.chained
  by_cases inner : i + 1 < path.length
  · exact ⟨_, steps i inner⟩
  · have first : path[0]? = path[i]? := by
      have last : i = path.length - 1 := by omega
      rw [← List.head?_eq_getElem?, cycle.closed, List.getLast?_eq_getElem?, last]
    rw [List.getElem?_eq_getElem (by omega), List.getElem?_eq_getElem bound,
      Option.some_inj] at first
    exact ⟨_, first ▸ steps 0 (by omega)⟩

end IsCycle

/-! ## One more step -/

/-- The relation, and a step from `source` to `target` that may be new to it. -/
def Joined (leads : α → α → Prop) (source target a b : α) : Prop :=
  leads a b ∨ a = source ∧ b = target

section

variable {leads : α → α → Prop} {source target : α}

/-- A walk takes the step or it does not; between its first and its last step of this kind it comes
back to `source`, so one is enough. -/
theorem transGen_joined {a b : α} (walk : TransGen (Joined leads source target) a b) :
    TransGen leads a b ∨ ReflTransGen leads a source ∧ ReflTransGen leads target b := by
  induction walk with
  | single step =>
      rcases step with old | ⟨rfl, rfl⟩
      · exact .inl (.single old)
      · exact .inr ⟨.refl, .refl⟩
  | tail _ step ih =>
      rcases step with old | ⟨rfl, rfl⟩
      · rcases ih with before | ⟨before, after⟩
        · exact .inl (before.tail old)
        · exact .inr ⟨before, after.tail old⟩
      · rcases ih with before | ⟨before, -⟩
        · exact .inr ⟨before.to_reflTransGen, .refl⟩
        · exact .inr ⟨before, .refl⟩

/-- A step closes a cycle exactly where its end led to its start before. -/
theorem acyclic_joined_iff (acyclic : ∀ place, ¬ TransGen leads place place) :
    (∀ place, ¬ TransGen (Joined leads source target) place place) ↔
      ¬ ReflTransGen leads target source := by
  constructor
  · intro still walk
    have back : ReflTransGen (Joined leads source target) target source :=
      ReflTransGen.mono (fun _ _ old => .inl old) _ _ walk
    exact still source (TransGen.head' (.inr ⟨rfl, rfl⟩) back)
  · intro apart place loop
    rcases transGen_joined loop with old | ⟨before, after⟩
    · exact acyclic place old
    · exact apart (after.trans before)

theorem isChain_joined_cases {path : List α} (chained : path.IsChain (Joined leads source target)) :
    path.IsChain leads ∨ [source, target] <:+: path := by
  induction path with
  | nil => exact .inl .nil
  | cons a path ih =>
      cases path with
      | nil => exact .inl (.singleton a)
      | cons b rest =>
          obtain ⟨step, later⟩ := List.isChain_cons_cons.mp chained
          rcases step with old | ⟨rfl, rfl⟩
          · rcases ih later with chained | inside
            · exact .inl (.cons_cons old chained)
            · exact .inr (List.infix_cons inside)
          · exact .inr (List.prefix_append [a, b] rest).isInfix

/-- A cycle that was not there before takes the step. -/
theorem IsCycle.infix_of_joined {path : List α} (acyclic : ∀ place, ¬ TransGen leads place place)
    (cycle : IsCycle (Joined leads source target) path) : [source, target] <:+: path := by
  rcases isChain_joined_cases cycle.chained with chained | inside
  · have old : IsCycle leads path := ⟨cycle.long, cycle.closed, cycle.simple, chained⟩
    obtain ⟨first, head⟩ := old.exists_head
    exact absurd (old.transGen head) (acyclic first)
  · exact inside

end

/-! ## Orders -/

theorem not_transGen_of_rank {leads : α → α → Prop} (rank : α → Nat)
    (follows : ∀ a b, leads a b → rank a < rank b) (place : α) : ¬ TransGen leads place place := by
  have rises (a b : α) (walk : TransGen leads a b) : rank a < rank b := by
    induction walk with
    | single step => exact follows _ _ step
    | tail _ step ih => exact ih.trans (follows _ _ step)
  intro loop
  exact (rises place place loop).ne rfl

theorem idxOf_lt_idxOf [DecidableEq α] {le : α → α → Prop} {order : List α}
    (sorted : order.Pairwise le) (antisymm : ∀ a b, le a b → le b a → a = b) {before after : α}
    (beforeMember : before ∈ order) (afterMember : after ∈ order) (least : le before after)
    (differ : before ≠ after) : order.idxOf before < order.idxOf after := by
  have beforeBound := List.idxOf_lt_length_iff.mpr beforeMember
  have afterBound := List.idxOf_lt_length_iff.mpr afterMember
  by_contra later
  have apart : order.idxOf before ≠ order.idxOf after := by
    intro same
    exact differ ((List.idxOf_inj beforeMember).mp same)
  have behind := List.pairwise_iff_getElem.mp sorted _ _ afterBound beforeBound (by omega)
  rw [List.getElem_idxOf, List.getElem_idxOf] at behind
  exact differ (antisymm _ _ least behind)

/-- A relation that leads no place back to itself lets any places stand in an order in which each
comes before those that it leads to. -/
theorem exists_order_of_acyclic [DecidableEq α] {leads : α → α → Prop}
    (acyclic : ∀ place, ¬ TransGen leads place place) (places : List α) :
    ∃ order : List α, order.Nodup ∧ (∀ place, place ∈ order ↔ place ∈ places) ∧
      ∀ source ∈ places, ∀ target ∈ places, leads source target →
        order.idxOf source < order.idxOf target := by
  classical
  have partially : IsPartialOrder α (ReflTransGen leads) :=
    { refl := fun _ => .refl
      trans := fun _ _ _ => ReflTransGen.trans
      antisymm := by
        intro a b there back
        rcases reflTransGen_iff_eq_or_transGen.mp there with same | there
        · exact same.symm
        · exact absurd (there.trans_left back) (acyclic a) }
  obtain ⟨le, linear, more⟩ := extend_partialOrder (ReflTransGen leads)
  let order := places.dedup.mergeSort fun a b => decide (le a b)
  have perm : order.Perm places.dedup := List.mergeSort_perm _ _
  have members (place : α) : place ∈ order ↔ place ∈ places :=
    perm.mem_iff.trans List.mem_dedup
  have sorted : order.Pairwise le := List.pairwise_mergeSort' le places.dedup
  refine ⟨order, perm.nodup_iff.mpr (List.nodup_dedup places), members, ?_⟩
  intro source sourceMember target targetMember step
  apply idxOf_lt_idxOf sorted linear.antisymm ((members source).mpr sourceMember)
    ((members target).mpr targetMember) (more _ _ (.single step))
  intro same
  exact acyclic source (.single (same ▸ step))

end Workflow
