import Workflow.Proofs.Service.Canonical
import Workflow.Service.Consistency

/-!
Services whose written forms are the same up to the order of keys. They have the same agents in the
same order, so one is consistent where the other is, and as deep free tables as their forms allow.
-/

namespace Workflow

open Value (Reordered)

variable {form form' : Form}

/-! ## Parts of written forms -/

namespace Form

/-- A field that both records have. -/
theorem reordered_field {fields others : List (String × Option Value)}
    (reordered : Reordered (form.record fields) (form'.record others))
    (distinct : (form.record fields).KeysDistinct) (nodup : (fields.map Prod.fst).Nodup)
    (nodup' : (others.map Prod.fst).Nodup) (key : String) {v w : Value}
    (listed : (key, some v) ∈ fields) (listed' : (key, some w) ∈ others) : Reordered v w := by
  rw [record_eq] at reordered distinct
  rw [record_eq] at reordered
  have found := reordered.lookup distinct key
  have first : (form.entries fields).lookup key = some v := lookup_entries nodup listed
  have second : (form'.entries others).lookup key = some w := lookup_entries nodup' listed'
  rw [first, second] at found
  cases found with
  | some same => exact same

theorem distinct_field {fields : List (String × Option Value)}
    (distinct : (form.record fields).KeysDistinct) (key : String) {v : Value}
    (listed : (key, some v) ∈ fields) : v.KeysDistinct := by
  rw [record_eq] at distinct
  have written : (key, v) ∈ form.entries fields := mem_entries.mpr ⟨some v, listed, rfl⟩
  exact distinct.entry written

end Form

theorem reordered_listValue {α : Type} {write write' : α → Value} {items others : List α}
    (reordered : Reordered (listValue write items) (listValue write' others))
    (distinct : (listValue write items).KeysDistinct) :
    List.Forall₂ (fun item other => Reordered (write item) (write' other) ∧
      (write item).KeysDistinct) items others := by
  obtain ⟨values, same, paired⟩ := reordered.exists_list distinct
  obtain rfl := Value.list.inj same
  rw [List.forall₂_map_left_iff, List.forall₂_map_right_iff] at paired
  have inside : ∀ item ∈ items, (write item).KeysDistinct :=
    List.forall_mem_map.mp (Value.keysDistinct_list_iff.mp distinct)
  exact ((List.forall₂_and_left ..).mpr ⟨inside, paired⟩).imp fun _ _ both => both.symm

theorem eq_of_reordered_text {s t : String} (reordered : Reordered (.text s) (.text t)) : t = s :=
  Value.text.inj (reordered.eq_of_scalar (.text s))

theorem eq_of_reordered_texts {items others : List String}
    (reordered : Reordered (Value.texts items) (Value.texts others)) : others = items := by
  have paired := reordered_listValue reordered (by simp [listValue])
  have same := paired.imp fun s t both => (eq_of_reordered_text both.1).symm
  exact (List.forall₂_eq_eq_eq ▸ same : items = others).symm

/-! ## Services -/

/-- The agent has the same place in a service, and its free tables are written the same. -/
structure CompiledAgent.Mirrors (form form' : Form) (a b : CompiledAgent) : Prop where
  id : b.id = a.id
  next : b.next = a.next
  configs : List.Forall₂ (fun tool other : Tool =>
    Reordered (form.freeTable tool.config) (form'.freeTable other.config)) a.tools b.tools

/-- The services have the same start and the same agents, as far as their forms tell. -/
structure Service.Mirrors (form form' : Form) (s t : Service) : Prop where
  start : t.startAgent = s.startAgent
  agents : List.Forall₂ (CompiledAgent.Mirrors form form') s.agents t.agents

theorem Tool.config_reordered {t u : Tool}
    (reordered : Reordered (t.toValue form) (u.toValue form'))
    (distinct : (t.toValue form).KeysDistinct) :
    Reordered (form.freeTable t.config) (form'.freeTable u.config) :=
  Form.reordered_field reordered distinct (by simp) (by simp) "config" (by simp) (by simp)

theorem CompiledAgent.mirrors {a b : CompiledAgent}
    (reordered : Reordered (a.toValue form) (b.toValue form'))
    (distinct : (a.toValue form).KeysDistinct) : CompiledAgent.Mirrors form form' a b where
  id := eq_of_reordered_text
    (Form.reordered_field reordered distinct (by simp) (by simp) "id" (by simp) (by simp))
  next := eq_of_reordered_texts
    (Form.reordered_field reordered distinct (by simp) (by simp) "nextAgents" (by simp) (by simp))
  configs := by
    have tools : Reordered (listValue (Tool.toValue form) a.tools)
        (listValue (Tool.toValue form') b.tools) :=
      Form.reordered_field reordered distinct (by simp) (by simp) "tools" (by simp) (by simp)
    have inside : (listValue (Tool.toValue form) a.tools).KeysDistinct :=
      Form.distinct_field distinct "tools" (by simp)
    exact (reordered_listValue tools inside).imp fun _ _ both => Tool.config_reordered both.1 both.2

namespace Service

variable {s t : Service}

theorem mirrors (reordered : Reordered (s.toValue form) (t.toValue form'))
    (distinct : (s.toValue form).KeysDistinct) : Mirrors form form' s t where
  start := eq_of_reordered_text
    (Form.reordered_field reordered distinct (by simp) (by simp) "startAgent" (by simp) (by simp))
  agents := by
    have agents : Reordered (listValue (CompiledAgent.toValue form) s.agents)
        (listValue (CompiledAgent.toValue form') t.agents) :=
      Form.reordered_field reordered distinct (by simp) (by simp) "agents" (by simp) (by simp)
    have inside : (listValue (CompiledAgent.toValue form) s.agents).KeysDistinct :=
      Form.distinct_field distinct "agents" (by simp)
    exact (reordered_listValue agents inside).imp fun _ _ both =>
      CompiledAgent.mirrors both.1 both.2

/-! ## Consistency -/

/-- What depends on an agent's place alone is the same agent by agent. -/
theorem Mirrors.map_eq {β : Type} (mirrors : Mirrors form form' s t) {f : CompiledAgent → β}
    (same : ∀ a b, CompiledAgent.Mirrors form form' a b → f b = f a) :
    t.agents.map f = s.agents.map f := by
  rw [eq_comm, map_eq_map_iff_forall₂]
  exact mirrors.agents.imp fun a b agent => (same a b agent).symm

theorem Mirrors.agentIds_eq (mirrors : Mirrors form form' s t) : t.agentIds = s.agentIds :=
  mirrors.map_eq fun _ _ agent => agent.id

theorem Mirrors.fault?_eq (mirrors : Mirrors form form' s t) : t.fault? = s.fault? := by
  have dangling : t.agents.map (·.danglingNext s.agentIds) =
      s.agents.map (·.danglingNext s.agentIds) := by
    apply mirrors.map_eq
    intro a b agent
    rw [CompiledAgent.danglingNext, CompiledAgent.danglingNext, agent.id, agent.next]
  rw [fault?, fault?, mirrors.start, mirrors.agentIds_eq, List.flatMap_def, List.flatMap_def,
    dangling]

/-! ## Depth -/

theorem Mirrors.not_tooDeep (mirrors : Mirrors form form' s t)
    (shallow : ∀ v, (form.free v).levels ≤ v.levels) (kept : ∀ v, (form'.free v).levels = v.levels)
    (writable : ¬ s.TooDeep) : ¬ t.TooDeep := by
  rintro ⟨b, agents, u, tools, deep⟩
  obtain ⟨a, agents', agent⟩ := exists_left_of_forall₂ mirrors.agents agents
  obtain ⟨tool, tools', config⟩ := exists_left_of_forall₂ agent.configs tools
  refine writable ⟨a, agents', tool, tools', deep.trans_le ?_⟩
  calc (Value.table u.config).levels
    _ = (form'.freeTable u.config).levels := (kept _).symm
    _ = (form.freeTable tool.config).levels := config.levels_eq.symm
    _ ≤ (Value.table tool.config).levels := shallow _

end Service

end Workflow
