import Workflow.Spec.Orchestration
import Workflow.Spec.Evaluation
import Workflow.Spec.Metadata

/-!
A project as it is submitted for compilation. Reading a document gives the project, or all that
the project's shape finds wrong with the document.
-/

namespace Workflow

structure Project where
  id : String
  name : String
  version : String
  description : Option String
  orchestration : Orchestration
  evaluations : Option (List Suite)
  metadata : Option Metadata

namespace Project

def shape : Shape :=
  .model "ProjectSpec"
    (some "The full user-authored workflow definition submitted for compilation.") [
    .mk "id" "id" false (.text true),
    .mk "name" "name" false (.text true),
    .mk "version" "version" false (.text true),
    .mk "description" "description" true (.text false),
    .mk "orchestration" "orchestration" false Orchestration.shape,
    .mk "evaluations" "evaluations" true (.listOf Suite.shape),
    .mk "metadata" "metadata" true Metadata.shape]

def ofValue? (v : Value) : Option Project := do
  let entries ← v.entries?
  some {
    id := ← entries.required "id" "id" Value.nonEmpty?
    name := ← entries.required "name" "name" Value.nonEmpty?
    version := ← entries.required "version" "version" Value.nonEmpty?
    description := ← entries.optional "description" "description" Value.string?
    orchestration := ← entries.required "orchestration" "orchestration" Orchestration.ofValue?
    evaluations := ← entries.optional "evaluations" "evaluations" (Value.listOf? Suite.ofValue?)
    metadata := ← entries.optional "metadata" "metadata" Metadata.ofValue? }

def toValue (form : Form) (p : Project) : Value :=
  form.record [
    ("id", Value.text p.id),
    ("name", Value.text p.name),
    ("version", Value.text p.version),
    ("description", p.description.map Value.text),
    ("orchestration", p.orchestration.toValue form),
    ("evaluations", p.evaluations.map (listValue (Suite.toValue form))),
    ("metadata", p.metadata.map (Metadata.toValue form))]

end Project

/-- The typed reading of a value, or the violations of its shape. -/
def readAs {α : Type} (shape : Shape) (ofValue? : Value → Option α) (v : Value) :
    Except (List Violation) α :=
  match ofValue? v with
  | some a => .ok a
  | none => .error (shape.violations [] v)

def Project.read (v : Value) : Except (List Violation) Project :=
  readAs Project.shape Project.ofValue? v

def Orchestration.read (v : Value) : Except (List Violation) Orchestration :=
  readAs Orchestration.shape Orchestration.ofValue? v

/-! ## Depth -/

/-- Free tables of more levels are not written out. -/
def levelLimit : Nat := 256

/-- No free table is too deep to be written out. -/
def writable (tables : List Entries) : Bool :=
  tables.all fun entries => (Value.table entries).levels ≤ levelLimit

def Orchestration.freeTables (o : Orchestration) : List Entries := o.tools.map Tool.config

def Project.freeTables (p : Project) : List Entries :=
  p.orchestration.freeTables ++
    (p.evaluations.getD []).flatMap fun suite => suite.testCases.flatMap TestCase.freeTables

end Workflow
