import Workflow.Spec.Reading

/-! Suites of test cases and metrics that go with a project. -/

namespace Workflow

inductive MetricKind where
  | accuracy | latency | cost | custom
  deriving DecidableEq, Repr

instance : Labelled MetricKind where
  options := [.accuracy, .latency, .cost, .custom]
  label
    | .accuracy => "accuracy"
    | .latency => "latency"
    | .cost => "cost"
    | .custom => "custom"

inductive Environment where
  | dev | staging | prod
  deriving DecidableEq, Repr

instance : Labelled Environment where
  options := [.dev, .staging, .prod]
  label
    | .dev => "dev"
    | .staging => "staging"
    | .prod => "prod"

structure Metric where
  name : String
  kind : MetricKind
  threshold : Option Number
  weight : Option Number
  deriving DecidableEq

namespace Metric

def shape : Shape :=
  .model "EvalMetric" none [
    .mk "name" "name" false (.text true),
    .mk "type" "type" false (Labelled.shape MetricKind "EvalMetricType" none),
    .mk "threshold" "threshold" true (.number .any),
    .mk "weight" "weight" true (.number .unit)]

def ofValue? (v : Value) : Option Metric := do
  let entries ← v.entries?
  some {
    name := ← entries.required "name" "name" Value.nonEmpty?
    kind := ← entries.required "type" "type" Value.choice?
    threshold := ← entries.optional "threshold" "threshold" (Value.number? .any)
    weight := ← entries.optional "weight" "weight" (Value.number? .unit) }

def toValue (form : Form) (m : Metric) : Value :=
  form.record [
    ("name", Value.text m.name),
    ("type", Labelled.toValue m.kind),
    ("threshold", m.threshold.map Number.toValue),
    ("weight", m.weight.map Number.toValue)]

end Metric

structure TestCase where
  id : String
  input : Entries
  expectedOutput : Option Entries
  metadata : Option Entries

namespace TestCase

def shape : Shape :=
  .model "EvalCase" none [
    .mk "id" "id" false (.text true),
    .mk "input" "input" false .freeTable,
    .mk "expected_output" "expectedOutput" true .freeTable,
    .mk "metadata" "metadata" true .freeTable]

def ofValue? (v : Value) : Option TestCase := do
  let entries ← v.entries?
  some {
    id := ← entries.required "id" "id" Value.nonEmpty?
    input := ← entries.required "input" "input" Value.entries?
    expectedOutput := ← entries.optional "expected_output" "expectedOutput" Value.entries?
    metadata := ← entries.optional "metadata" "metadata" Value.entries? }

def toValue (form : Form) (c : TestCase) : Value :=
  form.record [
    ("id", Value.text c.id),
    ("input", form.freeTable c.input),
    ("expectedOutput", c.expectedOutput.map form.freeTable),
    ("metadata", c.metadata.map form.freeTable)]

def freeTables (c : TestCase) : List Entries :=
  c.input :: c.expectedOutput.toList ++ c.metadata.toList

end TestCase

structure Suite where
  id : String
  name : String
  description : Option String
  metrics : List Metric
  testCases : List TestCase
  environment : Environment

namespace Suite

def shape : Shape :=
  .model "EvalSuite" none [
    .mk "id" "id" false (.text true),
    .mk "name" "name" false (.text true),
    .mk "description" "description" true (.text false),
    .mk "metrics" "metrics" false (.listOf Metric.shape),
    .mk "test_cases" "testCases" false (.listOf TestCase.shape),
    .mk "environment" "environment" false (Labelled.shape Environment "Environment" none)]

def ofValue? (v : Value) : Option Suite := do
  let entries ← v.entries?
  some {
    id := ← entries.required "id" "id" Value.nonEmpty?
    name := ← entries.required "name" "name" Value.nonEmpty?
    description := ← entries.optional "description" "description" Value.string?
    metrics := ← entries.required "metrics" "metrics" (Value.listOf? Metric.ofValue?)
    testCases := ← entries.required "test_cases" "testCases" (Value.listOf? TestCase.ofValue?)
    environment := ← entries.required "environment" "environment" Value.choice? }

def toValue (form : Form) (s : Suite) : Value :=
  form.record [
    ("id", Value.text s.id),
    ("name", Value.text s.name),
    ("description", s.description.map Value.text),
    ("metrics", listValue (Metric.toValue form) s.metrics),
    ("testCases", listValue (TestCase.toValue form) s.testCases),
    ("environment", Labelled.toValue s.environment)]

end Suite

end Workflow
