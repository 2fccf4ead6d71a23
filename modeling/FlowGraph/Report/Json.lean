import FlowGraph.Json.Reader
import FlowGraph.Json.Writer
import FlowGraph.Report.Basic
import FlowGraph.Time.Rfc3339

/-!
# Reports as JSON

A report is written as an object with its fields in a fixed order and read from any object that has
them, whatever else it has. The count of invalidations may be missing and is then zero. Counters and
numbers of nodes and pulses have at most sixty-four bits.
-/

namespace FlowGraph.Report

/-- The fields, in the order in which they are written. -/
def fields : List String :=
  ["pulse_id", "root", "activations", "activation_count", "evaluations", "memo_hits",
    "invalidations", "suppressed", "cancelled", "started_at", "finished_at"]

/-- The values of the fields, in their order. -/
def values (r : Report) : List Json :=
  [.natural r.pulse.number, .natural r.root.index,
    .array (r.activations.map fun n => .natural n.index), .natural r.activationCount,
    .natural r.evaluations, .natural r.memoHits, .natural r.invalidations, .natural r.suppressed,
    .bool r.cancelled, .text r.startedAt.text, .text r.finishedAt.text]

def toJson (r : Report) : Json :=
  .ofMembers (fields.zip r.values)

/-- Reads a timestamp. -/
def timestamp? (j : Json) : Option Timestamp := do
  Timestamp.ofText? (← j.text?).toList

/-- The report that a value describes. -/
def ofJson? (j : Json) : Option Report := do
  match ← j.record? fields with
  | [some pulse, some root, some activations, some activationCount, some evaluations,
      some memoHits, invalidations, some suppressed, some cancelled, some startedAt,
      some finishedAt] =>
    some
      { pulse := ⟨← pulse.word?⟩
        root := ⟨← root.word?⟩
        activations := ← (← activations.items?).mapM fun n => n.word?.map NodeId.mk
        activationCount := ← activationCount.word?
        evaluations := ← evaluations.word?
        memoHits := ← memoHits.word?
        invalidations := ← (invalidations.getD (.natural 0)).word?
        suppressed := ← suppressed.word?
        cancelled := ← cancelled.bool?
        startedAt := ← timestamp? startedAt
        finishedAt := ← timestamp? finishedAt }
  | _ => none

/-- The report that a text holds. -/
def ofText? (s : String) : Option Report := do
  ofJson? (← Json.ofText? s)

/-- The report on one line, without blanks. -/
def line (r : Report) : String :=
  r.toJson.compact

end FlowGraph.Report
