import Dashboard.Document
import Dashboard.Reading

/-!
# Scalars and Readings as Documents

A scalar is written as the plain number, boolean or text that it is. A value is written
like its scalar, and as `null` if it has none. A reading is a record of its value and its
quality, where a quality that was not delivered is left out. All of them are exchanged as
JSON.
-/

namespace Dashboard

/-- A scalar as a document. -/
def Scalar.toDocument : Scalar → Document
  | .number x => .real x
  | .boolean b => .boolean b
  | .text s => .text s

/-- The scalar that a document is. -/
def Scalar.ofDocument? : Document → Option Scalar
  | .boolean b => some (.boolean b)
  | .text s => some (.text s)
  | d => d.asDouble?.map .number

/-- A value as a document. -/
def Value.toDocument (v : Value) : Document :=
  (v.toScalar?.map Scalar.toDocument).getD .null

/-- The quality that a document names. -/
def Acquisition.ofDocument? (d : Document) : Option Acquisition :=
  (d.asWord? .json).bind ofWord?

/-- The names of the fields of a reading. -/
def Reading.fieldNames : List String :=
  ["value", "acquisition_status"]

/-- A reading as a document. -/
def Reading.toDocument (r : Reading) : Document :=
  .table (("value", r.value.toDocument) ::
    (r.acquisition.map fun a => ("acquisition_status", Document.text a.word)).toList)

/-- The reading that a document is. -/
def Reading.ofDocument? (d : Document) : Option Reading := do
  let [value, acquisition] ← d.record? .json fieldNames | none
  return {
    value := ← Document.required Scalar.ofDocument? value
    acquisition := ← match acquisition with
      | none | some .null => some none
      | some d => (Acquisition.ofDocument? d).map some }

end Dashboard
