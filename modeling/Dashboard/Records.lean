import Dashboard.Feed
import Dashboard.Instant.Timestamp
import Dashboard.NamedScalars

/-!
# Records

The entries that the widgets of a dashboard show: activities, commands, plotted samples and
rows of a stream. Each of them is a record that is exchanged as a JSON document, and each says
which of its fields identify it and which of them date it.
-/

namespace Dashboard

/-- An instant as a document. -/
def Instant.toDocument (t : Instant) : Document :=
  .text (Timestamp.render t)

/-- The instant that a document denotes. -/
def Instant.ofDocument? (d : Document) : Option Instant :=
  d.asText?.bind Timestamp.read?

/-! ### Activities -/

/-- A row of the table of activities. -/
structure Activity where
  id : String
  start : Instant
  kind : String
  status : String
  detail : String
  deriving DecidableEq

namespace Activity

instance : Entry Activity String Instant := ⟨Activity.id, Activity.start⟩

/-- The names of the fields. -/
def fieldNames : List String :=
  ["id", "start", "activity_type", "status", "detail"]

/-- An activity as a document. -/
def toDocument (a : Activity) : Document :=
  .table [("id", .text a.id), ("start", a.start.toDocument), ("activity_type", .text a.kind),
    ("status", .text a.status), ("detail", .text a.detail)]

/-- The activity that a document is. -/
def ofDocument? (d : Document) : Option Activity := do
  let [id, start, kind, status, detail] ← d.record? .json fieldNames | none
  return {
    id := ← Document.required Document.asText? id
    start := ← Document.required Instant.ofDocument? start
    kind := ← Document.orDefault "" Document.asText? kind
    status := ← Document.orDefault "" Document.asText? status
    detail := ← Document.orDefault "" Document.asText? detail }

end Activity

/-! ### Commands -/

/-- A command that was issued, with what became of it. -/
structure Command where
  origin : String
  /-- Counts the commands of an origin. -/
  sequence : Nat
  name : String
  issued : Instant
  attributes : NamedScalars
  deriving BEq

namespace Command

instance : Ord (Instant × Nat) := lexOrd

/-- Commands of the same time are dated by their sequence numbers. -/
instance : Entry Command (String × Nat) (Instant × Nat) :=
  ⟨fun c => (c.origin, c.sequence), fun c => (c.issued, c.sequence)⟩

/-- The names of the fields. -/
def fieldNames : List String :=
  ["origin", "sequence_number", "command_name", "generation_time", "attributes"]

/-- A command as a document. -/
def toDocument (c : Command) : Document :=
  .table [("origin", .text c.origin), ("sequence_number", .integer c.sequence),
    ("command_name", .text c.name), ("generation_time", c.issued.toDocument),
    ("attributes", c.attributes.toDocument)]

/-- The command that a document is. -/
def ofDocument? (d : Document) : Option Command := do
  let [origin, sequence, name, issued, attributes] ← d.record? .json fieldNames | none
  return {
    origin := ← Document.required Document.asText? origin
    sequence := ← Document.required Document.asCount? sequence
    name := ← Document.required Document.asText? name
    issued := ← Document.required Instant.ofDocument? issued
    attributes := ← Document.orDefault .empty NamedScalars.ofDocument? attributes }

end Command

/-! ### Samples -/

/-- A value of a plotted parameter. -/
structure Sample where
  time : Instant
  value : Float
  deriving BEq

namespace Sample

instance : Entry Sample Instant Instant := ⟨Sample.time, Sample.time⟩

/-- The names of the fields. -/
def fieldNames : List String :=
  ["time", "value"]

/-- A sample as a document. -/
def toDocument (s : Sample) : Document :=
  .table [("time", s.time.toDocument), ("value", .real s.value)]

/-- The sample that a document is. -/
def ofDocument? (d : Document) : Option Sample := do
  let [time, value] ← d.record? .json fieldNames | none
  return {
    time := ← Document.required Instant.ofDocument? time
    value := ← Document.required Document.asDouble? value }

end Sample

/-! ### Rows -/

/-- A row of the table of a stream. -/
structure Row where
  id : Nat
  time : Instant
  columns : NamedScalars
  deriving BEq

namespace Row

instance : Entry Row Nat Instant := ⟨Row.id, Row.time⟩

/-- The names of the fields. -/
def fieldNames : List String :=
  ["id", "time", "columns"]

/-- A row as a document. -/
def toDocument (r : Row) : Document :=
  .table [("id", .integer r.id), ("time", r.time.toDocument), ("columns", r.columns.toDocument)]

/-- The row that a document is. -/
def ofDocument? (d : Document) : Option Row := do
  let [id, time, columns] ← d.record? .json fieldNames | none
  return {
    id := ← Document.required Document.asCount? id
    time := ← Document.required Instant.ofDocument? time
    columns := ← Document.orDefault .empty NamedScalars.ofDocument? columns }

end Row

end Dashboard
