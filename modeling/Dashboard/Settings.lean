import Dashboard.Document
import Dashboard.Feed
import Dashboard.Formula.Grammar

/-!
# Settings

The settings of a dashboard say how formulas are read unless they say otherwise themselves,
and how the feed of each kind of widget is sized. They are exchanged as a document in which
every field may be missing; what is missing has a default. A sizing, however, has to give
its capacity and its watermark.

## Main results

* `validate_default` — the defaults make sense.
-/

namespace Dashboard

/-- The sizes of feeds and scrollbacks. -/
structure BufferSettings where
  scrollbackCapacity : Nat
  /-- How many entries a feed keeps when it is compacted. -/
  compactLimit : Nat
  activities : Sizing
  commands : Sizing
  samples : Sizing
  rows : Sizing
  deriving DecidableEq

/-- The settings of a dashboard. -/
structure Settings where
  formula : Formula.Options
  buffers : BufferSettings
  deriving DecidableEq

/-- The sizes unless others are asked for. -/
def BufferSettings.default : BufferSettings where
  scrollbackCapacity := 500
  compactLimit := defaultCompactLimit
  activities := ⟨100, 80, .byId⟩
  commands := ⟨200, 150, .byId⟩
  samples := ⟨500, 400, .append⟩
  rows := ⟨100, 80, .byId⟩

instance : Inhabited BufferSettings := ⟨.default⟩

/-- The settings unless others are asked for. -/
def Settings.default : Settings := ⟨Inhabited.default, .default⟩

instance : Inhabited Settings := ⟨.default⟩

/-! ### What makes sense -/

/-- The sizings and their names, in the order in which they are checked. -/
def BufferSettings.sizings (s : BufferSettings) : List (String × Sizing) :=
  [("activities", s.activities), ("command_history", s.commands), ("plot_samples", s.samples),
    ("stream_rows", s.rows)]

/-- The first thing about the sizes that makes no sense. -/
def BufferSettings.validate (s : BufferSettings) : Except Failure Unit := do
  s.sizings.forM fun (name, sizing) => inContext ("buffers." ++ name) sizing.validate
  if s.scrollbackCapacity = 0 then
    throw (.settings "buffers.scrollback_capacity must be greater than zero")
  if s.compactLimit = 0 then
    throw (.settings "buffers.compact_limit must be greater than zero")

/-- The first thing about the settings that makes no sense. -/
def Settings.validate (s : Settings) : Except Failure Unit := do
  if s.formula.maxDepth = 0 then
    throw (.settings "formula.max_depth must be greater than zero")
  s.buffers.validate

/-- The default settings pass their own check. -/
theorem Settings.validate_default : Settings.default.validate = .ok () := rfl

/-! ### Settings as documents -/

/-- A sizing as a document. -/
def Sizing.toDocument (s : Sizing) : Document :=
  .table [("capacity", .integer s.capacity), ("watermark", .integer s.watermark),
    ("dedup", .text s.policy.word)]

/-- The sizing that a document is. Without a policy it is that of one entry for each key. -/
def Sizing.ofDocument? (format : Format) (d : Document) : Option Sizing := do
  let [capacity, watermark, policy] ← d.record? format ["capacity", "watermark", "dedup"] | none
  return {
    capacity := ← Document.required Document.asCount? capacity
    watermark := ← Document.required Document.asCount? watermark
    policy := ← Document.orDefault .byId
      (fun d => (d.asWord? format).bind Policy.ofWord?) policy }

/-- How formulas are read, as a document. -/
def formulaSection (options : Formula.Options) : Document :=
  .table [("dialect", .text options.dialect.word), ("max_depth", .integer options.maxDepth)]

/-- How formulas are read, from a document. -/
def formulaSection? (format : Format) (d : Document) : Option Formula.Options := do
  let [dialect, maxDepth] ← d.record? format ["dialect", "max_depth"] | none
  return {
    dialect := ← Document.orDefault .simplified
      (fun d => (d.asWord? format).bind Formula.Dialect.ofWord?) dialect
    maxDepth := ← Document.orDefault Formula.defaultMaxDepth Document.asCount? maxDepth }

/-- The sizes as a document. -/
def BufferSettings.toDocument (s : BufferSettings) : Document :=
  .table ([("scrollback_capacity", .integer s.scrollbackCapacity),
      ("compact_limit", .integer s.compactLimit)] ++
    s.sizings.map fun (name, sizing) => (name, sizing.toDocument))

/-- The names of the fields of the sizes. -/
def BufferSettings.fieldNames : List String :=
  ["scrollback_capacity", "compact_limit", "activities", "command_history", "plot_samples",
    "stream_rows"]

/-- The sizes that a document gives. -/
def BufferSettings.ofDocument? (format : Format) (d : Document) : Option BufferSettings := do
  let [scrollback, limit, activities, commands, samples, rows] ← d.record? format fieldNames
    | none
  let sizing := Sizing.ofDocument? format
  return {
    scrollbackCapacity :=
      ← Document.orDefault default.scrollbackCapacity Document.asCount? scrollback
    compactLimit := ← Document.orDefault default.compactLimit Document.asCount? limit
    activities := ← Document.orDefault default.activities sizing activities
    commands := ← Document.orDefault default.commands sizing commands
    samples := ← Document.orDefault default.samples sizing samples
    rows := ← Document.orDefault default.rows sizing rows }

/-- Settings as a document. -/
def Settings.toDocument (s : Settings) : Document :=
  .table [("formula", formulaSection s.formula), ("buffers", s.buffers.toDocument)]

/-- The settings that a document gives. -/
def Settings.ofDocument? (format : Format) (d : Document) : Option Settings := do
  let [formula, buffers] ← d.record? format ["formula", "buffers"] | none
  return {
    formula := ← Document.orDefault default.formula (formulaSection? format) formula
    buffers := ← Document.orDefault default.buffers (BufferSettings.ofDocument? format) buffers }

end Dashboard
