import Dashboard.Proofs.Document.Json
import Dashboard.Settings.File

/-!
# Settings That Are Given in Part

A settings file may leave out most of what it could say. A **field** of the settings is a place
that holds a value, and it is reached through records: the section for formulas, the section
for buffers, and in it a section for each kind of widget. This module says where in a document
each field is given, and follows the reader of settings from record to record.

What is given is what the settings have, and what is not given has its default. There is one
exception. The default policy of the samples is not the policy that a section of its own has
when it leaves the policy out, so a section for the samples that only gives their numbers
changes their policy.

## Main results

* `Document.record?_eq_some` — a record is read part by part.
* `Settings.follows_of_ofDocument?` — every field follows from the part that may give it.
* `Settings.fallback_eq_default_iff` — what is not given has its default, with one exception.
* `Settings.load_partial` — what settings are that are read from a file.
-/

namespace Dashboard

namespace Document

/-! ### Parts of a document -/

/-- A step into a record: the names of its fields, and one of them. -/
structure Step where
  names : List String
  name : String

/-- The part of a document that a step leads to, if it is given. In a record that is written as
a list a field is given by its place. -/
def part? (step : Step) : Document → Option Document
  | .table fields => field? step.name fields
  | .list items => items[step.names.idxOf step.name]?
  | _ => none

/-- The part of a document that several steps lead to. -/
def at? (d : Document) : List Step → Option Document
  | [] => some d
  | step :: path => (d.part? step).bind (·.at? path)

/-- A path of one step leads to that part. -/
theorem at?_singleton (d : Document) (step : Step) : d.at? [step] = d.part? step := by
  cases h : d.part? step <;> simp [at?, h]

variable {format : Format} {d : Document}

/-- **A record is read part by part.** -/
theorem record?_eq_some {names : List String} {parts : List (Option Document)}
    (hnames : names.Nodup) (h : d.record? format names = some parts) :
    parts = names.map fun name => d.part? ⟨names, name⟩ := by
  unfold record? at h
  split at h
  · split at h
    · cases h
      rfl
    · cases h
  · next items =>
    split at h
    · cases h
      refine List.ext_getElem ?_ fun i hi hi' => ?_
      · simp only [List.length_append, List.length_map, List.length_take, List.length_replicate]
        omega
      · rw [List.length_map] at hi'
        rw [List.getElem_map, part?, hnames.idxOf_getElem, List.getElem_append]
        split
        · next hgiven =>
          simp only [List.length_map, List.length_take] at hgiven
          simp [show i < items.length by omega]
        · next hmissing =>
          simp only [List.length_map, List.length_take] at hmissing
          simp [show items.length ≤ i by omega]
    · cases h
  · cases h

/-- A field that may be missing is missing and has its default, or is read. -/
theorem orDefault_eq_some_iff {α : Type} {default : α} {read : Document → Option α}
    {part : Option Document} {a : α} :
    orDefault default read part = some a ↔
      (part = none ∧ a = default) ∨ ∃ d, part = some d ∧ read d = some a := by
  cases part with
  | none => simp [orDefault, eq_comm]
  | some d => simp [orDefault]

/-- A field that must be given is read. -/
theorem required_eq_some_iff {α : Type} {read : Document → Option α} {part : Option Document}
    {a : α} : required read part = some a ↔ ∃ d, part = some d ∧ read d = some a := by
  cases part with
  | none => simp [required]
  | some d => simp [required]

/-- A text that stands for a word, or a choice of it without content. -/
inductive Names (format : Format) : Document → String → Prop
  | text (word : String) : Names format (.text word) word
  | choice {word : String} {content : Document} : isMissing format content = true →
      Names format (.table [(word, content)]) word

/-- A document that is read as a word names it. -/
theorem names_of_asWord? {word : String} (h : d.asWord? format = some word) :
    d.Names format word := by
  unfold asWord? at h
  split at h
  · cases h
    exact .text word
  · split at h
    · next hmissing =>
      cases h
      exact .choice hmissing
    · cases h
  · cases h

/-- A document that is read as a count is a whole number. -/
theorem eq_integer_of_asCount? {n : Nat} (h : d.asCount? = some n) : d = .integer n := by
  unfold asCount? at h
  split at h
  · split at h
    · cases h
      rfl
    · cases h
  · cases h

end Document

open Document (Step)

/-! ### Fields -/

/-- The kinds of widgets whose feeds are sized. -/
inductive Widget where
  | activities
  | commands
  | samples
  | rows
  deriving DecidableEq, Repr

/-- The section for a kind of widget. -/
def Widget.name : Widget → String
  | .activities => "activities"
  | .commands => "command_history"
  | .samples => "plot_samples"
  | .rows => "stream_rows"

/-- The sizing for a kind of widget. -/
def BufferSettings.sizing (s : BufferSettings) : Widget → Sizing
  | .activities => s.activities
  | .commands => s.commands
  | .samples => s.samples
  | .rows => s.rows

namespace Settings

/-- The fields of settings. -/
inductive Field where
  | dialect
  | maxDepth
  | scrollbackCapacity
  | compactLimit
  | capacity (w : Widget)
  | watermark (w : Widget)
  | policy (w : Widget)
  deriving DecidableEq, Repr

/-- What a field holds. -/
abbrev Field.Value : Field → Type
  | .dialect => Formula.Dialect
  | .policy _ => Policy
  | .maxDepth | .scrollbackCapacity | .compactLimit | .capacity _ | .watermark _ => Nat

/-- The value that settings have in a field. -/
def get (s : Settings) : (field : Field) → field.Value
  | .dialect => s.formula.dialect
  | .maxDepth => s.formula.maxDepth
  | .scrollbackCapacity => s.buffers.scrollbackCapacity
  | .compactLimit => s.buffers.compactLimit
  | .capacity w => (s.buffers.sizing w).capacity
  | .watermark w => (s.buffers.sizing w).watermark
  | .policy w => (s.buffers.sizing w).policy

/-- The step into a section of the settings. -/
def sectionStep (name : String) : Step :=
  ⟨["formula", "buffers"], name⟩

/-- The step into the section for formulas. -/
def formulaStep (name : String) : Step :=
  ⟨["dialect", "max_depth"], name⟩

/-- The step into the section for buffers. -/
def buffersStep (name : String) : Step :=
  ⟨BufferSettings.fieldNames, name⟩

/-- The step into the section for a kind of widget. -/
def sizingStep (name : String) : Step :=
  ⟨["capacity", "watermark", "dedup"], name⟩

/-- The way to the section for a kind of widget. -/
def widgetPath (w : Widget) : List Step :=
  [sectionStep "buffers", buffersStep w.name]

/-- The way to a field. -/
def Field.path : Field → List Step
  | .dialect => [sectionStep "formula", formulaStep "dialect"]
  | .maxDepth => [sectionStep "formula", formulaStep "max_depth"]
  | .scrollbackCapacity => [sectionStep "buffers", buffersStep "scrollback_capacity"]
  | .compactLimit => [sectionStep "buffers", buffersStep "compact_limit"]
  | .capacity w => widgetPath w ++ [sizingStep "capacity"]
  | .watermark w => widgetPath w ++ [sizingStep "watermark"]
  | .policy w => widgetPath w ++ [sizingStep "dedup"]

/-- What gives a value for a field: words for a dialect or a policy, and else a number. -/
def Field.Denotes (format : Format) : (field : Field) → Document → field.Value → Prop
  | .dialect, part, value => part.Names format value.word
  | .policy _, part, value => part.Names format value.word
  | .maxDepth, part, n => part = .integer (n : Nat)
  | .scrollbackCapacity, part, n => part = .integer (n : Nat)
  | .compactLimit, part, n => part = .integer (n : Nat)
  | .capacity _, part, n => part = .integer (n : Nat)
  | .watermark _, part, n => part = .integer (n : Nat)

/-! ### Reading section by section -/

section Sections

variable {format : Format} {d : Document}

/-- What the settings are read from. -/
theorem parts_of_ofDocument? {s : Settings} (h : ofDocument? format d = some s) :
    Document.orDefault default.formula (formulaSection? format)
        (d.part? (sectionStep "formula")) = some s.formula ∧
      Document.orDefault default.buffers (BufferSettings.ofDocument? format)
        (d.part? (sectionStep "buffers")) = some s.buffers := by
  rw [ofDocument?, Option.bind_eq_bind, Option.bind_eq_some_iff] at h
  obtain ⟨parts, hparts, h⟩ := h
  obtain rfl := Document.record?_eq_some (by decide) hparts
  simp only [List.map_cons, List.map_nil, Option.bind_eq_bind, Option.bind_eq_some_iff] at h
  obtain ⟨formula, hformula, buffers, hbuffers, h⟩ := h
  cases h
  exact ⟨hformula, hbuffers⟩

/-- What the options for formulas are read from. -/
theorem parts_of_formulaSection? {options : Formula.Options}
    (h : formulaSection? format d = some options) :
    Document.orDefault .simplified (fun d => (d.asWord? format).bind Formula.Dialect.ofWord?)
        (d.part? (formulaStep "dialect")) = some options.dialect ∧
      Document.orDefault Formula.defaultMaxDepth Document.asCount?
        (d.part? (formulaStep "max_depth")) = some options.maxDepth := by
  rw [formulaSection?, Option.bind_eq_bind, Option.bind_eq_some_iff] at h
  obtain ⟨parts, hparts, h⟩ := h
  obtain rfl := Document.record?_eq_some (by decide) hparts
  simp only [List.map_cons, List.map_nil, Option.bind_eq_bind, Option.bind_eq_some_iff] at h
  obtain ⟨dialect, hdialect, maxDepth, hmaxDepth, h⟩ := h
  cases h
  exact ⟨hdialect, hmaxDepth⟩

/-- What the sizes are read from. -/
theorem parts_of_bufferSettings {s : BufferSettings}
    (h : BufferSettings.ofDocument? format d = some s) :
    Document.orDefault BufferSettings.default.scrollbackCapacity Document.asCount?
        (d.part? (buffersStep "scrollback_capacity")) = some s.scrollbackCapacity ∧
      Document.orDefault BufferSettings.default.compactLimit Document.asCount?
        (d.part? (buffersStep "compact_limit")) = some s.compactLimit ∧
      ∀ w : Widget, Document.orDefault (BufferSettings.default.sizing w)
        (Sizing.ofDocument? format) (d.part? (buffersStep w.name)) = some (s.sizing w) := by
  rw [BufferSettings.ofDocument?, Option.bind_eq_bind, Option.bind_eq_some_iff] at h
  obtain ⟨parts, hparts, h⟩ := h
  obtain rfl := Document.record?_eq_some (by decide) hparts
  simp only [BufferSettings.fieldNames, List.map_cons, List.map_nil, Option.bind_eq_bind,
    Option.bind_eq_some_iff] at h
  obtain ⟨scrollback, hscrollback, limit, hlimit, activities, hactivities, commands, hcommands,
    samples, hsamples, rows, hrows, h⟩ := h
  cases h
  refine ⟨hscrollback, hlimit, fun w => ?_⟩
  cases w with
  | activities => exact hactivities
  | commands => exact hcommands
  | samples => exact hsamples
  | rows => exact hrows

/-- What a sizing is read from. -/
theorem parts_of_sizing {s : Sizing} (h : Sizing.ofDocument? format d = some s) :
    Document.required Document.asCount? (d.part? (sizingStep "capacity")) = some s.capacity ∧
      Document.required Document.asCount? (d.part? (sizingStep "watermark")) = some s.watermark ∧
      Document.orDefault .byId (fun d => (d.asWord? format).bind Policy.ofWord?)
        (d.part? (sizingStep "dedup")) = some s.policy := by
  rw [Sizing.ofDocument?, Option.bind_eq_bind, Option.bind_eq_some_iff] at h
  obtain ⟨parts, hparts, h⟩ := h
  obtain rfl := Document.record?_eq_some (by decide) hparts
  simp only [List.map_cons, List.map_nil, Option.bind_eq_bind, Option.bind_eq_some_iff] at h
  obtain ⟨capacity, hcapacity, watermark, hwatermark, policy, hpolicy, h⟩ := h
  cases h
  exact ⟨hcapacity, hwatermark, hpolicy⟩

end Sections

/-! ### Given or not -/

/-- How a value follows from the part of a document that may give it: if it is given, the part
denotes it, and if not, it has its fallback. -/
structure Follows {α : Type} (Denotes : Document → α → Prop) (fallback : α)
    (part : Option Document) (a : α) : Prop where
  given : ∀ d, part = some d → Denotes d a
  absent : part = none → a = fallback

section Follows

variable {α σ : Type} {Denotes : Document → α → Prop} {fallback a : α}
  {read : Document → Option α} {part : Option Document}

/-- What is read with a default follows from the part, or from the default if there is none. -/
theorem follows_of_orDefault (h : Document.orDefault fallback read part = some a)
    (hread : ∀ d, read d = some a → Denotes d a) : Follows Denotes fallback part a := by
  obtain ⟨rfl, rfl⟩ | ⟨d, rfl, hd⟩ := Document.orDefault_eq_some_iff.mp h
  · exact ⟨nofun, fun _ => rfl⟩
  · exact ⟨by rintro _ ⟨⟩; exact hread d hd, nofun⟩

/-- What has to be given needs no fallback. -/
theorem follows_of_required (h : Document.required read part = some a)
    (hread : ∀ d, read d = some a → Denotes d a) : Follows Denotes fallback part a := by
  obtain ⟨d, rfl, hd⟩ := Document.required_eq_some_iff.mp h
  exact ⟨by rintro _ ⟨⟩; exact hread d hd, nofun⟩

/-- A value in a section that may be missing follows from the parts of the section. -/
theorem Follows.inside {default whole : σ} {read : Document → Option σ} (value : σ → α)
    {path : List Step} (h : Document.orDefault default read part = some whole)
    (hread : ∀ d, part = some d → read d = some whole →
      Follows Denotes fallback (d.at? path) (value whole))
    (hdefault : part = none → value default = fallback) :
    Follows Denotes fallback (part.bind (·.at? path)) (value whole) := by
  obtain ⟨rfl, rfl⟩ | ⟨d, rfl, hd⟩ := Document.orDefault_eq_some_iff.mp h
  · exact ⟨nofun, fun _ => hdefault rfl⟩
  · exact hread d rfl hd

end Follows

/-- A document that is read as a dialect names it by its word. -/
theorem denotes_dialect {format : Format} {d : Document} {dialect : Formula.Dialect}
    (h : (d.asWord? format).bind Formula.Dialect.ofWord? = some dialect) :
    d.Names format dialect.word := by
  obtain ⟨word, hword, hdialect⟩ := Option.bind_eq_some_iff.mp h
  have hnamed := List.find?_some hdialect
  rw [of_decide_eq_true hnamed]
  exact Document.names_of_asWord? hword

/-- A document that is read as a policy names it by its word. -/
theorem denotes_policy {format : Format} {d : Document} {policy : Policy}
    (h : (d.asWord? format).bind Policy.ofWord? = some policy) :
    d.Names format policy.word := by
  obtain ⟨word, hword, hpolicy⟩ := Option.bind_eq_some_iff.mp h
  have hnamed := List.find?_some hpolicy
  rw [of_decide_eq_true hnamed]
  exact Document.names_of_asWord? hword

/-- The value of a field that a document does not give. It is the default, but for the policy
of the samples: a section for them that leaves it out has the policy of all such sections. -/
def Field.fallback (d : Document) : (field : Field) → field.Value
  | .policy .samples => if (d.at? (widgetPath .samples)).isSome then .byId else .append
  | field => Settings.default.get field

/-- What a sizing has follows from the parts of its section. -/
theorem follows_of_sizing {format : Format} {d : Document} {s : BufferSettings} {w : Widget}
    {name : String} {α : Type} {Denotes : Document → α → Prop} {fallback : α} (value : Sizing → α)
    (h : Document.orDefault BufferSettings.default (BufferSettings.ofDocument? format)
      (d.part? (sectionStep "buffers")) = some s)
    (hread : ∀ part, d.at? (widgetPath w) = some part →
      Sizing.ofDocument? format part = some (s.sizing w) →
      Follows Denotes fallback (part.part? (sizingStep name)) (value (s.sizing w)))
    (hdefault : d.at? (widgetPath w) = none →
      value (BufferSettings.default.sizing w) = fallback) :
    Follows Denotes fallback (d.at? (widgetPath w ++ [sizingStep name])) (value (s.sizing w)) := by
  refine .inside (fun s : BufferSettings => value (s.sizing w)) h (fun part hpart hs => ?_) ?_
  · refine .inside value ((parts_of_bufferSettings hs).2.2 w) (fun inner hinner hsizing => ?_) ?_
    · show Follows Denotes fallback (inner.at? [sizingStep name]) _
      rw [Document.at?_singleton]
      exact hread inner (by simp [widgetPath, Document.at?, hpart, hinner]) hsizing
    · intro hinner
      exact hdefault (by simp [widgetPath, Document.at?, hpart, hinner])
  · intro hpart
    exact hdefault (by simp [widgetPath, Document.at?, hpart])

/-- **Every field follows from the part of the document that may give it.** In a section the policy
falls back to that of one entry for each key. -/
theorem follows_of_ofDocument? {format : Format} {d : Document} {s : Settings}
    (h : ofDocument? format d = some s) (field : Field) :
    Follows (field.Denotes format) (field.fallback d) (d.at? field.path) (s.get field) := by
  obtain ⟨hformula, hbuffers⟩ := parts_of_ofDocument? h
  cases field with
  | dialect =>
      refine .inside Formula.Options.dialect hformula (fun part _ hpart => ?_) fun _ => rfl
      rw [Document.at?_singleton]
      exact follows_of_orDefault (parts_of_formulaSection? hpart).1 fun _ => denotes_dialect
  | maxDepth =>
      refine .inside Formula.Options.maxDepth hformula (fun part _ hpart => ?_) fun _ => rfl
      rw [Document.at?_singleton]
      exact follows_of_orDefault (parts_of_formulaSection? hpart).2
        fun _ => Document.eq_integer_of_asCount?
  | scrollbackCapacity =>
      refine .inside BufferSettings.scrollbackCapacity hbuffers (fun part _ hpart => ?_)
        fun _ => rfl
      rw [Document.at?_singleton]
      exact follows_of_orDefault (parts_of_bufferSettings hpart).1
        fun _ => Document.eq_integer_of_asCount?
  | compactLimit =>
      refine .inside BufferSettings.compactLimit hbuffers (fun part _ hpart => ?_) fun _ => rfl
      rw [Document.at?_singleton]
      exact follows_of_orDefault (parts_of_bufferSettings hpart).2.1
        fun _ => Document.eq_integer_of_asCount?
  | capacity w =>
      refine follows_of_sizing Sizing.capacity hbuffers (fun part _ hsizing => ?_) fun _ => ?_
      · exact follows_of_required (parts_of_sizing hsizing).1
          fun _ => Document.eq_integer_of_asCount?
      · cases w <;> rfl
  | watermark w =>
      refine follows_of_sizing Sizing.watermark hbuffers (fun part _ hsizing => ?_) fun _ => ?_
      · exact follows_of_required (parts_of_sizing hsizing).2.1
          fun _ => Document.eq_integer_of_asCount?
      · cases w <;> rfl
  | policy w =>
      refine follows_of_sizing Sizing.policy hbuffers (fun part hpart hsizing => ?_) fun hpart => ?_
      · have hfallback : Field.fallback d (.policy w) = .byId := by
          cases w with
          | samples => simp [Field.fallback, hpart]
          | _ => rfl
        rw [hfallback]
        exact follows_of_orDefault (parts_of_sizing hsizing).2.2 fun _ => denotes_policy
      · cases w with
        | samples => simp [Field.fallback, hpart, BufferSettings.sizing, BufferSettings.default]
        | _ => rfl

/-! ### Reading a file -/

/-- What a file with a text gives. -/
theorem load_of_read {files : FileTree} {path : Path} {text : String}
    (h : files.read path = .ok text) :
    load files path =
      match ofText? (Format.ofPath path) text with
      | none => .error (.unreadable (Text.quoted path.text))
      | some s => s.validate.map fun _ => s := by
  have hcontents : ∀ context, inContext context
      ((Except.ok text : Except FileProblem String).mapError .file) = .ok text := fun _ => rfl
  rw [load, ofFile, h, hcontents]
  cases hsettings : ofText? (Format.ofPath path) text with
  | none => simp [bind, Except.bind, hsettings, throw, throwThe, MonadExceptOf.throw]
  | some s =>
      cases hvalid : s.validate with
      | error failure => simp [bind, Except.bind, hsettings, hvalid, Except.map]
      | ok => simp [bind, Except.bind, hsettings, hvalid, Except.map, pure, Except.pure]

/-- A file whose text gives settings gives them if they make sense. -/
theorem load_of_document {files : FileTree} {path : Path} {text : String} {d : Document}
    {s : Settings} (hread : files.read path = .ok text)
    (hd : (Format.ofPath path).read? text = some d)
    (hs : ofDocument? (Format.ofPath path) d = some s) :
    load files path = s.validate.map fun _ => s := by
  rw [load_of_read hread, ofText?, hd, Option.bind_some, hs]

/-- Settings are read from a file only if its text gives them. -/
theorem load_eq_ok {files : FileTree} {path : Path} {s : Settings} (h : load files path = .ok s) :
    ∃ text d, files.read path = .ok text ∧ (Format.ofPath path).read? text = some d ∧
      ofDocument? (Format.ofPath path) d = some s := by
  cases hread : files.read path with
  | error problem =>
      rw [load, ofFile, hread] at h
      cases h
  | ok text =>
      rw [load_of_read hread] at h
      split at h
      · cases h
      · next settings hsettings =>
        obtain ⟨d, hd, hsettings⟩ := Option.bind_eq_some_iff.mp hsettings
        cases hvalid : settings.validate with
        | error failure =>
            rw [hvalid] at h
            cases h
        | ok =>
            rw [hvalid] at h
            cases h
            exact ⟨text, d, rfl, hd, hsettings⟩

/-- A document has a section for the samples that leaves their policy out. -/
def LeavesPolicyOut (d : Document) : Prop :=
  (d.at? (widgetPath .samples)).isSome ∧ d.at? (Field.policy .samples).path = none

/-- Only the policy of the samples has a fallback that is not its default. -/
theorem fallback_eq_default_iff {d : Document} {field : Field} :
    field.fallback d = Settings.default.get field ↔
      ¬ (field = .policy .samples ∧ (d.at? (widgetPath .samples)).isSome) := by
  cases field with
  | policy w =>
      cases w with
      | samples =>
          cases hsection : d.at? (widgetPath .samples) with
          | none => simp [Field.fallback, hsection, get, BufferSettings.sizing, Settings.default,
              BufferSettings.default]
          | some part => simp [Field.fallback, hsection, get, BufferSettings.sizing,
              Settings.default, BufferSettings.default]
      | _ => simp [Field.fallback]
  | _ => simp [Field.fallback]

/-- **Settings that are given in part.** In settings that are read from a file every field that
the file gives has the given value, and every other field has its fallback. This is the
default, but for the policy of the samples. So what is not given has its default just if the
file does not leave the policy of the samples out of a section for them. -/
theorem load_partial {files : FileTree} {path : Path} {s : Settings}
    (h : load files path = .ok s) :
    ∃ text d, files.read path = .ok text ∧ (Format.ofPath path).read? text = some d ∧
      (∀ (field : Field) part, d.at? field.path = some part →
        field.Denotes (Format.ofPath path) part (s.get field)) ∧
      (∀ field : Field, d.at? field.path = none → s.get field = field.fallback d) ∧
      (∀ field : Field, field.fallback d = Settings.default.get field ↔
        ¬ (field = .policy .samples ∧ (d.at? (widgetPath .samples)).isSome)) ∧
      ((∀ field : Field, d.at? field.path = none → s.get field = Settings.default.get field) ↔
        ¬ LeavesPolicyOut d) := by
  obtain ⟨text, d, hread, htext, hsettings⟩ := load_eq_ok h
  have hfollows := follows_of_ofDocument? hsettings
  refine ⟨text, d, hread, htext, fun field => (hfollows field).given,
    fun field => (hfollows field).absent, fun field => fallback_eq_default_iff, ?_⟩
  constructor
  · rintro hdefault ⟨hsection, habsent⟩
    have hpolicy := ((hfollows _).absent habsent).symm.trans (hdefault _ habsent)
    exact fallback_eq_default_iff.mp hpolicy ⟨rfl, hsection⟩
  · intro hleaves field habsent
    rw [(hfollows field).absent habsent, fallback_eq_default_iff]
    rintro ⟨rfl, hsection⟩
    exact hleaves ⟨hsection, habsent⟩

/-- A tree with a single text at its root. -/
def oneFile (name text : String) : FileTree :=
  ⟨.ofList [([name], text)], []⟩

/-- The text in the only file of a tree, and the document in it. -/
theorem read_oneFile {d : Document} (h : Json.Plain d) :
    (oneFile "engine.json" (Json.pretty d)).read ⟨"engine.json"⟩ = .ok (Json.pretty d) ∧
      (Format.ofPath ⟨"engine.json"⟩).read? (Json.pretty d) = some d := by
  have hformat : Format.ofPath ⟨"engine.json"⟩ = .json := by rfl
  rw [hformat]
  exact ⟨rfl, Json.read?_pretty h⟩

/-- A document that gives a dialect and the numbers of the commands. -/
def commandsDocument : Document :=
  .table [("formula", .table [("dialect", .text "legacy")]),
    ("buffers", .table [("command_history",
      .table [("capacity", .integer 50), ("watermark", .integer 40)])])]

/-- What the file of this document does not give has its default, the policy of the commands
included. -/
theorem load_partial_commands :
    ∃ s, load (oneFile "engine.json" (Json.pretty commandsDocument)) ⟨"engine.json"⟩ = .ok s ∧
      s.get .dialect = .legacy ∧ s.get (.capacity .commands) = 50 ∧
      ∀ field : Field, commandsDocument.at? field.path = none →
        s.get field = Settings.default.get field := by
  have hplain : Json.Plain commandsDocument :=
    .cons (.cons (.text _) .nil)
      (.cons (.cons (.cons (@Json.Plain.integer 50 (by decide))
        (.cons (@Json.Plain.integer 40 (by decide)) .nil)) .nil) .nil)
  obtain ⟨hread, hd⟩ := read_oneFile hplain
  have hsettings : ofDocument? (Format.ofPath ⟨"engine.json"⟩) commandsDocument =
      some ⟨⟨.legacy, 64⟩, { BufferSettings.default with commands := ⟨50, 40, .byId⟩ }⟩ := by
    rfl
  have hload := load_of_document hread hd hsettings
  obtain ⟨text, d, htext, hd', -, -, -, hdefault⟩ := load_partial hload
  obtain rfl : Json.pretty commandsDocument = text := Except.ok.inj (hread.symm.trans htext)
  obtain rfl : commandsDocument = d := Option.some.inj (hd.symm.trans hd')
  have hsection : (commandsDocument.at? (widgetPath .samples)).isSome = false := by decide
  refine ⟨_, hload, rfl, rfl, hdefault.mpr ?_⟩
  rintro ⟨hleaves, -⟩
  rw [hsection] at hleaves
  exact Bool.false_ne_true hleaves

/-- A document that gives the numbers of the samples, but not their policy. -/
def samplesDocument : Document :=
  .table [("buffers", .table [("plot_samples",
    .table [("capacity", .integer 500), ("watermark", .integer 400)])])]

/-- **A policy that is not given and not the default.** By default all samples are kept. With a
section that gives just the default numbers, one sample is kept for each time. -/
theorem load_partial_samples :
    samplesDocument.at? (Field.policy .samples).path = none ∧
      (Format.ofPath ⟨"engine.json"⟩).read? (Json.pretty samplesDocument) =
        some samplesDocument ∧
      ∃ s, load (oneFile "engine.json" (Json.pretty samplesDocument)) ⟨"engine.json"⟩ = .ok s ∧
        s.get (.policy .samples) = .byId ∧
        Settings.default.get (.policy .samples) = .append := by
  have hplain : Json.Plain samplesDocument :=
    .cons (.cons (.cons (@Json.Plain.integer 500 (by decide))
      (.cons (@Json.Plain.integer 400 (by decide)) .nil)) .nil) .nil
  obtain ⟨hread, hd⟩ := read_oneFile hplain
  have hsettings : ofDocument? (Format.ofPath ⟨"engine.json"⟩) samplesDocument =
      some ⟨default.formula, { BufferSettings.default with samples := ⟨500, 400, .byId⟩ }⟩ := by
    rfl
  exact ⟨rfl, hd, _, load_of_document hread hd hsettings, rfl, rfl⟩

end Settings

end Dashboard
