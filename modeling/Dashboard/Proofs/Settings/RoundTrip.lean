import Dashboard.Proofs.Document.Json
import Dashboard.Proofs.Document.Toml.Sections
import Dashboard.Proofs.Settings.Partial

/-!
# Settings That Are Saved and Loaded

Settings that were saved to a file are loaded from it as they were, if they make sense; if not,
loading fails for what makes no sense, though saving did not. This holds for every path to a
file that can be written and for both formats, as long as the sizes are numbers that the format
has: TOML has whole numbers of 64 bits with a sign, JSON those without one as well.

The settings as a document are a case of the documents that are read back from what was
written, in either format; and they are what this document gives.

## Main results

* `ofDocument?_toDocument` — settings are what their document gives.
* `exists_write` — their document is read back from what was written.
* `failsOnly_validate` — what makes no sense is a failure of the configuration.
* `save_load` — settings that are saved and loaded.
-/

namespace Dashboard

/-- Whether the innermost failure is one of the configuration. -/
def Failure.isConfiguration : Failure → Bool
  | .settings _ => true
  | .unreadable _ => true
  | .within _ cause => cause.isConfiguration
  | _ => false

/-- The first number that is too large for a size in a format. TOML has numbers with a sign, and
so half as many sizes. -/
def Format.sizeLimit : Format → Nat
  | .json => UInt64.size
  | .toml => UInt64.size / 2

/-! ### Writing to a path -/

/-- A file can be written to a path, once the directory that leads to it is made. -/
def FileTree.Writable (files : FileTree) (path : Path) : Prop :=
  ∃ made, files.makeDirectories path.parent = .ok made ∧
    ∃ text written, made.write path text = .ok written

/-- A file is written just if its path has a place that is no directory, and only this text changes.
-/
theorem FileTree.write_eq_ok_iff {files written : FileTree} {path : Path} {text : String} :
    files.write path text = .ok written ↔ ∃ place, files.locate path = .ok place ∧
      files.isDirectory place = false ∧
      written = { files with texts := files.texts.insert place text } := by
  cases hplace : files.locate path with
  | error problem => simp [write, hplace, bind, Except.bind]
  | ok place =>
      cases hdirectory : files.isDirectory place with
      | true => simp [write, hplace, hdirectory, bind, Except.bind, throw, throwThe,
          MonadExceptOf.throw]
      | false =>
          have hwrite : files.write path text =
              .ok { files with texts := files.texts.insert place text } := by
            simp [write, hplace, hdirectory, bind, Except.bind, pure, Except.pure]
          rw [hwrite]
          constructor
          · rintro ⟨⟩
            exact ⟨place, rfl, hdirectory, rfl⟩
          · rintro ⟨_, ⟨⟩, -, rfl⟩
            rfl

/-- Whether a text can be written does not depend on the text. -/
theorem FileTree.exists_write {files written : FileTree} {path : Path} {text : String}
    (h : files.write path text = .ok written) (other : String) :
    ∃ saved, files.write path other = .ok saved := by
  obtain ⟨place, hplace, hdirectory, -⟩ := write_eq_ok_iff.mp h
  exact ⟨_, write_eq_ok_iff.mpr ⟨place, hplace, hdirectory, rfl⟩⟩

/-! ### Settings and their document -/

/-- A sizing is read back from its document. -/
theorem Sizing.ofDocument?_toDocument (format : Format) {s : Sizing}
    (hcapacity : s.capacity < UInt64.size) (hwatermark : s.watermark < UInt64.size) :
    ofDocument? format s.toDocument = some s := by
  have hrecord : s.toDocument.record? format ["capacity", "watermark", "dedup"] =
      some [some (.integer s.capacity), some (.integer s.watermark), some (.text s.policy.word)] :=
    rfl
  rw [ofDocument?, hrecord]
  simp [Document.required, Document.orDefault, Document.asCount?_integer hcapacity,
    Document.asCount?_integer hwatermark, Document.asWord?]

/-- So are the options of formulas. -/
theorem formulaSection?_formulaSection (format : Format) {options : Formula.Options}
    (h : options.maxDepth < UInt64.size) :
    formulaSection? format (formulaSection options) = some options := by
  have hrecord : (formulaSection options).record? format ["dialect", "max_depth"] =
      some [some (.text options.dialect.word), some (.integer options.maxDepth)] := rfl
  rw [formulaSection?, hrecord]
  simp [Document.orDefault, Document.asCount?_integer h, Document.asWord?]

namespace Settings

/-- The sizes in settings. -/
def sizes (s : Settings) : List Nat :=
  [s.formula.maxDepth, s.buffers.scrollbackCapacity, s.buffers.compactLimit] ++
    s.buffers.sizings.flatMap fun named => [named.2.capacity, named.2.watermark]

/-- All sizes are numbers that a format has. -/
def Fits (format : Format) (s : Settings) : Prop :=
  ∀ n ∈ s.sizes, n < format.sizeLimit

/-- All sizes of the settings are below a limit just if those of each section are. -/
theorem forall_sizes_lt_iff {s : Settings} {m : Nat} :
    (∀ n ∈ s.sizes, n < m) ↔ s.formula.maxDepth < m ∧ s.buffers.scrollbackCapacity < m ∧
      s.buffers.compactLimit < m ∧
      ∀ named ∈ s.buffers.sizings, named.2.capacity < m ∧ named.2.watermark < m := by
  simp [sizes, BufferSettings.sizings, and_assoc]

/-- **Settings are what their document gives.** -/
theorem ofDocument?_toDocument (format : Format) {s : Settings}
    (h : ∀ n ∈ s.sizes, n < UInt64.size) : ofDocument? format s.toDocument = some s := by
  obtain ⟨hdepth, hscrollback, hlimit, hsizings⟩ := forall_sizes_lt_iff.mp h
  have hsizing : ∀ named ∈ s.buffers.sizings,
      Sizing.ofDocument? format named.2.toDocument = some named.2 := fun named hnamed =>
    Sizing.ofDocument?_toDocument format (hsizings named hnamed).1 (hsizings named hnamed).2
  simp only [BufferSettings.sizings, List.forall_mem_cons, List.not_mem_nil] at hsizing
  obtain ⟨hactivities, hcommands, hsamples, hrows, -⟩ := hsizing
  have hbuffers : BufferSettings.ofDocument? format s.buffers.toDocument = some s.buffers := by
    have hrecord : s.buffers.toDocument.record? format BufferSettings.fieldNames =
        some [some (.integer s.buffers.scrollbackCapacity),
          some (.integer s.buffers.compactLimit), some s.buffers.activities.toDocument,
          some s.buffers.commands.toDocument, some s.buffers.samples.toDocument,
          some s.buffers.rows.toDocument] := rfl
    rw [BufferSettings.ofDocument?, hrecord]
    simp [Document.orDefault, Document.asCount?_integer hscrollback,
      Document.asCount?_integer hlimit, hactivities, hcommands, hsamples, hrows]
  have hrecord : s.toDocument.record? format ["formula", "buffers"] =
      some [some (formulaSection s.formula), some s.buffers.toDocument] := rfl
  rw [ofDocument?, hrecord]
  simp [Document.orDefault, formulaSection?_formulaSection format hdepth, hbuffers]

/-! ### The document in both formats -/

/-- Settings whose sizes have 64 bits are a plain document. -/
theorem plain_toDocument {s : Settings} (h : ∀ n ∈ s.sizes, n < UInt64.size) :
    Json.Plain s.toDocument := by
  obtain ⟨hdepth, hscrollback, hlimit, hsizings⟩ := forall_sizes_lt_iff.mp h
  have hformula : Json.Plain (formulaSection s.formula) := by
    refine .table ?_
    simp only [List.forall_mem_cons]
    exact ⟨.text _, .integer hdepth, nofun⟩
  have hbuffers : Json.Plain s.buffers.toDocument := by
    refine .table ?_
    simp only [List.forall_mem_append, List.forall_mem_cons, List.forall_mem_map]
    refine ⟨⟨.integer hscrollback, .integer hlimit, nofun⟩, fun named hnamed => .table ?_⟩
    simp only [List.forall_mem_cons]
    exact ⟨.integer (hsizings named hnamed).1, .integer (hsizings named hnamed).2, .text _, nofun⟩
  refine .table ?_
  simp only [List.forall_mem_cons]
  exact ⟨hformula, hbuffers, nofun⟩

/-- TOML has the numbers of 63 bits. -/
theorem fits_of_lt {n : Nat} (h : n < Format.toml.sizeLimit) : Toml.fits n = true := by
  have hlimit : Format.toml.sizeLimit = 9223372036854775808 := rfl
  have hmin : Int64.minValue.toInt = -9223372036854775808 := rfl
  have hmax : Int64.maxValue.toInt = 9223372036854775807 := rfl
  rw [hlimit] at h
  rw [Toml.fits, Bool.and_eq_true, decide_eq_true_eq, decide_eq_true_eq, hmin, hmax]
  omega

/-- The fields of a sizing. -/
def sizingFields (s : Sizing) : List (String × Document) :=
  [("capacity", .integer s.capacity), ("watermark", .integer s.watermark),
    ("dedup", .text s.policy.word)]

/-- The fields of the section for formulas. -/
def formulaFields (options : Formula.Options) : List (String × Document) :=
  [("dialect", .text options.dialect.word), ("max_depth", .integer options.maxDepth)]

/-- The fields of the section for buffers: its own, and the sizings. -/
def buffersFields (s : BufferSettings) : List (String × Document) :=
  [("scrollback_capacity", .integer s.scrollbackCapacity),
    ("compact_limit", .integer s.compactLimit)] ++
    Toml.tables (s.sizings.map fun named => (named.1, sizingFields named.2))

/-- The fields of a sizing are on one layer. -/
theorem layered_sizingFields {s : Sizing} (hcapacity : s.capacity < Format.toml.sizeLimit)
    (hwatermark : s.watermark < Format.toml.sizeLimit) : Toml.Layered 1 (sizingFields s) := by
  refine .of_scalars ?_ (by show ["capacity", "watermark", "dedup"].Nodup; decide)
  simp only [sizingFields, List.forall_mem_cons]
  exact ⟨.integer (fits_of_lt hcapacity), .integer (fits_of_lt hwatermark), .text _, nofun⟩

/-- The options of formulas are on one layer. -/
theorem layered_formulaFields {options : Formula.Options}
    (h : options.maxDepth < Format.toml.sizeLimit) : Toml.Layered 2 (formulaFields options) := by
  refine .of_scalars ?_ (by show ["dialect", "max_depth"].Nodup; decide)
  simp only [formulaFields, List.forall_mem_cons]
  exact ⟨.text _, .integer (fits_of_lt h), nofun⟩

/-- The sizings are on a layer below the other fields of their section. -/
theorem layered_buffersFields {s : BufferSettings}
    (hscrollback : s.scrollbackCapacity < Format.toml.sizeLimit)
    (hlimit : s.compactLimit < Format.toml.sizeLimit)
    (hsizings : ∀ named ∈ s.sizings, named.2.capacity < Format.toml.sizeLimit ∧
      named.2.watermark < Format.toml.sizeLimit) :
    Toml.Layered 2 (buffersFields s) := by
  refine .mk ?_ ?_ ?_ (by show BufferSettings.fieldNames.Nodup; decide)
  · simp only [List.forall_mem_cons]
    exact ⟨.integer (fits_of_lt hscrollback), .integer (fits_of_lt hlimit), nofun⟩
  · rw [List.forall_mem_map]
    exact fun named hnamed =>
      layered_sizingFields (hsizings named hnamed).1 (hsizings named hnamed).2
  · rw [List.forall_mem_map]
    exact fun named _ => .inr ⟨_, List.mem_cons_self, rfl⟩

/-- The document of settings has its sections behind each other, and in the one for buffers the
fields with lines of their own in front. -/
theorem layered_toDocument {s : Settings} (h : ∀ n ∈ s.sizes, n < Format.toml.sizeLimit) :
    ∃ fields, s.toDocument = .table fields ∧ Toml.Layered 3 fields := by
  obtain ⟨hdepth, hscrollback, hlimit, hsizings⟩ := forall_sizes_lt_iff.mp h
  refine ⟨[] ++ Toml.tables [("formula", formulaFields s.formula),
    ("buffers", buffersFields s.buffers)], rfl, .mk nofun ?_ ?_ ?_⟩
  · simp only [List.forall_mem_cons]
    exact ⟨layered_formulaFields hdepth, layered_buffersFields hscrollback hlimit hsizings, nofun⟩
  · simp only [List.forall_mem_cons]
    exact ⟨.inr ⟨_, List.mem_cons_self, rfl⟩, .inr ⟨_, List.mem_cons_self, rfl⟩, nofun⟩
  · show ["formula", "buffers"].Nodup
    decide

/-- **The document of settings is read back** from what was written, if its sizes are numbers
that the format has. -/
theorem exists_write {format : Format} {s : Settings} (h : s.Fits format) :
    ∃ text, format.write s.toDocument = .ok text ∧ format.read? text = some s.toDocument := by
  cases format with
  | json => exact ⟨_, rfl, Json.read?_pretty (plain_toDocument h)⟩
  | toml =>
      obtain ⟨fields, hfields, hlayered⟩ := layered_toDocument h
      obtain ⟨text, hwrite, hread⟩ := hlayered.read?_write (by decide)
      refine ⟨text, ?_, hfields ▸ hread⟩
      rw [Format.write, hfields, hwrite]
      rfl

/-! ### What makes no sense -/

/-- A computation fails only for the configuration. -/
def FailsOnlyForConfiguration {α : Type} (x : Except Failure α) : Prop :=
  ∀ failure, x = .error failure → failure.isConfiguration = true

section Failing

variable {α β : Type} {x : Except Failure α}

/-- What succeeds does not fail. -/
theorem failsOnly_ok (a : α) : FailsOnlyForConfiguration (.ok a) :=
  nofun

/-- A failure of the settings is one of the configuration. -/
theorem failsOnly_settings (reason : String) :
    FailsOnlyForConfiguration (.error (.settings reason) : Except Failure α) := by
  rintro _ ⟨⟩
  rfl

/-- Steps one after the other fail only so if each of them does. -/
theorem FailsOnlyForConfiguration.bind (h : FailsOnlyForConfiguration x)
    {f : α → Except Failure β} (hf : ∀ a, FailsOnlyForConfiguration (f a)) :
    FailsOnlyForConfiguration (x >>= f) := by
  cases x with
  | ok a => exact hf a
  | error failure =>
      rintro _ ⟨⟩
      exact h failure rfl

/-- A failure stays one of the configuration in a context. -/
theorem FailsOnlyForConfiguration.inContext (h : FailsOnlyForConfiguration x) (context : String) :
    FailsOnlyForConfiguration (inContext context x) := by
  cases x with
  | ok a => exact nofun
  | error failure =>
      rintro _ ⟨⟩
      exact h failure rfl

end Failing

/-- The check of a sizing fails only so. -/
theorem failsOnly_sizing (s : Sizing) : FailsOnlyForConfiguration s.validate := by
  unfold Sizing.validate
  split
  · exact failsOnly_settings _
  · split
    · exact failsOnly_settings _
    · exact failsOnly_ok ()

/-- So does the check of all sizings. -/
theorem failsOnly_buffers (s : BufferSettings) : FailsOnlyForConfiguration s.validate := by
  have hsizings : ∀ l : List (String × Sizing), FailsOnlyForConfiguration
      (l.forM fun named => inContext ("buffers." ++ named.1) named.2.validate) := by
    intro l
    induction l with
    | nil => exact failsOnly_ok ()
    | cons named l ih =>
        exact ((failsOnly_sizing named.2).inContext _).bind fun _ => ih
  have hlimit : FailsOnlyForConfiguration (if s.compactLimit = 0 then
      .error (.settings "buffers.compact_limit must be greater than zero") else .ok ()) := by
    split
    · exact failsOnly_settings _
    · exact failsOnly_ok ()
  refine (hsizings s.sizings).bind fun _ => ?_
  dsimp only
  split
  · exact (failsOnly_settings _).bind fun _ => hlimit
  · exact hlimit

/-- **What makes no sense is a failure of the configuration.** -/
theorem failsOnly_validate (s : Settings) : FailsOnlyForConfiguration s.validate := by
  unfold validate
  dsimp only
  split
  · exact (failsOnly_settings _).bind fun _ => failsOnly_buffers s.buffers
  · exact failsOnly_buffers s.buffers

/-! ### Saving and loading -/

/-- **Settings that are saved and loaded.** Settings whose sizes the format has are saved to
every path to which a file can be written. If they make sense, they are loaded from there as
they were, and if they do not, loading fails for what makes no sense. -/
theorem save_load {s : Settings} {files : FileTree} {path : Path}
    (hfits : s.Fits (Format.ofPath path)) (hpath : files.Writable path) :
    ∃ saved, s.save files path = .ok saved ∧
      (s.validate = .ok () → load saved path = .ok s) ∧
      ∀ failure, s.validate = .error failure →
        load saved path = .error failure ∧ failure.isConfiguration = true := by
  obtain ⟨made, hmade, text', written, hwritten⟩ := hpath
  obtain ⟨text, hwrite, hread⟩ := exists_write hfits
  obtain ⟨saved, hsaved⟩ := FileTree.exists_write hwritten text
  have hsave : s.save files path = .ok saved := by
    rw [save, hmade, hwrite]
    show inContext _ ((made.write path text).mapError .file) = _
    rw [hsaved]
    rfl
  have hload : load saved path = s.validate.map fun _ => s :=
    load_of_document (FileTree.read_write hsaved) hread
      (ofDocument?_toDocument _ fun n hn => Nat.lt_of_lt_of_le (hfits n hn) (by
        cases Format.ofPath path <;> decide))
  refine ⟨saved, hsave, fun hvalid => ?_, fun failure hfailure => ⟨?_, ?_⟩⟩
  · rw [hload, hvalid]
    rfl
  · rw [hload, hfailure]
    rfl
  · exact failsOnly_validate s failure hfailure

/-- The defaults are saved to a directory that has to be made and loaded as they were. Settings
without a depth are saved as well, but not loaded. -/
theorem save_load_default :
    (∃ saved, Settings.default.save .empty ⟨"config/engine.toml"⟩ = .ok saved ∧
      load saved ⟨"config/engine.toml"⟩ = .ok .default) ∧
    ∃ saved, ({ Settings.default with formula := ⟨.simplified, 0⟩ } : Settings).save .empty
        ⟨"Engine.JSON"⟩ = .ok saved ∧
      load saved ⟨"Engine.JSON"⟩ =
        .error (.settings "formula.max_depth must be greater than zero") := by
  have htoml : Format.ofPath ⟨"config/engine.toml"⟩ = .toml := by rfl
  have hjson : Format.ofPath ⟨"Engine.JSON"⟩ = .json := by rfl
  constructor
  · have hfits : Settings.default.Fits (Format.ofPath ⟨"config/engine.toml"⟩) := by
      rw [htoml, Fits]
      decide
    obtain ⟨saved, hsave, hload, -⟩ := save_load hfits
      (⟨_, rfl, "", _, rfl⟩ : FileTree.empty.Writable ⟨"config/engine.toml"⟩)
    exact ⟨saved, hsave, hload validate_default⟩
  · have hfits : ({ Settings.default with formula := ⟨.simplified, 0⟩ } : Settings).Fits
        (Format.ofPath ⟨"Engine.JSON"⟩) := by
      rw [hjson, Fits]
      decide
    obtain ⟨saved, hsave, -, hload⟩ := save_load hfits
      (⟨_, rfl, "", _, rfl⟩ : FileTree.empty.Writable ⟨"Engine.JSON"⟩)
    exact ⟨saved, hsave, (hload _ rfl).1⟩

end Settings

end Dashboard
