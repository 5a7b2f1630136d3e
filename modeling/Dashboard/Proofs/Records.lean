import Dashboard.Proofs.Document.Compact
import Dashboard.Proofs.Instant.Rendering
import Dashboard.Records

/-!
# Records That Are Exchanged as JSON

The entries of the widgets and the readings of data sources are written as JSON and read back as
they were, as long as their doubles are finite, their counters have 64 bits, and their times have
a year with four digits and lie in no leap second. So what identifies and what dates an entry is
the same on both sides.

A time may be written in another way: with another offset from universal time, or with more or
fewer digits of fraction. Two texts of one moment make the same entry.

## Main results

* `NamedScalars.ofDocument?_toDocument` — named scalars are what their document gives.
* `Reading.ofDocument?_toDocument` — so are readings.
* `dates_of_read?` — a timestamp dates entries with the instant that it is read to.
* `records_survive_json` — records are read back from their JSON.
-/

namespace Dashboard

/-! ### Scalars -/

/-- A scalar that JSON has: a number only if it is finite. -/
def Scalar.Finite : Scalar → Prop
  | .number x => x.isFinite = true
  | _ => True

/-- A finite scalar has an exact form. -/
theorem Scalar.exact_toDocument {s : Scalar} (h : s.Finite) : Json.Exact s.toDocument := by
  cases s with
  | number x => exact .real h
  | boolean b => exact .boolean b
  | text s => exact .text s

/-- A scalar is what its document gives. -/
theorem Scalar.ofDocument?_toDocument (s : Scalar) : ofDocument? s.toDocument = some s := by
  cases s <;> rfl

namespace NamedScalars

/-- All scalars under the names are in JSON. -/
def Finite (named : NamedScalars) : Prop :=
  ∀ e ∈ named.entries, e.2.Finite

/-- So have finite scalars under names. -/
theorem exact_toDocument {named : NamedScalars} (h : named.Finite) :
    Json.Exact named.toDocument := by
  refine .table fun field hfield => ?_
  obtain ⟨e, he, rfl⟩ := List.mem_map.mp hfield
  exact Scalar.exact_toDocument (h e he)

/-- A name above all others is entered at the end. -/
theorem put_of_forall_lt {name : String} {entries : List (String × Scalar)} (s : Scalar)
    (h : ∀ e ∈ entries, e.1 < name) : put name s entries = entries ++ [(name, s)] := by
  induction entries with
  | nil => rfl
  | cons e rest ih =>
      obtain ⟨hfirst, hothers⟩ := List.forall_mem_cons.mp h
      rw [put, if_neg (String.lt_asymm hfirst), if_neg (ne_of_gt hfirst), ih hothers,
        List.cons_append]

/-- Names that ascend are entered one behind the other. -/
theorem foldlM_insert {fields : List (String × Scalar)} (named : NamedScalars)
    (h : (named.entries ++ fields).Pairwise fun a b => a.1 < b.1) :
    (fields.map fun e => (e.1, e.2.toDocument)).foldlM
        (fun named field => (Scalar.ofDocument? field.2).map (named.insert field.1)) named =
      some ⟨named.entries ++ fields, h⟩ := by
  induction fields generalizing named with
  | nil => simp [List.foldlM_nil, pure]
  | cons e rest ih =>
      have hbelow : ∀ f ∈ named.entries, f.1 < e.1 := fun f hf =>
        (List.pairwise_append.mp h).2.2 f hf e List.mem_cons_self
      have hinsert : (named.insert e.1 e.2).entries = named.entries ++ [e] :=
        put_of_forall_lt e.2 hbelow
      have happend : named.entries ++ e :: rest = (named.insert e.1 e.2).entries ++ rest := by
        rw [hinsert, List.append_assoc, List.singleton_append]
      rw [List.map_cons, List.foldlM_cons]
      simp only [Scalar.ofDocument?_toDocument, Option.map_some, bind, Option.bind_some]
      rw [ih _ (happend ▸ h)]
      simp only [happend]

/-- **Named scalars are what their document gives.** -/
theorem ofDocument?_toDocument (named : NamedScalars) :
    ofDocument? named.toDocument = some named :=
  foldlM_insert empty named.ascending

end NamedScalars

/-! ### Readings -/

/-- An acquisition status is what its word gives. -/
theorem Acquisition.ofDocument?_word (a : Acquisition) :
    ofDocument? (.text a.word) = some a :=
  ofWord?_word a

namespace Reading

/-- A reading with a finite value has an exact form. -/
theorem exact_toDocument {r : Reading} (h : r.value.Finite) : Json.Exact r.toDocument := by
  obtain ⟨value, acquisition⟩ := r
  refine .table (List.forall_mem_cons.mpr ⟨Scalar.exact_toDocument h, ?_⟩)
  cases acquisition with
  | none => simp
  | some a => simp [Json.Exact.text]

/-- **Readings are what their documents give.** -/
theorem ofDocument?_toDocument (r : Reading) : ofDocument? r.toDocument = some r := by
  obtain ⟨value, acquisition⟩ := r
  cases acquisition with
  | none =>
      have hrecord : (toDocument ⟨value, none⟩).record? .json fieldNames =
          some [some value.toDocument, none] := rfl
      rw [ofDocument?, hrecord]
      simp [Document.required, Scalar.ofDocument?_toDocument]
  | some a =>
      have hrecord : (toDocument ⟨value, some a⟩).record? .json fieldNames =
          some [some value.toDocument, some (.text a.word)] := rfl
      rw [ofDocument?, hrecord]
      simp [Document.required, Scalar.ofDocument?_toDocument, Acquisition.ofDocument?_word]

end Reading

/-! ### Entries and their times -/

/-- A table in which the field with a name holds a text. -/
def Document.withText (name text : String) : Document → Document
  | .table fields =>
    .table (fields.map fun field => if field.1 = name then (name, .text text) else field)
  | d => d

/-- A text in a field leaves a form exact. -/
theorem Document.exact_withText {name text : String} {d : Document} (h : Json.Exact d) :
    Json.Exact (d.withText name text) := by
  cases h with
  | table hfields =>
      refine .table fun field hfield => ?_
      obtain ⟨given, hgiven, rfl⟩ := List.mem_map.mp hfield
      split
      · exact .text text
      · exact hfields given hgiven
  | null => exact .null
  | boolean b => exact .boolean b
  | integer hn => exact .integer hn
  | real hx => exact .real hx
  | text s => exact .text s
  | list hitems => exact .list hitems

variable {text : String} {t : Instant}

/-- A timestamp gives the instant that it is read to. -/
theorem Instant.ofDocument?_text (h : Timestamp.read? text = some t) :
    ofDocument? (.text text) = some t :=
  h

namespace Activity

/-- An activity has an exact form. -/
theorem exact_toDocument (a : Activity) : Json.Exact a.toDocument :=
  .table (by simp [Instant.toDocument, Json.Exact.text])

/-- An activity is what its document gives, at the time that a text in it denotes. -/
theorem ofDocument?_withText (a : Activity) (h : Timestamp.read? text = some t) :
    ofDocument? (a.toDocument.withText "start" text) = some { a with start := t } := by
  have hrecord : (a.toDocument.withText "start" text).record? .json fieldNames =
      some [some (.text a.id), some (.text text), some (.text a.kind), some (.text a.status),
        some (.text a.detail)] := rfl
  rw [ofDocument?, hrecord]
  simp [Document.required, Document.orDefault, Document.asText?, Instant.ofDocument?_text h]

end Activity

namespace Command

/-- So has a command, if its counter has 64 bits and its attributes are finite. -/
theorem exact_toDocument {c : Command} (hsequence : c.sequence < UInt64.size)
    (hattributes : c.attributes.Finite) : Json.Exact c.toDocument :=
  .table (by simp [Instant.toDocument, Json.Exact.text, Json.Exact.integer hsequence,
    NamedScalars.exact_toDocument hattributes])

/-- A command is what its document gives, at the time that a text in it denotes. -/
theorem ofDocument?_withText {c : Command} (hsequence : c.sequence < UInt64.size)
    (h : Timestamp.read? text = some t) :
    ofDocument? (c.toDocument.withText "generation_time" text) = some { c with issued := t } := by
  have hrecord : (c.toDocument.withText "generation_time" text).record? .json fieldNames =
      some [some (.text c.origin), some (.integer c.sequence), some (.text c.name),
        some (.text text), some c.attributes.toDocument] := rfl
  rw [ofDocument?, hrecord]
  simp [Document.required, Document.orDefault, Document.asText?,
    Document.asCount?_integer hsequence, Instant.ofDocument?_text h,
    NamedScalars.ofDocument?_toDocument]

end Command

namespace Sample

/-- So has a sample with a finite value. -/
theorem exact_toDocument {s : Sample} (hvalue : s.value.isFinite = true) :
    Json.Exact s.toDocument :=
  .table (by simp [Instant.toDocument, Json.Exact.text, Json.Exact.real hvalue])

/-- A sample is what its document gives, at the time that a text in it denotes. -/
theorem ofDocument?_withText (s : Sample) (h : Timestamp.read? text = some t) :
    ofDocument? (s.toDocument.withText "time" text) = some { s with time := t } := by
  have hrecord : (s.toDocument.withText "time" text).record? .json fieldNames =
      some [some (.text text), some (.real s.value)] := rfl
  rw [ofDocument?, hrecord]
  simp [Document.required, Document.asDouble?, Instant.ofDocument?_text h]

end Sample

namespace Row

/-- So has a row, if its counter has 64 bits and its columns are finite. -/
theorem exact_toDocument {r : Row} (hid : r.id < UInt64.size) (hcolumns : r.columns.Finite) :
    Json.Exact r.toDocument :=
  .table (by simp [Instant.toDocument, Json.Exact.text, Json.Exact.integer hid,
    NamedScalars.exact_toDocument hcolumns])

/-- A row is what its document gives, at the time that a text in it denotes. -/
theorem ofDocument?_withText {r : Row} (hid : r.id < UInt64.size)
    (h : Timestamp.read? text = some t) :
    ofDocument? (r.toDocument.withText "time" text) = some { r with time := t } := by
  have hrecord : (r.toDocument.withText "time" text).record? .json fieldNames =
      some [some (.integer r.id), some (.text text), some r.columns.toDocument] := rfl
  rw [ofDocument?, hrecord]
  simp [Document.required, Document.orDefault, Document.asCount?_integer hid,
    Instant.ofDocument?_text h, NamedScalars.ofDocument?_toDocument]

end Row

/-! ### Exchange -/

/-- What a JSON text holds. -/
def decode? {α : Type} (ofDocument? : Document → Option α) (text : String) : Option α :=
  (Json.read? text).bind ofDocument?

/-- An exact form gives what its document gives. -/
theorem decode?_compact {α : Type} (ofDocument? : Document → Option α) {d : Document}
    (h : Json.Exact d) : decode? ofDocument? (Json.compact d) = ofDocument? d := by
  rw [decode?, Json.read?_compact h, Option.bind_some]

/-- A text **dates** entries: an entry whose time is written as this text is read with its time,
and is otherwise what was written. -/
structure Dates (text : String) (t : Instant) : Prop where
  activity (a : Activity) :
    decode? Activity.ofDocument? (Json.compact (a.toDocument.withText "start" text)) =
      some { a with start := t }
  command (c : Command) (hsequence : c.sequence < UInt64.size) (h : c.attributes.Finite) :
    decode? Command.ofDocument? (Json.compact (c.toDocument.withText "generation_time" text)) =
      some { c with issued := t }
  sample (s : Sample) (h : s.value.isFinite = true) :
    decode? Sample.ofDocument? (Json.compact (s.toDocument.withText "time" text)) =
      some { s with time := t }
  row (r : Row) (hid : r.id < UInt64.size) (h : r.columns.Finite) :
    decode? Row.ofDocument? (Json.compact (r.toDocument.withText "time" text)) =
      some { r with time := t }

/-- **A timestamp dates entries** with the instant that it is read to. -/
theorem dates_of_read? (h : Timestamp.read? text = some t) : Dates text t where
  activity a := by
    rw [decode?_compact _ (Document.exact_withText a.exact_toDocument), a.ofDocument?_withText h]
  command c hsequence hattributes := by
    rw [decode?_compact _ (Document.exact_withText (c.exact_toDocument hsequence hattributes)),
      c.ofDocument?_withText hsequence h]
  sample s hvalue := by
    rw [decode?_compact _ (Document.exact_withText (s.exact_toDocument hvalue)),
      s.ofDocument?_withText h]
  row r hid hcolumns := by
    rw [decode?_compact _ (Document.exact_withText (r.exact_toDocument hid hcolumns)),
      r.ofDocument?_withText hid h]

/-- An instant is written as a text that dates entries with it. -/
theorem Instant.Civil.dates (h : t.Civil) : Dates (Timestamp.render t) t :=
  dates_of_read? (Timestamp.read?_render h)

/-- The text of a stamp. -/
def Timestamp.Stamp.written (s : Timestamp.Stamp) : String :=
  String.ofList s.text

/-- **Records are read back from their JSON.** This holds for entries and readings whose doubles
are finite, whose counters have 64 bits, and whose times have a year with four digits and lie in
no leap second. Two stamps of one moment, with whatever offsets and however many digits of
fraction, date entries with the same time. -/
theorem records_survive_json :
    (∀ a : Activity, a.start.Civil →
      decode? Activity.ofDocument? (Json.compact a.toDocument) = some a) ∧
    (∀ c : Command, c.issued.Civil → c.sequence < UInt64.size → c.attributes.Finite →
      decode? Command.ofDocument? (Json.compact c.toDocument) = some c) ∧
    (∀ s : Sample, s.time.Civil → s.value.isFinite = true →
      decode? Sample.ofDocument? (Json.compact s.toDocument) = some s) ∧
    (∀ r : Row, r.time.Civil → r.id < UInt64.size → r.columns.Finite →
      decode? Row.ofDocument? (Json.compact r.toDocument) = some r) ∧
    (∀ r : Reading, r.value.Finite →
      decode? Reading.ofDocument? (Json.compact r.toDocument) = some r) ∧
    ∀ first second : Timestamp.Stamp, first.moment = second.moment →
      ∃ t, Dates first.written t ∧ Dates second.written t := by
  refine ⟨fun a ha => ha.dates.activity a, fun c hc => hc.dates.command c,
    fun s hs => hs.dates.sample s, fun r hr => hr.dates.row r, fun r hr => ?_,
    fun first second h => ?_⟩
  · rw [decode?_compact _ (Reading.exact_toDocument hr), Reading.ofDocument?_toDocument]
  · refine ⟨Timestamp.ofMoment first.moment, dates_of_read? (Timestamp.read?_text first), ?_⟩
    rw [h]
    exact dates_of_read? (Timestamp.read?_text second)

section Noon

open Timestamp

/-- A quarter of a second past noon on the first of May 2024. -/
def noon : Instant :=
  ⟨1714564800, 250000000⟩

/-- It has a year with four digits and lies in no leap second. -/
theorem noon_civil : noon.Civil := by decide

/-- That moment two and a half hours further east, and with more digits of fraction than are
needed. -/
def eastStamp : Stamp where
  date := ⟨2024, 5, 1⟩
  separator := 't'
  hour := 14
  minute := 30
  second := 0
  fraction := Nat.toDigits 10 2500
  offset := .shifted false 2 30
  date_exists := by decide
  year_bounds := by decide
  separator_mem := List.mem_cons_of_mem _ List.mem_cons_self
  fraction_digits := isDigit_of_mem_toDigits

/-- Both stamps are of the same moment. -/
theorem moment_noon : (stampOf noon noon_civil).moment = eastStamp.moment := by
  have hnoon : (stampOf noon noon_civil).seconds = 1714564800 := by decide
  have heast : eastStamp.seconds = 1714564800 := by decide
  have hpart : (stampOf noon noon_civil).part = 250 / 10 ^ 3 := rfl
  have hpart' : eastStamp.part = 2500 / 10 ^ 4 := rfl
  rw [Stamp.moment, Stamp.moment, hnoon, heast, hpart, hpart']
  norm_num

/-- A scalar of each kind. -/
def someScalars : NamedScalars where
  entries := [("Mode", .text "SAFE"), ("Switch", .boolean true), ("Voltage", .number 0.1)]
  ascending := by decide

/-- A tenth is finite. -/
theorem finite_tenth : (0.1 : Float).isFinite = true := by decide +kernel

/-- All of them are in JSON. -/
theorem finite_someScalars : someScalars.Finite := by
  simp [NamedScalars.Finite, someScalars, Scalar.Finite, finite_tenth]

/-- Entries of each kind at noon, a reading with a quality, and noon on two clocks. -/
theorem records_survive_json_noon :
    decode? Activity.ofDocument?
        (Json.compact (Activity.toDocument ⟨"a-1", noon, "SCRIPT", "RUNNING", ""⟩)) =
      some ⟨"a-1", noon, "SCRIPT", "RUNNING", ""⟩ ∧
    decode? Command.ofDocument? (Json.compact
        (Command.toDocument ⟨"user@host", 2 ^ 63 + 1, "SWITCH", noon, someScalars⟩)) =
      some ⟨"user@host", 2 ^ 63 + 1, "SWITCH", noon, someScalars⟩ ∧
    decode? Sample.ofDocument? (Json.compact (Sample.toDocument ⟨noon, 0.1⟩)) =
      some ⟨noon, 0.1⟩ ∧
    decode? Row.ofDocument? (Json.compact (Row.toDocument ⟨2 ^ 63 + 1, noon, someScalars⟩)) =
      some ⟨2 ^ 63 + 1, noon, someScalars⟩ ∧
    decode? Reading.ofDocument?
        (Json.compact (Reading.toDocument ⟨.number 0.1, some .expired⟩)) =
      some ⟨.number 0.1, some .expired⟩ ∧
    ∃ t, Dates (stampOf noon noon_civil).written t ∧ Dates eastStamp.written t := by
  obtain ⟨hactivity, hcommand, hsample, hrow, hreading, hstamps⟩ := records_survive_json
  exact ⟨hactivity _ noon_civil, hcommand _ noon_civil (by decide) finite_someScalars,
    hsample _ noon_civil finite_tenth, hrow _ noon_civil (by decide) finite_someScalars,
    hreading _ finite_tenth, hstamps _ _ moment_noon⟩

end Noon

end Dashboard
