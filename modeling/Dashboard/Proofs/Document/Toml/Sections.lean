import Dashboard.Proofs.Document.Toml.Line

/-!
# What Is Written as TOML Is Read Back

A document is written section by section: for each table its header, a line for each of its own
fields, and then the sections of its inner tables. While it is read, every line adds an entry
to the last table on the **way** of keys that the last header gave. So a table whose own fields
stand in front of its inner tables is read back with its fields in their order.

This module has the ways into tables in the making, what a line does at the end of a way, and
what the sections of a table do, by induction on the table.

## Main results

* `Way.descend_plug` — a change at the end of a way.
* `Layered.adds` — the sections of a table add it at the end of a way.
* `Layered.read?_write` — a document is read back from what was written.
-/

namespace Dashboard.Toml

/-! ### Ways into tables -/

/-- A way into a table in the making. It leads through the last entry of each table on it: the
entries in front of that one, and its key. -/
abbrev Way := List (Entries × String)

namespace Way

/-- The table at the beginning of a way, given the entries of the one at its end. -/
def plug : Way → Entries → Entries
  | [], entries => entries
  | (before, key) :: way, entries => before ++ [(key, .table .header (plug way entries))]

/-- The keys along a way. -/
def path (way : Way) : List String :=
  way.map Prod.snd

/-- No key on a way is one of the keys in front of it. -/
def Fresh (way : Way) : Prop :=
  ∀ step ∈ way, step.2 ∉ step.1.map Prod.fst

/-- There are no keys on the way that goes nowhere. -/
theorem fresh_nil : Fresh [] :=
  fun _ hstep => absurd hstep List.not_mem_nil

/-- A way that goes on leads into the table that is entered last. -/
theorem plug_concat (way : Way) (before : Entries) (key : String) (entries : Entries) :
    plug (way ++ [(before, key)]) entries =
      plug way (before ++ [(key, .table .header entries)]) := by
  induction way with
  | nil => rfl
  | cons step way ih => rw [List.cons_append, plug, ih, plug]

/-- The keys along a way that goes on. -/
theorem path_concat (way : Way) (before : Entries) (key : String) :
    path (way ++ [(before, key)]) = way.path ++ [key] :=
  List.map_append

/-- A way stays fresh if it goes on with a new key. -/
theorem Fresh.concat {way : Way} (h : way.Fresh) {before : Entries} {key : String}
    (hkey : key ∉ before.map Prod.fst) : Fresh (way ++ [(before, key)]) := by
  intro step hstep
  rcases List.mem_append.mp hstep with hstep | hstep
  · exact h step hstep
  · obtain rfl := List.mem_singleton.mp hstep
    exact hkey

end Way

/-! ### Changes at the end of a way -/

/-- Entries without a key stay as they are when something changes under it. -/
theorem change_append {key : String} {f : Option Node → Option Node} {before : Entries}
    (h : key ∉ before.map Prod.fst) (entries : Entries) :
    change key f (before ++ entries) = (change key f entries).map (before ++ ·) := by
  induction before with
  | nil => simp
  | cons entry before ih =>
      rw [List.map_cons, List.mem_cons, not_or] at h
      rw [List.cons_append, change, if_neg (Ne.symm h.1), ih h.2, Option.map_map]
      rfl

/-- A key that is new is put behind all others. -/
theorem change_of_notMem {key : String} {f : Option Node → Option Node} {before : Entries}
    (h : key ∉ before.map Prod.fst) :
    change key f before = (f none).map fun node => before ++ [(key, node)] := by
  have hchange := change_append (f := f) h []
  rw [List.append_nil, change, Option.map_map] at hchange
  exact hchange

/-- **A change at the end of a way** changes the table there. -/
theorem Way.descend_plug {way : Way} (h : way.Fresh) (f : Change) (entries : Entries) :
    descend false way.path f .header (way.plug entries) = (f .header entries).map way.plug := by
  induction way with
  | nil =>
      show f .header entries = (f .header entries).map id
      rw [Option.map_id_fun, id]
  | cons step way ih =>
      have hway : Way.Fresh way := fun step hstep => h step (List.mem_cons_of_mem _ hstep)
      show change step.2 (inside false (descend false (Way.path way) f))
        (step.1 ++ [(step.2, .table .header (Way.plug way entries))]) = _
      rw [change_append (h step List.mem_cons_self), change, if_pos rfl, inside]
      rw [Bool.false_and, if_neg Bool.false_ne_true, ih hway]
      simp only [Option.map_map]
      rfl

section Way

variable {way : Way} {before : Entries} {name : String}

/-- A table with a new name is opened at the end of a way. -/
theorem openTable_plug (h : way.Fresh) (hname : name ∉ before.map Prod.fst) :
    openTable way.path name .header (way.plug before) =
      some (way.plug (before ++ [(name, .table .header [])])) := by
  rw [openTable, Way.descend_plug h, change_of_notMem hname]
  rfl

/-- A value with a new name is put at the end of a way. -/
theorem put_plug (h : way.Fresh) (hname : name ∉ before.map Prod.fst) (d : Document) :
    descend false way.path (put [] name d) .header (way.plug before) =
      some (way.plug (before ++ [(name, .value d)])) := by
  have hput : put [] name d .header before = some (before ++ [(name, .value d)]) :=
    change_of_notMem hname
  rw [Way.descend_plug h, hput, Option.map_some]

end Way

/-! ### Fields on lines of their own -/

/-- The fields of entries one after the other. -/
theorem fieldsOf_append (entries others : Entries) :
    fieldsOf (entries ++ others) = fieldsOf entries ++ fieldsOf others := by
  induction entries with
  | nil => rfl
  | cons entry entries ih => rw [List.cons_append, fieldsOf, fieldsOf, ih, List.cons_append]

/-- Fields have the names of their entries. -/
theorem map_fst_fieldsOf (entries : Entries) :
    (fieldsOf entries).map Prod.fst = entries.map Prod.fst := by
  induction entries with
  | nil => rfl
  | cons entry entries ih => rw [fieldsOf, List.map_cons, List.map_cons, ih]

/-- A name does not stand in front of itself among distinct names. -/
theorem notMem_of_nodup_append_cons {names more : List String} {name : String}
    (h : (names ++ name :: more).Nodup) : name ∉ names :=
  fun hname => (List.nodup_append.mp h).2.2 name hname name List.mem_cons_self rfl

/-- A scalar is no table. -/
theorem Scalar.isTable {d : Document} (h : Scalar d) : isTable d = false := by
  cases h <;> rfl

/-- The line of a field. -/
def fieldLine (field : String × Document) : Except String String := do
  return keyText field.1 ++ " = " ++ (← inline field.2) ++ "\n"

/-- **Lines add their fields** at the end of the way that the last header gave. -/
theorem exists_lines {way : Way} (hway : way.Fresh) {own : List (String × Document)}
    (hown : ∀ field ∈ own, Scalar field.2) {before : Entries}
    (hnames : (before.map Prod.fst ++ own.map Prod.fst).Nodup) :
    ∃ lines entries, own.mapM fieldLine = .ok lines ∧ lines.length = own.length ∧
      fieldsOf entries = own ∧ Advances (lines.flatMap String.toList)
        ⟨way.plug before, way.path⟩ ⟨way.plug (before ++ entries), way.path⟩ := by
  induction own generalizing before with
  | nil => exact ⟨[], [], rfl, rfl, rfl, by rw [List.append_nil]; exact advances_nil _⟩
  | cons field own ih =>
      obtain ⟨name, d⟩ := field
      obtain ⟨form, hform, hread⟩ := (hown (name, d) List.mem_cons_self).exists_readsBack
      have hname : name ∉ before.map Prod.fst := notMem_of_nodup_append_cons hnames
      have hnames' : ((before ++ [(name, Node.value d)]).map Prod.fst ++
          own.map Prod.fst).Nodup := by
        simpa using hnames
      obtain ⟨lines, entries, hlines, hlength, hfields, hadvances⟩ :=
        ih (fun field hfield => hown field (List.mem_cons_of_mem _ hfield)) hnames'
      refine ⟨(keyText name ++ " = " ++ form ++ "\n") :: lines, (name, .value d) :: entries,
        ?_, ?_, ?_, ?_⟩
      · rw [List.mapM_cons, hlines, fieldLine, hform]
        rfl
      · rw [List.length_cons, List.length_cons, hlength]
      · rw [fieldsOf, hfields, Node.toDocument]
      · have hline : Advances _ ⟨way.plug before, way.path⟩ _ :=
          advances_value name hread (put_plug hway hname d)
        rw [← List.append_cons] at hadvances
        have htext : (keyText name ++ " = " ++ form ++ "\n").toList =
            (keyText name).toList ++ ' ' :: '=' :: ' ' :: (form.toList ++ ['\n']) := by
          simp
        rw [List.flatMap_cons, htext]
        exact hline.append hadvances

/-! ### Sections -/

/-- Tables as the contents of fields. -/
def tables (inner : List (String × List (String × Document))) : List (String × Document) :=
  inner.map fun table => (table.1, .table table.2)

/-- The fields of tables that are read back: no more tables inside each other than a key may
have parts, no name twice in a table, and the fields with lines of their own in front of the
inner tables. An inner table without such fields has no inner tables itself. -/
inductive Layered : Nat → List (String × Document) → Prop
  | mk {depth : Nat} {own : List (String × Document)}
      {inner : List (String × List (String × Document))} :
      (∀ field ∈ own, Scalar field.2) →
      (∀ table ∈ inner, Layered depth table.2) →
      (∀ table ∈ inner, table.2 = [] ∨ ∃ field ∈ table.2, isTable field.2 = false) →
      ((own ++ tables inner).map Prod.fst).Nodup →
      Layered (depth + 1) (own ++ tables inner)

/-- Fields with lines of their own alone. -/
theorem Layered.of_scalars {depth : Nat} {own : List (String × Document)}
    (hown : ∀ field ∈ own, Scalar field.2) (hnames : (own.map Prod.fst).Nodup) :
    Layered (depth + 1) own := by
  have hnone : own ++ tables [] = own := List.append_nil own
  rw [← hnone] at hnames ⊢
  refine .mk hown ?_ ?_ hnames
  · exact fun _ htable => absurd htable List.not_mem_nil
  · exact fun _ htable => absurd htable List.not_mem_nil

/-- A section and the line break in front of it. -/
def behindBreak (text : String) : List Char :=
  '\n' :: text.toList

/-- The sections of a table add it at the end of a way. -/
def Adds (way : Way) (table : String × List (String × Document)) : Prop :=
  ∀ before : Entries, table.1 ∉ before.map Prod.fst →
    ∃ texts entries, sections (way.path ++ [table.1]) (.table table.2) = .ok texts ∧
      fieldsOf entries = table.2 ∧ ∀ header, ∃ next, Advances (texts.flatMap behindBreak)
        ⟨way.plug before, header⟩ ⟨way.plug (before ++ [(table.1, .table .header entries)]), next⟩

/-- The sections of several tables add them one after the other. -/
theorem exists_innerSections {way : Way} {inner : List (String × List (String × Document))}
    (h : ∀ table ∈ inner, Adds way table) {before : Entries}
    (hnames : (before.map Prod.fst ++ (tables inner).map Prod.fst).Nodup) :
    ∃ texts entries, innerSections way.path (tables inner) = .ok texts ∧
      fieldsOf entries = tables inner ∧ ∀ header, ∃ next, Advances (texts.flatMap behindBreak)
        ⟨way.plug before, header⟩ ⟨way.plug (before ++ entries), next⟩ := by
  induction inner generalizing before with
  | nil =>
      refine ⟨[], [], rfl, rfl, fun header => ⟨header, ?_⟩⟩
      rw [List.append_nil]
      exact advances_nil _
  | cons table inner ih =>
      obtain ⟨name, fields⟩ := table
      have hname : name ∉ before.map Prod.fst := notMem_of_nodup_append_cons hnames
      obtain ⟨texts, entries, htexts, hfields, hadvances⟩ := h (name, fields) List.mem_cons_self
        before hname
      have hnames' : ((before ++ [(name, Node.table .header entries)]).map Prod.fst ++
          (tables inner).map Prod.fst).Nodup := by
        simpa [tables] using hnames
      obtain ⟨others, rest, hothers, hrest, hadvances'⟩ :=
        ih (fun table htable => h table (List.mem_cons_of_mem _ htable)) hnames'
      refine ⟨texts ++ others, (name, .table .header entries) :: rest, ?_, ?_, fun header => ?_⟩
      · rw [tables, List.map_cons, ← tables, innerSections, htexts, hothers]
        rfl
      · rw [fieldsOf, hrest, Node.toDocument, hfields]
        rfl
      · obtain ⟨middle, hfirst⟩ := hadvances header
        obtain ⟨next, hsecond⟩ := hadvances' middle
        rw [← List.append_cons] at hsecond
        refine ⟨next, ?_⟩
        rw [List.flatMap_append]
        exact hfirst.append hsecond

section Body

variable {own : List (String × Document)} {inner : List (String × List (String × Document))}

/-- What is no table is among a table's own fields. -/
theorem mem_own_of_isTable {field : String × Document} (h : field ∈ own ++ tables inner)
    (hlined : isTable field.2 = false) : field ∈ own := by
  rcases List.mem_append.mp h with h | h
  · exact h
  · obtain ⟨table, -, rfl⟩ := List.mem_map.mp h
    cases hlined

/-- The lines of a table are those of its own fields. -/
theorem ownLines_append_tables (hown : ∀ field ∈ own, Scalar field.2) :
    ownLines (own ++ tables inner) = own.mapM fieldLine := by
  have hscalars : own.filter (fun field => !isTable field.2) = own := by
    refine List.filter_eq_self.mpr fun field hfield => ?_
    rw [(hown field hfield).isTable]
    rfl
  have htables : (tables inner).filter (fun field => !isTable field.2) = [] := by
    refine List.filter_eq_nil_iff.mpr fun field hfield => ?_
    obtain ⟨table, -, rfl⟩ := List.mem_map.mp hfield
    exact Bool.false_ne_true
  rw [ownLines, List.filter_append, hscalars, htables, List.append_nil]
  rfl

/-- Fields with lines of their own have no sections. -/
theorem innerSections_append (hown : ∀ field ∈ own, Scalar field.2) (path : List String)
    (fields : List (String × Document)) :
    innerSections path (own ++ fields) = innerSections path fields := by
  induction own with
  | nil => rfl
  | cons field own ih =>
      obtain ⟨name, d⟩ := field
      have hd : sections (path ++ [name]) d = .ok [] := by
        cases hown (name, d) List.mem_cons_self <;> rfl
      rw [List.cons_append, innerSections, hd,
        ih fun field hfield => hown field (List.mem_cons_of_mem _ hfield)]
      cases innerSections path fields <;> rfl

/-- **The body of a table**: its own lines behind its header, and the sections of its inner
tables. -/
theorem exists_body {way : Way} (hway : way.Fresh) (hown : ∀ field ∈ own, Scalar field.2)
    (hinner : ∀ table ∈ inner, Adds way table)
    (hnames : ((own ++ tables inner).map Prod.fst).Nodup) :
    ∃ lines texts entries, ownLines (own ++ tables inner) = .ok lines ∧
      lines.length = own.length ∧
      innerSections way.path (own ++ tables inner) = .ok texts ∧
      fieldsOf entries = own ++ tables inner ∧
      ∃ next, Advances (lines.flatMap String.toList ++ texts.flatMap behindBreak)
        ⟨way.plug [], way.path⟩ ⟨way.plug entries, next⟩ := by
  have hown' : (([] : Entries).map Prod.fst ++ own.map Prod.fst).Nodup := by
    rw [List.map_append] at hnames
    exact (List.nodup_append.mp hnames).1
  obtain ⟨lines, values, hlines, hlength, hvalues, hadvances⟩ := exists_lines hway hown hown'
  have hinner' : (values.map Prod.fst ++ (tables inner).map Prod.fst).Nodup := by
    rw [← map_fst_fieldsOf, hvalues, ← List.map_append]
    exact hnames
  obtain ⟨texts, entries, htexts, hentries, hadvances'⟩ := exists_innerSections hinner hinner'
  obtain ⟨next, hnext⟩ := hadvances' way.path
  refine ⟨lines, texts, values ++ entries, ?_, hlength, ?_, ?_, next, ?_⟩
  · rw [ownLines_append_tables hown, hlines]
  · rw [innerSections_append hown, htexts]
  · rw [fieldsOf_append, hvalues, hentries]
  · exact hadvances.append hnext

end Body

/-- **The sections of a table add it** at the end of a way, behind all other entries there. -/
theorem Layered.adds {depth : Nat} {fields : List (String × Document)} (h : Layered depth fields)
    {way : Way} (hway : way.Fresh) (hdepth : way.length + depth ≤ depthLimit)
    (hheader : fields = [] ∨ ∃ field ∈ fields, isTable field.2 = false) (name : String) :
    Adds way (name, fields) := by
  induction h generalizing way name with
  | @mk depth own inner hown hinner hheaders hnames ih =>
      intro before hname
      have hway' : Way.Fresh (way ++ [(before, name)]) := hway.concat hname
      have htables : ∀ table ∈ inner, Adds (way ++ [(before, name)]) table :=
        fun table htable => ih table htable hway' (by
          rw [List.length_append, List.length_singleton]
          omega) (hheaders table htable) table.1
      obtain ⟨lines, texts, entries, hlines, hlength, htexts, hfields, next, hbody⟩ :=
        exists_body hway' hown htables hnames
      rw [Way.path_concat, Way.plug_concat, Way.plug_concat] at hbody
      rw [Way.path_concat] at htexts
      have hshown : (lines.isEmpty && ((way.path ++ [name]).isEmpty ||
          (own ++ tables inner).any fun field => isTable field.2)) = false := by
        rcases hheader with hempty | ⟨field, hfield, hlined⟩
        · rw [hempty, List.any_nil, Bool.or_false, List.isEmpty_eq_false_iff.mpr
            (List.append_ne_nil_of_right_ne_nil _ (List.cons_ne_nil name [])), Bool.and_false]
        · have hne : own ≠ [] := List.ne_nil_of_mem (mem_own_of_isTable hfield hlined)
          rw [List.isEmpty_eq_false_iff.mpr, Bool.false_and]
          rwa [← List.length_pos_iff, hlength, List.length_pos_iff]
      have htext : behindBreak (headerText (way.path ++ [name]) ++ String.join lines) =
          ['\n'] ++ ('[' :: ((dottedText way.path name).toList ++ [']', '\n']) ++
            lines.flatMap String.toList) := by
        simp [behindBreak, headerText, dottedText, String.toList_join]
      refine ⟨(headerText (way.path ++ [name]) ++ String.join lines) :: texts, entries, ?_, hfields,
        fun header => ⟨next, ?_⟩⟩
      · rw [sections, hlines, htexts]
        show Except.ok ((if _ then _ else _) ++ texts) = _
        rw [hshown, if_neg Bool.false_ne_true]
        rfl
      · rw [List.flatMap_cons, htext, List.append_assoc, List.append_assoc]
        refine (advances_break _).append (Advances.append ?_ hbody)
        refine advances_header way.path name ?_ (openTable_plug hway hname)
        rw [Way.path, List.length_map]
        omega

/-! ### Whole documents -/

/-- The line breaks between the sections are in front of all but the first of them. -/
theorem flatMap_behindBreak {texts : List String} (h : texts ≠ []) :
    texts.flatMap behindBreak = behindBreak ("\n".intercalate texts) := by
  obtain ⟨first, others, rfl⟩ := List.exists_cons_of_ne_nil h
  clear h
  induction others generalizing first with
  | nil => rw [List.flatMap_singleton, String.intercalate_singleton]
  | cons second others ih =>
      rw [List.flatMap_cons, ih, String.intercalate_cons_cons]
      simp [behindBreak]

/-- Sections that add the fields of a document are read back as the document. -/
theorem read?_of_advances {texts : List String} {entries : Entries} {header : List String}
    (h : Advances (texts.flatMap behindBreak) ⟨[], []⟩ ⟨entries, header⟩) :
    read? ("\n".intercalate texts) = some (.table (fieldsOf entries)) := by
  refine @read?_of_run _ _ header ?_
  cases texts with
  | nil => exact h.run_lines
  | cons first others =>
      have hlines := h.run_lines
      rw [flatMap_behindBreak (List.cons_ne_nil _ _), behindBreak] at hlines
      exact hlines

/-- **What is written is read back.** A section without lines is left out if it has no header
either. -/
theorem Layered.read?_write {depth : Nat} {fields : List (String × Document)}
    (h : Layered depth fields) (hdepth : depth ≤ depthLimit + 1) :
    ∃ text, write (.table fields) = .ok text ∧ read? text = some (.table fields) := by
  cases h with
  | @mk depth own inner hown hinner hheaders hnames =>
      have htables : ∀ table ∈ inner, Adds [] table := fun table htable =>
        (hinner table htable).adds Way.fresh_nil (by simpa using hdepth) (hheaders table htable)
          table.1
      obtain ⟨lines, texts, entries, hlines, -, htexts, hfields, next, hbody⟩ :=
        exists_body Way.fresh_nil hown htables hnames
      obtain ⟨first, hfirst, hadvances⟩ : ∃ first,
          (if lines.isEmpty && (([] : List String).isEmpty ||
            (own ++ tables inner).any fun field => isTable field.2) then []
            else [headerText [] ++ String.join lines]) = first ∧
          Advances ((first ++ texts).flatMap behindBreak) ⟨[], []⟩ ⟨entries, next⟩ := by
        refine ⟨_, rfl, ?_⟩
        cases lines with
        | nil => exact hbody
        | cons line lines =>
            have htext : behindBreak (headerText [] ++ String.join (line :: lines)) =
                ['\n'] ++ (line :: lines).flatMap String.toList := by
              simp [behindBreak, headerText, String.toList_join]
            show Advances (([_] ++ texts).flatMap behindBreak) _ _
            rw [List.flatMap_append, List.flatMap_singleton, htext, List.append_assoc]
            exact (advances_break _).append hbody
      refine ⟨"\n".intercalate (first ++ texts), ?_, ?_⟩
      · rw [write, sections, hlines, show innerSections [] _ = _ from htexts]
        show Except.ok ("\n".intercalate ((if _ then _ else _) ++ texts)) = _
        rw [hfirst]
      · rw [read?_of_advances hadvances, hfields]

end Dashboard.Toml
