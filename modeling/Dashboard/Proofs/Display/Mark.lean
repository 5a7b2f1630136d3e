import Dashboard.Proofs.Display.Index
import Dashboard.Proofs.Display.Names
import Dashboard.Proofs.Formula.Mark

/-!
# The Mark in the Name of a Formula

The name of a process variable denotes a formula if there is an equals sign in front. Both the
display and the reader of formulas take this mark off: the display as a character, before it
hands the rest of the name to the reader, and the reader as a token, from whatever it is
handed. So a display takes off two marks where the reader takes off one.

Registering a name installs what the text behind the first mark spells. This is what the name
itself spells unless that text is marked again. Names that are marked twice spell nothing, but
a display installs what stands behind the second mark.

## Main results

* `installs_iff` — registering a new name installs what the text behind its mark spells.
* `ofSource_iff_sourceOfName` — what a name spells and what the text behind its mark spells.
* `register_marks` — when registering a name and reading it agree.
-/

namespace Dashboard

namespace Display

variable {d : Display} {name : String} {tree : Formula}

/-- Registering a name **installs** a tree, and the name denotes it from then on. -/
def Installs (d : Display) (name : String) (tree : Formula) : Prop :=
  ∃ next f, d.register name = .ok next ∧ next.installed = d.installed ++ [⟨name, f⟩] ∧
    next.formula? name = some f ∧ f.formula = tree

/-- A name is marked twice: the text behind its mark is marked, too. -/
def MarkedTwice (name : String) : Prop :=
  isFormulaName name = true ∧ Formula.Marked (sourceOfName name).toList

/-- A formula that is added can be looked up. -/
theorem formula?_add (d : Display) (i : Installed) :
    (d.add i).formula? i.name = some i.formula := by
  rw [formula?, places_add, Table.find?_insert_self, installed_add]
  simp [size]

/-- What the registration of a new name does. -/
theorem register_of_new (hd : d.Placed) (hnew : name ∉ d.names) :
    d.register name =
      (inContext ("Formula " ++ name ++ " not installed")
        (d.cache.get (sourceOfName name) d.dialect)).map fun got =>
          { d with cache := got.2 }.add ⟨name, d.fresh (sourceOfName name) got.1.formula⟩ := by
  rw [register, if_neg (mt (hd.contains_iff name).mp hnew), install_eq]

/-- **Registering a new name installs what the text behind its mark spells**, whether the
display has read that text before or not. -/
theorem installs_iff (hd : d.Coherent) (hplaced : d.Placed) (hnew : name ∉ d.names) :
    d.Installs name tree ↔ Formula.ofSource d.options (sourceOfName name) = .ok tree := by
  have hread : (d.cache.get (sourceOfName name) d.dialect).map (fun got => got.1.formula) =
      Formula.ofSource d.options (sourceOfName name) := hd.cache.map_get _ _
  rw [Installs, register_of_new hplaced hnew, ← hread]
  cases d.cache.get (sourceOfName name) d.dialect with
  | error failure =>
      refine iff_of_false ?_ nofun
      rintro ⟨next, f, hregister, -⟩
      cases hregister
  | ok got =>
      constructor
      · rintro ⟨next, f, hregister, hinstalled, -, rfl⟩
        cases hregister
        rw [installed_add] at hinstalled
        cases List.append_cancel_left hinstalled
        rfl
      · intro h
        cases h
        exact ⟨_, _, rfl, installed_add _ _, formula?_add _ _, rfl⟩

/-- A registration that succeeds installs something. -/
theorem exists_register_ok_iff (hd : d.Coherent) (hplaced : d.Placed) (hnew : name ∉ d.names) :
    (∃ next, d.register name = .ok next) ↔ ∃ tree, d.Installs name tree := by
  simp only [installs_iff hd hplaced hnew]
  rw [register, if_neg (mt (hplaced.contains_iff name).mp hnew), exists_install_eq_ok_iff hd.cache]

/-! ### Reading the name itself -/

/-- The name of a formula is the text behind its mark, and the mark. -/
theorem toList_of_isFormulaName (h : isFormulaName name = true) :
    name.toList = '=' :: (sourceOfName name).toList := by
  obtain ⟨rest, hrest⟩ := List.head?_eq_some_iff.mp (beq_iff_eq.mp h)
  rw [sourceOfName, hrest]
  simp

/-- Any other name is handed to the reader as it is. -/
theorem sourceOfName_of_not_isFormulaName (h : isFormulaName name = false) :
    sourceOfName name = name := by
  rw [sourceOfName]
  split
  · next rest hrest => simp [isFormulaName, hrest] at h
  · rfl

/-- **A name spells what the text behind its mark spells, unless it is marked twice.** Then it
spells nothing. -/
theorem ofSource_iff_sourceOfName {options : Formula.Options}
    (hdialect : options.dialect = .simplified) :
    Formula.ofSource options name = .ok tree ↔
      Formula.ofSource options (sourceOfName name) = .ok tree ∧ ¬ MarkedTwice name := by
  cases hformula : isFormulaName name with
  | false =>
      rw [sourceOfName_of_not_isFormulaName hformula, MarkedTwice, hformula]
      simp
  | true =>
      rw [MarkedTwice, hformula, Formula.ofSource_eq_ok_iff, Formula.ofSource_eq_ok_iff,
        toList_of_isFormulaName hformula, Formula.spelled_cons_mark_iff hdialect]
      simp

/-- **When registering a name and reading it agree**, in the simplified dialect. On any display
that a host can arrive at, registering a new name installs what the text behind the mark of
the name spells, and fails if that spells nothing. Reading the name itself gives the same
tree unless the name is marked twice, and then it gives none. So the two agree just if the
name is not marked twice or is not registered either. -/
theorem register_marks (options : Formula.Options) (hdialect : options.dialect = .simplified)
    (operations : List Operation) (name : String)
    (hnew : name ∉ ((ofOptions options).after operations).names) :
    ((∃ next, ((ofOptions options).after operations).register name = .ok next) ↔
      ∃ tree, ((ofOptions options).after operations).Installs name tree) ∧
    (∀ tree, ((ofOptions options).after operations).Installs name tree ↔
      Formula.ofSource options (sourceOfName name) = .ok tree) ∧
    (∀ tree, Formula.ofSource options name = .ok tree ↔
      ((ofOptions options).after operations).Installs name tree ∧ ¬ MarkedTwice name) ∧
    ((∀ tree, ((ofOptions options).after operations).Installs name tree ↔
        Formula.ofSource options name = .ok tree) ↔
      ¬ (MarkedTwice name ∧
        ∃ next, ((ofOptions options).after operations).register name = .ok next)) := by
  have hcoherent := coherent_after options operations
  have hplaced := placed_after options operations
  have hinstalls : ∀ tree, ((ofOptions options).after operations).Installs name tree ↔
      Formula.ofSource options (sourceOfName name) = .ok tree := fun tree => by
    rw [installs_iff hcoherent hplaced hnew, options_after]
  have hsource : ∀ tree, Formula.ofSource options name = .ok tree ↔
      ((ofOptions options).after operations).Installs name tree ∧ ¬ MarkedTwice name :=
    fun tree => by rw [hinstalls, ofSource_iff_sourceOfName hdialect]
  have hregister := exists_register_ok_iff hcoherent hplaced hnew
  refine ⟨hregister, hinstalls, hsource, ?_⟩
  simp only [hsource, iff_self_and, hregister]
  exact ⟨fun hagree ⟨htwice, tree, htree⟩ => hagree tree htree htwice,
    fun hdiffer tree htree htwice => hdiffer ⟨htwice, tree, htree⟩⟩

/-- What a symbol spells, with a mark in front and without. -/
theorem ofSource_symbol :
    Formula.ofSource ⟨.simplified, 64⟩ "A" = .ok ⟨.simplified, [.symbol "A"]⟩ ∧
      Formula.ofSource ⟨.simplified, 64⟩ "=A" = .ok ⟨.simplified, [.symbol "A"]⟩ := by
  have htokens : Formula.tokenize "A" = .ok [⟨.name "A", ⟨0, 1⟩⟩] := by cbv
  have htokens' : Formula.tokenize "=A" =
      .ok [⟨.assign, ⟨0, 1⟩⟩, ⟨.name "A", ⟨1, 2⟩⟩] := by cbv
  exact ⟨Formula.ofSource_of_tokenize htokens rfl, Formula.ofSource_of_tokenize htokens' rfl⟩

/-- A name with one mark, on a display that has another formula. -/
theorem register_marks_symbol :
    "=A" ∉ ((ofOptions ⟨.simplified, 64⟩).after [.register "=B"]).names ∧
      ((ofOptions ⟨.simplified, 64⟩).after [.register "=B"]).Installs "=A"
        ⟨.simplified, [.symbol "A"]⟩ ∧
      ¬ MarkedTwice "=A" := by
  have hnew : "=A" ∉ ((ofOptions ⟨.simplified, 64⟩).after [.register "=B"]).names := by
    rw [← List.nil_append [_], mem_names_concat]
    simp [InstallsIssued, Display.names, ofOptions]
  obtain ⟨-, -, hsource, -⟩ := register_marks ⟨.simplified, 64⟩ rfl [.register "=B"] "=A" hnew
  exact ⟨hnew, (hsource _).mp ofSource_symbol.2⟩

/-- **Two marks are one too many for the reader, but not for a display.** The text `==A` begins
with the sign of equality and spells nothing, but registering it installs the symbol. -/
theorem register_marks_twice :
    (ofOptions ⟨.simplified, 64⟩).Installs "==A" ⟨.simplified, [.symbol "A"]⟩ ∧
      ∀ tree, Formula.ofSource ⟨.simplified, 64⟩ "==A" ≠ .ok tree := by
  refine ⟨?_, fun tree => ?_⟩
  · exact (installs_iff (coherent_ofOptions _) (placed_after ⟨.simplified, 64⟩ []) nofun).mpr
      ofSource_symbol.2
  · rw [Ne, Formula.ofSource_eq_ok_iff]
    exact Formula.not_spelled_equal ['A']

end Display

end Dashboard
