import Dashboard.LiveFormula
import Dashboard.Proofs.Formula.Assignment
import Mathlib

/-!
# Subscriptions

A display asks for the readings of the identifiers that a formula lists as its parameters,
and for no others. This module says what the formula's value has to do with the readings
that were not asked for.

Bindings agree on the parameters of a formula if they have its mappings, and its readings of
all the identifiers listed. A formula is **covered** if every identifier that its evaluation
consults is listed: then bindings that agree on the parameters make no difference to it, and
if it is not covered, some that agree give it another reading.

In the simplified dialect every formula is covered. In the legacy dialect a formula may fail
to be, but only where it comes to a loose symbol: one that the text has assigned and the
evaluation has not.

## Main results

* `covered_iff` — a formula is covered exactly if agreeing bindings give it the same readings.
* `mem_loose_of_not_mem_parameters` — what is consulted and not listed is loose.
* `exists_run_ne` — a last symbol shows what is not listed.
* `runsAlike_of_simplified` — unlisted readings make no difference to a simplified formula.
* `covered_iff_runsAlike` — when they make no difference to a legacy formula.
-/

namespace Dashboard

namespace LiveFormula

/-- The formula with other mappings and readings. -/
def withBindings (f : LiveFormula) (bindings : Bindings) : LiveFormula :=
  { f with bindings }

/-- The bindings have the mappings that the formula was told, and the readings that it was
told of all identifiers that it lists. -/
structure AgreesOnParameters (f : LiveFormula) (bindings : Bindings) : Prop where
  resolve : ∀ path, bindings.resolve? path = f.bindings.resolve? path
  reading : ∀ id ∈ f.parameters, bindings.reading? id = f.bindings.reading? id

/-- What the formula is evaluated in. -/
def environment (f : LiveFormula) : Formula.Environment :=
  ⟨f.formula.dialect, f.bindings⟩

/-- Whether the next evaluation of the formula consults the data source of a name. -/
def Consults (f : LiveFormula) (name : String) : Prop :=
  f.formula.Consults f.bindings ⟨f.symbols, []⟩ name

/-- Every identifier that the next evaluation consults is listed. -/
def Covered (f : LiveFormula) : Prop :=
  ∀ name id, f.Consults name → f.environment.sourceId? name = some id → id ∈ f.parameters

/-- The next evaluation goes as it would with the other bindings: it has the same value or
fault, assigns the same symbols, and prints the same lines. -/
structure RunsAlike (f : LiveFormula) (bindings : Bindings) : Prop where
  result : (f.withBindings bindings).run.result = f.run.result
  symbols : (f.withBindings bindings).run.formula.symbols = f.run.formula.symbols
  log : (f.withBindings bindings).run.log = f.run.log

variable {f : LiveFormula} {bindings : Bindings}

/-! ### Names and readings -/

/-- The identifiers that names speak of are a matter of the mappings. -/
theorem sourceId?_withBindings (h : ∀ path, bindings.resolve? path = f.bindings.resolve? path)
    (name : String) :
    (f.withBindings bindings).environment.sourceId? name = f.environment.sourceId? name :=
  Formula.Environment.sourceId?_congr h f.formula.dialect name

/-- With the same mappings, a name has the reading of the identifier that it speaks of. -/
theorem reading?_withBindings (h : ∀ path, bindings.resolve? path = f.bindings.resolve? path)
    (name : String) :
    (f.withBindings bindings).environment.reading? name =
      (f.environment.sourceId? name).bind bindings.reading? :=
  congrArg (fun id? => id?.bind bindings.reading?) (sourceId?_withBindings h name)

/-- There is always a reading with a value that differs from the one there is. -/
theorem exists_reading_ne (old : Value) : ∃ r : Reading, Value.ofScalar r.value ≠ old := by
  by_cases h : old = .boolean true
  · refine ⟨⟨.boolean false, none⟩, ?_⟩
    rw [h]
    intro heq
    cases heq
  · exact ⟨⟨.boolean true, none⟩, Ne.symm h⟩

/-- **An identifier that is not listed may have any reading.** Some bindings agree on the
parameters, give a name of that identifier another value, and all other names the same
reading. -/
theorem exists_agreesOnParameters {name id : String}
    (hid : f.environment.sourceId? name = some id) (hunlisted : id ∉ f.parameters) :
    ∃ bindings, f.AgreesOnParameters bindings ∧
      (f.withBindings bindings).environment.value name ≠ f.environment.value name ∧
      ∀ other, f.environment.sourceId? other ≠ some id →
        (f.withBindings bindings).environment.reading? other =
          f.environment.reading? other := by
  obtain ⟨r, hr⟩ := exists_reading_ne (f.environment.value name)
  have hresolve : ∀ path, (f.bindings.update id r).resolve? path = f.bindings.resolve? path :=
    fun _ => rfl
  have hother : ∀ other, other ≠ id →
      (f.bindings.update id r).reading? other = f.bindings.reading? other := by
    intro other hne
    rw [Bindings.reading?_update, if_neg (Ne.symm hne)]
  refine ⟨f.bindings.update id r, ⟨hresolve, ?_⟩, ?_, ?_⟩
  · intro other hlisted
    refine hother other ?_
    rintro rfl
    exact hunlisted hlisted
  · have hreading : (f.withBindings (f.bindings.update id r)).environment.reading? name =
        some r := by
      rw [reading?_withBindings hresolve, hid, Option.bind_some, Bindings.reading?_update,
        if_pos rfl]
    rw [Formula.Environment.value, hreading]
    exact hr
  · intro other hne
    rw [reading?_withBindings hresolve, Formula.Environment.reading?]
    cases hsource : f.environment.sourceId? other with
    | none => rfl
    | some otherId =>
        refine hother otherId ?_
        rintro rfl
        exact hne hsource

/-! ### Covered formulas -/

/-- The names that a formula consults and whose identifiers it does not list are loose. -/
theorem mem_loose_of_not_mem_parameters {name id : String} (hconsults : f.Consults name)
    (hid : f.environment.sourceId? name = some id) (hunlisted : id ∉ f.parameters) :
    name ∈ f.formula.loose := by
  rcases Formula.mem_reads_of_consults hconsults with hread | hloose
  · exact absurd (Formula.mem_parameters_iff.mpr ⟨name, hread, hid⟩) hunlisted
  · exact hloose

/-- A formula without loose symbols is covered. -/
theorem covered_of_loose_eq_nil (h : f.formula.loose = []) : f.Covered := by
  intro name id hconsults hid
  by_cases hlisted : id ∈ f.parameters
  · exact hlisted
  · have hloose := mem_loose_of_not_mem_parameters hconsults hid hlisted
    rw [h] at hloose
    cases hloose

/-- Bindings that agree on the parameters of a covered formula give it the same readings. -/
theorem Covered.reading?_eq (hcovered : f.Covered) (h : f.AgreesOnParameters bindings)
    {name : String} (hname : f.Consults name) :
    (f.withBindings bindings).environment.reading? name = f.environment.reading? name := by
  rw [reading?_withBindings h.resolve, Formula.Environment.reading?]
  cases hid : f.environment.sourceId? name with
  | none => rfl
  | some id => exact h.reading id (hcovered name id hname hid)

/-- **A formula is covered exactly if bindings that agree on its parameters give it the same
readings.** -/
theorem covered_iff :
    f.Covered ↔ ∀ bindings, f.AgreesOnParameters bindings → ∀ name, f.Consults name →
      (f.withBindings bindings).environment.reading? name = f.environment.reading? name := by
  constructor
  · intro hcovered bindings h name hname
    exact hcovered.reading?_eq h hname
  · intro h name id hconsults hid
    by_cases hlisted : id ∈ f.parameters
    · exact hlisted
    · obtain ⟨bindings, hagrees, hne, -⟩ := exists_agreesOnParameters hid hlisted
      exact absurd (Formula.value_congr (h bindings hagrees name hconsults)) hne

/-! ### Evaluations that go alike -/

/-- An evaluation goes the same way if the formula evaluates to the same. -/
theorem RunsAlike.of_evaluate_eq
    (h : f.formula.evaluate bindings ⟨f.symbols, []⟩ =
      f.formula.evaluate f.bindings ⟨f.symbols, []⟩) : f.RunsAlike bindings where
  result := congrArg (fun outcome => outcome.1.mapError Formula.CallFault.toFailure) h
  symbols := congrArg (fun outcome => outcome.2.symbols) h
  log := congrArg (fun outcome => outcome.2.printed.map Notice.info) h

/-- An evaluation goes the same way in bindings that give it the same readings. -/
theorem RunsAlike.of_reading?_eq
    (h : ∀ name, f.Consults name →
      (f.withBindings bindings).environment.reading? name = f.environment.reading? name) :
    f.RunsAlike bindings :=
  .of_evaluate_eq (Formula.evaluate_formula_congr h)

/-- The evaluation of a covered formula goes the same way in all bindings that agree on its
parameters. -/
theorem Covered.runsAlike (hcovered : f.Covered) (h : f.AgreesOnParameters bindings) :
    f.RunsAlike bindings :=
  .of_reading?_eq fun _ => hcovered.reading?_eq h

/-- **A last symbol shows what is not listed.** If a formula ends with a symbol that the
statements before it leave unassigned, and the identifier of that symbol is not listed, then
some bindings agree on the parameters and give the formula another value. -/
theorem exists_run_ne {init : List Formula.Expr} {name id : String} {v : Value}
    {memory : Formula.Memory} (hstatements : f.formula.statements = init ++ [.symbol name])
    (hinit : (Formula.evaluateStatements f.environment .undefined init).run ⟨f.symbols, []⟩ =
      (.ok v, memory))
    (hconsults : ∀ other, Formula.Expr.ConsultsAll f.environment init ⟨f.symbols, []⟩ other →
      f.environment.sourceId? other ≠ some id)
    (hnone : memory.symbols.find? name = none)
    (hid : f.environment.sourceId? name = some id) (hunlisted : id ∉ f.parameters) :
    ∃ bindings, f.AgreesOnParameters bindings ∧
      (f.withBindings bindings).run.result ≠ f.run.result := by
  obtain ⟨bindings, hagrees, hne, hother⟩ := exists_agreesOnParameters hid hunlisted
  have hinit' : (Formula.evaluateStatements (f.withBindings bindings).environment .undefined
      init).run ⟨f.symbols, []⟩ = (.ok v, memory) := by
    rw [← hinit]
    exact Formula.evaluateStatements_congr .undefined fun other h =>
      hother other (hconsults other h)
  have hvalue : ∀ b : Bindings, (Formula.evaluateStatements (f.withBindings b).environment
      .undefined init).run ⟨f.symbols, []⟩ = (.ok v, memory) →
      (f.withBindings b).run.result = .ok ((f.withBindings b).environment.value name) := by
    intro b hb
    show ((Formula.evaluateStatements (f.withBindings b).environment .undefined
      f.formula.statements).run ⟨f.symbols, []⟩).1.mapError _ = _
    rw [hstatements, Formula.evaluateStatements_concat hb]
    show Except.ok ((memory.symbols.find? name).getD _) = _
    rw [hnone, Option.getD_none]
  refine ⟨bindings, hagrees, ?_⟩
  intro heq
  have hsame := (hvalue bindings hinit').symm.trans (heq.trans (hvalue f.bindings hinit))
  exact hne (Except.ok.inj hsame)

/-! ### The simplified dialect -/

/-- **Unlisted readings make no difference to a simplified formula.** In all bindings that
agree on its parameters it has the same value or fault, and prints the same lines. -/
theorem runsAlike_of_simplified {options : Formula.Options} {source : String}
    (hdialect : options.dialect = .simplified)
    (hsource : Formula.ofSource options source = .ok f.formula)
    (h : f.AgreesOnParameters bindings) : f.RunsAlike bindings := by
  obtain ⟨-, hwf⟩ := Formula.wellFormed_of_parse (Formula.parse_of_ofSource hsource)
  rw [hdialect] at hwf
  have hloose := Formula.loose_of_wellFormed_simplified hwf
  exact (covered_of_loose_eq_nil hloose).runsAlike h

/-- A simplified formula that reads one of two data sources. -/
def selection : LiveFormula where
  source := "open ? level : shut"
  formula := ⟨.simplified,
    [.conditional (.symbol "open") (.symbol "level") (some (.symbol "shut"))]⟩
  bindings := (Bindings.empty.map "level" "/tank/level").update "open" ⟨.boolean true, none⟩
  symbols := .empty

/-- The selection lists both branches, so a reading of a path name that stands for something
else makes no difference to it. -/
theorem selection_runsAlike :
    selection.parameters = ["open", "/tank/level", "shut"] ∧
      selection.AgreesOnParameters (selection.bindings.update "level" ⟨.text "high", none⟩) ∧
      selection.RunsAlike (selection.bindings.update "level" ⟨.text "high", none⟩) := by
  have hparameters : selection.parameters = ["open", "/tank/level", "shut"] := rfl
  have htokens : Formula.tokenize "open ? level : shut" =
      .ok [⟨.name "open", ⟨0, 4⟩⟩, ⟨.question, ⟨5, 6⟩⟩, ⟨.name "level", ⟨7, 12⟩⟩,
        ⟨.colon, ⟨13, 14⟩⟩, ⟨.name "shut", ⟨15, 19⟩⟩] := by cbv
  have hsource : Formula.ofSource ⟨.simplified, 64⟩ "open ? level : shut" =
      .ok selection.formula := by
    rw [Formula.ofSource, Formula.parse, htokens]
    rfl
  have hagrees : selection.AgreesOnParameters
      (selection.bindings.update "level" ⟨.text "high", none⟩) := by
    refine ⟨fun _ => rfl, ?_⟩
    intro id hid
    rw [Bindings.reading?_update, if_neg]
    rintro rfl
    rw [hparameters] at hid
    exact absurd hid (by decide)
  exact ⟨hparameters, hagrees, runsAlike_of_simplified rfl hsource hagrees⟩

/-! ### The legacy dialect -/

/-- **When unlisted readings make no difference.** The evaluation of a formula goes the same
way, and is given the same readings, in all bindings that agree on its parameters, exactly if
the formula is covered. What it consults without listing it is loose: a symbol that the text
has assigned, in a branch or behind a short circuit, and the evaluation has not. A formula
that ends with such a symbol has another value in some bindings that agree. -/
theorem covered_iff_runsAlike (f : LiveFormula) :
    (f.Covered ↔ ∀ bindings, f.AgreesOnParameters bindings →
      f.RunsAlike bindings ∧ ∀ name, f.Consults name →
        (f.withBindings bindings).environment.reading? name = f.environment.reading? name) ∧
    (∀ name id, f.Consults name → f.environment.sourceId? name = some id →
      id ∉ f.parameters → name ∈ f.formula.loose) ∧
    (∀ init name id v memory, f.formula.statements = init ++ [.symbol name] →
      (Formula.evaluateStatements f.environment .undefined init).run ⟨f.symbols, []⟩ =
        (.ok v, memory) →
      (∀ other, Formula.Expr.ConsultsAll f.environment init ⟨f.symbols, []⟩ other →
        f.environment.sourceId? other ≠ some id) →
      memory.symbols.find? name = none → f.environment.sourceId? name = some id →
      id ∉ f.parameters →
      ∃ bindings, f.AgreesOnParameters bindings ∧
        (f.withBindings bindings).run.result ≠ f.run.result) := by
  refine ⟨⟨?_, ?_⟩, fun _ _ => mem_loose_of_not_mem_parameters, fun _ _ _ _ _ => exists_run_ne⟩
  · intro hcovered bindings h
    exact ⟨hcovered.runsAlike h, fun _ => hcovered.reading?_eq h⟩
  · intro h
    exact covered_iff.mpr fun bindings hagrees => (h bindings hagrees).2

/-- A legacy formula that assigns a symbol in a branch and reads it behind the branch. -/
def latch : LiveFormula where
  source := "c ? (x = true); x"
  formula := ⟨.legacy,
    [.conditional (.symbol "c") (.assignment "x" (.boolean true)) none, .symbol "x"]⟩
  bindings := (Bindings.empty.map "c" "C").map "x" "X"
  symbols := .empty

/-- The latch takes its value from an identifier that it does not list. In front of the symbol only
the test of the branch is consulted. -/
theorem latch_unlisted : latch.parameters = ["C"] ∧
    ∃ bindings, latch.AgreesOnParameters bindings ∧
      (latch.withBindings bindings).run.result ≠ latch.run.result := by
  have hparameters : latch.parameters = ["C"] := rfl
  refine ⟨hparameters, ?_⟩
  refine (covered_iff_runsAlike latch).2.2 [.conditional (.symbol "c")
    (.assignment "x" (.boolean true)) none] "x" "X" .null ⟨.empty, []⟩ rfl rfl ?_ rfl rfl ?_
  · intro other hother
    simp only [Formula.Expr.ConsultsAll, Formula.Expr.Consults] at hother
    rcases hother with (⟨rfl, -⟩ | ⟨t, after, ht, htrue, hfalse⟩) | ⟨v, after, -, hfalse⟩
    · decide
    · exact hfalse.elim
    · exact hfalse.elim
  · rw [hparameters]
    decide

/-- The value of the latch, freshly read from its source, is `undefined` without any reading,
and that of the unlisted identifier once it has one. -/
theorem latch_not_runsAlike :
    Formula.ofSource ⟨.legacy, 64⟩ latch.source = .ok latch.formula ∧
      latch.AgreesOnParameters (latch.bindings.update "X" ⟨.boolean true, none⟩) ∧
      ¬ latch.RunsAlike (latch.bindings.update "X" ⟨.boolean true, none⟩) := by
  have htokens : Formula.tokenize "c ? (x = true); x" =
      .ok [⟨.name "c", ⟨0, 1⟩⟩, ⟨.question, ⟨2, 3⟩⟩, ⟨.leftParen, ⟨4, 5⟩⟩, ⟨.name "x", ⟨5, 6⟩⟩,
        ⟨.assign, ⟨7, 8⟩⟩, ⟨.name "true", ⟨9, 13⟩⟩, ⟨.rightParen, ⟨13, 14⟩⟩,
        ⟨.semicolon, ⟨14, 15⟩⟩, ⟨.name "x", ⟨16, 17⟩⟩] := by cbv
  refine ⟨?_, ⟨fun _ => rfl, ?_⟩, ?_⟩
  · rw [Formula.ofSource, Formula.parse, latch, htokens]
    rfl
  · intro id hid
    have hparameters : latch.parameters = ["C"] := rfl
    rw [hparameters, List.mem_singleton] at hid
    rw [hid, Bindings.reading?_update, if_neg (by decide)]
  · intro h
    have hresult : (.ok (.boolean true) : Except Failure Value) = .ok .undefined := h.result
    cases hresult

end LiveFormula

end Dashboard
