import Dashboard.Proofs.Formula.History
import Dashboard.Proofs.Formula.Stateless
import Mathlib

/-!
# Simplified Formulas have no Hidden History

A simplified formula assigns no symbols, so its bindings are all that it keeps. And of its
history the bindings keep only the last mapping of each path name and the last reading of each
identifier since it was last cleared. A list of just these, in any order, is a **summary** of
the history: nothing tells a formula with the history from a new one that was told the summary.

Hence it makes no difference in which order different things are told, whether a thing is told
twice, and what was evaluated or asked in between, successfully or not.

## Main results

* `symbols_after` — a formula without assignments never gets symbols of its own.
* `alike_of_last` — histories that say the same leave formulas that are alike.
* `SayTheSame.alike` — parts of a history that say the same can replace each other.
* `exists_summarizes` — every history has a summary.
* `indistinguishable_of_summarizes` — a simplified formula is what a summary makes of a new one.
-/

namespace Dashboard

namespace LiveFormula

namespace Operation

/-- Whether an operation tells the formula something. -/
def isTold : Operation → Bool
  | .map .. => true
  | .update .. => true
  | _ => false

/-- Whether an operation only looks at the formula: an evaluation or a question. -/
def isLook : Operation → Bool
  | .map .. => false
  | .update .. => false
  | .clear => false
  | _ => true

/-- Two operations tell the formula different things: no path name is mapped by both, and of no
identifier both tell a reading. -/
structure Independent (first second : Operation) : Prop where
  told : first.isTold = true ∧ second.isTold = true
  mapping : ∀ path, first.mapping? path = none ∨ second.mapping? path = none
  reading : ∀ id, first.reading? id = none ∨ second.reading? id = none

/-- Only a mapping maps a path name. -/
theorem mapping?_eq_some_iff {operation : Operation} {path id : String} :
    operation.mapping? path = some id ↔ operation = .map path id := by
  cases operation with
  | map other id' => simp [mapping?]
  | _ => simp [mapping?]

/-- Only an update tells a reading. -/
theorem reading?_eq_some_iff {operation : Operation} {id : String} {reading : Reading} :
    operation.reading? id = some reading ↔ operation = .update id reading := by
  cases operation with
  | update other reading' => simp [reading?]
  | _ => simp [reading?]

/-- What tells the formula something does not clear it. -/
theorem isClear_of_isTold {operation : Operation} (h : operation.isTold = true) :
    operation.isClear = false := by
  cases operation with
  | clear => cases h
  | _ => rfl

end Operation

/-! ### Histories that say the same -/

variable {start : LiveFormula}

/-- A formula without assignments never gets symbols of its own. -/
theorem symbols_after (htargets : ∀ e ∈ start.formula.statements, e.targets = [])
    (hsymbols : start.symbols = .empty) (history : List Operation) :
    (start.after history).symbols = .empty := by
  induction history generalizing start with
  | nil => exact hsymbols
  | cons operation rest ih =>
      refine ih (by rwa [formula_step]) ?_
      cases operation with
      | run => exact (symbols_run htargets).trans hsymbols
      | execute =>
          rw [step, formula_execute]
          exact (symbols_run htargets).trans hsymbols
      | clear => rfl
      | _ => exact hsymbols

/-- **Histories that say the same leave formulas that are alike**, if the formula has no
assignments. -/
theorem alike_of_last (htargets : ∀ e ∈ start.formula.statements, e.targets = [])
    (hsymbols : start.symbols = .empty) {history other : List Operation}
    (hresolve : ∀ path, (start.after history).bindings.resolve? path =
      (start.after other).bindings.resolve? path)
    (hreading : ∀ id, (start.after history).bindings.reading? id =
      (start.after other).bindings.reading? id) :
    (start.after history).Alike (start.after other) where
  source := by rw [source_after, source_after]
  formula := by rw [formula_after, formula_after]
  symbols := by rw [symbols_after htargets hsymbols, symbols_after htargets hsymbols]
  resolve := hresolve
  reading := hreading

/-- Two sequences of operations say the same if the same is remembered of them, whatever was
before. -/
structure SayTheSame (operations other : List Operation) : Prop where
  mapping : ∀ path last, remembered? (Operation.mapping? path) (fun _ => false) last operations =
    remembered? (Operation.mapping? path) (fun _ => false) last other
  reading : ∀ id last, remembered? (Operation.reading? id) Operation.isClear last operations =
    remembered? (Operation.reading? id) Operation.isClear last other

/-- **Parts of a history that say the same can replace each other.** -/
theorem SayTheSame.alike {operations other : List Operation} (h : SayTheSame operations other)
    (htargets : ∀ e ∈ start.formula.statements, e.targets = [])
    (hsymbols : start.symbols = .empty) (before later : List Operation) :
    (start.after (before ++ operations ++ later)).Alike
      (start.after (before ++ other ++ later)) := by
  refine alike_of_last htargets hsymbols (fun path => ?_) fun id => ?_
  · rw [resolve?_after, resolve?_after, remembered?_append, remembered?_append,
      remembered?_append, remembered?_append, h.mapping]
  · rw [reading?_after, reading?_after, remembered?_append, remembered?_append,
      remembered?_append, remembered?_append, h.reading]

/-- Different things can be told in either order. -/
theorem sayTheSame_swap {first second : Operation} (h : first.Independent second) :
    SayTheSame [first, second] [second, first] where
  mapping := fun path last => remembered?_swap (h.mapping path) rfl rfl last
  reading := fun id last => remembered?_swap (h.reading id) (Operation.isClear_of_isTold h.told.1)
    (Operation.isClear_of_isTold h.told.2) last

/-- Telling a thing twice is telling it once. -/
theorem sayTheSame_twice {operation : Operation} (h : operation.isTold = true) :
    SayTheSame [operation, operation] [operation] where
  mapping := fun _ last => remembered?_twice rfl last
  reading := fun _ last => remembered?_twice (Operation.isClear_of_isTold h) last

/-- Looking at a formula tells it nothing. -/
theorem sayTheSame_look {operation : Operation} (h : operation.isLook = true) :
    SayTheSame [operation] [] where
  mapping := fun path last => by
    cases operation with
    | map path id => cases h
    | _ => rfl
  reading := fun id last => by
    cases operation with
    | update id reading => cases h
    | clear => cases h
    | _ => rfl

/-! ### Summaries -/

/-- Some operations sum up a history if they tell just the last mapping of each path name, and
just the last reading of each identifier since the formula was last cleared. -/
structure Summarizes (told history : List Operation) : Prop where
  isTold : ∀ operation ∈ told, operation.isTold = true
  mapping : ∀ path id, .map path id ∈ told ↔ lastMapping? history path = some id
  reading : ∀ id reading, .update id reading ∈ told ↔ lastReading? history id = some reading

/-- The last mappings are those of the summary. -/
theorem Summarizes.lastMapping?_eq {told history : List Operation} (h : Summarizes told history)
    (path : String) : lastMapping? told path = lastMapping? history path := by
  refine remembered?_eq (fun _ _ => rfl) fun id => ?_
  simp only [Operation.mapping?_eq_some_iff, exists_eq_right, h.mapping]

/-- The last readings are those of the summary. -/
theorem Summarizes.lastReading?_eq {told history : List Operation} (h : Summarizes told history)
    (id : String) : lastReading? told id = lastReading? history id := by
  have hkeeps : ∀ operation ∈ told, operation.isClear = false := fun operation hmem =>
    Operation.isClear_of_isTold (h.isTold operation hmem)
  refine remembered?_eq hkeeps fun reading => ?_
  simp only [Operation.reading?_eq_some_iff, exists_eq_right, h.reading]

/-- What a formula holds, as operations that tell it. -/
def holdings (f : LiveFormula) : List Operation :=
  f.bindings.pathNames.entries.map (fun e => .map e.1 e.2) ++
    f.bindings.readings.entries.map (fun e => .update e.1 e.2)

/-- The holdings map the path names that the formula resolves. -/
theorem map_mem_holdings_iff {f : LiveFormula} {path id : String} :
    .map path id ∈ f.holdings ↔ f.bindings.resolve? path = some id := by
  simp [holdings, Bindings.resolve?, ← Table.mem_entries_iff]

/-- The holdings tell the readings that the formula knows. -/
theorem update_mem_holdings_iff {f : LiveFormula} {id : String} {reading : Reading} :
    .update id reading ∈ f.holdings ↔ f.bindings.reading? id = some reading := by
  simp [holdings, Bindings.reading?, ← Table.mem_entries_iff]

/-- Nothing is among the holdings twice. -/
theorem nodup_holdings (f : LiveFormula) : f.holdings.Nodup := by
  have hpaths := List.Nodup.of_map _ f.bindings.pathNames.nodup
  have hreadings := List.Nodup.of_map _ f.bindings.readings.nodup
  rw [holdings, List.nodup_append]
  refine ⟨hpaths.map ?_, hreadings.map ?_, ?_⟩
  · rintro ⟨path, id⟩ ⟨path', id'⟩ heq
    cases heq
    rfl
  · rintro ⟨id, reading⟩ ⟨id', reading'⟩ heq
    cases heq
    rfl
  · intro first hfirst second hsecond heq
    obtain ⟨e, -, rfl⟩ := List.mem_map.mp hfirst
    obtain ⟨e', -, rfl⟩ := List.mem_map.mp hsecond
    cases heq

/-- **Every history has a summary**: what a new formula holds after it. -/
theorem exists_summarizes (history : List Operation) :
    ∃ told : List Operation, told.Nodup ∧ Summarizes told history := by
  let f := (ofFormula "" ⟨.simplified, []⟩).after history
  refine ⟨f.holdings, f.nodup_holdings, ?_, ?_, ?_⟩
  · intro operation hmem
    rcases List.mem_append.mp hmem with hmem | hmem
    · obtain ⟨e, -, rfl⟩ := List.mem_map.mp hmem
      rfl
    · obtain ⟨e, -, rfl⟩ := List.mem_map.mp hmem
      rfl
  · intro path id
    rw [map_mem_holdings_iff, resolve?_after]
    rfl
  · intro id reading
    rw [update_mem_holdings_iff, reading?_after]
    rfl

/-- **A simplified formula has no hidden history.** Every history has a summary, and a formula
with the history cannot be told from a new one that was told the summary. So it makes no
difference in which order different things were told, whether a thing was told twice, and
whether the formula was evaluated or asked in between. -/
theorem indistinguishable_of_summarizes {options : Formula.Options} {source : String}
    (hdialect : options.dialect = .simplified) (hstart : ofSource options source = .ok start) :
    (∀ history, (∃ told : List Operation, told.Nodup ∧ Summarizes told history) ∧
      ∀ told, Summarizes told history →
        Indistinguishable (start.after history) (start.after told)) ∧
    (∀ before later first second, first.Independent second →
      Indistinguishable (start.after (before ++ [first, second] ++ later))
        (start.after (before ++ [second, first] ++ later))) ∧
    (∀ before later operation, operation.isTold = true →
      Indistinguishable (start.after (before ++ [operation, operation] ++ later))
        (start.after (before ++ [operation] ++ later))) ∧
    ∀ before later operation, operation.isLook = true →
      Indistinguishable (start.after (before ++ [operation] ++ later))
        (start.after (before ++ [] ++ later)) := by
  obtain ⟨formula, hsource, rfl⟩ := ofSource_eq_ok_iff.mp hstart
  have htargets := targets_of_simplified hdialect hsource
  refine ⟨fun history => ⟨exists_summarizes history, fun told htold => ?_⟩, ?_, ?_, ?_⟩
  · refine (alike_of_last htargets rfl (fun path => ?_) fun id => ?_).indistinguishable
    · rw [resolve?_after, resolve?_after]
      exact (htold.lastMapping?_eq path).symm
    · rw [reading?_after, reading?_after]
      exact (htold.lastReading?_eq id).symm
  · intro before later first second h
    exact ((sayTheSame_swap h).alike htargets rfl before later).indistinguishable
  · intro before later operation h
    exact ((sayTheSame_twice h).alike htargets rfl before later).indistinguishable
  · intro before later operation h
    exact ((sayTheSame_look h).alike htargets rfl before later).indistinguishable

/-- A simplified formula whose evaluation fails as long as its switch is off. -/
def gauge : LiveFormula :=
  .ofFormula "on ? level : nope()" ⟨.simplified,
    [.conditional (.symbol "on") (.symbol "level") (some (.call "nope" []))]⟩

/-- A history of the gauge: an evaluation that fails, a reading that is replaced, and a path
name that is mapped late. -/
def gaugeHistory : List Operation :=
  [.update "level" ⟨.text "low", none⟩, .update "switch" ⟨.boolean true, none⟩, .run,
    .map "on" "switch", .update "level" ⟨.text "high", none⟩, .execute]

/-- The gauge shows what it shows to one who tells a new gauge the last mapping and the last
readings, in another order. -/
theorem indistinguishable_gauge :
    (⟨.simplified, 64⟩ : Formula.Options).dialect = .simplified ∧
      ofSource ⟨.simplified, 64⟩ "on ? level : nope()" = .ok gauge ∧
      Summarizes [.update "switch" ⟨.boolean true, none⟩, .update "level" ⟨.text "high", none⟩,
        .map "on" "switch"] gaugeHistory ∧
      Indistinguishable (gauge.after gaugeHistory)
        (gauge.after [.update "switch" ⟨.boolean true, none⟩,
          .update "level" ⟨.text "high", none⟩, .map "on" "switch"]) ∧
      (Operation.map "on" "switch").Independent (.update "switch" ⟨.boolean true, none⟩) ∧
      Indistinguishable
        (gauge.after [.map "on" "switch", .update "switch" ⟨.boolean true, none⟩])
        (gauge.after [.update "switch" ⟨.boolean true, none⟩, .map "on" "switch"]) ∧
      gauge.answers [.run] =
        [.outcome (.error (.unsupported "unknown function 'nope'")) []] ∧
      (gauge.after gaugeHistory).answers [.run, .parameters] =
        [.outcome (.ok (.text "high")) [], .parameters ["switch", "level"]] := by
  have htokens : Formula.tokenize "on ? level : nope()" =
      .ok [⟨.name "on", ⟨0, 2⟩⟩, ⟨.question, ⟨3, 4⟩⟩, ⟨.name "level", ⟨5, 10⟩⟩,
        ⟨.colon, ⟨11, 12⟩⟩, ⟨.name "nope", ⟨13, 17⟩⟩, ⟨.leftParen, ⟨17, 18⟩⟩,
        ⟨.rightParen, ⟨18, 19⟩⟩] := by cbv
  have hstart : ofSource ⟨.simplified, 64⟩ "on ? level : nope()" = .ok gauge :=
    ofSource_eq_ok_iff.mpr ⟨_, Formula.ofSource_of_tokenize htokens rfl, rfl⟩
  have hsummary : Summarizes [.update "switch" ⟨.boolean true, none⟩,
      .update "level" ⟨.text "high", none⟩, .map "on" "switch"] gaugeHistory := by
    refine ⟨by decide, fun path id => ?_, fun id reading => ?_⟩
    · simp [gaugeHistory, lastMapping?, remembered?, remember, Operation.mapping?, eq_comm]
    · by_cases hlevel : id = "level"
      · subst hlevel
        simp [gaugeHistory, lastReading?, remembered?, remember, Operation.reading?,
          Operation.isClear, eq_comm]
      · simp [gaugeHistory, lastReading?, remembered?, remember, Operation.reading?,
          Operation.isClear, hlevel, eq_comm]
  have hindependent : (Operation.map "on" "switch").Independent
      (.update "switch" ⟨.boolean true, none⟩) :=
    ⟨⟨rfl, rfl⟩, fun _ => .inr rfl, fun _ => .inl rfl⟩
  obtain ⟨hhistory, hswap, -⟩ := indistinguishable_of_summarizes rfl hstart
  exact ⟨rfl, hstart, hsummary, (hhistory gaugeHistory).2 _ hsummary, hindependent,
    hswap [] [] _ _ hindependent, rfl, rfl⟩

end LiveFormula

end Dashboard
