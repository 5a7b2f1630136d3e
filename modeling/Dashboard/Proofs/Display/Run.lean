import Dashboard.Proofs.Cache
import Dashboard.Proofs.Display.Delivery
import Mathlib.Data.List.Induction

/-!
# Runs of a Display

A host drives a display by a sequence of operations: it registers formulas, maps path names,
delivers readings and clears. This module defines what one operation does (`step`) and what
a sequence of them leaves behind (`after`).

The invariant of all displays that a host can arrive at is `Coherent`: the parse cache keeps
what the source texts spell, every formula has the mappings of the display, and the index of
triggers is right. What an operation does to a coherent display is said once, as a case
distinction (`Transition`) and as a summary of it (`Effect`): it makes of every formula what it
would make of it alone, and may add a newcomer at the end.

## Main results

* `indexed_add`, `indexed_rebuildTriggers` — installing and mapping keep the index right.
* `Coherent.transition` — the ways in which an operation can change a display.
* `Coherent.effect` — what an operation does, to the formulas and to the rest of the display.
* `Coherent.step` — an operation keeps a display coherent.
* `coherent_after` — every display that a host arrives at is coherent.
-/

namespace Dashboard

namespace Display

/-! ### Operations -/

/-- What a host can do to a display. -/
inductive Operation where
  /-- Installs the formula that the name of a process variable spells. -/
  | register (name : String)
  /-- Installs a formula that has no name of its own. -/
  | registerAnonymous (source : String)
  /-- Lets a path name stand for an identifier. -/
  | map (path id : String)
  /-- Delivers readings. -/
  | deliver (readings : List (String × Reading))
  /-- Forgets all readings and assigned symbols. -/
  | clear

/-- How a display reads formulas. -/
def options (d : Display) : Formula.Options :=
  ⟨d.dialect, d.cache.maxDepth⟩

/-- What an operation makes of a display. A registration may fail. -/
def step (d : Display) : Operation → Display
  | .register name =>
    match d.register name with
    | .ok next => next
    | .error _ => d
  | .registerAnonymous source => (d.registerAnonymous source).2
  | .map path id => d.map path id
  | .deliver readings => (d.deliver readings).display
  | .clear => d.clear

/-- What a sequence of operations makes of a display. -/
def after (d : Display) (operations : List Operation) : Display :=
  operations.foldl step d

/-- Without operations a display stays as it is. -/
@[simp] theorem after_nil (d : Display) : d.after [] = d := rfl

/-- Operations one after the other. -/
theorem after_append (d : Display) (operations more : List Operation) :
    d.after (operations ++ more) = (d.after operations).after more :=
  List.foldl_append

/-- The last operation comes on top of the others. -/
theorem after_concat (d : Display) (operations : List Operation) (operation : Operation) :
    d.after (operations ++ [operation]) = (d.after operations).step operation := by
  rw [after_append]
  rfl

/-! ### Triggers -/

variable {d : Display}

/-- Finding triggers changes nothing but the triggers and the identifiers to ask for. -/
theorem addTriggers_eq (d : Display) (place : Nat) (f : LiveFormula) :
    ∃ triggers parameters, d.addTriggers place f = { d with triggers, parameters } := by
  unfold addTriggers
  induction f.parameters generalizing d with
  | nil => exact ⟨d.triggers, d.parameters, rfl⟩
  | cons id rest ih => exact ih (addTrigger place d id)

/-- An item is added once only. -/
theorem appendNew_appendNew {α : Type} [BEq α] [LawfulBEq α] (items : List α) (item : α) :
    appendNew (appendNew items item) item = appendNew items item := by
  have hmem : item ∈ appendNew items item := mem_appendNew.mpr (.inr rfl)
  rw [appendNew, if_pos (List.contains_iff_mem.mpr hmem)]

/-- A trigger adds its place to those of its identifier. -/
theorem triggered_addTrigger (d : Display) (place : Nat) (id other : String) :
    (addTrigger place d id).triggered other =
      if id = other then appendNew (d.triggered id) place else d.triggered other := by
  rw [triggered, addTrigger, Table.find?_insert]
  split
  · rfl
  · rfl

/-- A formula is triggered by the identifiers that it needs. -/
theorem triggered_addTriggers (d : Display) (place : Nat) (f : LiveFormula) (id : String) :
    (d.addTriggers place f).triggered id =
      if id ∈ f.parameters then appendNew (d.triggered id) place else d.triggered id := by
  unfold addTriggers
  induction f.parameters generalizing d with
  | nil => simp
  | cons other rest ih =>
      rw [List.foldl_cons, ih, triggered_addTrigger]
      by_cases hother : other = id
      · subst hother
        simp [appendNew_appendNew]
      · simp [hother, Ne.symm hother]

/-- A formula at the end is the last of those that need an identifier. -/
theorem needing_concat (installed : List Installed) (i : Installed) (id : String) :
    needing (installed ++ [i]) id =
      if id ∈ i.formula.parameters then appendNew (needing installed id) installed.length
      else needing installed id := by
  have hlast : installed.length ∉ needing installed id := by
    rw [mem_needing_iff]
    simp
  rw [appendNew, if_neg (mt List.contains_iff_mem.mp hlast), needing, List.zipIdx_append,
    List.filter_append, List.map_append]
  by_cases hid : id ∈ i.formula.parameters
  · simp [hid, needing]
  · simp [hid, needing]

/-- The display with one more formula at the end, and its triggers. -/
def add (d : Display) (i : Installed) : Display :=
  { d with installed := d.installed ++ [i], places := d.places.insert i.name d.size }.addTriggers
    d.size i.formula

/-- Adding a formula changes neither how the display reads formulas nor its bindings. -/
theorem add_frame (d : Display) (i : Installed) :
    (d.add i).cache = d.cache ∧ (d.add i).options = d.options ∧
      (d.add i).bindings = d.bindings := by
  obtain ⟨triggers, parameters, heq⟩ := addTriggers_eq { d with
    installed := d.installed ++ [i], places := d.places.insert i.name d.size } d.size i.formula
  rw [add, heq]
  exact ⟨rfl, rfl, rfl⟩

/-- An installed formula comes last. -/
@[simp] theorem installed_add (d : Display) (i : Installed) :
    (d.add i).installed = d.installed ++ [i] :=
  installed_addTriggers _ _ _

/-- **Installing a formula keeps the index right.** -/
theorem indexed_add (hd : d.Indexed) (i : Installed) : (d.add i).Indexed := by
  intro id
  have hid : triggered { d with
      installed := d.installed ++ [i], places := d.places.insert i.name d.size } id =
      needing d.installed id := hd id
  rw [installed_add, needing_concat, add, triggered_addTriggers, hid]
  rfl

/-- Triggers change nothing but the two indexes. -/
theorem foldl_addTriggers_eq (d : Display) (places : List (Installed × Nat)) :
    ∃ triggers parameters, places.foldl (fun d e => d.addTriggers e.2 e.1.formula) d =
      { d with triggers, parameters } := by
  induction places generalizing d with
  | nil => exact ⟨d.triggers, d.parameters, rfl⟩
  | cons e rest ih =>
      obtain ⟨triggers, parameters, hrest⟩ := ih (d.addTriggers e.2 e.1.formula)
      obtain ⟨triggers', parameters', hfirst⟩ := d.addTriggers_eq e.2 e.1.formula
      refine ⟨triggers, parameters, ?_⟩
      rw [List.foldl_cons, hrest, hfirst]

/-- Neither do all triggers when they are made anew. -/
theorem rebuildTriggers_eq (d : Display) :
    ∃ triggers parameters, d.rebuildTriggers = { d with triggers, parameters } :=
  foldl_addTriggers_eq _ _

/-- **An index that is built anew is right.** The formulas come in the order of their places, so
each of them is added behind the others. -/
theorem indexed_rebuildTriggers (d : Display) : d.rebuildTriggers.Indexed := by
  have hprefix : ∀ (start : Display) (installed : List Installed) (id : String),
      start.triggers = .empty →
      (installed.zipIdx.foldl (fun d e => d.addTriggers e.2 e.1.formula) start).triggered id =
        needing installed id := by
    intro start installed id hstart
    induction installed using List.reverseRecOn with
    | nil =>
        show (start.triggers.find? id).getD [] = []
        rw [hstart]
        rfl
    | append_singleton installed i ih =>
        rw [List.zipIdx_append, List.foldl_append, needing_concat, ← ih]
        simp [triggered_addTriggers]
  intro id
  have hbuilt := hprefix { d with triggers := .empty, parameters := [] } d.installed id rfl
  obtain ⟨triggers, parameters, heq⟩ := d.rebuildTriggers_eq
  have hinstalled : d.rebuildTriggers.installed = d.installed := by rw [heq]
  rw [hinstalled]
  exact hbuilt

/-! ### Installation -/

/-- A formula that a display installs has the mappings of the display, and nothing else. -/
def fresh (d : Display) (source : String) (formula : Formula) : LiveFormula where
  source := source
  formula := formula
  bindings := ⟨d.bindings.pathNames, .empty, 0⟩
  symbols := .empty

/-- Telling a formula the mappings of a display one by one gives it the display's mappings. -/
theorem foldl_map_mappings (d : Display) (source : String) (formula : Formula) :
    d.bindings.mappings.foldl (fun f e => f.map e.1 e.2) (LiveFormula.ofFormula source formula) =
      d.fresh source formula := by
  have hfold : ∀ (entries : List (String × String)) (f : LiveFormula),
      entries.foldl (fun f e => f.map e.1 e.2) f =
        { f with bindings := { f.bindings with
          pathNames := entries.foldl (fun t e => t.insert e.1 e.2) f.bindings.pathNames } } := by
    intro entries
    induction entries with
    | nil => exact fun _ => rfl
    | cons e rest ih =>
        intro f
        rw [List.foldl_cons, ih]
        rfl
  rw [hfold, fresh, LiveFormula.ofFormula]
  have htable := Table.ofList_entries d.bindings.pathNames
  simp only [Bindings.empty, Bindings.mappings]
  rw [← Table.ofList, htable]

/-- An installation gets the formula from the cache and adds it, or fails as the cache does. -/
theorem install_eq (d : Display) (name source : String) :
    d.install name source =
      (inContext ("Formula " ++ name ++ " not installed")
        (d.cache.get (sourceOfName source) d.dialect)).map fun got =>
          { d with cache := got.2 }.add ⟨name, d.fresh (sourceOfName source) got.1.formula⟩ := by
  rw [install]
  cases d.cache.get (sourceOfName source) d.dialect with
  | error failure => rfl
  | ok got =>
      obtain ⟨shared, cache⟩ := got
      exact congrArg (fun f => Except.ok ({ d with cache }.add ⟨name, f⟩))
        (d.foldl_map_mappings (sourceOfName source) shared.formula)

/-- The display after an attempt to install a formula, which leaves it as it was if the
source text cannot be read. -/
def attempt (d : Display) (name source : String) : Display :=
  match d.install name source with
  | .ok next => next
  | .error _ => d

/-- The formula that would be installed. -/
def spelled? (d : Display) (name source : String) : Option Installed :=
  match Formula.ofSource d.options (sourceOfName source) with
  | .ok formula => some ⟨name, d.fresh (sourceOfName source) formula⟩
  | .error _ => none

/-- The name and the source text of the formula that an operation tries to install. -/
def request? (d : Display) : Operation → Option (String × String)
  | .register name => if d.places.contains name then none else some (name, name)
  | .registerAnonymous source => some (d.bindings.issueName.1, source)
  | _ => none

/-- The formula that an operation installs. -/
def newcomer? (d : Display) (operation : Operation) : Option Installed :=
  (d.request? operation).bind fun request => d.spelled? request.1 request.2

/-- What is installed is what its source text spells, with the mappings of the display. -/
theorem newcomer?_eq_some_iff {operation : Operation} {i : Installed} :
    d.newcomer? operation = some i ↔
      ∃ name source formula, d.request? operation = some (name, source) ∧
        Formula.ofSource d.options (sourceOfName source) = .ok formula ∧
        i = ⟨name, d.fresh (sourceOfName source) formula⟩ := by
  rw [newcomer?, Option.bind_eq_some_iff]
  constructor
  · rintro ⟨⟨name, source⟩, hrequest, hspelled⟩
    rw [spelled?] at hspelled
    split at hspelled
    · next formula hformula =>
        cases hspelled
        exact ⟨name, source, formula, hrequest, hformula, rfl⟩
    · cases hspelled
  · rintro ⟨name, source, formula, hrequest, hformula, rfl⟩
    refine ⟨(name, source), hrequest, ?_⟩
    rw [spelled?, hformula]

/-- An attempt adds the formula that the source text spells, whether the cache has kept it
or not. -/
theorem attempt_eq (hcache : d.cache.Faithful) (name source : String) :
    ∃ cache : ParseCache, cache.Faithful ∧ cache.maxDepth = d.cache.maxDepth ∧
      d.attempt name source =
        match d.spelled? name source with
        | some i => { d with cache }.add i
        | none => d := by
  have hread : (d.cache.get (sourceOfName source) d.dialect).map (fun got => got.1.formula) =
      Formula.ofSource d.options (sourceOfName source) := hcache.map_get _ _
  rw [attempt, install_eq, spelled?, ← hread]
  cases hget : d.cache.get (sourceOfName source) d.dialect with
  | error failure => exact ⟨d.cache, hcache, rfl, rfl⟩
  | ok got =>
      obtain ⟨shared, cache⟩ := got
      exact ⟨cache, hcache.get hget, ParseCache.maxDepth_of_get hget, rfl⟩

/-- How many names have been issued once an operation is done. -/
def issuedAfter (d : Display) : Operation → Nat
  | .registerAnonymous _ => d.bindings.issued + 1
  | _ => d.bindings.issued

/-- The display once an operation has been issued the name that it needs, if any. -/
def issuing (d : Display) (operation : Operation) : Display :=
  { d with bindings := { d.bindings with issued := d.issuedAfter operation } }

/-- What a registration does, under a name or without one. -/
theorem step_of_request? {operation : Operation} {name source : String}
    (h : d.request? operation = some (name, source)) :
    d.step operation = (d.issuing operation).attempt name source := by
  cases operation with
  | register known =>
      rw [request?] at h
      split at h
      · cases h
      · next hnew =>
          cases h
          rw [step, register, if_neg hnew]
          rfl
  | registerAnonymous text =>
      cases h
      rw [step, registerAnonymous, attempt]
      dsimp only [Bindings.issueName]
      show _ = match (d.issuing (.registerAnonymous source)).install _ source with
        | .ok next => next
        | .error _ => d.issuing (.registerAnonymous source)
      dsimp only [issuing, issuedAfter]
      cases install _ _ source with
      | error failure => rfl
      | ok next => rfl
  | map path id => cases h
  | deliver readings => cases h
  | clear => cases h

/-- A registration of a formula that the cache does not keep adds what its source text
spells. -/
theorem step_of_ofSource {options : Formula.Options} {operation : Operation}
    {name source : String} {formula : Formula}
    (hsource : Formula.ofSource options (sourceOfName source) = .ok formula)
    (hoptions : d.options = options) (hrequest : d.request? operation = some (name, source))
    (hfind : d.cache.entries.find? (d.dialect, sourceOfName source) = none) :
    d.step operation =
      { d.issuing operation with cache := d.cache.keep (sourceOfName source) d.dialect formula }.add
        ⟨name, d.fresh (sourceOfName source) formula⟩ := by
  have hget : d.cache.get (sourceOfName source) d.dialect =
      (Formula.ofSource d.options (sourceOfName source)).map fun formula =>
        (⟨formula, d.cache.issued⟩, d.cache.keep (sourceOfName source) d.dialect formula) :=
    ParseCache.get_of_find?_eq_none hfind
  rw [step_of_request? hrequest, attempt, install_eq, issuing, hget, hoptions, hsource]
  rfl

/-- A registration that tries nothing changes nothing. -/
theorem step_register_of_request? {name : String}
    (h : d.request? (.register name) = none) : d.step (.register name) = d := by
  have hknown : d.places.contains name = true := by
    by_contra hnew
    rw [request?, if_neg hnew] at h
    cases h
  rw [step, register_of_known hknown]

/-! ### Coherence -/

/-- What holds of every display that a host can arrive at. -/
structure Coherent (d : Display) : Prop where
  /-- The cache keeps what the source texts spell. -/
  cache : d.cache.Faithful
  /-- Every formula has the mappings of the display. -/
  pathNames : ∀ i ∈ d.installed, i.formula.bindings.pathNames = d.bindings.pathNames
  /-- The index of triggers is right. -/
  indexed : d.Indexed

/-- A new display is coherent. -/
theorem coherent_ofOptions (options : Formula.Options) : (ofOptions options).Coherent where
  cache := ParseCache.faithful_withMaxDepth options.maxDepth
  pathNames := nofun
  indexed := fun _ => rfl

/-! ### What an operation does -/

/-- What an operation of the display makes of a formula by itself. -/
def drive (f : LiveFormula) : Operation → LiveFormula
  | .map path id => f.map path id
  | .deliver readings => f.receive readings
  | .clear => f.clear
  | .register _ => f
  | .registerAnonymous _ => f

/-- No operation changes the text of a formula. -/
theorem formula_drive (f : LiveFormula) (operation : Operation) :
    (drive f operation).formula = f.formula := by
  cases operation with
  | deliver readings =>
      obtain ⟨known, symbols, heq⟩ := f.receive_eq readings
      rw [drive, heq]
  | _ => rfl

/-- An operation that tries to install a formula says nothing to the others. -/
theorem drive_of_request? {operation : Operation} {request : String × String}
    (h : d.request? operation = some request) (f : LiveFormula) : drive f operation = f := by
  cases operation with
  | register name => rfl
  | registerAnonymous source => rfl
  | map path id => cases h
  | deliver readings => cases h
  | clear => cases h

/-- **The ways in which an operation can change a display.** -/
inductive Transition (d : Display) : Operation → Display → Prop
  /-- A formula that can be read is installed behind the others. -/
  | installs {operation : Operation} (i : Installed) (cache : ParseCache) :
      d.newcomer? operation = some i → cache.Faithful → cache.maxDepth = d.cache.maxDepth →
      Transition d operation ({ d.issuing operation with cache }.add i)
  /-- Nothing is installed, as the name is known or the source text cannot be read. -/
  | passes {operation : Operation} :
      d.newcomer? operation = none → (∀ f, drive f operation = f) →
      Transition d operation (d.issuing operation)
  /-- All formulas are told a mapping, and the index is built anew. -/
  | maps (path id : String) :
      Transition d (.map path id)
        (rebuildTriggers { d.mapFormulas (·.map path id) with
          bindings := d.bindings.map path id })
  /-- The formulas are told something that changes no mapping. -/
  | tells {operation : Operation} :
      d.request? operation = none →
      (∀ f, (drive f operation).bindings.pathNames = f.bindings.pathNames) →
      Transition d operation (d.mapFormulas fun f => drive f operation)

/-- An attempt to install a formula adds it, or passes. -/
theorem transition_of_request? (hcache : d.cache.Faithful) {operation : Operation}
    {name source : String} (h : d.request? operation = some (name, source)) :
    d.Transition operation (d.step operation) := by
  obtain ⟨cache, hfaithful, hdepth, hattempt⟩ :=
    attempt_eq (d := d.issuing operation) hcache name source
  have hspelled : (d.issuing operation).spelled? name source = d.newcomer? operation := by
    rw [newcomer?, h]
    rfl
  rw [step_of_request? h, hattempt, hspelled]
  cases hnew : d.newcomer? operation with
  | some i => exact .installs i cache hnew hfaithful hdepth
  | none => exact .passes hnew (drive_of_request? h)

/-- **What an operation does**, as a case distinction. -/
theorem Coherent.transition (hd : d.Coherent) (operation : Operation) :
    d.Transition operation (d.step operation) := by
  cases operation with
  | register name =>
      cases hrequest : d.request? (.register name) with
      | some request => exact transition_of_request? hd.cache hrequest
      | none =>
          rw [step_register_of_request? hrequest]
          refine .passes ?_ fun _ => rfl
          rw [newcomer?, hrequest]
          rfl
  | registerAnonymous source => exact transition_of_request? hd.cache rfl
  | map path id => exact .maps path id
  | deliver readings =>
      rw [step, display_deliver hd.indexed]
      refine .tells rfl fun f => ?_
      obtain ⟨known, symbols, heq⟩ := f.receive_eq readings
      rw [drive, heq]
  | clear => exact .tells rfl fun _ => rfl

/-- What an operation does to a coherent display. -/
structure Effect (d : Display) (operation : Operation) (next : Display) : Prop where
  cache : next.cache.Faithful
  /-- How the display reads formulas never changes. -/
  options : next.options = d.options
  /-- A formula that has the mappings of the display is told every new one. -/
  pathNames : ∀ f, f.bindings.pathNames = d.bindings.pathNames →
    (drive f operation).bindings.pathNames = next.bindings.pathNames
  /-- The operation makes of every formula what it would make of it alone, and may add a
  newcomer at the end. -/
  installed : next.installed =
    (d.mapFormulas fun f => drive f operation).installed ++ (d.newcomer? operation).toList
  indexed : next.Indexed

/-- An operation that installs a formula says nothing to the others. -/
theorem drive_of_newcomer? {operation : Operation} {i : Installed}
    (h : d.newcomer? operation = some i) (f : LiveFormula) : drive f operation = f := by
  obtain ⟨name, source, formula, hrequest, -, -⟩ := newcomer?_eq_some_iff.mp h
  exact drive_of_request? hrequest f

/-- Every transition of a coherent display has the effect. -/
theorem Transition.effect (hd : d.Coherent) {operation : Operation} {next : Display}
    (h : d.Transition operation next) : d.Effect operation next := by
  cases h with
  | installs i cache hnew hfaithful hdepth =>
      have hdrive := drive_of_newcomer? hnew
      have hindexed : ({ d.issuing operation with cache } : Display).Indexed := hd.indexed
      obtain ⟨hcache, hoptions, hbindings⟩ := add_frame { d.issuing operation with cache } i
      refine ⟨?_, ?_, fun f hf => ?_, ?_, indexed_add hindexed i⟩
      · rw [hcache]
        exact hfaithful
      · rw [hoptions]
        exact congrArg (Formula.Options.mk d.dialect) hdepth
      · rw [hbindings, hdrive]
        exact hf
      · simp [hdrive, hnew, issuing]
  | passes hnew hdrive =>
      refine ⟨hd.cache, rfl, fun f hf => ?_, ?_, hd.indexed⟩
      · rw [hdrive]
        exact hf
      · simp [hdrive, hnew, issuing]
  | maps path id =>
      obtain ⟨triggers, parameters, heq⟩ := rebuildTriggers_eq
        { d.mapFormulas (·.map path id) with bindings := d.bindings.map path id }
      have hindexed := indexed_rebuildTriggers
        { d.mapFormulas (·.map path id) with bindings := d.bindings.map path id }
      rw [heq] at hindexed ⊢
      refine ⟨hd.cache, rfl, fun f hf => ?_, ?_, hindexed⟩
      · exact congrArg (·.insert path id) hf
      · exact (List.append_nil _).symm
  | tells hrequest hpaths =>
      refine ⟨hd.cache, rfl, fun f hf => (hpaths f).trans hf, ?_, ?_⟩
      · simp [newcomer?, hrequest]
      · exact hd.indexed.mapFormulas fun f =>
          LiveFormula.parameters_congr (formula_drive f operation) (hpaths f)

/-- **What an operation does**: to every formula what it would do to it alone. -/
theorem Coherent.effect (hd : d.Coherent) (operation : Operation) :
    d.Effect operation (d.step operation) :=
  (hd.transition operation).effect hd

/-- What is installed after an operation was installed before, or is the newcomer at the
first free place. -/
theorem Coherent.cases_of_getElem?_step (hd : d.Coherent) {operation : Operation} {place : Nat}
    {i : Installed} (h : (d.step operation).installed[place]? = some i) :
    (∃ old, d.installed[place]? = some old ∧
        i = { old with formula := drive old.formula operation }) ∨
      (place = d.size ∧ d.newcomer? operation = some i) := by
  rw [(hd.effect operation).installed, mapFormulas, List.getElem?_append, List.length_map] at h
  split at h
  · rw [List.getElem?_map, Option.map_eq_some_iff] at h
    obtain ⟨old, hold, rfl⟩ := h
    exact .inl ⟨old, hold, rfl⟩
  · next hplace =>
      have hmem : i ∈ (d.newcomer? operation).toList := List.mem_of_getElem? h
      have hlength := (List.getElem?_eq_some_iff.mp h).1
      have hone : (d.newcomer? operation).toList.length ≤ 1 := by
        cases d.newcomer? operation with
        | none => exact Nat.zero_le 1
        | some j => exact Nat.le_refl 1
      refine .inr ⟨?_, Option.mem_toList.mp hmem⟩
      rw [size]
      omega

/-- **An operation keeps a display coherent.** -/
theorem Coherent.step (hd : d.Coherent) (operation : Operation) :
    (d.step operation).Coherent := by
  obtain ⟨hcache, -, hpaths, hinstalled, hindexed⟩ := hd.effect operation
  refine ⟨hcache, ?_, hindexed⟩
  intro i hi
  rw [hinstalled] at hi
  rcases List.mem_append.mp hi with hi | hi
  · obtain ⟨old, hold, rfl⟩ := List.mem_map.mp hi
    exact hpaths old.formula (hd.pathNames old hold)
  · rw [Option.mem_toList] at hi
    obtain ⟨name, source, formula, hrequest, -, rfl⟩ := newcomer?_eq_some_iff.mp hi
    have hfresh := hpaths (d.fresh (sourceOfName source) formula) rfl
    rw [drive_of_request? hrequest] at hfresh
    exact hfresh

/-- **Every display that a host arrives at is coherent.** -/
theorem coherent_after (options : Formula.Options) (operations : List Operation) :
    ((ofOptions options).after operations).Coherent := by
  induction operations using List.reverseRecOn with
  | nil => exact coherent_ofOptions options
  | append_singleton operations operation ih =>
      rw [after_concat]
      exact ih.step operation

/-- What holds at the start and is kept by every transition holds of every display that a host
arrives at. -/
theorem invariant_after {P : Display → Prop} (options : Formula.Options)
    (hstart : P (ofOptions options))
    (hstep : ∀ {d operation next}, P d → d.Transition operation next → P next)
    (operations : List Operation) : P ((ofOptions options).after operations) := by
  induction operations using List.reverseRecOn with
  | nil => exact hstart
  | append_singleton operations operation ih =>
      rw [after_concat]
      exact hstep ih ((coherent_after options operations).transition operation)

/-- No operation changes the options. -/
theorem options_after (options : Formula.Options) (operations : List Operation) :
    ((ofOptions options).after operations).options = options := by
  induction operations using List.reverseRecOn with
  | nil => rfl
  | append_singleton operations operation ih =>
      rw [after_concat, ((coherent_after options operations).effect operation).options, ih]

end Display

end Dashboard
