import Dashboard.LiveFormula
import Dashboard.ParseCache

/-!
# Formulas of a Display

A display installs the formulas of its widgets. Widgets whose process variable begins with
an equals sign are driven by the formula behind it, and those with the same name share one
formula. Each identifier triggers the formulas that need it: a delivery hands its readings
to the formulas they trigger and then evaluates each of these once.

The mappings of a display hold for all of its formulas, those installed later included.

## Main results

* `register_of_known` — a name that is installed already is left alone.
* `installed_addTriggers` — finding out what triggers a formula changes no formula.
-/

namespace Dashboard

/-- Whether the name of a process variable denotes a formula. -/
def isFormulaName (name : String) : Bool :=
  name.toList.head? == some '='

/-- The source text behind the name of a process variable. -/
def sourceOfName (name : String) : String :=
  match name.toList with
  | '=' :: rest => String.ofList rest
  | _ => name

/-- A formula and the name it is installed under. -/
structure Installed where
  name : String
  formula : LiveFormula

/-- The formulas of a display. -/
structure Display where
  dialect : Formula.Dialect
  cache : ParseCache
  installed : List Installed
  /-- The place of the formula that a name denotes. -/
  places : Table String Nat
  /-- The places of the formulas that need an identifier. -/
  triggers : Table String (List Nat)
  /-- Every identifier that the display has to ask for. -/
  parameters : List String
  bindings : Bindings

namespace Display

/-- A display without formulas. -/
def ofOptions (options : Formula.Options) : Display :=
  { dialect := options.dialect
    cache := .withMaxDepth options.maxDepth
    installed := []
    places := .empty
    triggers := .empty
    parameters := []
    bindings := .empty }

instance : Inhabited Display := ⟨ofOptions default⟩

/-- The formula that a name denotes. -/
def formula? (d : Display) (name : String) : Option LiveFormula :=
  (d.places.find? name).bind fun place => d.installed[place]?.map Installed.formula

/-- The number of formulas. -/
def size (d : Display) : Nat :=
  d.installed.length

/-! ### Triggers -/

/-- An item at the end of a list that does not have it yet. -/
def appendNew {α : Type} [BEq α] (items : List α) (item : α) : List α :=
  if items.contains item then items else items ++ [item]

/-- Lets an identifier trigger the formula at a place. -/
def addTrigger (place : Nat) (d : Display) (id : String) : Display :=
  { d with
    triggers := d.triggers.insert id (appendNew ((d.triggers.find? id).getD []) place)
    parameters := appendNew d.parameters id }

/-- Lets every identifier that a formula needs trigger it. -/
def addTriggers (d : Display) (place : Nat) (formula : LiveFormula) : Display :=
  formula.parameters.foldl (addTrigger place) d

/-- Finds out anew what triggers which formula. -/
def rebuildTriggers (d : Display) : Display :=
  d.installed.zipIdx.foldl (fun d (installed, place) => d.addTriggers place installed.formula)
    { d with triggers := .empty, parameters := [] }

/-! ### Installation -/

/-- Installs the formula behind a name, or fails and installs nothing. -/
def install (d : Display) (name source : String) : Except Failure Display := do
  let source := sourceOfName source
  let (shared, cache) ←
    inContext ("Formula " ++ name ++ " not installed") (d.cache.get source d.dialect)
  let formula := d.bindings.mappings.foldl (fun f (path, id) => f.map path id)
    (LiveFormula.ofFormula source shared.formula)
  let place := d.installed.length
  let d : Display := { d with
    cache
    installed := d.installed ++ [⟨name, formula⟩]
    places := d.places.insert name place }
  return d.addTriggers place formula

/-- Installs the formula that the name of a process variable spells. A name that is known
already is left alone. -/
def register (d : Display) (name : String) : Except Failure Display :=
  if d.places.contains name then .ok d else d.install name name

/-- Installs a formula that has no name of its own, under a name that is issued for it. The
name is used up even if the formula cannot be read. -/
def registerAnonymous (d : Display) (source : String) : Except Failure String × Display :=
  let (name, bindings) := d.bindings.issueName
  let d := { d with bindings }
  match d.install name source with
  | .ok d => (.ok name, d)
  | .error failure => (.error failure, d)

/-- Lets a path name stand for an identifier in all formulas. -/
def map (d : Display) (path id : String) : Display :=
  rebuildTriggers { d with
    bindings := d.bindings.map path id
    installed := d.installed.map fun i => { i with formula := i.formula.map path id } }

/-! ### Deliveries -/

/-- Changes the formula at a place. -/
def modifyAt (d : Display) (place : Nat) (change : LiveFormula → LiveFormula) : Display :=
  { d with installed := d.installed.modify place fun i => { i with formula := change i.formula } }

/-- Hands one reading to the formulas that it triggers, and adds them to those that have to
be evaluated. -/
def hand (state : Display × List Nat) (delivered : String × Reading) : Display × List Nat :=
  let (id, reading) := delivered
  ((state.1.triggers.find? id).getD []).foldl
    (fun (d, due) place => (d.modifyAt place (·.update id reading), appendNew due place)) state

/-- What a delivery leaves behind. -/
structure Delivered where
  values : List (String × Value)
  display : Display
  log : List Notice

/-- Evaluates the formula at a place. -/
def executeAt (state : Delivered) (place : Nat) : Delivered :=
  match state.display.installed[place]? with
  | none => state
  | some i =>
    let run := i.formula.execute
    { values := state.values ++ [(i.name, run.result)]
      display := state.display.modifyAt place fun _ => run.formula
      log := state.log ++ run.log }

/-- Hands readings to the formulas they trigger, and then evaluates each of these once, in
the order in which they were first triggered. -/
def deliver (d : Display) (readings : List (String × Reading)) : Delivered :=
  let (d, due) := readings.foldl hand (d, [])
  due.foldl executeAt ⟨[], d, []⟩

/-- Forgets the readings and the assigned symbols of all formulas. -/
def clear (d : Display) : Display :=
  { d with installed := d.installed.map fun i => { i with formula := i.formula.clear } }

/-! ### Registration -/

/-- Registering a name again changes nothing. -/
theorem register_of_known {d : Display} {name : String} (h : d.places.contains name = true) :
    d.register name = .ok d := by
  simp [register, h]

/-- Triggers install nothing. -/
@[simp] theorem installed_addTriggers (d : Display) (place : Nat) (formula : LiveFormula) :
    (d.addTriggers place formula).installed = d.installed := by
  unfold addTriggers
  induction formula.parameters generalizing d with
  | nil => rfl
  | cons id rest ih => rw [List.foldl_cons, ih]; rfl

end Display

end Dashboard
