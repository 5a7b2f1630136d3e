import Dashboard.LiveFormula
import Dashboard.Proofs.Formula.Failing
import Mathlib

/-!
# What a Formula Mentions

What a formula reads is traced in the order of evaluation: symbols that have been assigned by
then are left out, and an accessor is read without looking into its argument. The nodes of a
formula are listed without any of this, each node before what stands below it. In the simplified
dialect, where no symbol is assigned, the two traversals come to the same names in the same
order. An accessor with a text mentions it itself, one with a symbol leaves that to the symbol.

So the parameters of a simplified formula can be read off the list of its nodes: they are the
identifiers that the mentioned names stand for, each at its first occurrence.

## Main results

* `firstOccurrences_eq_eraseDups` — dropping the duplicates leaves the first occurrences.
* `Formula.reads_eq_mentions` — a simplified formula reads what its nodes mention.
* `LiveFormula.parameters_eq_firstOccurrences` — its parameters are what these names stand for.
-/

namespace Dashboard

/-! ### First occurrences -/

section FirstOccurrences

variable {α : Type} [DecidableEq α]

/-- The items of a list that none before them is equal to. -/
def firstOccurrences (items : List α) : List α :=
  items.zipIdx.filterMap fun item => if item.1 ∈ items.take item.2 then none else some item.1

/-- An item at the end is a first occurrence if the list does not have it. The others keep what
stands before them. -/
theorem firstOccurrences_concat (items : List α) (item : α) :
    firstOccurrences (items ++ [item]) =
      firstOccurrences items ++ if item ∈ items then [] else [item] := by
  rw [firstOccurrences, List.zipIdx_append, List.filterMap_append]
  congr 1
  · refine List.filterMap_congr fun x hx => ?_
    have hi : x.2 ≤ items.length := by
      have := List.snd_lt_of_mem_zipIdx hx
      omega
    rw [List.take_append_of_le_length hi]
  · by_cases hmem : item ∈ items <;> simp [hmem]

/-- **Dropping the duplicates leaves the first occurrences.** -/
theorem firstOccurrences_eq_eraseDups (items : List α) :
    firstOccurrences items = items.eraseDups := by
  induction items using List.reverseRecOn with
  | nil => rfl
  | append_singleton items item ih =>
      rw [firstOccurrences_concat, ih, List.eraseDups_append]
      by_cases hmem : item ∈ items
      · simp [List.removeAll, hmem]
      · simp [List.removeAll, hmem, List.eraseDups_cons]

end FirstOccurrences

namespace Formula

/-! ### Mentioned names -/

/-- The name of a data source that a node itself mentions: a symbol mentions its name, and an
accessor the text that it is given. -/
def Expr.mention? : Expr → Option String
  | .symbol name => some name
  | .call callee [.text name] => if isAccessor callee then some name else none
  | _ => none

/-- The names that the nodes of a formula mention, in the order of the nodes. -/
def mentions (f : Formula) : List String :=
  f.nodes.filterMap Expr.mention?

/-- An accessor with its argument mentions what it reads, by itself or by its argument. -/
theorem Expr.mentions_accessor {callee name : String} {arguments : List Expr}
    (haccessor : isAccessor callee = true) (hname : sourceName? arguments = some name) :
    (Expr.call callee arguments).nodes.filterMap Expr.mention? = [name] := by
  rcases sourceName?_eq_some_iff.mp hname with rfl | rfl
  · have hmention : (Expr.call callee [.text name]).mention? = some name := if_pos haccessor
    rw [Expr.nodes, List.filterMap_cons_some hmention]
    rfl
  · rfl

/-- Any other call leaves it to its arguments. -/
theorem Expr.mention?_call {callee : String} {arguments : List Expr}
    (h : isAccessor callee = false) : (Expr.call callee arguments).mention? = none := by
  unfold Expr.mention?
  split
  · next heq => cases heq
  · next heq =>
    cases heq
    rw [if_neg (by rw [h]; exact Bool.false_ne_true)]
  · rfl

/-- Trees that assign nothing read one after the other what each of them reads. -/
theorem Expr.readsOfAll_eq_mentions {es : List Expr}
    (h : ∀ e ∈ es, e.targets = [] ∧ e.reads [] = e.nodes.filterMap Expr.mention?) :
    Expr.readsOfAll es [] = (Expr.nodesOfAll es).filterMap Expr.mention? := by
  induction es with
  | nil => rfl
  | cons e rest ih =>
      obtain ⟨htargets, hreads⟩ := h e List.mem_cons_self
      rw [Expr.readsOfAll, Expr.nodesOfAll, List.filterMap_append, htargets, List.append_nil,
        hreads, ih fun a ha => h a (List.mem_cons_of_mem _ ha)]

/-- A simplified tree reads what its nodes mention, in the same order. -/
theorem Expr.reads_eq_mentions {e : Expr} (h : e.WellFormed .simplified) :
    e.reads [] = e.nodes.filterMap Expr.mention? := by
  induction h with
  | number | text | boolean | symbol => rfl
  | unary op _ ih => exact ih
  | binary op hl _ ihl ihr =>
      rw [Expr.reads, targets_of_wellFormed_simplified hl, List.append_nil, ihl, ihr, Expr.nodes,
        List.filterMap_cons_none rfl, List.filterMap_append]
  | logical op hl _ ihl ihr =>
      rw [Expr.reads, targets_of_wellFormed_simplified hl, List.append_nil, ihl, ihr, Expr.nodes,
        List.filterMap_cons_none rfl, List.filterMap_append]
  | conditional ht _ iht ihc =>
      rw [Expr.reads, targets_of_wellFormed_simplified ht, List.append_nil, iht, ihc, Expr.nodes,
        List.filterMap_cons_none rfl, List.filterMap_append]
  | alternative ht hc _ iht ihc iha =>
      rw [Expr.reads, targets_of_wellFormed_simplified ht, targets_of_wellFormed_simplified hc,
        List.append_nil, List.append_nil, iht, ihc, iha, Expr.nodes,
        List.filterMap_cons_none rfl, List.filterMap_append, List.filterMap_append]
  | @call callee arguments _ haccess hall ih =>
      rw [Expr.reads]
      split
      · next haccessor =>
        obtain ⟨name, hname⟩ := Option.isSome_iff_exists.mp (haccess haccessor)
        rw [Expr.mentions_accessor haccessor hname, hname, Option.toList_some]
      · next haccessor =>
        rw [Bool.not_eq_true] at haccessor
        rw [Expr.nodes, List.filterMap_cons_none (Expr.mention?_call haccessor)]
        exact Expr.readsOfAll_eq_mentions fun a ha =>
          ⟨targets_of_wellFormed_simplified (hall a ha), ih a ha⟩
  | assignment hdialect => cases hdialect

/-- **The two traversals of a simplified formula agree**: it reads what its nodes mention. -/
theorem reads_eq_mentions {f : Formula} (h : ∀ e ∈ f.statements, e.WellFormed .simplified) :
    f.reads = f.mentions :=
  Expr.readsOfAll_eq_mentions fun e he =>
    ⟨targets_of_wellFormed_simplified (h e he), Expr.reads_eq_mentions (h e he)⟩

end Formula

namespace LiveFormula

/-- **The parameters of a simplified formula can be read off its nodes.** They are what the
mentioned names stand for, whatever the mappings are, each identifier at its first occurrence
and never twice. -/
theorem parameters_eq_firstOccurrences {options : Formula.Options} {source : String}
    {f : LiveFormula} (hsource : Formula.ofSource options source = .ok f.formula)
    (hdialect : options.dialect = .simplified) :
    f.parameters = firstOccurrences (f.formula.mentions.map f.bindings.resolveOrSelf) ∧
      f.parameters.Nodup := by
  refine ⟨?_, Formula.nodup_parameters f.formula f.bindings⟩
  obtain ⟨hformula, hwf⟩ := Formula.wellFormed_of_parse (Formula.parse_of_ofSource hsource)
  rw [hdialect] at hformula hwf
  rw [parameters, Formula.parameters, Formula.reads_eq_mentions hwf, hformula,
    firstOccurrences_eq_eraseDups]
  rw [← List.filterMap_eq_map]
  rfl

/-- A simplified formula that mentions three names of two data sources. -/
def wattage : LiveFormula where
  source := "volts + amps * parameterValue('/bus/volts')"
  formula := ⟨.simplified, [.binary .add (.symbol "volts")
    (.binary .mul (.symbol "amps") (.call "parameterValue" [.text "/bus/volts"]))]⟩
  bindings := ((Bindings.empty.map "volts" "V").map "amps" "A").map "/bus/volts" "V"
  symbols := .empty

/-- The two names of the voltage count once, where the first of them stands. -/
theorem parameters_eq_firstOccurrences_wattage :
    Formula.ofSource ⟨.simplified, 64⟩ wattage.source = .ok wattage.formula ∧
      wattage.formula.mentions = ["volts", "amps", "/bus/volts"] ∧
      wattage.parameters = ["V", "A"] := by
  have htokens : Formula.tokenize "volts + amps * parameterValue('/bus/volts')" =
      .ok [⟨.name "volts", ⟨0, 5⟩⟩, ⟨.plus, ⟨6, 7⟩⟩, ⟨.name "amps", ⟨8, 12⟩⟩,
        ⟨.star, ⟨13, 14⟩⟩, ⟨.name "parameterValue", ⟨15, 29⟩⟩, ⟨.leftParen, ⟨29, 30⟩⟩,
        ⟨.text "/bus/volts", ⟨30, 42⟩⟩, ⟨.rightParen, ⟨42, 43⟩⟩] := by cbv
  have hsource : Formula.ofSource ⟨.simplified, 64⟩ wattage.source = .ok wattage.formula :=
    Formula.ofSource_of_tokenize htokens rfl
  refine ⟨hsource, rfl, ?_⟩
  rw [(parameters_eq_firstOccurrences hsource rfl).1]
  rfl

end LiveFormula

end Dashboard
