import Dashboard.Proofs.Formula.Consultation

/-!
# Certain Assignments

The references of a formula are collected by following its text: behind an assignment a
symbol counts as bound, even if the assignment stands in a branch or behind a short circuit
and is skipped. An evaluation that skips it comes to the symbol unassigned, and consults the
data source of that name instead.

This module tells the two apart by an analysis of **certain assignments**. The symbols in
`Expr.certain` are assigned by every evaluation of a tree that succeeds. A symbol that is
read where the text has bound it and the certain assignments have not is `loose`: only there
the collection can miss a data source.

## Main results

* `Expr.assigned_of_evaluate` — what is certain is assigned.
* `Expr.mem_reads_of_consults` — a consulted name is collected, or it is loose.
* `loose_of_wellFormed_simplified` — nothing is loose in a simplified tree.
-/

namespace Dashboard.Formula

/-! ### The analysis -/

mutual

/-- The symbols that every successful evaluation of a tree assigns. -/
def Expr.certain : Expr → List String
  | .unary _ operand => operand.certain
  | .binary _ left right => left.certain ++ right.certain
  | .logical _ left _ => left.certain
  | .conditional test _ none => test.certain
  | .conditional test consequent (some alternate) =>
    test.certain ++ consequent.certain.filter fun name => alternate.certain.contains name
  | .call callee arguments =>
    if isAccessor callee then [] else Expr.certainOfAll arguments
  | .assignment target value => value.certain ++ [target]
  | _ => []

/-- The symbols that every successful evaluation of several trees assigns. -/
def Expr.certainOfAll : List Expr → List String
  | [] => []
  | e :: rest => e.certain ++ Expr.certainOfAll rest

end

mutual

/-- The symbols that a tree reads where the text has bound them and it is not certain that
they have been assigned, given those that are bound and those that are certain in front of
it. -/
def Expr.loose : Expr → List String → List String → List String
  | .symbol name, bound, known =>
    if bound.contains name && !known.contains name then [name] else []
  | .unary _ operand, bound, known => operand.loose bound known
  | .binary _ left right, bound, known =>
    left.loose bound known ++ right.loose (bound ++ left.targets) (known ++ left.certain)
  | .logical _ left right, bound, known =>
    left.loose bound known ++ right.loose (bound ++ left.targets) (known ++ left.certain)
  | .conditional test consequent none, bound, known =>
    test.loose bound known ++
      consequent.loose (bound ++ test.targets) (known ++ test.certain)
  | .conditional test consequent (some alternate), bound, known =>
    test.loose bound known ++
      consequent.loose (bound ++ test.targets) (known ++ test.certain) ++
      alternate.loose (bound ++ test.targets ++ consequent.targets) (known ++ test.certain)
  | .call callee arguments, bound, known =>
    if isAccessor callee then [] else Expr.looseOfAll arguments bound known
  | .assignment _ value, bound, known => value.loose bound known
  | _, _, _ => []

/-- The loose symbols of several trees, one tree after the other. -/
def Expr.looseOfAll : List Expr → List String → List String → List String
  | [], _, _ => []
  | e :: rest, bound, known =>
    e.loose bound known ++ Expr.looseOfAll rest (bound ++ e.targets) (known ++ e.certain)

end

/-- The symbols that a formula reads where they may or may not have been assigned. -/
def loose (f : Formula) : List String :=
  Expr.looseOfAll f.statements [] []

/-! ### What is certain is assigned -/

/-- All the symbols have been assigned. -/
def Memory.Assigned (memory : Memory) (names : List String) : Prop :=
  ∀ name ∈ names, (memory.symbols.find? name).isSome = true

/-- An assignment adds its symbol to those that have been assigned. -/
theorem Memory.Assigned.insert {memory : Memory} {names : List String}
    (h : memory.Assigned names) (target : String) (value : Value) :
    Memory.Assigned { memory with symbols := memory.symbols.insert target value }
      (names ++ [target]) := by
  intro name hname
  show ((memory.symbols.insert target value).find? name).isSome = true
  rw [Table.find?_insert]
  split
  · rfl
  · next hne =>
    rcases List.mem_append.mp hname with hname | hname
    · exact h name hname
    · rw [List.mem_singleton] at hname
      exact absurd hname.symm hne

variable {env : Environment}

/-- Several evaluations assign what is certain in them, if each of them does. -/
theorem Expr.assigned_of_evaluateAll {es : List Expr}
    (each : ∀ e ∈ es, ∀ (memory after : Memory) (v : Value) (known : List String),
      (e.evaluate env).run memory = (.ok v, after) → memory.Assigned known →
      after.Assigned (known ++ e.certain))
    {memory after : Memory} {vs : List Value} {known : List String}
    (h : (Expr.evaluateAll env es).run memory = (.ok vs, after))
    (hknown : memory.Assigned known) : after.Assigned (known ++ Expr.certainOfAll es) := by
  induction es generalizing memory vs known with
  | nil =>
      cases h
      rw [Expr.certainOfAll, List.append_nil]
      exact hknown
  | cons e rest ih =>
      rw [Expr.evaluateAll, run_bind_eq_ok] at h
      obtain ⟨v, middle, hv, h⟩ := h
      rw [run_bind_eq_ok] at h
      obtain ⟨others, last, hothers, h⟩ := h
      cases h
      have hmiddle := each e List.mem_cons_self memory middle v known hv hknown
      rw [Expr.certainOfAll, ← List.append_assoc]
      exact ih (fun e he => each e (List.mem_cons_of_mem _ he)) hothers hmiddle

/-- **What is certain is assigned.** An evaluation that succeeds has assigned the certain symbols of
its tree, and none of those assigned before is lost. What an operand assigns besides, or a line that
is printed, takes nothing away. -/
theorem Expr.assigned_of_evaluate (e : Expr) {memory after : Memory} {v : Value}
    {known : List String} (h : (e.evaluate env).run memory = (.ok v, after))
    (hknown : memory.Assigned known) : after.Assigned (known ++ e.certain) := by
  induction e using Expr.inductionOn generalizing memory after v known with
  | number | text | boolean | symbol =>
      cases h
      simp only [Expr.certain, List.append_nil]
      exact hknown
  | unary op operand ih =>
      rw [Expr.evaluate, run_bind_eq_ok] at h
      obtain ⟨a, middle, ha, h⟩ := h
      cases h
      exact ih ha hknown
  | binary op left right ihl ihr =>
      rw [Expr.evaluate, run_bind_eq_ok] at h
      obtain ⟨a, middle, ha, h⟩ := h
      rw [run_bind_eq_ok] at h
      obtain ⟨b, last, hb, h⟩ := h
      cases h
      rw [Expr.certain, ← List.append_assoc]
      exact ihr hb (ihl ha hknown)
  | logical op left right ihl ihr =>
      rw [Expr.evaluate, run_bind_eq_ok] at h
      obtain ⟨a, middle, ha, h⟩ := h
      have hmiddle := ihl ha hknown
      split at h
      · cases h
        exact hmiddle
      · intro name hname
        exact ihr h hmiddle name (List.mem_append_left _ hname)
  | conditional test consequent iht ihc =>
      rw [Expr.evaluate, run_bind_eq_ok] at h
      obtain ⟨t, middle, ht, h⟩ := h
      have hmiddle := iht ht hknown
      split at h
      · intro name hname
        exact ihc h hmiddle name (List.mem_append_left _ hname)
      · cases h
        exact hmiddle
  | alternative test consequent alternate iht ihc iha =>
      rw [Expr.evaluate, run_bind_eq_ok] at h
      obtain ⟨t, middle, ht, h⟩ := h
      have hmiddle := iht ht hknown
      rw [Expr.certain, ← List.append_assoc]
      split at h
      · intro name hname
        refine ihc h hmiddle name ?_
        rcases List.mem_append.mp hname with hname | hname
        · exact List.mem_append_left _ hname
        · exact List.mem_append_right _ (List.mem_filter.mp hname).1
      · intro name hname
        refine iha h hmiddle name ?_
        rcases List.mem_append.mp hname with hname | hname
        · exact List.mem_append_left _ hname
        · exact List.mem_append_right _ (List.contains_iff_mem.mp (List.mem_filter.mp hname).2)
  | call callee arguments ih =>
      rw [Expr.certain]
      simp only [Expr.evaluate] at h
      cases hcallee : Builtin.ofName? callee with
      | none => rw [hcallee] at h; cases h
      | some b =>
          rw [hcallee] at h
          have haccess : isAccessor callee = b.accesses := by
            rw [isAccessor, hcallee, Option.any_some]
          rw [haccess]
          cases b with
          | math f =>
              cases arguments with
              | nil => cases h
              | cons argument others =>
                  cases others with
                  | cons _ _ => cases h
                  | nil =>
                      dsimp only at h
                      rw [run_bind_eq_ok] at h
                      obtain ⟨a, last, ha, h⟩ := h
                      cases h
                      have hlast := ih argument List.mem_cons_self ha hknown
                      show Memory.Assigned _ (known ++ (argument.certain ++ []))
                      rw [List.append_nil]
                      exact hlast
          | parameterValue =>
              cases hname : sourceName? arguments with
              | none => rw [accessed, hname] at h; cases h
              | some name =>
                  rw [accessed, hname] at h
                  cases h
                  exact (List.append_nil known).symm ▸ hknown
          | parameterAcquisitionStatus =>
              cases hname : sourceName? arguments with
              | none => rw [accessed, hname] at h; cases h
              | some name =>
                  rw [accessed, hname] at h
                  cases h
                  exact (List.append_nil known).symm ▸ hknown
          | print =>
              dsimp only at h
              rw [run_bind_eq_ok] at h
              obtain ⟨vs, last, hvs, h⟩ := h
              cases h
              have hlast := Expr.assigned_of_evaluateAll (fun a ha _ _ _ _ => ih a ha) hvs hknown
              exact hlast
  | assignment target value ih =>
      rw [Expr.evaluate, run_bind_eq_ok] at h
      obtain ⟨w, middle, hw, h⟩ := h
      cases h
      rw [Expr.certain, ← List.append_assoc]
      exact (ih hw hknown).insert target _

/-! ### What is consulted is collected, or loose -/

/-- Trees that are evaluated one after the other consult what is collected or loose in them,
if each of them does. -/
theorem Expr.mem_readsOfAll_of_consultsAll {es : List Expr} {name : String}
    (each : ∀ e ∈ es, ∀ (memory : Memory) (bound known : List String),
      e.Consults env memory name → memory.Assigned known →
      name ∈ e.reads bound ∨ name ∈ e.loose bound known)
    {memory : Memory} {bound known : List String}
    (h : Expr.ConsultsAll env es memory name) (hknown : memory.Assigned known) :
    name ∈ Expr.readsOfAll es bound ∨ name ∈ Expr.looseOfAll es bound known := by
  induction es generalizing memory bound known with
  | nil => exact absurd h id
  | cons e rest ih =>
      rw [Expr.readsOfAll, Expr.looseOfAll, List.mem_append, List.mem_append]
      rcases h with h | ⟨v, after, hv, h⟩
      · rcases each e List.mem_cons_self memory bound known h hknown with h | h
        · exact .inl (.inl h)
        · exact .inr (.inl h)
      · have hafter := Expr.assigned_of_evaluate e hv hknown
        rcases ih (fun e he => each e (List.mem_cons_of_mem _ he)) h hafter with h | h
        · exact .inl (.inr h)
        · exact .inr (.inr h)

/-- **A consulted name is collected, or it is loose.** The names collected from a tree miss a
consulted data source only where a symbol that the text has bound is not certain to have been
assigned. -/
theorem Expr.mem_reads_of_consults (e : Expr) {memory : Memory} {name : String}
    {bound known : List String} (h : e.Consults env memory name)
    (hknown : memory.Assigned known) :
    name ∈ e.reads bound ∨ name ∈ e.loose bound known := by
  induction e using Expr.inductionOn generalizing memory bound known with
  | number | text | boolean => exact absurd h (by simp only [Expr.Consults, not_false_iff])
  | symbol s =>
      simp only [Expr.Consults] at h
      obtain ⟨rfl, hnone⟩ := h
      have hunknown : s ∉ known := by
        intro hs
        have hsome := hknown s hs
        rw [hnone] at hsome
        cases hsome
      by_cases hbound : s ∈ bound
      · right
        simp [Expr.loose, hbound, hunknown]
      · left
        simp [Expr.reads, hbound]
  | unary op operand ih =>
      simp only [Expr.Consults] at h
      exact ih h hknown
  | binary op left right ihl ihr =>
      simp only [Expr.Consults] at h
      rw [Expr.reads, Expr.loose, List.mem_append, List.mem_append]
      rcases h with h | ⟨a, after, ha, h⟩
      · exact (ihl h hknown).imp .inl .inl
      · exact (ihr h (left.assigned_of_evaluate ha hknown)).imp .inr .inr
  | logical op left right ihl ihr =>
      simp only [Expr.Consults] at h
      rw [Expr.reads, Expr.loose, List.mem_append, List.mem_append]
      rcases h with h | ⟨a, after, ha, -, h⟩
      · exact (ihl h hknown).imp .inl .inl
      · exact (ihr h (left.assigned_of_evaluate ha hknown)).imp .inr .inr
  | conditional test consequent iht ihc =>
      simp only [Expr.Consults] at h
      rw [Expr.reads, Expr.loose, List.mem_append, List.mem_append]
      rcases h with h | ⟨t, after, ht, -, h⟩
      · exact (iht h hknown).imp .inl .inl
      · exact (ihc h (test.assigned_of_evaluate ht hknown)).imp .inr .inr
  | alternative test consequent alternate iht ihc iha =>
      simp only [Expr.Consults] at h
      rw [Expr.reads, Expr.loose, List.mem_append, List.mem_append, List.mem_append,
        List.mem_append]
      rcases h with h | ⟨t, after, ht, ⟨-, h⟩ | ⟨-, h⟩⟩
      · exact (iht h hknown).imp (.inl ∘ .inl) (.inl ∘ .inl)
      · have hafter := test.assigned_of_evaluate ht hknown
        exact (ihc h hafter).imp (.inl ∘ .inr) (.inl ∘ .inr)
      · have hafter := test.assigned_of_evaluate ht hknown
        exact (iha h hafter).imp .inr .inr
  | call callee arguments ih =>
      rw [Expr.consults_call] at h
      rw [Expr.reads, Expr.loose]
      cases hcallee : Builtin.ofName? callee with
      | none => rw [hcallee] at h; exact absurd h id
      | some b =>
          rw [hcallee] at h
          have haccess : isAccessor callee = b.accesses := by
            rw [isAccessor, hcallee, Option.any_some]
          rw [haccess]
          cases b with
          | math f =>
              cases arguments with
              | nil => exact absurd h id
              | cons argument others =>
                  cases others with
                  | cons _ _ => exact absurd h id
                  | nil =>
                      show name ∈ argument.reads bound ++ [] ∨
                        name ∈ argument.loose bound known ++ []
                      rw [List.append_nil, List.append_nil]
                      exact ih argument List.mem_cons_self h hknown
          | parameterValue =>
              left
              dsimp only at h
              rw [h]
              exact List.mem_singleton_self name
          | parameterAcquisitionStatus =>
              left
              dsimp only at h
              rw [h]
              exact List.mem_singleton_self name
          | print =>
              exact Expr.mem_readsOfAll_of_consultsAll (fun a ha _ _ _ => ih a ha) h hknown
  | assignment target value ih =>
      simp only [Expr.Consults] at h
      exact ih h hknown

/-- What a formula consults is collected, or it is loose. -/
theorem mem_reads_of_consults {f : Formula} {bindings : Bindings} {memory : Memory}
    {name : String} (h : f.Consults bindings memory name) : name ∈ f.reads ∨ name ∈ f.loose := by
  have hnothing : memory.Assigned [] := nofun
  exact Expr.mem_readsOfAll_of_consultsAll (fun e _ _ _ _ => e.mem_reads_of_consults) h hnothing

/-! ### The simplified dialect -/

/-- Nothing is loose in several trees in front of which nothing is bound, if they bind nothing
themselves and nothing is loose in any of them. -/
theorem Expr.looseOfAll_eq_nil {es : List Expr} (known : List String)
    (each : ∀ e ∈ es, e.targets = [] ∧ ∀ known, e.loose [] known = []) :
    Expr.looseOfAll es [] known = [] := by
  induction es generalizing known with
  | nil => rfl
  | cons e rest ih =>
      obtain ⟨htargets, hloose⟩ := each e List.mem_cons_self
      rw [Expr.looseOfAll, htargets, hloose known]
      exact ih _ fun e he => each e (List.mem_cons_of_mem _ he)

/-- Nothing is loose in a simplified tree, which assigns no symbol. -/
theorem Expr.loose_of_wellFormed_simplified {e : Expr} (h : e.WellFormed .simplified)
    (known : List String) : e.loose [] known = [] := by
  induction h generalizing known with
  | number | text | boolean | symbol => rfl
  | unary op _ ih => exact ih known
  | binary op hl _ ihl ihr =>
      rw [Expr.loose, ihl, targets_of_wellFormed_simplified hl]
      exact ihr _
  | logical op hl _ ihl ihr =>
      rw [Expr.loose, ihl, targets_of_wellFormed_simplified hl]
      exact ihr _
  | conditional ht _ iht ihc =>
      rw [Expr.loose, iht, targets_of_wellFormed_simplified ht]
      exact ihc _
  | alternative ht hc _ iht ihc iha =>
      rw [Expr.loose, iht, targets_of_wellFormed_simplified ht,
        targets_of_wellFormed_simplified hc]
      simp only [List.append_nil, ihc, iha]
  | call _ _ hall ih =>
      rw [Expr.loose]
      split
      · rfl
      · refine Expr.looseOfAll_eq_nil known fun a ha => ?_
        exact ⟨targets_of_wellFormed_simplified (hall a ha), ih a ha⟩
  | assignment hdialect => cases hdialect

/-- **Nothing is loose in a formula of the simplified dialect.** -/
theorem loose_of_wellFormed_simplified {f : Formula}
    (h : ∀ e ∈ f.statements, e.WellFormed .simplified) : f.loose = [] := by
  refine Expr.looseOfAll_eq_nil [] fun e he => ?_
  exact ⟨targets_of_wellFormed_simplified (h e he), Expr.loose_of_wellFormed_simplified (h e he)⟩

end Dashboard.Formula
