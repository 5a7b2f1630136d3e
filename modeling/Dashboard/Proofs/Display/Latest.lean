import Dashboard.Proofs.Display.Independence
import Dashboard.Proofs.Formula.Stateless
import Dashboard.Proofs.Formula.Subscription

/-!
# What a Display Shows

A display keeps no readings of its own: a delivery is handed on to the formulas that need it,
and each keeps what has reached it. So the value that a simplified formula is shown with is
its value in the readings that have **reached** it: of the readings delivered since the
display was last cleared, those that came while the formula was installed and needed their
identifier.

This need not be the latest reading that the display was given. A formula that is installed
late has not been told what was delivered before, and one whose path names are mapped anew has
missed what it did not need. But a formula that the last delivery of an identifier has reached
has the latest reading of it, and all such formulas agree about it.

## Main results

* `reading?_eq_reached?` — a formula has the readings that have reached it.
* `reached?_eq_latest?` — what the last delivery has reached has the latest reading.
* `values_deliver` — a formula is shown with its value in the readings that have reached it.
* `not_showsLatest` — a formula that is installed late lacks what was delivered before.
-/

namespace Dashboard

namespace LiveFormula

/-! ### The value in given readings -/

/-- The value that a formula has in some bindings when it is evaluated afresh. -/
def valueIn (f : LiveFormula) (bindings : Bindings) : Value :=
  ({ f with bindings, symbols := .empty } : LiveFormula).execute.result

variable {f : LiveFormula} {bindings : Bindings}

/-- A formula without symbols has the value that it has afresh in all bindings that agree on
its parameters, if it is one without loose symbols. -/
theorem result_execute_eq_valueIn (hsymbols : f.symbols = .empty)
    (hloose : f.formula.loose = []) (h : f.AgreesOnParameters bindings) :
    f.execute.result = f.valueIn bindings := by
  have hfresh : ({ f with bindings, symbols := .empty } : LiveFormula) =
      f.withBindings bindings := by
    rw [withBindings, ← hsymbols]
  rw [valueIn, hfresh, result_execute, result_execute,
    ((covered_of_loose_eq_nil hloose).runsAlike h).result]

end LiveFormula

namespace Display

/-! ### The last of several readings -/

/-- The last of some readings that is one of an identifier. -/
def lastOf? (id : String) : List (String × Reading) → Option Reading
  | [] => none
  | delivered :: rest =>
    (lastOf? id rest).or (if delivered.1 = id then some delivered.2 else none)

/-- Taking note of readings gives an identifier the last of its readings. -/
theorem reading?_updateAll (f : LiveFormula) (readings : List (String × Reading))
    (id : String) :
    (f.updateAll readings).bindings.reading? id =
      (lastOf? id readings).or (f.bindings.reading? id) := by
  induction readings generalizing f with
  | nil => rfl
  | cons delivered rest ih =>
      have hfirst : (f.update delivered.1 delivered.2).bindings.reading? id =
          (if delivered.1 = id then some delivered.2 else none).or (f.bindings.reading? id) := by
        rw [LiveFormula.update, Bindings.reading?_update]
        split
        · rfl
        · rfl
      rw [lastOf?, Option.or_assoc, ← hfirst]
      exact ih _

/-- An identifier has no last reading in a delivery just if it is not in it. -/
theorem lastOf?_eq_none_iff {id : String} {readings : List (String × Reading)} :
    lastOf? id readings = none ↔ ∀ delivered ∈ readings, delivered.1 ≠ id := by
  induction readings with
  | nil => simp [lastOf?]
  | cons delivered rest ih => simp [lastOf?, ih, and_comm]

/-- Of the readings that a formula needs, the last of an identifier is that of all readings,
if the identifier is needed. -/
theorem lastOf?_wanted (f : LiveFormula) (readings : List (String × Reading)) (id : String) :
    lastOf? id (f.wanted readings) = if id ∈ f.parameters then lastOf? id readings else none := by
  split
  · next hneeds =>
      induction readings with
      | nil => rfl
      | cons delivered rest ih =>
          rw [LiveFormula.wanted] at ih
          rw [LiveFormula.wanted, List.filter_cons, lastOf?]
          split
          · rw [lastOf?, ih]
          · next hother =>
              have hne : delivered.1 ≠ id := by
                rintro rfl
                exact hother (List.contains_iff_mem.mpr hneeds)
              rw [ih, if_neg hne, Option.or_none]
  · next hunneeded =>
      rw [lastOf?_eq_none_iff]
      intro delivered hdelivered heq
      rw [LiveFormula.wanted, List.mem_filter, List.contains_iff_mem, heq] at hdelivered
      exact hunneeded hdelivered.2

/-- What a formula knows after a delivery is what it was told. -/
theorem bindings_receive (f : LiveFormula) (readings : List (String × Reading)) :
    (f.receive readings).bindings = (f.updateAll (f.wanted readings)).bindings := by
  rw [LiveFormula.receive, LiveFormula.receive?]
  split
  · next hnothing => rw [hnothing]; rfl
  · rw [Option.map_some, Option.getD_some, LiveFormula.formula_execute]

/-- A delivery gives a formula the last reading of each identifier that it needs. -/
theorem reading?_receive (f : LiveFormula) (readings : List (String × Reading)) (id : String) :
    (f.receive readings).bindings.reading? id =
      if id ∈ f.parameters then (lastOf? id readings).or (f.bindings.reading? id)
      else f.bindings.reading? id := by
  rw [bindings_receive, reading?_updateAll, lastOf?_wanted]
  split
  · rfl
  · rfl

/-! ### Latest and reached -/

/-- What an operation makes of the latest reading of an identifier. -/
def relay (id : String) (latest : Option Reading) : Operation → Option Reading
  | .deliver readings => (lastOf? id readings).or latest
  | .clear => none
  | _ => latest

/-- **The latest reading** of an identifier that was delivered since the display was last
cleared. -/
def latest? (operations : List Operation) (id : String) : Option Reading :=
  operations.foldl (relay id) none

/-- What an operation makes of the latest reading of an identifier that has reached the
formula at a place. -/
def reach (d : Display) (place : Nat) (id : String) (latest : Option Reading) :
    Operation → Option Reading
  | .deliver readings =>
    if place ∈ needing d.installed id then (lastOf? id readings).or latest else latest
  | .clear => none
  | _ => latest

/-- **The latest reading that has reached a formula**: of the readings of an identifier that
were delivered since the display was last cleared, the last that came while the formula at the
place was installed and needed the identifier. -/
def reached? (options : Formula.Options) (operations : List Operation) (place : Nat)
    (id : String) : Option Reading :=
  (operations.foldl (fun (state : Display × Option Reading) operation =>
    (state.1.step operation, state.1.reach place id state.2 operation))
    (ofOptions options, none)).2

variable {options : Formula.Options} {operations : List Operation} {place : Nat} {id : String}

/-- The last operation is relayed on top of the others. -/
theorem latest?_concat (operations : List Operation) (operation : Operation) (id : String) :
    latest? (operations ++ [operation]) id = relay id (latest? operations id) operation :=
  List.foldl_append

/-- What has reached a place after one more operation. -/
theorem reached?_concat (options : Formula.Options) (operations : List Operation)
    (operation : Operation) (place : Nat) (id : String) :
    reached? options (operations ++ [operation]) place id =
      ((ofOptions options).after operations).reach place id
        (reached? options operations place id) operation := by
  have hdisplay : ∀ (state : Display × Option Reading), (operations.foldl
      (fun (state : Display × Option Reading) operation =>
        (state.1.step operation, state.1.reach place id state.2 operation)) state).1 =
      state.1.after operations := by
    induction operations with
    | nil => exact fun _ => rfl
    | cons operation rest ih => exact fun state => ih _
  rw [reached?, List.foldl_append, List.foldl_cons, List.foldl_nil, hdisplay]
  rfl

/-- Nothing has reached a place where no formula is. -/
theorem reached?_of_size_le (h : ((ofOptions options).after operations).size ≤ place) :
    reached? options operations place id = none := by
  induction operations using List.reverseRecOn with
  | nil => rfl
  | append_singleton operations operation ih =>
      have hsize : ((ofOptions options).after operations).size ≤ place := by
        have hinstalled := ((coherent_after options operations).effect operation).installed
        rw [after_concat, size, hinstalled, mapFormulas, List.length_append,
          List.length_map] at h
        rw [size]
        omega
      have hunneeded : place ∉ needing ((ofOptions options).after operations).installed id := by
        rw [mem_needing_iff, List.getElem?_eq_none hsize]
        simp
      rw [reached?_concat, ih hsize]
      cases operation with
      | deliver readings => rw [reach, if_neg hunneeded]
      | _ => rfl

/-- **A formula has the readings that have reached it.** It is installed without any, and the
operation that installs it delivers none. -/
theorem reading?_eq_reached? {name : String} {f : LiveFormula}
    (h : ((ofOptions options).after operations).installed[place]? = some ⟨name, f⟩)
    (id : String) : f.bindings.reading? id = reached? options operations place id := by
  induction operations using List.reverseRecOn generalizing name f with
  | nil => cases h
  | append_singleton operations operation ih =>
      rw [after_concat] at h
      rw [reached?_concat]
      obtain ⟨old, hold, heq⟩ | ⟨hplace, hnew⟩ :=
        (coherent_after options operations).cases_of_getElem?_step h
      · cases heq
        have hbefore : old.formula.bindings.reading? id = _ := ih hold
        have hneeds : place ∈ needing ((ofOptions options).after operations).installed id ↔
            id ∈ old.formula.parameters := by
          rw [mem_needing_iff, hold]
          simp
        cases operation with
        | deliver readings =>
            rw [drive, reading?_receive, reach, hbefore]
            simp only [hneeds]
        | map path other => exact hbefore
        | register other => exact hbefore
        | registerAnonymous source => exact hbefore
        | clear => rfl
      · obtain ⟨other, source, formula, hrequest, -, heq⟩ := newcomer?_eq_some_iff.mp hnew
        cases heq
        have hnothing : reached? options operations place id = none :=
          reached?_of_size_le (Nat.le_of_eq hplace.symm)
        rw [hnothing]
        cases operation with
        | register name => rfl
        | registerAnonymous source => rfl
        | map path other => cases hrequest
        | deliver readings => cases hrequest
        | clear => cases hrequest

/-! ### Where the latest reading has reached -/

/-- An operation that neither delivers a reading of an identifier nor clears the display. -/
def Operation.Spares (id : String) : Operation → Prop
  | .deliver readings => lastOf? id readings = none
  | .clear => False
  | _ => True

/-- An operation that spares an identifier relays nothing about it. -/
theorem relay_of_spares {operation : Operation} (h : operation.Spares id)
    (latest : Option Reading) : relay id latest operation = latest := by
  cases operation with
  | deliver readings =>
      have hnone : lastOf? id readings = none := h
      rw [relay, hnone, Option.none_or]
  | clear => cases h
  | _ => rfl

/-- Neither does anything about it reach a place. -/
theorem reach_of_spares {operation : Operation} (h : operation.Spares id) (d : Display)
    (place : Nat) (latest : Option Reading) : d.reach place id latest operation = latest := by
  cases operation with
  | deliver readings =>
      have hnone : lastOf? id readings = none := h
      rw [reach, hnone, Option.none_or, ite_self]
  | clear => cases h
  | _ => rfl

/-- **A formula that the last delivery of an identifier has reached has the latest reading of
it.** -/
theorem reached?_eq_latest? {before rest : List Operation}
    {readings : List (String × Reading)}
    (hneeds : place ∈ needing ((ofOptions options).after before).installed id)
    (hlast : lastOf? id readings ≠ none) (hrest : ∀ operation ∈ rest, operation.Spares id) :
    reached? options (before ++ .deliver readings :: rest) place id =
      latest? (before ++ .deliver readings :: rest) id := by
  induction rest using List.reverseRecOn with
  | nil =>
      obtain ⟨reading, hreading⟩ := Option.ne_none_iff_exists'.mp hlast
      rw [reached?_concat, latest?_concat, reach, if_pos hneeds, relay, hreading, Option.some_or,
        Option.some_or]
  | append_singleton rest operation ih =>
      have hspares := hrest operation (List.mem_append_right _ (List.mem_singleton_self _))
      rw [← List.cons_append, ← List.append_assoc, reached?_concat, latest?_concat,
        reach_of_spares hspares, relay_of_spares hspares]
      exact ih fun other hother => hrest other (List.mem_append_left _ hother)

/-! ### Simplified displays -/

/-- The formulas of a simplified display are simplified, and have no symbols. -/
theorem simplified_of_getElem? (hdialect : options.dialect = .simplified) {name : String}
    {f : LiveFormula}
    (h : ((ofOptions options).after operations).installed[place]? = some ⟨name, f⟩) :
    (∃ source, Formula.ofSource options source = .ok f.formula) ∧ f.symbols = .empty := by
  induction operations using List.reverseRecOn generalizing name f with
  | nil => cases h
  | append_singleton operations operation ih =>
      rw [after_concat] at h
      obtain ⟨old, hold, heq⟩ | ⟨-, hnew⟩ :=
        (coherent_after options operations).cases_of_getElem?_step h
      · cases heq
        obtain ⟨⟨source, hsource⟩, hsymbols⟩ :
          (∃ source, Formula.ofSource options source = .ok old.formula.formula) ∧
            old.formula.symbols = .empty := ih hold
        refine ⟨⟨source, ?_⟩, ?_⟩
        · rw [formula_drive]
          exact hsource
        · cases operation with
          | map path id => exact hsymbols
          | register name => exact hsymbols
          | registerAnonymous source => exact hsymbols
          | clear => rfl
          | deliver readings =>
              rw [drive, LiveFormula.receive, LiveFormula.receive?]
              split
              · exact hsymbols
              · obtain ⟨known, heq⟩ := old.formula.updateAll_eq (old.formula.wanted readings)
                rw [Option.map_some, Option.getD_some, LiveFormula.formula_execute, heq]
                refine (LiveFormula.symbols_run ?_).trans hsymbols
                exact LiveFormula.targets_of_simplified hdialect hsource
      · obtain ⟨other, source, formula, -, hformula, heq⟩ := newcomer?_eq_some_iff.mp hnew
        cases heq
        rw [options_after] at hformula
        exact ⟨⟨_, hformula⟩, rfl⟩

/-- A formula of a simplified display has its value in the readings that have reached it. -/
theorem result_of_receive? (hdialect : options.dialect = .simplified) {name : String}
    {f : LiveFormula} {readings : List (String × Reading)} {run : LiveFormula.Run Value}
    (h : ((ofOptions options).after operations).installed[place]? = some ⟨name, f⟩)
    (hrun : f.receive? readings = some run) {bindings : Bindings}
    (hpaths : ∀ path, bindings.resolve? path =
      ((ofOptions options).after operations).bindings.resolve? path)
    (hreadings : ∀ id ∈ f.parameters, bindings.reading? id =
      reached? options (operations ++ [.deliver readings]) place id) :
    run.result = f.valueIn bindings := by
  have hd := coherent_after options operations
  obtain ⟨⟨source, hsource⟩, hsymbols⟩ := simplified_of_getElem? hdialect h
  obtain ⟨-, hwf⟩ := Formula.wellFormed_of_parse (Formula.parse_of_ofSource hsource)
  rw [hdialect] at hwf
  have hloose := Formula.loose_of_wellFormed_simplified hwf
  have hafter : ((ofOptions options).after (operations ++ [.deliver readings])).installed[place]? =
      some ⟨name, f.receive readings⟩ := by
    rw [after_concat]
    exact getElem?_step hd h _
  obtain ⟨known, heq⟩ := f.updateAll_eq (f.wanted readings)
  have hagrees : (f.updateAll (f.wanted readings)).AgreesOnParameters bindings := by
    refine ⟨fun path => ?_, fun id hid => ?_⟩
    · have hnames : f.bindings.pathNames =
          ((ofOptions options).after operations).bindings.pathNames :=
        hd.pathNames ⟨name, f⟩ (List.mem_of_getElem? h)
      rw [hpaths path, heq, Bindings.resolve?, Bindings.resolve?, ← hnames]
    · rw [heq] at hid
      rw [hreadings id hid, ← reading?_eq_reached? hafter id, bindings_receive]
  have hresult : (f.updateAll (f.wanted readings)).execute.result =
      (f.updateAll (f.wanted readings)).valueIn bindings := by
    refine LiveFormula.result_execute_eq_valueIn ?_ ?_ hagrees
    · rw [heq]
      exact hsymbols
    · rw [heq]
      exact hloose
  rw [LiveFormula.receive?] at hrun
  split at hrun
  · cases hrun
  · cases hrun
    rw [hresult, heq]
    rfl

/-! ### A formula that comes late -/

/-- A formula is installed and is delivered a reading, and then another one is installed that
needs the same reading and one more. -/
def lateOperations : List Operation :=
  [.register "=A", .deliver [("A", ⟨.boolean true, none⟩)], .register "=B ? A : B"]

/-- A delivery to the formula that was installed late. -/
def lateReadings : List (String × Reading) :=
  [("B", ⟨.boolean true, none⟩)]

/-- The late formula knows nothing, and is the only one that the delivery concerns. -/
theorem lateOperations_spec : ∃ f,
    ((ofOptions ⟨.simplified, 64⟩).after lateOperations).installed[1]? =
      some ⟨"=B ? A : B", f⟩ ∧
    f.formula = ⟨.simplified, [.conditional (.symbol "B") (.symbol "A") (some (.symbol "B"))]⟩ ∧
    f.bindings = .empty ∧
    ((ofOptions ⟨.simplified, 64⟩).after lateOperations).bindings = .empty ∧
    ((ofOptions ⟨.simplified, 64⟩).after lateOperations).due lateReadings = [1] ∧
    (((ofOptions ⟨.simplified, 64⟩).after lateOperations).deliver lateReadings).values =
      [("=B ? A : B", .undefined)] := by
  have hfirst : Formula.ofSource ⟨.simplified, 64⟩ (sourceOfName "=A") =
      .ok ⟨.simplified, [.symbol "A"]⟩ := by
    have htokens : Formula.tokenize (sourceOfName "=A") = .ok [⟨.name "A", ⟨0, 1⟩⟩] := by cbv
    rw [Formula.ofSource, Formula.parse, htokens]
    rfl
  have hlate : Formula.ofSource ⟨.simplified, 64⟩ (sourceOfName "=B ? A : B") =
      .ok ⟨.simplified, [.conditional (.symbol "B") (.symbol "A") (some (.symbol "B"))]⟩ := by
    have htokens : Formula.tokenize (sourceOfName "=B ? A : B") =
        .ok [⟨.name "B", ⟨0, 1⟩⟩, ⟨.question, ⟨2, 3⟩⟩, ⟨.name "A", ⟨4, 5⟩⟩, ⟨.colon, ⟨6, 7⟩⟩,
          ⟨.name "B", ⟨8, 9⟩⟩] := by cbv
    rw [Formula.ofSource, Formula.parse, htokens]
    rfl
  have hregister : (ofOptions ⟨.simplified, 64⟩).step (.register "=A") = _ :=
    step_of_ofSource hfirst rfl rfl rfl
  rw [lateOperations, after, List.foldl_cons, List.foldl_cons, List.foldl_cons, List.foldl_nil,
    hregister, step_of_ofSource hlate ?_ rfl ?_]
  · exact ⟨_, rfl, rfl, rfl, rfl, rfl, rfl⟩
  · rfl
  · rfl

/-- **What a simplified display shows.** A delivery reports formulas with their value under
the mappings of the display and in the readings that have reached them. Where the last
delivery of an identifier since the display was cleared has reached a formula, this is the
latest reading that the display was given. -/
theorem values_deliver (hdialect : options.dialect = .simplified)
    (operations : List Operation) (readings : List (String × Reading)) :
    List.Forall₂ (fun place told => ∃ f,
        ((ofOptions options).after operations).installed[place]? = some ⟨told.1, f⟩ ∧
        ∀ bindings : Bindings,
          (∀ path, bindings.resolve? path =
            ((ofOptions options).after operations).bindings.resolve? path) →
          (∀ id ∈ f.parameters, bindings.reading? id =
            reached? options (operations ++ [.deliver readings]) place id) →
          told.2 = f.valueIn bindings)
      (((ofOptions options).after operations).due readings)
      (((ofOptions options).after operations).deliver readings).values ∧
    ∀ before batch rest place id,
      place ∈ needing ((ofOptions options).after before).installed id →
      lastOf? id batch ≠ none → (∀ operation ∈ rest, operation.Spares id) →
      reached? options (before ++ .deliver batch :: rest) place id =
        latest? (before ++ .deliver batch :: rest) id := by
  refine ⟨?_, fun _ _ _ _ _ => reached?_eq_latest?⟩
  refine (forall₂_due_values (coherent_after options operations) readings).imp ?_
  rintro place told ⟨f, run, hf, hrun, hvalue⟩
  refine ⟨f, hf, fun bindings hpaths hreadings => ?_⟩
  rw [hvalue]
  exact result_of_receive? hdialect hf hrun hpaths hreadings

/-- The late formula is shown with its value in the one reading that has reached it, which is
the latest one of its identifier. -/
theorem values_deliver_late :
    (⟨.simplified, 64⟩ : Formula.Options).dialect = .simplified ∧
      (∃ f, ((ofOptions ⟨.simplified, 64⟩).after lateOperations).installed[1]? =
          some ⟨"=B ? A : B", f⟩ ∧
        (((ofOptions ⟨.simplified, 64⟩).after lateOperations).deliver lateReadings).values =
          [("=B ? A : B", f.valueIn (Bindings.empty.update "B" ⟨.boolean true, none⟩))]) ∧
      1 ∈ needing ((ofOptions ⟨.simplified, 64⟩).after lateOperations).installed "B" ∧
      lastOf? "B" lateReadings ≠ none ∧
      reached? ⟨.simplified, 64⟩ (lateOperations ++ [.deliver lateReadings]) 1 "B" =
        latest? (lateOperations ++ [.deliver lateReadings]) "B" := by
  obtain ⟨f, hf, hformula, hknown, hbindings, hdue, -⟩ := lateOperations_spec
  have hreached : ∀ id ∈ f.parameters,
      (Bindings.empty.update "B" ⟨.boolean true, none⟩).reading? id =
      reached? ⟨.simplified, 64⟩ (lateOperations ++ [.deliver lateReadings]) 1 id := by
    intro id hid
    have hneeds : 1 ∈ needing ((ofOptions ⟨.simplified, 64⟩).after lateOperations).installed id :=
      mem_needing_iff.mpr ⟨_, hf, hid⟩
    rw [reached?_concat, reach, if_pos hneeds, ← reading?_eq_reached? hf, hknown,
      Bindings.reading?_update]
    show _ = (if "B" = id then some _ else none).or none
    split
    · rfl
    · rfl
  have hsimplified : (⟨.simplified, 64⟩ : Formula.Options).dialect = .simplified := rfl
  obtain ⟨hshown, hlatest⟩ := values_deliver hsimplified lateOperations lateReadings
  rw [hdue] at hshown
  obtain ⟨told, rest, ⟨g, hg, hvalue⟩, htail, hvalues⟩ := List.forall₂_cons_left_iff.mp hshown
  obtain rfl := List.forall₂_nil_left_iff.mp htail
  rw [hf, Option.some.injEq, Installed.mk.injEq] at hg
  obtain ⟨hname, rfl⟩ := hg
  have hneeds : 1 ∈ needing ((ofOptions ⟨.simplified, 64⟩).after lateOperations).installed "B" := by
    refine mem_needing_iff.mpr ⟨_, hf, ?_⟩
    rw [LiveFormula.parameters, hformula, hknown]
    decide
  have hlast : lastOf? "B" lateReadings ≠ none := by decide
  have hrest : ∀ operation ∈ ([] : List Operation), operation.Spares "B" := by simp
  refine ⟨hsimplified, ⟨f, hf, ?_⟩, hneeds, hlast, hlatest _ _ [] 1 "B" hneeds hlast hrest⟩
  rw [hvalues, ← hvalue _ (fun path => by rw [hbindings]; rfl) hreached, hname]

/-- Every value that a delivery reports is that of the formula in the latest readings that the
display was given. -/
def ShowsLatest (options : Formula.Options) (operations : List Operation)
    (readings : List (String × Reading)) : Prop :=
  List.Forall₂ (fun place told => ∃ f,
      ((ofOptions options).after operations).installed[place]? = some ⟨told.1, f⟩ ∧
      ∀ bindings : Bindings,
        (∀ path, bindings.resolve? path =
          ((ofOptions options).after operations).bindings.resolve? path) →
        (∀ id ∈ f.parameters, bindings.reading? id =
          latest? (operations ++ [.deliver readings]) id) →
        told.2 = f.valueIn bindings)
    (((ofOptions options).after operations).due readings)
    (((ofOptions options).after operations).deliver readings).values

/-- A formula that is installed late is not shown with its value in the latest readings: it
lacks what was delivered before. -/
theorem not_showsLatest : ¬ ShowsLatest ⟨.simplified, 64⟩ lateOperations lateReadings := by
  obtain ⟨f, hf, hformula, -, hbindings, hdue, hvalues⟩ := lateOperations_spec
  let latest : Bindings := (Bindings.empty.update "A" ⟨.boolean true, none⟩).update "B"
    ⟨.boolean true, none⟩
  have hlatest : ∀ id, latest.reading? id =
      latest? (lateOperations ++ [.deliver lateReadings]) id := by
    intro id
    show latest.reading? id = (if "B" = id then some _ else none).or
      ((if "A" = id then some _ else none).or none)
    rw [Bindings.reading?_update, Bindings.reading?_update]
    split
    · rfl
    · split
      · rfl
      · rfl
  have hvalue : f.valueIn latest = .boolean true := by
    rw [LiveFormula.valueIn, hformula]
    rfl
  rw [ShowsLatest, hdue, hvalues]
  intro hshown
  obtain ⟨⟨g, hg, hequal⟩, -⟩ := List.forall₂_cons.mp hshown
  obtain rfl : f = g := by
    rw [hf] at hg
    cases hg
    rfl
  have hundefined := hequal latest (fun path => by rw [hbindings]; rfl) fun id _ => hlatest id
  rw [hvalue] at hundefined
  cases hundefined

end Display

end Dashboard
