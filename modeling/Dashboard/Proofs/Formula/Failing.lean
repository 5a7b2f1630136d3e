import Dashboard.LiveFormula
import Dashboard.Proofs.Formula.Composition
import Dashboard.Proofs.Formula.Soundness
import Mathlib

/-!
# What can Go Wrong in a Formula

An evaluation coerces whatever it is given, so only its calls can go wrong: a function may be
unknown, a function of one number may be given some other number of arguments, and an accessor
may be given something that names no data source. An evaluation that fails does so by a fault
that one of the calls in its tree is to blame for, whatever it is evaluated in.

In a formula that has been read the third of these cannot happen. No keyword is the name of a
symbol or of a function there, only the legacy dialect has assignments and several statements,
and every accessor has its argument. All this is a matter of single nodes, and the nodes of a
well-formed tree are well-formed trees themselves.

## Main results

* `Expr.WellFormed.of_mem_nodes` — the nodes of a well-formed tree are well formed.
* `exists_blames_of_evaluate` — one of the calls is to blame if an evaluation fails.
* `LiveFormula.fails_only_by_calls` — what can go wrong in a formula that has been read.
-/

namespace Dashboard

namespace Formula

/-! ### Nodes -/

/-- A name is no keyword exactly if none is spelled like it in lower case. -/
theorem Keyword.ofName?_eq_none_iff {name : String} :
    ofName? name = none ↔
      ∀ keyword : Keyword, name.toList.map Char.toLower ≠ keyword.spelling.toList := by
  simp only [Option.eq_none_iff_forall_ne_some, ne_eq, ofName?_eq_some_iff]

/-- The name that a node holds: that of a symbol, of an assigned symbol, or of a function. -/
def Expr.ownName? : Expr → Option String
  | .symbol name => some name
  | .call callee _ => some callee
  | .assignment target _ => some target
  | _ => none

/-- **The nodes of a well-formed tree are well formed.** -/
theorem Expr.WellFormed.of_mem_nodes {dialect : Dialect} {e node : Expr}
    (h : e.WellFormed dialect) (hnode : node ∈ e.nodes) : node.WellFormed dialect := by
  induction h with
  | number | text | boolean | symbol =>
      obtain rfl := List.mem_singleton.mp hnode
      constructor <;> assumption
  | unary op hoperand ih =>
      rcases List.mem_cons.mp hnode with rfl | hnode
      · exact .unary op hoperand
      · exact ih hnode
  | binary op hleft hright ihl ihr =>
      simp only [Expr.nodes, List.mem_cons, List.mem_append] at hnode
      rcases hnode with rfl | hnode | hnode
      · exact .binary op hleft hright
      · exact ihl hnode
      · exact ihr hnode
  | logical op hleft hright ihl ihr =>
      simp only [Expr.nodes, List.mem_cons, List.mem_append] at hnode
      rcases hnode with rfl | hnode | hnode
      · exact .logical op hleft hright
      · exact ihl hnode
      · exact ihr hnode
  | conditional htest hconsequent iht ihc =>
      simp only [Expr.nodes, List.mem_cons, List.mem_append] at hnode
      rcases hnode with rfl | hnode | hnode
      · exact .conditional htest hconsequent
      · exact iht hnode
      · exact ihc hnode
  | alternative htest hconsequent halternate iht ihc iha =>
      simp only [Expr.nodes, List.mem_cons, List.mem_append] at hnode
      rcases hnode with rfl | (hnode | hnode) | hnode
      · exact .alternative htest hconsequent halternate
      · exact iht hnode
      · exact ihc hnode
      · exact iha hnode
  | call hname haccess harguments ih =>
      rw [Expr.nodes, Expr.nodesOfAll_eq_flatMap] at hnode
      rcases List.mem_cons.mp hnode with rfl | hnode
      · exact .call hname haccess harguments
      · obtain ⟨a, ha, hnode⟩ := List.mem_flatMap.mp hnode
        exact ih a ha hnode
  | assignment hdialect hname hvalue ih =>
      rcases List.mem_cons.mp hnode with rfl | hnode
      · exact .assignment hdialect hname hvalue
      · exact ih hnode

/-- No keyword is the name in a well-formed node. -/
theorem Expr.WellFormed.ofName?_ownName {dialect : Dialect} {node : Expr} {name : String}
    (h : node.WellFormed dialect) (hname : node.ownName? = some name) :
    Keyword.ofName? name = none := by
  cases h with
  | symbol hnone => cases hname; exact hnone
  | call hnone => cases hname; exact hnone
  | assignment _ hnone => cases hname; exact hnone
  | _ => cases hname

/-- The arguments that name a data source are a single text or symbol. -/
theorem sourceName?_eq_some_iff {arguments : List Expr} {name : String} :
    sourceName? arguments = some name ↔ arguments = [.text name] ∨ arguments = [.symbol name] := by
  constructor
  · intro h
    unfold sourceName? at h
    split at h
    · cases h; exact .inl rfl
    · cases h; exact .inr rfl
    · cases h
  · rintro (rfl | rfl) <;> rfl

/-- The nodes of a formula that has been read are well formed. -/
theorem wellFormed_nodes_of_ofSource {options : Options} {source : String} {f : Formula}
    (h : ofSource options source = .ok f) {node : Expr} (hnode : node ∈ f.nodes) :
    node.WellFormed options.dialect := by
  obtain ⟨-, hstatements⟩ := wellFormed_of_parse (parse_of_ofSource h)
  rw [Formula.nodes, Expr.nodesOfAll_eq_flatMap] at hnode
  obtain ⟨e, he, hnode⟩ := List.mem_flatMap.mp hnode
  exact (hstatements e he).of_mem_nodes hnode

/-- There is a statement, and only one in the simplified dialect. -/
theorem DerivesFormula.statements {dialect : Dialect} {kinds : List Token.Kind}
    {es : List Expr} (h : DerivesFormula dialect kinds es) :
    es ≠ [] ∧ (dialect = .simplified → ∃ e, es = [e]) := by
  cases h with
  | single => exact ⟨List.cons_ne_nil _ _, fun _ => ⟨_, rfl⟩⟩
  | trailing => exact ⟨List.cons_ne_nil _ _, fun _ => ⟨_, rfl⟩⟩
  | statement hlegacy =>
      refine ⟨List.cons_ne_nil _ _, fun hsimplified => ?_⟩
      rw [hlegacy] at hsimplified
      cases hsimplified

/-- An accepted formula has a statement, and a simplified one has just one. -/
theorem statements_of_ofSource {options : Options} {source : String} {f : Formula}
    (h : ofSource options source = .ok f) :
    f.statements ≠ [] ∧ (options.dialect = .simplified → ∃ e, f.statements = [e]) := by
  have hparse := parse_of_ofSource h
  rw [parse, Grammar.bind_eq_ok] at hparse
  obtain ⟨tokens, -, htokens⟩ := hparse
  exact (derivesFormula_of_ofTokens htokens).2.statements

/-! ### Faults -/

/-- A computation that fails with no other faults than some. -/
def FailsOnlyWith (faults : CallFault → Prop) {α : Type} (x : Evaluator α) : Prop :=
  ∀ ⦃memory fault after⦄, x.run memory = (.error fault, after) → faults fault

/-- A sequence fails with no other faults than its parts. -/
theorem failsOnlyWith_bind {faults : CallFault → Prop} {α β : Type} {x : Evaluator α}
    {k : α → Evaluator β} (hx : FailsOnlyWith faults x) (hk : ∀ a, FailsOnlyWith faults (k a)) :
    FailsOnlyWith faults (x >>= k) := by
  intro memory fault after h
  simp only [ExceptT.run_bind] at h
  simp only [bind, StateT.bind] at h
  cases hrun : x.run memory with
  | mk result middle =>
      rw [hrun] at h
      cases result with
      | error first =>
          cases h
          exact hx hrun
      | ok a => exact hk a h

/-- Failing only with some faults is inherited by sequences. -/
theorem compositional_failsOnlyWith (env : Environment) (faults : CallFault → Prop) :
    Compositional env (FailsOnlyWith faults) where
  pure _ := nofun
  lookUp _ := nofun
  print _ := nofun
  bind := failsOnlyWith_bind

/-- **One of the calls is to blame if an evaluation fails.** -/
theorem exists_blames_of_evaluate {f : Formula} {bindings : Bindings} {memory after : Memory}
    {fault : CallFault} (h : f.evaluate bindings memory = (.error fault, after)) :
    ∃ node ∈ f.nodes, fault.Blames node := by
  have hfails : FailsOnlyWith (fun fault => ∃ node ∈ f.nodes, fault.Blames node)
      (evaluateStatements ⟨f.dialect, bindings⟩ .undefined f.statements) := by
    refine (compositional_failsOnlyWith _ _).evaluateStatements (fun _ _ _ _ _ => nofun) ?_ _
    rintro α e he fault ⟨node, hnode, hblames⟩ memory _ after hthrow
    cases hthrow
    exact ⟨node, Expr.nodes_subset_nodesOfAll he hnode, hblames⟩
  exact hfails h

/-! ### Wording -/

/-- The message of a bad argument ends in a letter. -/
theorem getLast?_message_badArgument (callee : String) :
    (CallFault.badArgument callee).message.toList.getLast? = some 't' := by
  have hargument : " expects a single string or symbol argument".toList.getLast? = some 't' := by
    simp
  unfold CallFault.message
  dsimp only
  rw [String.toList_append, List.getLast?_append, hargument, Option.some_or]

/-- The message of an unknown function ends in a quote, so it is not that of a bad argument. -/
theorem getLast?_message_unknownFunction (callee : String) :
    (CallFault.unknownFunction callee).message.toList.getLast? = some '\'' := by
  unfold CallFault.message
  dsimp only
  rw [String.toList_append, List.getLast?_append]
  rfl

/-- The message of a wrong number of arguments ends with a digit. -/
theorem getLast?_message_arity (callee : String) (given : Nat) :
    (CallFault.arity callee given).message.toList.getLast? ≠ some 't' := by
  have hdigits : (toString given).toList = Nat.toDigits 10 given := by simp [toString, Nat.repr]
  unfold CallFault.message
  dsimp only
  rw [String.toList_append, List.getLast?_append, hdigits]
  cases hlast : (Nat.toDigits 10 given).getLast? with
  | none => exact absurd (List.getLast?_eq_none_iff.mp hlast) Nat.toDigits_ne_nil
  | some digit =>
      rw [Option.some_or]
      rintro ⟨⟩
      have hmem := List.mem_of_getLast? hlast
      have hdigit := Nat.isDigit_of_mem_toDigits (by decide) (by decide) hmem
      exact absurd hdigit (by decide)

/-- **No other fault is worded as that of an accessor** without a data source. -/
theorem message_ne_badArgument (fault : CallFault) (h : ∀ callee, fault ≠ .badArgument callee)
    (callee : String) : fault.message ≠ (CallFault.badArgument callee).message := by
  intro heq
  have hlast := getLast?_message_badArgument callee
  rw [← heq] at hlast
  cases fault with
  | unknownFunction name =>
      rw [getLast?_message_unknownFunction] at hlast
      cases hlast
  | arity name given => exact getLast?_message_arity name given hlast
  | badArgument name => exact h name rfl

/-- Every call is one of a known function, and those of functions of one number have one
argument. -/
def CallsKnown (f : Formula) : Prop :=
  ∀ callee arguments, .call callee arguments ∈ f.nodes →
    ∃ b, Builtin.ofName? callee = some b ∧ ∀ m, b = .math m → arguments.length = 1

end Formula

namespace LiveFormula

open Formula (Builtin CallFault Keyword isAccessor)

/-- If an evaluation fails, one of the calls of the formula is to blame. -/
theorem exists_blames_of_run {f : LiveFormula} {failure : Failure}
    (h : f.run.result = .error failure) :
    ∃ fault node, node ∈ f.formula.nodes ∧ CallFault.Blames fault node ∧
      failure = fault.toFailure := by
  cases hevaluate : f.formula.evaluate f.bindings ⟨f.symbols, []⟩ with
  | mk result memory =>
      simp only [run, hevaluate] at h
      cases result with
      | ok value => cases h
      | error fault =>
          cases h
          obtain ⟨node, hnode, hblames⟩ := Formula.exists_blames_of_evaluate hevaluate
          exact ⟨fault, node, hnode, hblames, rfl⟩

/-- If an evaluation of a formula that has been read fails, a call names a function that is unknown,
or gives a function of one number another number of arguments. An accessor is not to blame, as it
has been read with its argument. -/
theorem exists_call_of_run {options : Formula.Options} {source : String} {f : LiveFormula}
    (hsource : Formula.ofSource options source = .ok f.formula) {failure : Failure}
    (h : f.run.result = .error failure) :
    ∃ callee arguments, .call callee arguments ∈ f.formula.nodes ∧
      (Builtin.ofName? callee = none ∧
          failure = (CallFault.unknownFunction callee).toFailure ∨
        (∃ m, Builtin.ofName? callee = some (.math m)) ∧ arguments.length ≠ 1 ∧
          failure = (CallFault.arity callee arguments.length).toFailure) := by
  obtain ⟨fault, node, hnode, hblames, rfl⟩ := exists_blames_of_run h
  cases hblames with
  | unknownFunction hnone => exact ⟨_, _, hnode, .inl ⟨hnone, rfl⟩⟩
  | arity hmath hlength => exact ⟨_, _, hnode, .inr ⟨⟨_, hmath⟩, hlength, rfl⟩⟩
  | badArgument haccessor hnone =>
      cases Formula.wellFormed_nodes_of_ofSource hsource hnode with
      | call _ haccess _ =>
          have hsome := haccess haccessor
          rw [hnone] at hsome
          cases hsome

/-- **Only calls go wrong in a formula that has been read.** It has one statement and no
assignment in the simplified dialect and at least one statement in the legacy dialect, none of
its names is a keyword in any letter case, and every accessor has a single text or symbol. If
an evaluation fails, in whatever state, then one of the calls names a function that is unknown,
or gives a function of one number another number of arguments, and the failure says so. It
never is that of an accessor, and there is none if all functions are known and have as many
arguments as they take. -/
theorem fails_only_by_calls {options : Formula.Options} {source : String} {formula : Formula}
    (hsource : Formula.ofSource options source = .ok formula) :
    (formula.statements ≠ [] ∧ (options.dialect = .simplified →
      (∃ e, formula.statements = [e]) ∧
        ∀ target value, .assignment target value ∉ formula.nodes)) ∧
    (∀ node ∈ formula.nodes, ∀ name, node.ownName? = some name → ∀ keyword : Keyword,
      name.toList.map Char.toLower ≠ keyword.spelling.toList) ∧
    (∀ callee arguments, .call callee arguments ∈ formula.nodes → isAccessor callee = true →
      ∃ name, arguments = [.text name] ∨ arguments = [.symbol name]) ∧
    ∀ f : LiveFormula, f.formula = formula →
      (∀ failure, f.run.result = .error failure →
        ∃ callee arguments, .call callee arguments ∈ formula.nodes ∧
          (Builtin.ofName? callee = none ∧
              failure = .unsupported ("unknown function '" ++ callee ++ "'") ∨
            (∃ m, Builtin.ofName? callee = some (.math m)) ∧ arguments.length ≠ 1 ∧
              failure = .unsupported (callee ++ "/" ++ toString arguments.length))) ∧
      (∀ callee, f.run.result ≠
        .error (.unsupported (callee ++ " expects a single string or symbol argument"))) ∧
      (formula.CallsKnown → ∃ value, f.run.result = .ok value) := by
  have hwf : ∀ {node}, node ∈ formula.nodes → node.WellFormed options.dialect :=
    Formula.wellFormed_nodes_of_ofSource hsource
  obtain ⟨hne, hsingle⟩ := Formula.statements_of_ofSource hsource
  refine ⟨⟨hne, fun hsimplified => ⟨hsingle hsimplified, ?_⟩⟩, ?_, ?_, ?_⟩
  · intro target value hnode
    cases hwf hnode with
    | assignment hlegacy =>
        rw [hsimplified] at hlegacy
        cases hlegacy
  · intro node hnode name hname
    exact Keyword.ofName?_eq_none_iff.mp ((hwf hnode).ofName?_ownName hname)
  · intro callee arguments hnode haccessor
    cases hwf hnode with
    | call _ haccess _ =>
        obtain ⟨name, hname⟩ := Option.isSome_iff_exists.mp (haccess haccessor)
        exact ⟨name, Formula.sourceName?_eq_some_iff.mp hname⟩
  · rintro f rfl
    refine ⟨fun failure => exists_call_of_run hsource, ?_, ?_⟩
    · intro callee hfailure
      obtain ⟨name, arguments, -, ⟨-, heq⟩ | ⟨-, -, heq⟩⟩ := exists_call_of_run hsource hfailure
      · injection heq with heq
        exact Formula.message_ne_badArgument (.unknownFunction name) nofun callee heq.symm
      · injection heq with heq
        exact Formula.message_ne_badArgument (.arity name arguments.length) nofun callee heq.symm
    · intro hknown
      cases hresult : f.run.result with
      | ok value => exact ⟨value, rfl⟩
      | error failure =>
          obtain ⟨callee, arguments, hnode, hfault⟩ := exists_call_of_run hsource hresult
          obtain ⟨b, hb, hone⟩ := hknown callee arguments hnode
          rcases hfault with ⟨hnone, -⟩ | ⟨⟨m, hmath⟩, hlength, -⟩
          · rw [hnone] at hb
            cases hb
          · rw [hmath] at hb
            exact absurd (hone m (Option.some.inj hb).symm) hlength

/-- A legacy formula that takes a root of two numbers unless an alarm is on. -/
def alarmed : LiveFormula where
  source := "x = alarm; x ? siren(x) : sqrt(x, x)"
  formula := ⟨.legacy, [.assignment "x" (.symbol "alarm"), .conditional (.symbol "x")
    (.call "siren" [.symbol "x"]) (some (.call "sqrt" [.symbol "x", .symbol "x"]))]⟩
  bindings := Bindings.empty.map "alarm" "ALARM"
  symbols := .empty

/-- With the alarm it calls a function that is unknown, and without it one that takes a single
number. -/
theorem fails_only_by_calls_alarmed :
    Formula.ofSource ⟨.legacy, 64⟩ alarmed.source = .ok alarmed.formula ∧
      alarmed.run.result = .error (.unsupported "sqrt/2") ∧
      (alarmed.update "ALARM" ⟨.boolean true, none⟩).run.result =
        .error (.unsupported "unknown function 'siren'") ∧
      ¬ alarmed.formula.CallsKnown := by
  have htokens : Formula.tokenize "x = alarm; x ? siren(x) : sqrt(x, x)" =
      .ok [⟨.name "x", ⟨0, 1⟩⟩, ⟨.assign, ⟨2, 3⟩⟩, ⟨.name "alarm", ⟨4, 9⟩⟩,
        ⟨.semicolon, ⟨9, 10⟩⟩, ⟨.name "x", ⟨11, 12⟩⟩, ⟨.question, ⟨13, 14⟩⟩,
        ⟨.name "siren", ⟨15, 20⟩⟩, ⟨.leftParen, ⟨20, 21⟩⟩, ⟨.name "x", ⟨21, 22⟩⟩,
        ⟨.rightParen, ⟨22, 23⟩⟩, ⟨.colon, ⟨24, 25⟩⟩, ⟨.name "sqrt", ⟨26, 30⟩⟩,
        ⟨.leftParen, ⟨30, 31⟩⟩, ⟨.name "x", ⟨31, 32⟩⟩, ⟨.comma, ⟨32, 33⟩⟩,
        ⟨.name "x", ⟨34, 35⟩⟩, ⟨.rightParen, ⟨35, 36⟩⟩] := by cbv
  have hsource : Formula.ofSource ⟨.legacy, 64⟩ alarmed.source = .ok alarmed.formula :=
    Formula.ofSource_of_tokenize htokens rfl
  have hfails : alarmed.run.result = .error (.unsupported "sqrt/2") := rfl
  refine ⟨hsource, hfails, rfl, fun hknown => ?_⟩
  obtain ⟨-, -, -, hlive⟩ := fails_only_by_calls hsource
  obtain ⟨value, hvalue⟩ := (hlive alarmed rfl).2.2 hknown
  rw [hfails] at hvalue
  cases hvalue

end LiveFormula

end Dashboard
