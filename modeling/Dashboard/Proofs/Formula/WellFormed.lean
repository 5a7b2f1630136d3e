import Dashboard.Formula.References
import Dashboard.Proofs.Formula.Inversion

/-!
# Well-Formed Formula Trees

Not every tree is one that a formula can spell. A symbol that is spelled like a keyword
would be read as the keyword, an accessor takes one text or symbol, and only the legacy
dialect has assignments. `WellFormed` collects these conditions, one constructor for each
kind of node; by induction on it, whatever the constructors preserve holds of every formula
that can be read.

Statements on all trees go by `Expr.inductionOn`, whose cases are the kinds of nodes, with
the two forms of a conditional apart and the arguments of a call taken together.

## Main results

* `Expr.inductionOn` — induction on formula trees.
* `targets_of_wellFormed_simplified` — a simplified tree assigns no symbol.
* `Grammar.rules_wellFormed` — the rules of every nesting level yield well-formed trees.
* `wellFormed_of_parse` — every statement of a formula that can be read is well formed.
-/

namespace Dashboard.Formula

/-! ### Induction -/

/-- **Induction on formula trees**, one case for each kind of node. -/
@[elab_as_elim]
theorem Expr.inductionOn {motive : Expr → Prop}
    (number : ∀ value, motive (.number value))
    (text : ∀ value, motive (.text value))
    (boolean : ∀ value, motive (.boolean value))
    (symbol : ∀ name, motive (.symbol name))
    (unary : ∀ op operand, motive operand → motive (.unary op operand))
    (binary : ∀ op left right, motive left → motive right → motive (.binary op left right))
    (logical : ∀ op left right, motive left → motive right → motive (.logical op left right))
    (conditional : ∀ test consequent, motive test → motive consequent →
      motive (.conditional test consequent none))
    (alternative : ∀ test consequent alternate, motive test → motive consequent →
      motive alternate → motive (.conditional test consequent (some alternate)))
    (call : ∀ callee arguments, (∀ a ∈ arguments, motive a) → motive (.call callee arguments))
    (assignment : ∀ target value, motive value → motive (.assignment target value))
    (e : Expr) : motive e := by
  refine Expr.rec (motive_1 := motive) (motive_2 := fun o => ∀ a ∈ o, motive a)
    (motive_3 := fun l => ∀ a ∈ l, motive a) number text boolean symbol unary binary logical
    ?_ call assignment ?_ ?_ ?_ ?_ e
  · intro test consequent alternate htest hconsequent halternate
    cases alternate with
    | none => exact conditional test consequent htest hconsequent
    | some a => exact alternative test consequent a htest hconsequent (halternate a rfl)
  · intro a ha
    cases ha
  · intro a ha b hb
    cases hb
    exact ha
  · intro a ha
    cases ha
  · intro a rest ha hrest b hb
    rcases List.mem_cons.mp hb with rfl | hb
    · exact ha
    · exact hrest b hb

/-! ### Well-formed trees -/

/-- The trees that a formula of a dialect can spell. -/
inductive Expr.WellFormed (dialect : Dialect) : Expr → Prop
  | number (value : Float) : WellFormed dialect (.number value)
  | text (value : String) : WellFormed dialect (.text value)
  | boolean (value : Bool) : WellFormed dialect (.boolean value)
  | symbol {name : String} : Keyword.ofName? name = none → WellFormed dialect (.symbol name)
  | unary (op : UnaryOp) {operand : Expr} :
      WellFormed dialect operand → WellFormed dialect (.unary op operand)
  | binary (op : BinaryOp) {left right : Expr} : WellFormed dialect left →
      WellFormed dialect right → WellFormed dialect (.binary op left right)
  | logical (op : LogicalOp) {left right : Expr} : WellFormed dialect left →
      WellFormed dialect right → WellFormed dialect (.logical op left right)
  | conditional {test consequent : Expr} : WellFormed dialect test →
      WellFormed dialect consequent → WellFormed dialect (.conditional test consequent none)
  | alternative {test consequent alternate : Expr} : WellFormed dialect test →
      WellFormed dialect consequent → WellFormed dialect alternate →
      WellFormed dialect (.conditional test consequent (some alternate))
  /-- An accessor has a single text or symbol as its argument. -/
  | call {callee : String} {arguments : List Expr} : Keyword.ofName? callee = none →
      (isAccessor callee = true → (sourceName? arguments).isSome = true) →
      (∀ a ∈ arguments, WellFormed dialect a) → WellFormed dialect (.call callee arguments)
  /-- Only the legacy dialect assigns symbols. -/
  | assignment {target : String} {value : Expr} : dialect = .legacy →
      Keyword.ofName? target = none → WellFormed dialect value →
      WellFormed dialect (.assignment target value)

/-! ### Assigned symbols -/

/-- The symbols that several trees assign are those that one of them assigns. -/
theorem Expr.targetsOfAll_eq_flatMap (es : List Expr) :
    Expr.targetsOfAll es = es.flatMap Expr.targets := by
  induction es with
  | nil => rfl
  | cons e rest ih => rw [Expr.targetsOfAll, ih, List.flatMap_cons]

/-- A simplified tree assigns no symbol. -/
theorem targets_of_wellFormed_simplified {e : Expr} (h : e.WellFormed .simplified) :
    e.targets = [] := by
  induction h with
  | number | text | boolean | symbol => rfl
  | unary op _ ih => exact ih
  | binary op _ _ ihl ihr => rw [Expr.targets, ihl, ihr, List.append_nil]
  | logical op _ _ ihl ihr => rw [Expr.targets, ihl, ihr, List.append_nil]
  | conditional _ _ iht ihc => rw [Expr.targets, iht, ihc, List.append_nil]
  | alternative _ _ _ iht ihc iha =>
      rw [Expr.targets, iht, ihc, iha, List.append_nil, List.append_nil]
  | call _ _ _ ih =>
      rw [Expr.targets, Expr.targetsOfAll_eq_flatMap, List.flatMap_eq_nil_iff.mpr ih, ite_self]
  | assignment hdialect => cases hdialect

/-! ### Reading yields well-formed trees -/

namespace Grammar

/-- All trees that a rule reads are well formed. -/
def YieldsWellFormed (dialect : Dialect) (rule : Rule) : Prop :=
  ∀ ⦃ts e rest⦄, rule ts = .ok (e, rest) → e.WellFormed dialect

/-- The rules of a nesting level read well-formed trees, those that go on from what stands
to the left if that is well formed. -/
structure Inner.WellFormed (dialect : Dialect) (rules : Inner) : Prop where
  assignment : YieldsWellFormed dialect rules.assignment
  branching : YieldsWellFormed dialect rules.branching
  power : YieldsWellFormed dialect rules.power
  signed : YieldsWellFormed dialect rules.signed
  operand : ∀ tier, YieldsWellFormed dialect (rules.operand tier)
  chain : ∀ tier left, left.WellFormed dialect →
    YieldsWellFormed dialect (rules.chain tier left)
  suffixes : ∀ e, e.WellFormed dialect → YieldsWellFormed dialect (rules.suffixes e)

/-- Joining two well-formed operands gives a well-formed tree. -/
theorem Joint.wellFormed_join {dialect : Dialect} (joint : Joint) {left right : Expr}
    (hleft : left.WellFormed dialect) (hright : right.WellFormed dialect) :
    (joint.join left right).WellFormed dialect := by
  cases joint with
  | logical op => exact .logical op hleft hright
  | binary op => exact .binary op hleft hright

section Level

variable {scope : Scope} {inner : Option (Unit → Inner)}
  (hinner : ∀ below, inner = some below → (below ()).WellFormed scope.options.dialect)

include hinner

/-- Expressions are well formed if the rules one level further in read well-formed trees. -/
theorem expression_wellFormed :
    YieldsWellFormed scope.options.dialect (expression scope inner) := by
  intro ts e rest h
  obtain ⟨below, hbelow, h⟩ := nested_eq_ok h
  exact (hinner below hbelow).assignment h

/-- Every argument is well formed. -/
theorem arguments_wellFormed {n : Nat} {ts rest : List Token} {given : List Expr}
    (h : arguments scope inner n ts = .ok (given, rest)) :
    ∀ a ∈ given, a.WellFormed scope.options.dialect := by
  induction n generalizing ts given with
  | zero =>
      cases h
      exact nofun
  | succ n ih =>
      obtain ⟨first, middle, hfirst, hrest⟩ := arguments_succ_eq_ok h
      have hwf := expression_wellFormed hinner hfirst
      rcases hrest with ⟨_, more, others, _, hothers, rfl⟩ | ⟨-, rfl⟩
      · intro a ha
        rcases List.mem_cons.mp ha with rfl | ha
        · exact hwf
        · exact ih hothers a ha
      · intro a ha
        rw [List.mem_singleton] at ha
        exact ha ▸ hwf

/-- A call of what is no keyword is well formed. -/
theorem call_wellFormed {callee : String} (hname : Keyword.ofName? callee = none)
    (offset : Nat) : YieldsWellFormed scope.options.dialect (call scope inner callee offset) := by
  intro ts e rest h
  obtain ⟨given, middle, hgiven, -, haccess, rfl⟩ := call_eq_ok h
  refine .call hname haccess ?_
  rcases hgiven with ⟨_, _, _, rfl, _⟩ | hgiven
  · exact nofun
  · exact arguments_wellFormed hinner hgiven

/-- What a name begins is well formed. -/
theorem named_wellFormed (name : String) (offset : Nat) (ts : List Token) :
    YieldsWellFormed scope.options.dialect (named scope inner name offset ts) := by
  intro following e rest h
  rcases named_eq_ok h with ⟨-, rfl, -⟩ | ⟨-, rfl, -⟩ | ⟨-, h⟩ | ⟨hname, _, _, _, h⟩ |
    ⟨hname, rfl, -⟩
  · exact .boolean true
  · exact .boolean false
  · obtain ⟨below, hbelow, h⟩ := nested_eq_ok h
    exact (hinner below hbelow).branching h
  · exact call_wellFormed hinner hname offset h
  · exact .symbol hname

/-- Operands are well formed. -/
theorem primary_wellFormed : YieldsWellFormed scope.options.dialect (primary scope inner) := by
  intro ts e rest h
  obtain ⟨_, _, ⟨value, -, rfl, -⟩ | ⟨value, -, rfl, -⟩ | ⟨-, _, hinside, -⟩ |
    ⟨-, _, _, hinside, -, rfl⟩ | ⟨name, -, hnamed⟩⟩ := primary_eq_ok h
  · exact .number value
  · exact .text value
  · exact expression_wellFormed hinner hinside
  · exact .unary .abs (expression_wellFormed hinner hinside)
  · exact named_wellFormed hinner _ _ _ hnamed

/-- Suffixes leave a well-formed operand well formed. -/
theorem suffixes_wellFormed {left : Expr} (hleft : left.WellFormed scope.options.dialect) :
    YieldsWellFormed scope.options.dialect (suffixes scope inner left) := by
  intro ts e rest h
  rcases suffixes_eq_ok h with ⟨op, below, -, hbelow, h⟩ | ⟨-, rfl, -⟩
  · exact (hinner below hbelow).suffixes _ (.unary op hleft) h
  · exact hleft

/-- Operands with signs are well formed. -/
theorem signed_wellFormed : YieldsWellFormed scope.options.dialect (signed scope inner) := by
  intro ts e rest h
  rcases signed_eq_ok h with ⟨op, below, operand, -, hbelow, hoperand, rfl⟩ | ⟨-, hsuffixed⟩
  · exact .unary op ((hinner below hbelow).signed hoperand)
  · obtain ⟨operand, middle, hoperand, hsuffixes⟩ := suffixed_eq_ok hsuffixed
    exact suffixes_wellFormed hinner (primary_wellFormed hinner hoperand) hsuffixes

/-- Powers are well formed. -/
theorem power_wellFormed : YieldsWellFormed scope.options.dialect (power scope inner) := by
  intro ts e rest h
  obtain ⟨base, middle, hbase, hrest⟩ := power_eq_ok h
  have hwf := signed_wellFormed hinner hbase
  rcases hrest with ⟨_, _, below, exponent, -, hbelow, hexponent, rfl⟩ | ⟨rfl, -⟩
  · exact .binary .pow hwf ((hinner below hbelow).power hexponent)
  · exact hwf

/-- The operators of a tier leave a well-formed left operand well formed. -/
theorem chain_wellFormed (tier : Tier) {left : Expr}
    (hleft : left.WellFormed scope.options.dialect) :
    YieldsWellFormed scope.options.dialect (chain scope inner tier left) := by
  intro ts e rest h
  rcases chain_eq_ok h with ⟨t, more, joint, below, right, middle, -, -, hbelow, hright, h⟩ |
    ⟨-, rfl, -⟩
  · have hwf := (hinner below hbelow).operand tier hright
    exact (hinner below hbelow).chain tier _ (joint.wellFormed_join hleft hwf) h
  · exact hleft

/-- The chains of all tiers are well formed, by induction on the tiers. -/
theorem joined_wellFormed (tiers : List Tier) :
    YieldsWellFormed scope.options.dialect (joined scope inner tiers) := by
  induction tiers with
  | nil => exact power_wellFormed hinner
  | cons tier tighter ih =>
      intro ts e rest h
      obtain ⟨left, middle, hleft, h⟩ := joined_cons_eq_ok h
      exact chain_wellFormed hinner tier (ih hleft) h

/-- With or without a second branch, a conditional of well-formed parts is well formed. -/
theorem conditional_of_alternate {test consequent : Expr} {other : Option Expr}
    {present : Bool} {ts rest : List Token} (htest : test.WellFormed scope.options.dialect)
    (hconsequent : consequent.WellFormed scope.options.dialect)
    (h : alternate scope inner present ts = .ok (other, rest)) :
    (Expr.conditional test consequent other).WellFormed scope.options.dialect := by
  rcases alternate_eq_ok h with ⟨-, e, he, rfl⟩ | ⟨-, rfl, -⟩
  · exact .alternative htest hconsequent (expression_wellFormed hinner he)
  · exact .conditional htest hconsequent

/-- Conditionals in words are well formed. -/
theorem branching_wellFormed : YieldsWellFormed scope.options.dialect (branching scope inner) := by
  intro ts e rest h
  obtain ⟨test, consequent, other, _, _, -, htest, -, hconsequent, hother, rfl⟩ :=
    branching_eq_ok h
  exact conditional_of_alternate hinner (expression_wellFormed hinner htest)
    (expression_wellFormed hinner hconsequent) hother

/-- Conditionals are well formed. -/
theorem conditional_wellFormed :
    YieldsWellFormed scope.options.dialect (conditional scope inner) := by
  intro ts e rest h
  rcases conditional_eq_ok h with ⟨-, h⟩ | ⟨-, test, middle, htest, h⟩
  · exact branching_wellFormed hinner h
  · have hwf := joined_wellFormed hinner _ htest
    rcases h with ⟨_, _, consequent, other, _, -, hconsequent, hother, rfl⟩ | ⟨rfl, -⟩
    · exact conditional_of_alternate hinner hwf (expression_wellFormed hinner hconsequent) hother
    · exact hwf

/-- Assignments are well formed, as only the legacy dialect has them. -/
theorem assignment_wellFormed :
    YieldsWellFormed scope.options.dialect (assignment scope inner) := by
  intro ts e rest h
  obtain ⟨target, middle, htarget, hrest⟩ := assignment_eq_ok h
  have hwf := conditional_wellFormed hinner htarget
  rcases hrest with ⟨_, _, name, below, value, -, hlegacy, rfl, hbelow, hvalue, rfl⟩ | ⟨rfl, -⟩
  · cases hwf with
    | symbol hname => exact .assignment hlegacy hname ((hinner below hbelow).assignment hvalue)
  · exact hwf

/-- If the rules one level further in yield well-formed trees, so do those of a level. -/
theorem level_wellFormed : (level scope inner).WellFormed scope.options.dialect where
  assignment := assignment_wellFormed hinner
  branching := branching_wellFormed hinner
  power := power_wellFormed hinner
  signed := signed_wellFormed hinner
  operand tier := joined_wellFormed hinner tier.tighter
  chain tier _ hleft := chain_wellFormed hinner tier hleft
  suffixes _ he := suffixes_wellFormed hinner he

end Level

/-- **The rules of every nesting level yield well-formed trees**, by induction on the
budget. -/
theorem rules_wellFormed (scope : Scope) (budget : Nat) :
    (rules scope budget).WellFormed scope.options.dialect := by
  induction budget with
  | zero => exact level_wellFormed nofun
  | succ budget ih =>
      refine level_wellFormed ?_
      intro below hbelow
      cases hbelow
      exact ih

/-- Every expression is well formed. -/
theorem expressionWithin_wellFormed (scope : Scope) (budget : Nat) :
    YieldsWellFormed scope.options.dialect (expressionWithin scope budget) := by
  cases budget with
  | zero => exact expression_wellFormed nofun
  | succ budget =>
      refine expression_wellFormed ?_
      intro below hbelow
      cases hbelow
      exact rules_wellFormed scope budget

/-- Every statement is well formed. -/
theorem statements_wellFormed {scope : Scope} {n : Nat} {ts : List Token} {es : List Expr}
    (h : statements scope n ts = .ok es) : ∀ e ∈ es, e.WellFormed scope.options.dialect := by
  induction n generalizing ts es with
  | zero =>
      cases h
      exact nofun
  | succ n ih =>
      obtain ⟨first, rest, hfirst, h⟩ := statements_succ_eq_ok h
      have hwf := expressionWithin_wellFormed _ _ hfirst
      have hsingle : ∀ e ∈ [first], e.WellFormed scope.options.dialect := by
        intro e he
        rw [List.mem_singleton] at he
        exact he ▸ hwf
      rcases h with ⟨-, rfl⟩ | ⟨_, more, -, -, -, ⟨-, rfl⟩ | ⟨others, hothers, rfl, -⟩⟩
      · exact hsingle
      · exact hsingle
      · intro e he
        rcases List.mem_cons.mp he with rfl | he
        · exact hwf
        · exact ih hothers e he

end Grammar

/-- A formula that a list of tokens spells is of the dialect it was read in, and its
statements are well formed. -/
theorem wellFormed_of_ofTokens {options : Options} {sourceEnd : Nat} {tokens : List Token}
    {f : Formula} (h : ofTokens options sourceEnd tokens = .ok f) :
    f.dialect = options.dialect ∧ ∀ e ∈ f.statements, e.WellFormed options.dialect := by
  unfold ofTokens at h
  dsimp only at h
  split at h
  · cases h
  · rw [Grammar.bind_eq_ok] at h
    obtain ⟨statements, hstatements, h⟩ := h
    cases h
    exact ⟨rfl, Grammar.statements_wellFormed hstatements⟩

/-- **Every statement of a formula that can be read is well formed.** -/
theorem wellFormed_of_parse {options : Options} {source : String} {f : Formula}
    (h : parse options source = .ok f) :
    f.dialect = options.dialect ∧ ∀ e ∈ f.statements, e.WellFormed options.dialect := by
  rw [parse, Grammar.bind_eq_ok] at h
  obtain ⟨tokens, -, h⟩ := h
  exact wellFormed_of_ofTokens h

/-- A source is read to a formula only if it spells it. -/
theorem parse_of_ofSource {options : Options} {source : String} {f : Formula}
    (h : ofSource options source = .ok f) : parse options source = .ok f := by
  rw [ofSource] at h
  cases hparse : parse options source with
  | error fault =>
      rw [hparse] at h
      cases h
  | ok g =>
      rw [hparse] at h
      cases h
      rfl

end Dashboard.Formula
