import Dashboard.Proofs.Formula.Lockstep
import Dashboard.Proofs.Formula.RoundTrip
import Mathlib

/-!
# The Bound on Nesting

The bound on nesting is there to refuse formulas, and does nothing else. Read with a smaller
bound, a formula is the same, or is at fault in the same way at the same place, unless the
smaller bound is exceeded: the budget never decides which rule goes on.

Nor does a bound refuse anything if it is large enough for the number of tokens. Every level
is paid for by a token. One token pays for two levels where an `if` stands as an operand: the
rule for operands goes one level further in without taking it, and the test behind it is read
one level further in again. The first level of a formula is not paid for, so twice the number
of tokens and one more is enough.

## Main results

* `Grammar.innerAt_curbed` — the rules with a smaller budget are those with a larger one, curbed.
* `Grammar.innerAt_ample` — a budget is not exceeded if it has two levels for each token.
* `nestedTooDeep_of_message` — no other fault is worded as that of a formula nested too deep.
* `ofSource_curbed` — what a smaller bound does, and when it does nothing.
-/

namespace Dashboard.Formula

/-! ### Curbed computations -/

/-- A computation that is **curbed** at a limit gives what the other one gives, or comes upon
the limit. -/
def Curbed {α : Type} (limit : Nat) (x y : Except Fault α) : Prop :=
  x = y ∨ ∃ offset, x = .error ⟨offset, .nestedTooDeep limit⟩

/-- A computation is itself, curbed at any limit. -/
theorem Curbed.refl {α : Type} (limit : Nat) (x : Except Fault α) : Curbed limit x x := .inl rfl

/-- A sequence is curbed if its two parts are. -/
theorem Curbed.bind {α β : Type} {limit : Nat} {x y : Except Fault α}
    {k l : α → Except Fault β} (h : Curbed limit x y) (hk : ∀ a, Curbed limit (k a) (l a)) :
    Curbed limit (x >>= k) (y >>= l) := by
  rcases h with rfl | ⟨offset, rfl⟩
  · cases x with
    | error fault => exact .refl limit _
    | ok a => exact hk a
  · exact .inr ⟨offset, rfl⟩

/-- The limit that is exceeded, if this is what is wrong. -/
def Fault.Cause.limit? : Fault.Cause → Option Nat
  | .nestedTooDeep limit => some limit
  | _ => none

/-- A computation is **spared** if it comes upon no limit. -/
def Spared {α : Type} (x : Except Fault α) : Prop :=
  ∀ fault, x = .error fault → fault.cause.limit? = none

/-- A sequence is spared if its two parts are. -/
theorem Spared.bind {α β : Type} {x : Except Fault α} {k : α → Except Fault β} (h : Spared x)
    (hk : ∀ a, x = .ok a → Spared (k a)) : Spared (x >>= k) := by
  cases x with
  | error fault =>
      rintro _ ⟨⟩
      exact h fault rfl
  | ok a => exact hk a rfl

/-- A fault that is not about the limit is spared. -/
theorem spared_error {α : Type} {fault : Fault} (h : fault.cause.limit? = none) :
    Spared (.error fault : Except Fault α) := by
  rintro _ ⟨⟩
  exact h

/-- A success is spared. -/
theorem spared_ok {α : Type} (a : α) : Spared (.ok a) := nofun

namespace Grammar

/-! ### A smaller budget -/

/-- The scope of a formula under another bound on nesting. -/
def Scope.withLimit (scope : Scope) (limit : Nat) : Scope :=
  { scope with options := { scope.options with maxDepth := limit } }

/-- A rule is another one, curbed at a limit. -/
def CurbedRule (limit : Nat) (rule rule' : Rule) : Prop :=
  ∀ ts, Curbed limit (rule ts) (rule' ts)

/-- The rules of a nesting level are those of another one, curbed at a limit. -/
structure Inner.Curbed (limit : Nat) (rules rules' : Inner) : Prop where
  assignment : CurbedRule limit rules.assignment rules'.assignment
  branching : CurbedRule limit rules.branching rules'.branching
  power : CurbedRule limit rules.power rules'.power
  signed : CurbedRule limit rules.signed rules'.signed
  operand : ∀ tier, CurbedRule limit (rules.operand tier) (rules'.operand tier)
  chain : ∀ tier left, CurbedRule limit (rules.chain tier left) (rules'.chain tier left)
  suffixes : ∀ e, CurbedRule limit (rules.suffixes e) (rules'.suffixes e)

section Level

variable {scope : Scope} {limit : Nat} {inner inner' : Option (Unit → Inner)}
  (hinner : ∀ below, inner = some below → ∃ below', inner' = some below' ∧
    (below ()).Curbed scope.options.maxDepth (below' ()))

include hinner

/-- If a rule is curbed, so is it when it is entered one level further in. -/
theorem nested_curbed {rule rule' : Inner → Rule}
    (h : ∀ rules rules' : Inner, rules.Curbed scope.options.maxDepth rules' →
      CurbedRule scope.options.maxDepth (rule rules) (rule' rules')) :
    CurbedRule scope.options.maxDepth (nested scope inner rule)
      (nested (scope.withLimit limit) inner' rule') := by
  intro ts
  cases inner with
  | none => exact .inr ⟨scope.here ts, rfl⟩
  | some below =>
      obtain ⟨below', rfl, hrules⟩ := hinner below rfl
      exact h _ _ hrules ts

/-- Expressions are curbed if the rules one level further in are. -/
theorem expression_curbed :
    CurbedRule scope.options.maxDepth (expression scope inner)
      (expression (scope.withLimit limit) inner') :=
  nested_curbed hinner fun _ _ hrules => hrules.assignment

/-- Arguments are curbed, by induction on how many are admitted. -/
theorem arguments_curbed (n : Nat) (ts : List Token) :
    Curbed scope.options.maxDepth (arguments scope inner n ts)
      (arguments (scope.withLimit limit) inner' n ts) := by
  induction n generalizing ts with
  | zero => exact .refl _ _
  | succ n ih =>
      refine (expression_curbed hinner ts).bind ?_
      rintro ⟨first, rest⟩
      dsimp only
      split
      · next more => exact (ih more).bind fun _ => .refl _ _
      · exact .refl _ _

/-- Calls are curbed. -/
theorem call_curbed (callee : String) (offset : Nat) :
    CurbedRule scope.options.maxDepth (call scope inner callee offset)
      (call (scope.withLimit limit) inner' callee offset) := by
  intro ts
  unfold call
  dsimp only
  split
  · exact .refl _ _
  · exact (arguments_curbed hinner _ ts).bind fun _ => .refl _ _

/-- What a name begins is curbed. -/
theorem named_curbed (name : String) (offset : Nat) (ts : List Token) :
    CurbedRule scope.options.maxDepth (named scope inner name offset ts)
      (named (scope.withLimit limit) inner' name offset ts) := by
  intro rest
  unfold named
  split
  · exact .refl _ _
  · exact .refl _ _
  · exact nested_curbed hinner (fun _ _ hrules => hrules.branching) ts
  · exact .refl _ _
  · split
    · exact call_curbed hinner name offset _
    · exact .refl _ _

/-- Operands are curbed. -/
theorem primary_curbed :
    CurbedRule scope.options.maxDepth (primary scope inner)
      (primary (scope.withLimit limit) inner') := by
  intro ts
  cases ts with
  | nil => exact .refl _ _
  | cons t rest =>
      obtain ⟨kind, span⟩ := t
      cases kind with
      | leftParen => exact (expression_curbed hinner rest).bind fun _ => .refl _ _
      | leftBracket => exact (expression_curbed hinner rest).bind fun _ => .refl _ _
      | name name => exact named_curbed hinner name span.start _ rest
      | _ => exact .refl _ _

/-- Suffixes are curbed. -/
theorem suffixes_curbed (e : Expr) :
    CurbedRule scope.options.maxDepth (suffixes scope inner e)
      (suffixes (scope.withLimit limit) inner' e) := by
  intro ts
  rw [suffixes, suffixes]
  split
  · exact nested_curbed hinner (fun _ _ hrules ts => hrules.suffixes _ ts.tail) ts
  · exact .refl _ _

/-- Operands with suffixes are curbed. -/
theorem suffixed_curbed :
    CurbedRule scope.options.maxDepth (suffixed scope inner)
      (suffixed (scope.withLimit limit) inner') :=
  fun ts => (primary_curbed hinner ts).bind fun r => suffixes_curbed hinner r.1 r.2

/-- Operands with signs are curbed. -/
theorem signed_curbed :
    CurbedRule scope.options.maxDepth (signed scope inner)
      (signed (scope.withLimit limit) inner') := by
  intro ts
  rw [signed, signed]
  split
  · exact (nested_curbed hinner (fun _ _ hrules => hrules.signed) ts.tail).bind fun _ => .refl _ _
  · exact suffixed_curbed hinner ts

/-- Powers are curbed. -/
theorem power_curbed :
    CurbedRule scope.options.maxDepth (power scope inner)
      (power (scope.withLimit limit) inner') := by
  intro ts
  refine (signed_curbed hinner ts).bind ?_
  rintro ⟨base, rest⟩
  dsimp only
  split
  · exact (nested_curbed hinner (fun _ _ hrules => hrules.power) _).bind fun _ => .refl _ _
  · exact .refl _ _

/-- The operators of a tier are curbed. -/
theorem chain_curbed (tier : Tier) (left : Expr) :
    CurbedRule scope.options.maxDepth (chain scope inner tier left)
      (chain (scope.withLimit limit) inner' tier left) := by
  intro ts
  cases ts with
  | nil => exact .refl _ _
  | cons t rest =>
      rw [chain, chain]
      dsimp only
      split
      · exact .refl _ _
      · refine nested_curbed hinner (fun _ _ hrules ts => ?_) rest
        exact (hrules.operand tier ts).bind fun r => hrules.chain tier _ r.2

/-- The chains of all tiers are curbed, by induction on the tiers. -/
theorem joined_curbed (tiers : List Tier) :
    CurbedRule scope.options.maxDepth (joined scope inner tiers)
      (joined (scope.withLimit limit) inner' tiers) := by
  induction tiers with
  | nil => exact power_curbed hinner
  | cons tier tighter ih =>
      exact fun ts => (ih ts).bind fun r => chain_curbed hinner tier r.1 r.2

/-- A second branch is curbed, whether it is there or not. -/
theorem alternate_curbed (present : Bool) (ts : List Token) :
    Curbed scope.options.maxDepth (alternate scope inner present ts)
      (alternate (scope.withLimit limit) inner' present ts) := by
  cases present with
  | false => exact .refl _ _
  | true => exact (expression_curbed hinner ts.tail).bind fun _ => .refl _ _

/-- Conditionals in words are curbed. -/
theorem branching_curbed :
    CurbedRule scope.options.maxDepth (branching scope inner)
      (branching (scope.withLimit limit) inner') := by
  intro ts
  refine (Curbed.refl _ (scope.expectKeyword .if ts)).bind fun ts => ?_
  refine (expression_curbed hinner ts).bind ?_
  rintro ⟨test, ts⟩
  refine (Curbed.refl _ (scope.expectKeyword .then ts)).bind fun ts => ?_
  refine (expression_curbed hinner ts).bind ?_
  rintro ⟨consequent, ts⟩
  exact (alternate_curbed hinner _ ts).bind fun _ => .refl _ _

/-- Conditionals are curbed. -/
theorem conditional_curbed :
    CurbedRule scope.options.maxDepth (conditional scope inner)
      (conditional (scope.withLimit limit) inner') := by
  intro ts
  rw [conditional, conditional]
  split
  · exact branching_curbed hinner ts
  · refine (joined_curbed hinner Tier.all ts).bind ?_
    rintro ⟨test, ts⟩
    dsimp only
    split
    · refine (expression_curbed hinner _).bind ?_
      rintro ⟨consequent, ts⟩
      exact (alternate_curbed hinner _ ts).bind fun _ => .refl _ _
    · exact .refl _ _

/-- Assignments are curbed. -/
theorem assignment_curbed :
    CurbedRule scope.options.maxDepth (assignment scope inner)
      (assignment (scope.withLimit limit) inner') := by
  intro ts
  have hdialect : (scope.withLimit limit).options.dialect = scope.options.dialect := rfl
  refine (conditional_curbed hinner ts).bind ?_
  rintro ⟨target, rest⟩
  dsimp only
  rw [hdialect]
  split
  · split
    · exact .refl _ _
    · cases target with
      | symbol name =>
          exact (nested_curbed hinner (fun _ _ hrules => hrules.assignment) _).bind
            fun _ => .refl _ _
      | _ => exact .refl _ _
  · exact .refl _ _

/-- If the rules one level further in are curbed, so are those of a level. -/
theorem level_curbed :
    (level scope inner).Curbed scope.options.maxDepth
      (level (scope.withLimit limit) inner') where
  assignment := assignment_curbed hinner
  branching := branching_curbed hinner
  power := power_curbed hinner
  signed := signed_curbed hinner
  operand tier := joined_curbed hinner tier.tighter
  chain := chain_curbed hinner
  suffixes := suffixes_curbed hinner

end Level

/-- **A smaller budget curbs a larger one**, by induction on the smaller one. -/
theorem innerAt_curbed (scope : Scope) (limit : Nat) {budget budget' : Nat}
    (h : budget ≤ budget') :
    ∀ below, innerAt scope budget = some below →
      ∃ below', innerAt (scope.withLimit limit) budget' = some below' ∧
        (below ()).Curbed scope.options.maxDepth (below' ()) := by
  induction budget generalizing budget' with
  | zero => exact nofun
  | succ budget ih =>
      obtain ⟨budget', rfl⟩ := Nat.exists_eq_add_one.mpr (Nat.zero_lt_of_lt h)
      rintro _ ⟨⟩
      refine ⟨_, rfl, ?_⟩
      show (rules scope budget).Curbed _ (rules (scope.withLimit limit) budget')
      rw [rules_eq_level, rules_eq_level]
      exact level_curbed (ih (Nat.le_of_succ_le_succ h))

/-- Statements under a smaller bound are those under a larger one, curbed. -/
theorem statements_curbed (scope : Scope) {limit : Nat} (h : scope.options.maxDepth ≤ limit)
    (n : Nat) (ts : List Token) :
    Curbed scope.options.maxDepth (statements scope n ts)
      (statements (scope.withLimit limit) n ts) := by
  have hdialect : (scope.withLimit limit).options.dialect = scope.options.dialect := rfl
  induction n generalizing ts with
  | zero => exact .refl _ _
  | succ n ih =>
      rw [statements, statements, expressionWithin_eq, expressionWithin_eq]
      refine (expression_curbed (innerAt_curbed scope limit h) ts).bind ?_
      rintro ⟨first, rest⟩
      dsimp only
      rw [hdialect]
      split
      · exact .refl _ _
      · split
        · split
          · exact .refl _ _
          · split
            · exact .refl _ _
            · exact (ih _).bind fun _ => .refl _ _
        · exact .refl _ _

/-! ### A budget that is large enough -/

/-- The rules of a nesting level come upon no limit if they are given at most one token for
two of the levels that are left further in. A conditional in words needs a level less, as its
`if` is a token that no level is taken for. -/
structure Inner.Ample (rules : Inner) (n : Nat) : Prop where
  assignment : ∀ ts, 2 * ts.length ≤ n → Spared (rules.assignment ts)
  branching : ∀ ts, 2 * ts.length ≤ n + 1 → Spared (rules.branching ts)
  power : ∀ ts, 2 * ts.length ≤ n → Spared (rules.power ts)
  signed : ∀ ts, 2 * ts.length ≤ n → Spared (rules.signed ts)
  operand : ∀ tier ts, 2 * ts.length ≤ n → Spared (rules.operand tier ts)
  chain : ∀ tier left ts, 2 * ts.length ≤ n → Spared (rules.chain tier left ts)
  suffixes : ∀ e ts, 2 * ts.length ≤ n → Spared (rules.suffixes e ts)

/-- A missing token is no question of limits. -/
theorem spared_expect (scope : Scope) (kind : Token.Kind) (ts : List Token) :
    Spared (scope.expect kind ts) := by
  unfold Scope.expect
  split
  · exact spared_error rfl
  · split
    · exact spared_ok _
    · exact spared_error rfl

/-- A missing keyword is no question of limits. -/
theorem spared_expectKeyword (scope : Scope) (keyword : Keyword) (ts : List Token) :
    Spared (scope.expectKeyword keyword ts) := by
  rw [Scope.expectKeyword]
  split
  · exact spared_ok _
  · exact spared_error rfl

section Level

variable {scope : Scope} {inner : Option (Unit → Inner)} {n : Nat}
  (hsound : ∀ below, inner = some below → (below ()).Sound scope.options.dialect)
  (hinner : ∀ m, n = m + 1 → ∃ below, inner = some below ∧ (below ()).Ample m)

include hinner

/-- A rule can be entered one level further in if a level is left and the rule is spared there. -/
theorem spared_nested {rule : Inner → Rule} {ts : List Token} (hn : 0 < n)
    (h : ∀ (rules : Inner) m, n = m + 1 → rules.Ample m → Spared (rule rules ts)) :
    Spared (nested scope inner rule ts) := by
  obtain ⟨m, rfl⟩ := Nat.exists_eq_add_one.mpr hn
  obtain ⟨below, rfl, hrules⟩ := hinner m rfl
  exact h _ m rfl hrules

/-- An expression takes a level, so it needs one more than twice the number of its tokens. -/
theorem spared_expression {ts : List Token} (hts : 2 * ts.length < n) :
    Spared (expression scope inner ts) :=
  spared_nested hinner (by omega) fun _ m hm hrules => hrules.assignment ts (by omega)

/-- A second branch is spared, since its mark is a token. -/
theorem spared_alternate {present : Bool} {ts : List Token} (hts : 2 * ts.length ≤ n)
    (hne : present = true → ts ≠ []) : Spared (alternate scope inner present ts) := by
  cases present with
  | false => exact spared_ok _
  | true =>
      have hpos := List.length_pos_iff.mpr (hne rfl)
      have htail := ts.length_tail
      exact (spared_expression hinner (by omega)).bind fun _ _ => spared_ok _

include hsound

/-- Arguments are expressions, so the levels for one of them are enough. -/
theorem spared_arguments {k : Nat} {ts : List Token} (hts : 2 * ts.length < n) :
    Spared (arguments scope inner k ts) := by
  induction k generalizing ts with
  | zero => exact spared_ok _
  | succ k ih =>
      refine (spared_expression hinner hts).bind ?_
      rintro ⟨first, rest⟩ hfirst
      have hlt := length_lt_of_takes (expression_sound hsound hfirst)
      dsimp only
      split
      · next more =>
        rw [List.length_cons] at hlt
        exact (ih (by omega)).bind fun _ _ => spared_ok _
      · exact spared_ok _

/-- A call needs what its arguments need. -/
theorem spared_call {callee : String} {offset : Nat} {ts : List Token}
    (hts : 2 * ts.length < n) : Spared (call scope inner callee offset ts) := by
  have hclose : ∀ (given : List Expr) (rest : List Token), Spared
      (do
        let last ← scope.expect .rightParen rest
        if isAccessor callee && (sourceName? given).isNone then
          .error ⟨offset, .badAccessorArgument callee⟩
        else return (Expr.call callee given, last) : Except Fault _) := by
    intro given rest
    refine (spared_expect scope .rightParen rest).bind fun last _ => ?_
    split
    · exact spared_error rfl
    · exact spared_ok _
  unfold call
  dsimp only
  split
  · exact (spared_ok _).bind fun r _ => hclose r.1 r.2
  · exact (spared_arguments hsound hinner hts).bind fun r _ => hclose r.1 r.2

/-- A name is followed by at least one token less. An `if` is given to the rule for
conditionals one level further in. -/
theorem spared_named {name : String} {offset : Nat} {ts rest : List Token}
    (hts : 2 * ts.length ≤ n) (hrest : rest.length < ts.length) :
    Spared (named scope inner name offset ts rest) := by
  unfold named
  split
  · exact spared_ok _
  · exact spared_ok _
  · exact spared_nested hinner (by omega) fun _ m hm hrules => hrules.branching ts (by omega)
  · exact spared_error rfl
  · split
    · next more =>
      rw [List.length_cons] at hrest
      exact spared_call hsound hinner (by omega)
    · exact spared_ok _

/-- An operand begins with a token, so what that token begins has two levels more. -/
theorem spared_primary {ts : List Token} (hts : 2 * ts.length ≤ n) :
    Spared (primary scope inner ts) := by
  cases ts with
  | nil => exact spared_error rfl
  | cons t rest =>
      obtain ⟨kind, span⟩ := t
      rw [List.length_cons] at hts
      cases kind with
      | number value => exact spared_ok _
      | text value => exact spared_ok _
      | leftParen =>
          refine (spared_expression hinner (by omega)).bind fun r _ => ?_
          exact (spared_expect scope .rightParen r.2).bind fun _ _ => spared_ok _
      | leftBracket =>
          refine (spared_expression hinner (by omega)).bind fun r _ => ?_
          exact (spared_expect scope .rightBracket r.2).bind fun _ _ => spared_ok _
      | name name => exact spared_named hsound hinner hts (Nat.lt_succ_self _)
      | _ => exact spared_error rfl

omit hsound in
/-- Every suffix is a token and takes one level. -/
theorem spared_suffixes {e : Expr} {ts : List Token} (hts : 2 * ts.length ≤ n) :
    Spared (suffixes scope inner e ts) := by
  rw [suffixes]
  split
  · next op hop =>
    obtain ⟨t, more, rfl, -⟩ := suffix?_eq_some hop
    rw [List.length_cons] at hts
    exact spared_nested hinner (by omega) fun _ m hm hrules => hrules.suffixes _ more (by omega)
  · exact spared_ok _

/-- An operand with suffixes is spared. -/
theorem spared_suffixed {ts : List Token} (hts : 2 * ts.length ≤ n) :
    Spared (suffixed scope inner ts) := by
  refine (spared_primary hsound hinner hts).bind ?_
  rintro ⟨e, rest⟩ he
  have hlt := length_lt_of_takes (primary_sound hsound he)
  exact spared_suffixes hinner (by omega)

/-- Every sign is a token and takes one level. -/
theorem spared_signed {ts : List Token} (hts : 2 * ts.length ≤ n) :
    Spared (signed scope inner ts) := by
  rw [signed]
  split
  · next op hop =>
    obtain ⟨t, more, rfl, -⟩ := sign?_eq_some hop
    rw [List.length_cons] at hts
    refine Spared.bind ?_ fun _ _ => spared_ok _
    exact spared_nested hinner (by omega) fun _ m hm hrules => hrules.signed more (by omega)
  · exact spared_suffixed hsound hinner hts

/-- The caret is a token, so the exponent has two levels more. -/
theorem spared_power {ts : List Token} (hts : 2 * ts.length ≤ n) :
    Spared (power scope inner ts) := by
  refine (spared_signed hsound hinner hts).bind ?_
  rintro ⟨base, rest⟩ hbase
  have hlt := length_lt_of_takes (signed_sound hsound hbase)
  dsimp only
  split
  · next more =>
    rw [List.length_cons] at hlt
    refine Spared.bind ?_ fun _ _ => spared_ok _
    exact spared_nested hinner (by omega) fun _ m hm hrules => hrules.power more (by omega)
  · exact spared_ok _

/-- The operator of a chain is a token, so its right operand has a level to spare. -/
theorem spared_chain {tier : Tier} {left : Expr} {ts : List Token} (hts : 2 * ts.length ≤ n) :
    Spared (chain scope inner tier left ts) := by
  cases ts with
  | nil => exact spared_ok _
  | cons t rest =>
      rw [List.length_cons] at hts
      rw [chain]
      dsimp only
      split
      · exact spared_ok _
      · obtain ⟨m, rfl⟩ : ∃ m, n = m + 1 := Nat.exists_eq_add_one.mpr (by omega)
        obtain ⟨below, rfl, hrules⟩ := hinner m rfl
        refine (hrules.operand tier rest (by omega)).bind ?_
        rintro ⟨right, more⟩ hright
        have hlt := length_lt_of_takes ((hsound below rfl).operand tier hright)
        exact hrules.chain tier _ more (by omega)

/-- The chains of tiers that follow each other are spared, by induction on the tiers. -/
theorem spared_joined {tiers : List Tier}
    (hfollow : ∀ tier more, tiers = tier :: more → more = tier.tighter) {ts : List Token}
    (hts : 2 * ts.length ≤ n) : Spared (joined scope inner tiers ts) := by
  induction tiers with
  | nil => exact spared_power hsound hinner hts
  | cons tier more ih =>
      obtain rfl := hfollow tier more rfl
      have hfollow' : ∀ t others, tier.tighter = t :: others → others = t.tighter :=
        fun _ _ => tighter_of_tighter_cons
      refine (ih hfollow').bind ?_
      rintro ⟨left, rest⟩ hleft
      have hlt := length_lt_of_takes (joined_sound hsound hfollow' hleft)
      exact spared_chain hsound hinner (by omega)

/-- A conditional in words is spared with a level less, as its `if` is a token. -/
theorem spared_branching {ts : List Token} (hts : 2 * ts.length ≤ n + 1) :
    Spared (branching scope inner ts) := by
  refine (spared_expectKeyword scope .if ts).bind fun ts₁ hif => ?_
  obtain ⟨hnext, rfl⟩ := expectKeyword_eq_ok hif
  obtain ⟨t, more, rfl, -⟩ := nextKeyword?_eq_some hnext
  rw [List.length_cons] at hts
  refine (spared_expression hinner (by rw [List.tail_cons]; omega)).bind ?_
  rintro ⟨test, ts₂⟩ htest
  have hlt := length_lt_of_takes (expression_sound hsound htest)
  rw [List.tail_cons] at hlt
  refine (spared_expectKeyword scope .then ts₂).bind fun ts₃ hthen => ?_
  obtain ⟨-, rfl⟩ := expectKeyword_eq_ok hthen
  have htail := ts₂.length_tail
  refine (spared_expression hinner (by omega)).bind ?_
  rintro ⟨consequent, ts₄⟩ hconsequent
  have hlt' := length_lt_of_takes (expression_sound hsound hconsequent)
  refine (spared_alternate hinner (by omega) ?_).bind fun _ _ => spared_ok _
  rintro helse rfl
  cases helse

/-- A conditional is spared: its question mark is a token. -/
theorem spared_conditional {ts : List Token} (hts : 2 * ts.length ≤ n) :
    Spared (conditional scope inner ts) := by
  rw [conditional]
  split
  · exact spared_branching hsound hinner (by omega)
  · have hall : ∀ tier more, Tier.all = tier :: more → more = tier.tighter := by
      rintro tier more ⟨⟩
      rfl
    refine (spared_joined hsound hinner hall hts).bind ?_
    rintro ⟨test, rest⟩ htest
    have hlt := length_lt_of_takes (joined_sound hsound hall htest)
    dsimp only
    split
    · next more =>
      rw [List.length_cons] at hlt
      refine (spared_expression hinner (by omega)).bind ?_
      rintro ⟨consequent, last⟩ hconsequent
      have hlt' := length_lt_of_takes (expression_sound hsound hconsequent)
      have hlast : 2 * last.length ≤ n := by omega
      refine (spared_alternate hinner hlast ?_).bind fun _ _ => spared_ok _
      rintro hcolon rfl
      cases hcolon
    · exact spared_ok _

/-- An assignment is spared: its equals sign is a token. -/
theorem spared_assignment {ts : List Token} (hts : 2 * ts.length ≤ n) :
    Spared (assignment scope inner ts) := by
  refine (spared_conditional hsound hinner hts).bind ?_
  rintro ⟨target, rest⟩ htarget
  have hlt := length_lt_of_takes (conditional_sound hsound htarget)
  dsimp only
  split
  · next more =>
    rw [List.length_cons] at hlt
    split
    · exact spared_error rfl
    · cases target with
      | symbol name =>
          refine Spared.bind ?_ fun _ _ => spared_ok _
          exact spared_nested hinner (by omega)
            fun _ m hm hrules => hrules.assignment more (by omega)
      | _ => exact spared_error rfl
  · exact spared_ok _

/-- If the rules one level further in have levels enough, so do those of a level. -/
theorem level_ample : (level scope inner).Ample n where
  assignment _ := spared_assignment hsound hinner
  branching _ := spared_branching hsound hinner
  power _ := spared_power hsound hinner
  signed _ := spared_signed hsound hinner
  operand _ _ := spared_joined hsound hinner fun _ _ => tighter_of_tighter_cons
  chain _ _ _ := spared_chain hsound hinner
  suffixes _ _ := spared_suffixes hinner

end Level

/-- **The rules of every nesting level have levels enough for half as many tokens**, by
induction on the budget. -/
theorem innerAt_ample (scope : Scope) (budget : Nat) :
    ∀ m, budget = m + 1 → ∃ below, innerAt scope budget = some below ∧ (below ()).Ample m := by
  induction budget with
  | zero => exact nofun
  | succ budget ih =>
      rintro _ ⟨⟩
      refine ⟨_, rfl, ?_⟩
      show (rules scope budget).Ample budget
      rw [rules_eq_level]
      exact level_ample (sound_innerAt scope budget) ih

/-- Statements come upon no limit if there are two levels for each token and one more. -/
theorem spared_statements {scope : Scope} {n : Nat} {ts : List Token}
    (hts : 2 * ts.length < scope.options.maxDepth) : Spared (statements scope n ts) := by
  induction n generalizing ts with
  | zero => exact spared_ok _
  | succ n ih =>
      rw [statements, expressionWithin_eq]
      refine (spared_expression (innerAt_ample scope _) hts).bind ?_
      rintro ⟨first, rest⟩ hfirst
      have hlt := length_lt_of_takes (expression_sound (sound_innerAt scope _) hfirst)
      dsimp only
      split
      · exact spared_ok _
      · next t more =>
        rw [List.length_cons] at hlt
        split
        · split
          · exact spared_error rfl
          · split
            · exact spared_ok _
            · exact (ih (by omega)).bind fun _ _ => spared_ok _
        · exact spared_error rfl

end Grammar

/-! ### Scanning -/

/-- Quoted texts do not nest. -/
theorem spared_quotedText (start : Nat) (quote : Char) (offset : Nat) (text : List Char) :
    Spared (quotedText start quote offset text) := by
  fun_induction quotedText start quote offset text with
  | case1 | case2 | case3 => exact spared_error rfl
  | case4 offset c rest d hd ih => exact ih.bind fun _ _ => spared_ok _
  | case5 => exact spared_ok _
  | case6 offset c rest _ _ hquote ih => exact ih.bind fun _ _ => spared_ok _

/-- Reading a token comes upon no limit. -/
theorem spared_lexeme (offset : Nat) (first : Char) (rest : List Char) :
    Spared (lexeme offset first rest) := by
  unfold lexeme
  split
  · exact spared_ok _
  · split
    · next op _ =>
      unfold Compound.lexeme
      split
      · exact spared_ok _
      · split
        · exact spared_ok _
        · exact spared_error rfl
    · split
      · exact (spared_quotedText _ _ _ _).bind fun _ _ => spared_ok _
      · split
        · unfold numberLexeme
          dsimp only
          split
          · exact spared_ok _
          · exact spared_error rfl
        · split
          · exact spared_ok _
          · exact spared_error rfl

/-- **A text that cannot be scanned is not refused for its nesting.** -/
theorem spared_scan (offset : Nat) (text : List Char) : Spared (scan offset text) := by
  fun_induction scan offset text with
  | case1 => exact spared_ok _
  | case2 offset c rest hblank ih => exact ih
  | case3 offset c rest hblank fault hlexeme =>
      exact spared_error (spared_lexeme offset c rest fault hlexeme)
  | case4 offset c rest hblank l hlexeme stop fault hrest ih =>
      exact spared_error (ih fault hrest)
  | case5 => exact spared_ok _

/-! ### Formulas -/

/-- Below a bound that is larger, a formula is read as under a smaller one, curbed. -/
theorem ofTokens_curbed (dialect : Dialect) {limit limit' : Nat} (h : limit ≤ limit')
    (sourceEnd : Nat) (tokens : List Token) :
    Curbed limit (ofTokens ⟨dialect, limit⟩ sourceEnd tokens)
      (ofTokens ⟨dialect, limit'⟩ sourceEnd tokens) := by
  unfold ofTokens
  dsimp only
  split
  · exact .refl _ _
  · have hcurbed := Grammar.statements_curbed ⟨⟨dialect, limit⟩, sourceEnd⟩ h
      (dropMark dialect tokens).length (dropMark dialect tokens)
    exact hcurbed.bind fun _ => .refl _ _

/-- Dropping the mark leaves no more tokens. -/
theorem length_dropMark_le (dialect : Dialect) (tokens : List Token) :
    (dropMark dialect tokens).length ≤ tokens.length := by
  unfold dropMark
  split
  · exact Nat.le_succ _
  · exact Nat.le_refl _

/-- **More levels than twice the number of tokens are enough.** -/
theorem spared_ofTokens {options : Options} {tokens : List Token}
    (h : 2 * tokens.length < options.maxDepth) (sourceEnd : Nat) :
    Spared (ofTokens options sourceEnd tokens) := by
  have hle := length_dropMark_le options.dialect tokens
  unfold ofTokens
  dsimp only
  split
  · exact spared_error rfl
  · refine (Grammar.spared_statements ?_).bind fun _ _ => spared_ok _
    show 2 * _ < options.maxDepth
    omega

/-! ### Wording -/

/-- How the message about nesting opens. -/
theorem take_message_nestedTooDeep (limit : Nat) :
    (Fault.Cause.nestedTooDeep limit).message.toList.take 5 = "expre".toList := by
  unfold Fault.Cause.message
  dsimp only
  simp

/-- Only two messages can open as that of a formula that is nested too deep: its own, and one that
opens with the name of a function. -/
theorem cause_of_take_message {cause : Fault.Cause}
    (h : cause.message.toList.take 5 = "expre".toList) :
    (∃ limit, cause = .nestedTooDeep limit) ∨ ∃ callee, cause = .badAccessorArgument callee := by
  revert h
  -- before the cases are told apart, as the equations of each case are slow to come by
  unfold Fault.Cause.message
  cases cause <;> dsimp only
  case nestedTooDeep limit => exact fun _ => .inl ⟨limit, rfl⟩
  case badAccessorArgument callee => exact fun _ => .inr ⟨callee, rfl⟩
  all_goals simp

/-- The message that opens with the name of a function ends otherwise. -/
theorem message_badAccessorArgument_ne (callee : String) (limit : Nat) :
    (Fault.Cause.badAccessorArgument callee).message ≠
      (Fault.Cause.nestedTooDeep limit).message := by
  have hargument : " expects a single string or symbol argument".toList.getLast? = some 't' := by
    decide
  have hlevels : " levels".toList.getLast? = some 's' := by decide
  refine fun h => absurd (congrArg (·.toList.getLast?) h) ?_
  unfold Fault.Cause.message
  dsimp only
  rw [String.toList_append, String.toList_append, List.getLast?_append, List.getLast?_append,
    hargument, hlevels]
  rw [Option.some_or, Option.some_or]
  decide

/-- **No other fault is worded as that of a formula that is nested too deep.** -/
theorem nestedTooDeep_of_message {cause : Fault.Cause} {limit : Nat}
    (h : cause.message = (Fault.Cause.nestedTooDeep limit).message) :
    ∃ limit', cause = .nestedTooDeep limit' := by
  have hopening : cause.message.toList.take 5 = "expre".toList := by
    rw [h, take_message_nestedTooDeep]
  rcases cause_of_take_message hopening with hcause | ⟨callee, rfl⟩
  · exact hcause
  · exact absurd h (message_badAccessorArgument_ne callee limit)

/-! ### What a bound does -/

/-- **A smaller limit curbs the reading of a source.** -/
theorem parse_curbed (dialect : Dialect) {limit limit' : Nat} (h : limit ≤ limit')
    (source : String) :
    Curbed limit (parse ⟨dialect, limit⟩ source) (parse ⟨dialect, limit'⟩ source) :=
  (Curbed.refl limit (tokenize source)).bind fun tokens => ofTokens_curbed dialect h _ tokens

/-- A formula comes upon no limit if there are two levels for each of its tokens and one more. -/
theorem spared_parse {options : Options} {source : String}
    (h : ∀ tokens, tokenize source = .ok tokens → 2 * tokens.length + 1 ≤ options.maxDepth) :
    Spared (parse options source) :=
  (spared_scan 0 source.toList).bind fun tokens htokens => spared_ofTokens (h tokens htokens) _

/-- **The bound on nesting only ever refuses.** A source text spells under a smaller bound what
it spells under a larger one, or is at fault there as under the larger one, or the smaller
bound is exceeded. Two levels for each token and one more are never exceeded. -/
theorem ofSource_curbed (dialect : Dialect) {limit limit' : Nat} (h : limit ≤ limit')
    (source : String) :
    (ofSource ⟨dialect, limit⟩ source = ofSource ⟨dialect, limit'⟩ source ∨
      ∃ offset, ofSource ⟨dialect, limit⟩ source = .error (.malformedAt source offset
        ("expression nested deeper than " ++ toString limit ++ " levels"))) ∧
    ((∀ tokens, tokenize source = .ok tokens → 2 * tokens.length + 1 ≤ limit) →
      ∀ (levels : Nat) offset position, ofSource ⟨dialect, limit⟩ source ≠ .error (.malformed
        ("expression nested deeper than " ++ toString levels ++ " levels") offset position)) := by
  constructor
  · unfold ofSource
    rcases parse_curbed dialect h source with heq | ⟨offset, herror⟩
    · exact .inl (congrArg _ heq)
    · exact .inr ⟨offset, by rw [herror]; rfl⟩
  · intro hample levels offset position hdeep
    have hspared : Spared (parse ⟨dialect, limit⟩ source) := spared_parse hample
    unfold ofSource at hdeep
    cases hparse : parse ⟨dialect, limit⟩ source with
    | ok formula => rw [hparse] at hdeep; cases hdeep
    | error fault =>
        rw [hparse] at hdeep
        have hmessage : fault.cause.message = (Fault.Cause.nestedTooDeep levels).message := by
          injection hdeep with hfailure
          injection hfailure
        obtain ⟨limit', hcause⟩ := nestedTooDeep_of_message hmessage
        have hnone := hspared fault hparse
        rw [hcause] at hnone
        cases hnone

/-- Five tokens are read with eleven levels as they are with a hundred. -/
theorem ofSource_product :
    ofSource ⟨.simplified, 11⟩ "x*x*x" = ofSource ⟨.simplified, 100⟩ "x*x*x" := by
  have htokens : tokenize "x*x*x" = .ok [⟨.name "x", ⟨0, 1⟩⟩, ⟨.star, ⟨1, 2⟩⟩,
      ⟨.name "x", ⟨2, 3⟩⟩, ⟨.star, ⟨3, 4⟩⟩, ⟨.name "x", ⟨4, 5⟩⟩] := by cbv
  obtain ⟨heq | ⟨offset, hdeep⟩, hample⟩ :=
    ofSource_curbed .simplified (show 11 ≤ 100 by decide) "x*x*x"
  · exact heq
  · refine absurd hdeep (hample (fun tokens h => ?_) 11 offset _)
    rw [htokens] at h
    obtain rfl : _ = tokens := Except.ok.inj h
    decide

end Dashboard.Formula
