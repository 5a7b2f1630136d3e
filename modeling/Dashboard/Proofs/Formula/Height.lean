import Dashboard.Proofs.Formula.Inversion
import Mathlib.Tactic.Ring

/-!
# The Height of what is Read

The bound on nesting is a budget, and a rule hands to the rules further in what it has left.
What a rule has taken is free again when it ends. So the budget bounds how far in a reading
goes, and not how high a tree it puts together: what has been read becomes the left operand
of what follows, and each of the rules that go on from a left operand has the whole budget
of its level to do so.

With `n` levels left, suffixes and each of the six tiers of operators put at most `n` nodes
on top of what stands to the left, and a power and a conditional one each. An operand is one
node higher than what is read with one level less. This gives the recursion of
`heightWithin`, whose solution is quadratic.

## Main results

* `Grammar.rules_heightAtMost` — the rules of every nesting level keep to `heightWithin`.
* `height_le_of_parse` — no statement of a formula that can be read is higher than
  `heightLimit`.
-/

namespace Dashboard.Formula

namespace Grammar

/-! ### The heights that a budget admits -/

/-- The height that a tree can reach if this many nesting levels are left. -/
def heightWithin : Nat → Nat
  | 0 => 1
  | n + 1 => heightWithin n + 7 * (n + 1) + 3

/-- The height that an operand without signs and suffixes can reach if this many nesting
levels are left. -/
def operandHeight : Nat → Nat
  | 0 => 1
  | n + 1 => heightWithin n + 1

/-- What is put on top of an operand: suffixes and six tiers of operators as often as there
are levels left, and a power and a conditional once if there are any. -/
theorem heightWithin_eq (n : Nat) :
    heightWithin n = operandHeight n + 7 * n + 2 * min 1 n := by
  cases n with
  | zero => rfl
  | succ n =>
      rw [heightWithin, operandHeight]
      omega

/-- One more level admits no lower operands. -/
theorem operandHeight_le_succ (n : Nat) : operandHeight n ≤ operandHeight (n + 1) := by
  have h := heightWithin_eq n
  rw [operandHeight]
  omega

/-- An operand has a height. -/
theorem operandHeight_pos (n : Nat) : 0 < operandHeight n := by
  cases n with
  | zero => exact Nat.one_pos
  | succ n => exact Nat.succ_pos _

/-! ### The rules of a level -/

/-- No tree that a rule reads is higher than this. -/
def YieldsAtMost (height : Nat) (rule : Rule) : Prop :=
  ∀ ⦃ts e rest⦄, rule ts = .ok (e, rest) → e.height ≤ height

/-- The rules of a nesting level, with this many levels left further in, keep to the height
that these admit. Those that go on from what stands to the left put at most one node for
each level on top of it. -/
structure Inner.HeightAtMost (rules : Inner) (n : Nat) : Prop where
  assignment : YieldsAtMost (heightWithin n) rules.assignment
  branching : YieldsAtMost (heightWithin n) rules.branching
  power : YieldsAtMost (heightWithin n) rules.power
  signed : YieldsAtMost (heightWithin n) rules.signed
  operand : ∀ tier, YieldsAtMost (heightWithin n) (rules.operand tier)
  chain : ∀ tier left height, operandHeight n ≤ height → left.height ≤ height →
    YieldsAtMost (height + n) (rules.chain tier left)
  suffixes : ∀ e height, e.height ≤ height → YieldsAtMost (height + n) (rules.suffixes e)

/-- An operator stands one node above the higher one of its operands. -/
theorem Joint.height_join (joint : Joint) (left right : Expr) :
    (joint.join left right).height = max left.height right.height + 1 := by
  cases joint with
  | logical op => rfl
  | binary op => rfl

section Level

variable {scope : Scope} {inner : Option (Unit → Inner)} {n : Nat}
  (hinner : ∀ below, inner = some below → ∃ k, n = k + 1 ∧ (below ()).HeightAtMost k)

include hinner

/-- An expression is lower than an operand may be, since it is read one level further in. -/
theorem height_expression_lt {ts rest : List Token} {e : Expr}
    (h : expression scope inner ts = .ok (e, rest)) : e.height < operandHeight n := by
  obtain ⟨below, hbelow, h⟩ := nested_eq_ok h
  obtain ⟨k, rfl, hrules⟩ := hinner below hbelow
  exact Nat.lt_succ_of_le (hrules.assignment h)

/-- Arguments are expressions, so all of them are lower than an operand may be. -/
theorem heightOfAll_arguments_lt {m : Nat} {ts rest : List Token} {given : List Expr}
    (h : arguments scope inner m ts = .ok (given, rest)) :
    Expr.heightOfAll given < operandHeight n := by
  induction m generalizing ts given with
  | zero =>
      cases h
      exact operandHeight_pos n
  | succ m ih =>
      obtain ⟨first, middle, hfirst, hrest⟩ := arguments_succ_eq_ok h
      have hlt := height_expression_lt hinner hfirst
      rcases hrest with ⟨_, more, others, -, hothers, rfl⟩ | ⟨-, rfl⟩
      · exact Nat.max_lt.mpr ⟨hlt, ih hothers⟩
      · exact Nat.max_lt.mpr ⟨hlt, operandHeight_pos n⟩

/-- A call stands one node above its arguments. -/
theorem call_yieldsAtMost (callee : String) (offset : Nat) :
    YieldsAtMost (operandHeight n) (call scope inner callee offset) := by
  intro ts e rest h
  obtain ⟨given, middle, hgiven, -, -, rfl⟩ := call_eq_ok h
  rw [Expr.height]
  rcases hgiven with ⟨_, _, _, rfl, _⟩ | hgiven
  · exact operandHeight_pos n
  · exact heightOfAll_arguments_lt hinner hgiven

/-- A name begins an operand: a value, a call or a conditional in words. -/
theorem named_yieldsAtMost (name : String) (offset : Nat) (ts : List Token) :
    YieldsAtMost (operandHeight n) (named scope inner name offset ts) := by
  intro following e rest h
  rcases named_eq_ok h with ⟨-, rfl, -⟩ | ⟨-, rfl, -⟩ | ⟨-, h⟩ | ⟨-, _, _, _, h⟩ | ⟨-, rfl, -⟩
  · exact operandHeight_pos n
  · exact operandHeight_pos n
  · obtain ⟨below, hbelow, h⟩ := nested_eq_ok h
    obtain ⟨k, rfl, hrules⟩ := hinner below hbelow
    exact Nat.le_succ_of_le (hrules.branching h)
  · exact call_yieldsAtMost hinner name offset h
  · exact operandHeight_pos n

/-- Operands keep to their height. -/
theorem primary_yieldsAtMost : YieldsAtMost (operandHeight n) (primary scope inner) := by
  intro ts e rest h
  obtain ⟨_, _, ⟨value, -, rfl, -⟩ | ⟨value, -, rfl, -⟩ | ⟨-, _, hinside, -⟩ |
    ⟨-, operand, _, hinside, -, rfl⟩ | ⟨name, -, hnamed⟩⟩ := primary_eq_ok h
  · exact operandHeight_pos n
  · exact operandHeight_pos n
  · exact Nat.le_of_lt (height_expression_lt hinner hinside)
  · exact height_expression_lt hinner hinside
  · exact named_yieldsAtMost hinner _ _ _ hnamed

/-- Each suffix takes a level. -/
theorem suffixes_yieldsAtMost {left : Expr} {height : Nat} (hleft : left.height ≤ height) :
    YieldsAtMost (height + n) (suffixes scope inner left) := by
  intro ts e rest h
  rcases suffixes_eq_ok h with ⟨op, below, -, hbelow, h⟩ | ⟨-, rfl, -⟩
  · obtain ⟨k, rfl, hrules⟩ := hinner below hbelow
    have hsuffixed : (Expr.unary op left).height ≤ height + 1 := Nat.succ_le_succ hleft
    have hle := hrules.suffixes _ _ hsuffixed h
    omega
  · omega

/-- A sign takes a level, as a suffix does. -/
theorem signed_yieldsAtMost : YieldsAtMost (operandHeight n + n) (signed scope inner) := by
  intro ts e rest h
  rcases signed_eq_ok h with ⟨op, below, operand, -, hbelow, hoperand, rfl⟩ | ⟨-, hsuffixed⟩
  · obtain ⟨k, rfl, hrules⟩ := hinner below hbelow
    have hle := hrules.signed hoperand
    rw [Expr.height, operandHeight]
    omega
  · obtain ⟨operand, middle, hoperand, hsuffixes⟩ := suffixed_eq_ok hsuffixed
    exact suffixes_yieldsAtMost hinner (primary_yieldsAtMost hinner hoperand) hsuffixes

/-- An exponent is read one level further in, so a power is one node higher than its base
may be. -/
theorem power_yieldsAtMost :
    YieldsAtMost (operandHeight n + n + min 1 n) (power scope inner) := by
  intro ts e rest h
  obtain ⟨base, middle, hbase, hrest⟩ := power_eq_ok h
  have hle := signed_yieldsAtMost hinner hbase
  rcases hrest with ⟨_, _, below, exponent, -, hbelow, hexponent, rfl⟩ | ⟨rfl, -⟩
  · obtain ⟨k, rfl, hrules⟩ := hinner below hbelow
    have hle' := hrules.power hexponent
    rw [Expr.height]
    rw [operandHeight] at hle ⊢
    omega
  · omega

/-- Each operator of a chain takes a level. Its right operand is read further in, so it is
not higher than what stands to the left may be. -/
theorem chain_yieldsAtMost (tier : Tier) {left : Expr} {height : Nat}
    (hheight : operandHeight n ≤ height) (hleft : left.height ≤ height) :
    YieldsAtMost (height + n) (chain scope inner tier left) := by
  intro ts e rest h
  rcases chain_eq_ok h with ⟨t, more, joint, below, right, middle, -, -, hbelow, hright, h⟩ |
    ⟨-, rfl, -⟩
  · obtain ⟨k, rfl, hrules⟩ := hinner below hbelow
    have hle := hrules.operand tier hright
    have hmono := operandHeight_le_succ k
    rw [operandHeight] at hheight hmono
    have hjoined : (joint.join left right).height ≤ height + 1 := by
      rw [joint.height_join]
      omega
    have hchain := hrules.chain tier _ (height + 1) (by omega) hjoined h
    omega
  · omega

/-- Every tier puts its operators on top of what the tighter tiers have read. -/
theorem joined_yieldsAtMost (tiers : List Tier) :
    YieldsAtMost (operandHeight n + n + min 1 n + tiers.length * n)
      (joined scope inner tiers) := by
  induction tiers with
  | nil =>
      intro ts e rest h
      have hle := power_yieldsAtMost hinner h
      omega
  | cons tier tighter ih =>
      intro ts e rest h
      obtain ⟨left, middle, hleft, h⟩ := joined_cons_eq_ok h
      have hle := chain_yieldsAtMost hinner tier (by omega) (ih hleft) h
      rw [List.length_cons, Nat.succ_mul]
      omega

/-- A conditional whose test and branches are known not to be higher than this is at most one
node higher. -/
theorem height_conditional_le {test consequent : Expr} {other : Option Expr} {present : Bool}
    {ts rest : List Token} {height : Nat} (hheight : operandHeight n ≤ height + 1)
    (htest : test.height ≤ height) (hconsequent : consequent.height ≤ height)
    (h : alternate scope inner present ts = .ok (other, rest)) :
    (Expr.conditional test consequent other).height ≤ height + 1 := by
  rcases alternate_eq_ok h with ⟨-, e, he, rfl⟩ | ⟨-, rfl, -⟩
  · have hlt := height_expression_lt hinner he
    rw [Expr.height]
    omega
  · rw [Expr.height]
    omega

/-- The parts of a conditional in words are expressions. -/
theorem branching_yieldsAtMost : YieldsAtMost (operandHeight n) (branching scope inner) := by
  intro ts e rest h
  obtain ⟨test, consequent, other, _, _, -, htest, -, hconsequent, hother, rfl⟩ :=
    branching_eq_ok h
  have htest := height_expression_lt hinner htest
  have hconsequent := height_expression_lt hinner hconsequent
  obtain ⟨height, hheight⟩ : ∃ height, operandHeight n = height + 1 :=
    Nat.exists_eq_add_one.mpr (operandHeight_pos n)
  rw [hheight] at htest hconsequent ⊢
  exact height_conditional_le hinner hheight.le (Nat.le_of_lt_succ htest)
    (Nat.le_of_lt_succ hconsequent) hother

/-- The six tiers are those between a power and a conditional. Behind a question mark an expression
has been read, so there was a level left for the node of the conditional. -/
theorem conditional_yieldsAtMost : YieldsAtMost (heightWithin n) (conditional scope inner) := by
  intro ts e rest h
  have heq := heightWithin_eq n
  rcases conditional_eq_ok h with ⟨-, h⟩ | ⟨-, test, middle, htest, h⟩
  · have hle := branching_yieldsAtMost hinner h
    omega
  · have hle : test.height ≤ operandHeight n + n + min 1 n + 6 * n :=
      joined_yieldsAtMost hinner Tier.all htest
    rcases h with ⟨_, _, consequent, other, _, -, hconsequent, hother, rfl⟩ | ⟨rfl, -⟩
    · have hlt := height_expression_lt hinner hconsequent
      have hconsequent' : consequent.height ≤ operandHeight n + n + min 1 n + 6 * n := by omega
      have hcond := height_conditional_le hinner (by omega) hle hconsequent' hother
      obtain ⟨below, hbelow, -⟩ := nested_eq_ok hconsequent
      obtain ⟨k, rfl, -⟩ := hinner below hbelow
      omega
    · omega

/-- An assigned value is an expression, so it is lower than an operand may be. -/
theorem assignment_yieldsAtMost : YieldsAtMost (heightWithin n) (assignment scope inner) := by
  intro ts e rest h
  obtain ⟨target, middle, htarget, hrest⟩ := assignment_eq_ok h
  rcases hrest with ⟨_, _, name, below, value, -, -, rfl, hbelow, hvalue, rfl⟩ | ⟨rfl, -⟩
  · obtain ⟨k, rfl, hrules⟩ := hinner below hbelow
    have hle := hrules.assignment hvalue
    rw [Expr.height, heightWithin]
    omega
  · exact conditional_yieldsAtMost hinner htarget

/-- If the rules one level further in keep to the height that the levels left there admit, so
do those of a level. -/
theorem level_heightAtMost : (level scope inner).HeightAtMost n where
  assignment := assignment_yieldsAtMost hinner
  branching ts e rest h := by
    have hle := branching_yieldsAtMost hinner h
    have heq := heightWithin_eq n
    omega
  power ts e rest h := by
    have hle := power_yieldsAtMost hinner h
    have heq := heightWithin_eq n
    omega
  signed ts e rest h := by
    have hle := signed_yieldsAtMost hinner h
    have heq := heightWithin_eq n
    omega
  operand tier ts e rest h := by
    have hle := joined_yieldsAtMost hinner tier.tighter h
    have hlength : tier.tighter.length * n ≤ 6 * n :=
      Nat.mul_le_mul_right n (by cases tier <;> decide)
    have heq := heightWithin_eq n
    omega
  chain tier _ _ hheight hleft := chain_yieldsAtMost hinner tier hheight hleft
  suffixes _ _ hleft := suffixes_yieldsAtMost hinner hleft

end Level

/-- **The rules of every nesting level keep to the height that their budget admits**, by
induction on the budget. -/
theorem rules_heightAtMost (scope : Scope) (budget : Nat) :
    (rules scope budget).HeightAtMost budget := by
  induction budget with
  | zero => exact level_heightAtMost nofun
  | succ budget ih =>
      refine level_heightAtMost ?_
      intro below hbelow
      cases hbelow
      exact ⟨budget, rfl, ih⟩

end Grammar

/-! ### The height of a formula -/

/-- The height that a statement can reach under a bound on nesting. -/
def heightLimit (maxDepth : Nat) : Nat :=
  (7 * maxDepth ^ 2 - maxDepth - 4) / 2

/-- The first level is taken by the expression itself, so the limit is what one level less admits.
-/
theorem heightLimit_succ (n : Nat) : heightLimit (n + 1) = Grammar.heightWithin n := by
  have hdouble : 2 * Grammar.heightWithin n + n + 5 = 7 * (n + 1) ^ 2 := by
    induction n with
    | zero => rfl
    | succ n ih =>
        have hsquare : (n + 1 + 1) ^ 2 = (n + 1) ^ 2 + 2 * n + 3 := by ring
        rw [Grammar.heightWithin, hsquare]
        omega
  rw [heightLimit]
  omega

/-- **Every expression keeps to the limit**, by induction on the levels. -/
theorem Grammar.expressionWithin_yieldsAtMost (scope : Scope) (maxDepth : Nat) :
    YieldsAtMost (heightLimit maxDepth) (expressionWithin scope maxDepth) := by
  intro ts e rest h
  cases maxDepth with
  | zero => cases h
  | succ n =>
      rw [heightLimit_succ]
      exact (rules_heightAtMost scope n).assignment h

/-- So does every statement. -/
theorem Grammar.statements_heightAtMost {scope : Scope} {n : Nat} {ts : List Token}
    {es : List Expr} (h : statements scope n ts = .ok es) :
    ∀ e ∈ es, e.height ≤ heightLimit scope.options.maxDepth := by
  induction n generalizing ts es with
  | zero =>
      cases h
      exact nofun
  | succ n ih =>
      obtain ⟨first, rest, hfirst, h⟩ := statements_succ_eq_ok h
      have hle := expressionWithin_yieldsAtMost _ _ hfirst
      have hsingle : ∀ e ∈ [first], e.height ≤ heightLimit scope.options.maxDepth := by
        intro e he
        rw [List.mem_singleton] at he
        exact he ▸ hle
      rcases h with ⟨-, rfl⟩ | ⟨_, more, -, -, -, ⟨-, rfl⟩ | ⟨others, hothers, rfl, -⟩⟩
      · exact hsingle
      · exact hsingle
      · intro e he
        rcases List.mem_cons.mp he with rfl | he
        · exact hle
        · exact ih hothers e he

/-- **No statement of an accepted formula is higher than the limit** that belongs to its bound on
nesting. -/
theorem height_le_of_ofTokens {options : Options} {sourceEnd : Nat} {tokens : List Token}
    {f : Formula} (h : ofTokens options sourceEnd tokens = .ok f) :
    ∀ e ∈ f.statements, e.height ≤ heightLimit options.maxDepth := by
  unfold ofTokens at h
  dsimp only at h
  split at h
  · cases h
  · rw [Grammar.bind_eq_ok] at h
    obtain ⟨statements, hstatements, h⟩ := h
    have hle := Grammar.statements_heightAtMost hstatements
    cases h
    exact hle

/-- **No statement of a formula that can be read is higher than the limit** that goes with
the bound on nesting. -/
theorem height_le_of_parse {options : Options} {source : String} {f : Formula}
    (h : parse options source = .ok f) :
    ∀ e ∈ f.statements, e.height ≤ heightLimit options.maxDepth := by
  rw [parse, Grammar.bind_eq_ok] at h
  obtain ⟨tokens, -, h⟩ := h
  exact height_le_of_ofTokens h

end Dashboard.Formula
