import Dashboard.Proofs.Formula.Lockstep
import Dashboard.Proofs.Formula.RoundTrip
import Mathlib

/-!
# What Stands in Parentheses

What can be read by itself can be read in parentheses. The closing parenthesis is no token that
a rule goes on with, so a rule that reads to the end of the tokens stops there if more tokens
follow it, and so does a rule that stops before. This holds only of a success: tokens that lack
a parenthesis may find it in what follows.

Each rule has one lemma, in terms of the rules one level further in. It says that a success
**carries over** to the same tokens with a closing parenthesis and more behind them. The rules
that the lemma ends with may have a larger budget than those that it begins with, and read
another formula of the same dialect.

## Main results

* `Grammar.level_carries` — a level carries over if the rules one level further in do.
* `Grammar.innerAt_carries` — so the rules with a budget carry over to those with a larger one.
* `Grammar.expressionWithin_carries` — what is read is read in front of a parenthesis too.
-/

namespace Dashboard.Formula

/-! ### Computations that carry over -/

/-- A computation **carries over** to another one: if it succeeds, the other one gives what a
function makes of its result. -/
def Carries {ε ε' α β : Type} (f : α → β) (x : Except ε α) (y : Except ε' β) : Prop :=
  ∀ a, x = .ok a → y = .ok (f a)

/-- A result carries over to what the function makes of it. -/
theorem carries_ok {ε ε' α β : Type} (f : α → β) (a : α) :
    Carries f (.ok a : Except ε α) (.ok (f a) : Except ε' β) := by
  rintro _ ⟨⟩
  rfl

/-- A failure carries over to anything. -/
theorem carries_error {ε ε' α β : Type} (f : α → β) (e : ε) (y : Except ε' β) :
    Carries f (.error e) y := by
  intro a h
  cases h

/-- A sequence carries over if its two parts do. -/
theorem Carries.bind {ε ε' α α' β β' : Type} {f : α → β} {g : α' → β'} {x : Except ε α}
    {y : Except ε' β} {k : α → Except ε α'} {l : β → Except ε' β'} (h : Carries f x y)
    (hk : ∀ a, x = .ok a → Carries g (k a) (l (f a))) : Carries g (x >>= k) (y >>= l) := by
  cases x with
  | error e => exact carries_error g e _
  | ok a =>
      rw [h a rfl]
      exact hk a rfl

namespace Grammar

/-- A result with more tokens behind those that are left. -/
def followed {α : Type} (tail : List Token) (r : α × List Token) : α × List Token :=
  (r.1, r.2 ++ tail)

/-- A rule carries over to another one that reads more tokens behind. -/
def CarriesOver (tail : List Token) (rule rule' : Rule) : Prop :=
  ∀ ts, Carries (followed tail) (rule ts) (rule' (ts ++ tail))

/-- The rules of a nesting level carry over to those of another one. -/
structure Inner.CarriesOver (tail : List Token) (rules rules' : Inner) : Prop where
  assignment : Grammar.CarriesOver tail rules.assignment rules'.assignment
  branching : Grammar.CarriesOver tail rules.branching rules'.branching
  power : Grammar.CarriesOver tail rules.power rules'.power
  signed : Grammar.CarriesOver tail rules.signed rules'.signed
  operand : ∀ tier, Grammar.CarriesOver tail (rules.operand tier) (rules'.operand tier)
  chain : ∀ tier e, Grammar.CarriesOver tail (rules.chain tier e) (rules'.chain tier e)
  suffixes : ∀ e, Grammar.CarriesOver tail (rules.suffixes e) (rules'.suffixes e)

/-! ### What a closing parenthesis is not -/

/-- The tokens begin with a closing parenthesis. -/
def Encloses (tail : List Token) : Prop :=
  ∃ span more, tail = ⟨.rightParen, span⟩ :: more

section Lookahead

variable {tail : List Token} (htail : Encloses tail)

include htail

/-- A closing parenthesis is not the token of another kind that was missing. -/
theorem notNext_append {kind : Token.Kind} (hkind : kind ≠ .rightParen) {ts : List Token}
    (h : NotNext kind ts) : NotNext kind (ts ++ tail) := by
  obtain ⟨close, more, rfl⟩ := htail
  cases ts with
  | nil =>
      rintro span others heq
      cases heq
      exact hkind rfl
  | cons t ts =>
      rintro span others heq
      cases heq
      exact h span ts rfl

/-- Neither a suffix nor the operand behind a percent sign begins with a closing parenthesis. -/
theorem suffix?_append (ts : List Token) : suffix? (ts ++ tail) = suffix? ts := by
  obtain ⟨close, more, rfl⟩ := htail
  cases ts with
  | nil => rfl
  | cons t ts =>
      obtain ⟨kind, span⟩ := t
      cases kind with
      | percent => cases ts <;> rfl
      | _ => rfl

/-- No sign is a closing parenthesis. -/
theorem sign?_append (ts : List Token) : sign? (ts ++ tail) = sign? ts := by
  obtain ⟨close, more, rfl⟩ := htail
  cases ts with
  | nil => rfl
  | cons t ts =>
      obtain ⟨kind, span⟩ := t
      cases kind <;> rfl

/-- No keyword is a closing parenthesis. -/
theorem nextKeyword?_append (ts : List Token) : nextKeyword? (ts ++ tail) = nextKeyword? ts := by
  obtain ⟨close, more, rfl⟩ := htail
  cases ts <;> rfl

/-- No operator is a closing parenthesis. -/
theorem noJoint_append (tier : Tier) : NoJoint tier tail := by
  obtain ⟨close, more, rfl⟩ := htail
  rintro _ ⟨⟩
  cases tier <;> rfl

/-- A colon is no closing parenthesis. -/
theorem head?_any_colon_append (ts : List Token) :
    ((ts ++ tail).head?.any fun t => t.kind == .colon) =
      ts.head?.any fun t => t.kind == .colon := by
  obtain ⟨close, more, rfl⟩ := htail
  cases ts <;> rfl

end Lookahead

/-! ### The rules -/

section Level

variable {scope scope' : Scope} {inner inner' : Option (Unit → Inner)} {tail : List Token}
  (htail : Encloses tail) (hdialect : scope'.options.dialect = scope.options.dialect)
  (hinner : ∀ below, inner = some below → ∃ below', inner' = some below' ∧
    (below ()).CarriesOver tail (below' ()))

include hinner in
/-- If a rule carries over, so does the rule when it is entered one level further in. -/
theorem nested_carries {rule rule' : Inner → Rule} {ts ts' : List Token}
    (h : ∀ rules rules' : Inner, rules.CarriesOver tail rules' →
      Carries (followed tail) (rule rules ts) (rule' rules' ts')) :
    Carries (followed tail) (nested scope inner rule ts) (nested scope' inner' rule' ts') := by
  cases inner with
  | none => exact carries_error _ _ _
  | some below =>
      obtain ⟨below', rfl, hbelow⟩ := hinner below rfl
      exact h _ _ hbelow

include hinner in
/-- Expressions carry over if the rules one level further in do. -/
theorem expression_carries :
    CarriesOver tail (expression scope inner) (expression scope' inner') :=
  fun ts => nested_carries hinner fun _ _ hrules => hrules.assignment ts

/-- A token that was expected and found is found there too. -/
theorem expect_carries (kind : Token.Kind) (ts : List Token) :
    Carries (· ++ tail) (scope.expect kind ts) (scope'.expect kind (ts ++ tail)) := by
  intro rest h
  obtain ⟨t, rfl, hkind⟩ := expect_eq_ok h
  rw [List.cons_append, Scope.expect]
  exact if_pos hkind

include htail in
/-- A keyword that was expected and found is found there too. -/
theorem expectKeyword_carries (keyword : Keyword) (ts : List Token) :
    Carries (· ++ tail) (scope.expectKeyword keyword ts)
      (scope'.expectKeyword keyword (ts ++ tail)) := by
  intro rest h
  obtain ⟨hnext, rfl⟩ := expectKeyword_eq_ok h
  rw [Scope.expectKeyword, nextKeyword?_append htail, if_pos hnext]
  cases ts with
  | nil => cases hnext
  | cons t ts => rfl

/-! ### Operands -/

variable (hsound : ∀ below, inner = some below → (below ()).Sound scope.options.dialect)

include htail hinner hsound in
/-- The count of arguments comes from the number of tokens, and is larger if more follow. It is
never used up because every argument takes a token. -/
theorem arguments_carries {n n' : Nat} {ts : List Token} (hn : ts.length < n) (hn' : n ≤ n') :
    Carries (followed tail) (arguments scope inner n ts)
      (arguments scope' inner' n' (ts ++ tail)) := by
  induction n generalizing n' ts with
  | zero => omega
  | succ n ih =>
      obtain ⟨m, rfl⟩ : ∃ m, n' = m + 1 := ⟨n' - 1, by omega⟩
      rw [arguments, arguments]
      refine (expression_carries hinner ts).bind ?_
      rintro ⟨first, rest⟩ hfirst
      have hlt := length_lt_of_takes (expression_sound hsound hfirst)
      dsimp only [followed]
      split
      · next span more =>
        rw [List.length_cons] at hlt
        refine (ih (by omega) (Nat.le_of_succ_le_succ hn')).bind fun r _ => ?_
        exact carries_ok _ _
      · next hcomma =>
        split
        · next span more heq =>
          exact absurd heq (notNext_append htail (by rintro ⟨⟩) hcomma span more)
        · exact carries_ok _ _

include htail hinner hsound in
/-- Calls carry over. What follows the arguments is the same whether there are any, and a call
without arguments has its own parenthesis, so it does not end at the one that follows. -/
theorem call_carries (callee : String) (offset offset' : Nat) :
    CarriesOver tail (call scope inner callee offset) (call scope' inner' callee offset') := by
  intro ts
  have hclose : ∀ (given : List Expr) (rest : List Token), Carries (followed tail)
      (do
        let last ← scope.expect .rightParen rest
        if isAccessor callee && (sourceName? given).isNone then
          .error ⟨offset, .badAccessorArgument callee⟩
        else return (Expr.call callee given, last) : Except Fault _)
      (do
        let last ← scope'.expect .rightParen (rest ++ tail)
        if isAccessor callee && (sourceName? given).isNone then
          .error ⟨offset', .badAccessorArgument callee⟩
        else return (Expr.call callee given, last) : Except Fault _) := by
    intro given rest
    refine (expect_carries .rightParen rest).bind fun last _ => ?_
    split
    · exact carries_error _ _ _
    · exact carries_ok _ _
  cases ts with
  | nil =>
      rintro ⟨e, rest⟩ h
      obtain ⟨given, middle, ⟨_, _, hnil, -⟩ | harguments, -⟩ := call_eq_ok h
      · cases hnil
      · obtain ⟨first, others, hfirst, -⟩ := arguments_succ_eq_ok harguments
        exact absurd (length_lt_of_takes (expression_sound hsound hfirst)) (Nat.not_lt_zero _)
  | cons t more =>
      rw [List.cons_append]
      unfold call
      dsimp only
      split
      · next span others heq =>
        cases heq
        exact hclose [] (⟨.rightParen, span⟩ :: more)
      · next hparen =>
        split
        · next span others heq =>
          cases heq
          exact absurd rfl (hparen span more)
        · refine (arguments_carries htail hinner hsound (Nat.lt_succ_self _) ?_).bind
            fun r _ => hclose r.1 r.2
          rw [List.length_cons, List.length_cons, List.length_append]
          omega

include htail hinner hsound in
/-- What a name begins carries over. -/
theorem named_carries (name : String) (offset offset' : Nat) (ts : List Token) :
    CarriesOver tail (named scope inner name offset ts)
      (named scope' inner' name offset' (ts ++ tail)) := by
  intro rest
  unfold named
  split
  · exact carries_ok _ _
  · exact carries_ok _ _
  · exact nested_carries hinner fun _ _ hrules => hrules.branching ts
  · exact carries_error _ _ _
  · split
    · next span more => exact call_carries htail hinner hsound name offset offset' more
    · next hparen =>
      split
      · next span more heq => exact absurd heq (notNext_append htail (by rintro ⟨⟩) hparen _ _)
      · exact carries_ok _ _

include htail hinner hsound in
/-- Operands carry over. -/
theorem primary_carries : CarriesOver tail (primary scope inner) (primary scope' inner') := by
  intro ts
  cases ts with
  | nil => exact carries_error _ _ _
  | cons t more =>
      obtain ⟨kind, span⟩ := t
      cases kind with
      | number value => exact carries_ok _ _
      | text value => exact carries_ok _ _
      | leftParen | leftBracket =>
          refine (expression_carries hinner more).bind fun r _ => ?_
          exact (expect_carries _ r.2).bind fun _ _ => carries_ok _ _
      | name name => exact named_carries htail hinner hsound name _ _ _ more
      | _ => exact carries_error _ _ _

/-! ### Suffixes, signs and powers -/

include htail hinner in
/-- Suffixes carry over. -/
theorem suffixes_carries (e : Expr) :
    CarriesOver tail (suffixes scope inner e) (suffixes scope' inner' e) := by
  intro ts
  rw [suffixes, suffixes, suffix?_append htail]
  split
  · next op hop =>
    have hne : ts ≠ [] := by
      rintro rfl
      cases hop
    refine nested_carries hinner fun _ _ hrules => ?_
    rw [List.tail_append_of_ne_nil hne]
    exact hrules.suffixes _ ts.tail
  · exact carries_ok _ _

include htail hinner hsound in
/-- Operands with suffixes carry over. -/
theorem suffixed_carries : CarriesOver tail (suffixed scope inner) (suffixed scope' inner') :=
  fun ts => (primary_carries htail hinner hsound ts).bind fun r _ =>
    suffixes_carries htail hinner r.1 r.2

include htail hinner hsound in
/-- Operands with signs carry over. -/
theorem signed_carries : CarriesOver tail (signed scope inner) (signed scope' inner') := by
  intro ts
  rw [signed, signed, sign?_append htail]
  split
  · next op hop =>
    have hne : ts ≠ [] := by
      rintro rfl
      cases hop
    rw [List.tail_append_of_ne_nil hne]
    exact (nested_carries hinner fun _ _ hrules => hrules.signed ts.tail).bind
      fun _ _ => carries_ok _ _
  · exact suffixed_carries htail hinner hsound ts

include htail hinner hsound in
/-- Powers carry over. -/
theorem power_carries : CarriesOver tail (power scope inner) (power scope' inner') := by
  intro ts
  rw [power, power]
  refine (signed_carries htail hinner hsound ts).bind ?_
  rintro ⟨base, rest⟩ -
  dsimp only [followed]
  split
  · next span more =>
    exact (nested_carries hinner fun _ _ hrules => hrules.power more).bind
      fun _ _ => carries_ok _ _
  · next hcaret =>
    split
    · next span more heq => exact absurd heq (notNext_append htail (by rintro ⟨⟩) hcaret _ _)
    · exact carries_ok _ _

/-! ### Chains of operators -/

include htail hinner in
/-- The operators of a tier carry over. -/
theorem chain_carries (tier : Tier) (left : Expr) :
    CarriesOver tail (chain scope inner tier left) (chain scope' inner' tier left) := by
  intro ts
  cases ts with
  | nil =>
      rw [List.nil_append, chain_of_noJoint (noJoint_append htail tier)]
      exact carries_ok _ _
  | cons t more =>
      rw [List.cons_append, chain, chain]
      dsimp only
      split
      · exact carries_ok _ _
      · refine nested_carries hinner fun _ _ hrules => ?_
        exact (hrules.operand tier more).bind fun r _ => hrules.chain tier _ r.2

include htail hinner hsound in
/-- The chains of all tiers carry over, by induction on the tiers. -/
theorem joined_carries (tiers : List Tier) :
    CarriesOver tail (joined scope inner tiers) (joined scope' inner' tiers) := by
  induction tiers with
  | nil => exact power_carries htail hinner hsound
  | cons tier tighter ih =>
      exact fun ts => (ih ts).bind fun r _ => chain_carries htail hinner tier r.1 r.2

/-! ### Conditionals and assignments -/

include hinner in
/-- A second branch carries over if its mark was one of the tokens. -/
theorem alternate_carries {present : Bool} {ts : List Token} (hne : present = true → ts ≠ []) :
    Carries (followed tail) (alternate scope inner present ts)
      (alternate scope' inner' present (ts ++ tail)) := by
  cases present with
  | false => exact carries_ok _ _
  | true =>
      rw [alternate, alternate, if_pos rfl, if_pos rfl, List.tail_append_of_ne_nil (hne rfl)]
      exact (expression_carries hinner ts.tail).bind fun _ _ => carries_ok _ _

include htail hinner in
/-- Conditionals in words carry over. -/
theorem branching_carries : CarriesOver tail (branching scope inner) (branching scope' inner') := by
  intro ts
  rw [branching, branching]
  refine (expectKeyword_carries htail .if ts).bind fun ts₁ _ => ?_
  refine (expression_carries hinner ts₁).bind ?_
  rintro ⟨test, ts₂⟩ -
  refine (expectKeyword_carries htail .then ts₂).bind fun ts₃ _ => ?_
  refine (expression_carries hinner ts₃).bind ?_
  rintro ⟨consequent, ts₄⟩ -
  dsimp only [followed]
  rw [nextKeyword?_append htail]
  refine (alternate_carries hinner ?_).bind fun _ _ => carries_ok _ _
  rintro h rfl
  cases h

include htail hinner hsound in
/-- Conditionals carry over. -/
theorem conditional_carries :
    CarriesOver tail (conditional scope inner) (conditional scope' inner') := by
  intro ts
  rw [conditional, conditional, nextKeyword?_append htail]
  split
  · exact branching_carries htail hinner ts
  · refine (joined_carries htail hinner hsound Tier.all ts).bind ?_
    rintro ⟨test, rest⟩ -
    dsimp only [followed]
    split
    · next span more =>
      refine (expression_carries hinner more).bind ?_
      rintro ⟨consequent, ts₁⟩ -
      dsimp only [followed]
      rw [head?_any_colon_append htail]
      refine (alternate_carries hinner ?_).bind fun _ _ => carries_ok _ _
      rintro h rfl
      cases h
    · next hquestion =>
      split
      · next span more heq =>
        exact absurd heq (notNext_append htail (by rintro ⟨⟩) hquestion _ _)
      · exact carries_ok _ _

include htail hdialect hinner hsound in
/-- Assignments carry over. -/
theorem assignment_carries :
    CarriesOver tail (assignment scope inner) (assignment scope' inner') := by
  intro ts
  rw [assignment, assignment]
  refine (conditional_carries htail hinner hsound ts).bind ?_
  rintro ⟨target, rest⟩ -
  dsimp only [followed]
  rw [hdialect]
  split
  · next span more =>
    dsimp only [List.cons_append]
    split
    · exact carries_error _ _ _
    · split
      · exact (nested_carries hinner fun _ _ hrules => hrules.assignment more).bind
          fun _ _ => carries_ok _ _
      · exact carries_error _ _ _
  · next hassign =>
    split
    · next span more heq => exact absurd heq (notNext_append htail (by rintro ⟨⟩) hassign _ _)
    · exact carries_ok _ _

include htail hdialect hinner hsound in
/-- If the rules one level further in carry over, so do those of a level. -/
theorem level_carries : (level scope inner).CarriesOver tail (level scope' inner') where
  assignment := assignment_carries htail hdialect hinner hsound
  branching := branching_carries htail hinner
  power := power_carries htail hinner hsound
  signed := signed_carries htail hinner hsound
  operand tier := joined_carries htail hinner hsound tier.tighter
  chain := chain_carries htail hinner
  suffixes := suffixes_carries htail hinner

end Level

/-! ### Expressions -/

section Expressions

variable {scope scope' : Scope} {tail : List Token} (htail : Encloses tail)
  (hdialect : scope'.options.dialect = scope.options.dialect)

include htail hdialect

/-- **The rules of every nesting level carry over**, by induction on the smaller budget. -/
theorem innerAt_carries {budget budget' : Nat} (h : budget ≤ budget') :
    ∀ below, innerAt scope budget = some below →
      ∃ below', innerAt scope' budget' = some below' ∧
        (below ()).CarriesOver tail (below' ()) := by
  induction budget generalizing budget' with
  | zero => exact nofun
  | succ budget ih =>
      obtain ⟨budget', rfl⟩ := Nat.exists_eq_add_one.mpr (Nat.zero_lt_of_lt h)
      rintro _ ⟨⟩
      refine ⟨_, rfl, ?_⟩
      show (rules scope budget).CarriesOver tail (rules scope' budget')
      rw [rules_eq_level, rules_eq_level]
      exact level_carries htail hdialect (ih (Nat.le_of_succ_le_succ h))
        (sound_innerAt scope budget)

/-- **What is read is read in front of a closing parenthesis too**, with a budget that is no
smaller. -/
theorem expressionWithin_carries {budget budget' : Nat} (h : budget ≤ budget') :
    CarriesOver tail (expressionWithin scope budget)
      (expression scope' (innerAt scope' budget')) := by
  rw [expressionWithin_eq]
  exact expression_carries (innerAt_carries htail hdialect h)

end Expressions

end Grammar

end Dashboard.Formula
