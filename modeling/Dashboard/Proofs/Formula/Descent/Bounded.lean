import Dashboard.Proofs.Formula.Descent.Following
import Dashboard.Proofs.Formula.Nesting

/-!
# The Descent Is Bounded

Each rule keeps in step with the grammar if the calls it makes do, with one frame less. There
is one lemma for each rule and one for each loop, and from them it follows by induction on the
frames that every call keeps in step.

A loop goes round at most as often as there are tokens, because every round takes at least
one. The two loops that raise the counter are followed at the counter they have reached: there
the grammar has the budget that is left to the rest of the chain. When they end with a result
they set the counter back to where the rule was entered.

All statements together need sixteen frames for each nesting level, and sixteen more. They
also need no more than sixteen for each token, and sixteen more, which is the smaller number
for short formulas.

## Main results

* `keeps_perform` — every call keeps in step with the grammar, whatever the number of frames.
* `run_follows` — so does the descent over all tokens of a formula.
* `run_bounded` — the descent is bounded in its stack and its counter, and balanced.
-/

namespace Dashboard.Formula.Descent

open Grammar

variable {scope : Scope} {tokens : List Token} {frames : Nat} {call : Call → Program Expr}

/-! ### The grammar in sequence -/

/-- What stands between the parentheses of a call. -/
def between (scope : Scope) (inner : Option (Unit → Inner)) (ts : List Token) :
    Except Fault (List Expr × List Token) :=
  match ts with
  | ⟨.rightParen, _⟩ :: _ => .ok ([], ts)
  | _ => Grammar.arguments scope inner (ts.length + 1) ts

/-- A call is what stands between the parentheses, and then the closing one. -/
theorem call_eq_bind (inner : Option (Unit → Inner)) (callee : String) (offset : Nat)
    (ts : List Token) :
    Grammar.call scope inner callee offset ts =
      (do
        let (given, rest) ← between scope inner ts
        let rest ← scope.expect .rightParen rest
        if isAccessor callee && (sourceName? given).isNone then
          .error ⟨offset, .badAccessorArgument callee⟩
        else return (.call callee given, rest)) := by
  rcases ts with _ | ⟨⟨kind, span⟩, more⟩
  · rfl
  · cases kind <;> rfl

section Rules

variable (hcall : Keeps scope tokens frames call)
include hcall

/-! ### Expressions and assignments -/

/-- An expression raises the nesting counter, and then calls the rule for assignments. -/
theorem expression_inStep (c : Cursor) :
    InStep scope tokens (frames + 1) .expression c (body scope tokens call .expression c) :=
  hcall.nested .expression .assignment (.refl c) trivial rfl
    (tokenNeed_lt_of_weight (by decide) (Nat.le_refl _))

/-- An expression is called behind a token that the caller has taken. -/
theorem expression_follows (k : Call) {c c₁ : Cursor} (hrank : 0 < k.rank)
    (hwithin : Within scope.options.maxDepth c c₁) (hfurther : Further tokens (k.origin c) c₁) :
    Follows scope.options.maxDepth (Ample scope.options.maxDepth tokens (frames + 1) k c) c
      (expression scope (inner scope c₁) (ahead tokens c₁))
      (Leaves tokens (Took tokens c₁.position c₁.depth)) (call .expression c₁) :=
  hcall.enter k .expression hwithin trivial
    ⟨levelNeed_lt_of_rank hrank hwithin.depth_le,
      tokenNeed_lt_of_further hfurther.further hfurther.inside⟩

/-- An assignment calls the rule for conditionals. Behind an equals sign it calls itself, one level
further in. -/
theorem assignment_inStep (c : Cursor) :
    InStep scope tokens (frames + 1) .assignment c (body scope tokens call .assignment c) := by
  rw [body, here_bind, InStep, Call.reading, Grammar.assignment]
  refine (hcall.below .assignment .conditional c trivial (by decide) (by decide)
    (Nat.le_refl _)).bind ?_
  rintro target c₁ _ hwithin ⟨rfl, htook⟩
  have hstay : Follows scope.options.maxDepth
      (Ample scope.options.maxDepth tokens (frames + 1) .assignment c) c
      (.ok (target, ahead tokens c₁)) (Leaves tokens (Took tokens c.position c.depth))
      (.done target c₁) := .done hwithin rfl ⟨rfl, htook⟩
  rw [peek?_bind]
  obtain ⟨hnone, -, hnil⟩ | ⟨kind, span, hsome, hlt, hcons⟩ := ahead_cases tokens c₁
  · rw [hnil] at hstay
    rw [hnone, hnil]
    exact hstay
  · rw [hcons] at hstay
    rw [hsome, hcons]
    cases kind
    case assign =>
      dsimp only [Option.map_some]
      by_cases hdialect : scope.options.dialect ≠ .legacy
      · rw [if_pos hdialect, if_pos hdialect, ← hcons]
        exact .fail hwithin
      · rw [if_neg hdialect, if_neg hdialect]
        cases target
        case symbol name =>
          have hinner : inner scope c₁.next = inner scope c := inner_eq htook.level
          rw [← hinner]
          refine (hcall.nested .assignment .assignment hwithin.next trivial rfl
            (tokenNeed_lt_of_further (htook.further.trans (Nat.lt_succ_self _)) hlt)).bind ?_
          rintro value c₂ _ hwithin' ⟨rfl, htook'⟩
          exact .done hwithin' rfl ⟨rfl, htook.andThen htook' (Nat.le_succ _)⟩
        all_goals exact .fault hwithin rfl
    all_goals exact hstay

/-! ### Powers and signs -/

/-- A power calls the rule for signs. Behind a caret it calls itself, one level further in. -/
theorem power_inStep (c : Cursor) :
    InStep scope tokens (frames + 1) .power c (body scope tokens call .power c) := by
  rw [body, InStep, Call.reading, Grammar.power]
  refine (hcall.below .power .signed c trivial (by decide) (by decide) (Nat.le_refl _)).bind ?_
  rintro base c₁ _ hwithin ⟨rfl, htook⟩
  have hstay : Follows scope.options.maxDepth
      (Ample scope.options.maxDepth tokens (frames + 1) .power c) c
      (.ok (base, ahead tokens c₁)) (Leaves tokens (Took tokens c.position c.depth))
      (.done base c₁) := .done hwithin rfl ⟨rfl, htook⟩
  rw [peek?_bind]
  obtain ⟨hnone, -, hnil⟩ | ⟨kind, span, hsome, hlt, hcons⟩ := ahead_cases tokens c₁
  · rw [hnil] at hstay
    rw [hnone, hnil]
    exact hstay
  · rw [hcons] at hstay
    rw [hsome, hcons]
    cases kind
    case caret =>
      have hinner : inner scope c₁.next = inner scope c := inner_eq htook.level
      rw [← hinner]
      refine (hcall.nested .power .power hwithin.next trivial rfl
        (tokenNeed_lt_of_further (htook.further.trans (Nat.lt_succ_self _)) hlt)).bind ?_
      rintro exponent c₂ _ hwithin' ⟨rfl, htook'⟩
      exact .done hwithin' rfl ⟨rfl, htook.andThen htook' (Nat.le_succ _)⟩
    all_goals exact hstay

/-- A sign is behind the cursor when its operand is read. -/
theorem sign_follows {op : UnaryOp} {c : Cursor} (hlt : c.position < tokens.length) :
    Follows scope.options.maxDepth (Ample scope.options.maxDepth tokens (frames + 1) .signed c) c
      (do
        let (e, rest) ← Grammar.nested scope (inner scope c) Inner.signed (ahead tokens c.next)
        return (.unary op e, rest))
      (Leaves tokens (Took tokens c.position c.depth))
      ((do
        skip
        let e ← nested scope tokens (call .signed)
        return .unary op e : Program Expr) c) := by
  refine (hcall.nested .signed .signed (c := c.next) (Within.refl c).next trivial rfl
    (tokenNeed_lt_of_further (Nat.lt_succ_self _) hlt)).bind ?_
  rintro e c₁ _ hwithin ⟨rfl, htook⟩
  exact .done hwithin rfl
    ⟨rfl, ⟨(Nat.lt_succ_self _).trans htook.further, htook.inside⟩, htook.level⟩

/-- Behind a sign the rule for signs calls itself, one level further in; without one it calls the
rule for suffixes. -/
theorem signed_inStep (c : Cursor) :
    InStep scope tokens (frames + 1) .signed c (body scope tokens call .signed c) := by
  have hunsigned : Follows scope.options.maxDepth
      (Ample scope.options.maxDepth tokens (frames + 1) .signed c) c
      (Grammar.suffixed scope (inner scope c) (ahead tokens c))
      (Leaves tokens (Took tokens c.position c.depth)) (call .suffixed c) :=
    hcall.below .signed .suffixed c trivial (by decide) (by decide) (Nat.le_refl _)
  rw [body, peek?_bind, InStep, Call.reading, Grammar.signed]
  obtain ⟨hnone, -, hnil⟩ | ⟨kind, span, hsome, hlt, hcons⟩ := ahead_cases tokens c
  · rw [hnil] at hunsigned
    rw [hnone, hnil]
    exact hunsigned
  · rw [hcons] at hunsigned
    rw [hsome, hcons]
    cases kind
    case minus => exact sign_follows hcall hlt
    case plus => exact sign_follows hcall hlt
    all_goals exact hunsigned

/-! ### Suffixes -/

omit hcall in
/-- Both see the same suffix. -/
theorem suffix?_bind {c : Cursor} {f : Option UnaryOp → Program Expr} :
    (suffix? tokens >>= f) c = f (Grammar.suffix? (ahead tokens c)) c := by
  refine bind_done ?_
  rw [suffix?, peek?_bind]
  obtain ⟨hnone, -, hnil⟩ | ⟨kind, span, hsome, -, hcons⟩ := ahead_cases tokens c
  · rw [hnone, hnil]
    rfl
  · rw [hsome, hcons]
    cases kind
    case percent =>
      have hnext : tokens[c.position + 1]? = (ahead tokens c.next).head? :=
        getElem?_eq_head? tokens c.next
      show (if (tokens[c.position + 1]?.map (·.kind)).any Token.Kind.startsOperand then
        pure none else pure (some .percent) : Program (Option UnaryOp)) c = _
      rw [hnext, Option.any_map, Grammar.suffix?]
      split <;> rfl
    all_goals rfl

omit hcall in
/-- The suffixes raise the counter and leave it raised. -/
theorem suffixLoop_follows {ample : Prop} {c₀ : Cursor} :
    ∀ (rounds : Nat) (e : Expr) (c : Cursor), Within scope.options.maxDepth c₀ c →
      Further tokens c₀.position c → tokens.length < c.position + rounds →
      Follows scope.options.maxDepth ample c₀
        (Grammar.suffixes scope (inner scope c) e (ahead tokens c))
        (Leaves tokens (Further tokens c₀.position)) (suffixLoop scope tokens rounds e c) := by
  intro rounds
  induction rounds with
  | zero =>
    intro e c _ hfurther hrounds
    exact absurd hfurther.inside (Nat.not_le_of_lt hrounds)
  | succ rounds ih =>
    intro e c hwithin hfurther hrounds
    rw [suffixLoop, suffix?_bind, Grammar.suffixes]
    cases hop : Grammar.suffix? (ahead tokens c) with
    | none => exact .done hwithin rfl ⟨rfl, hfurther⟩
    | some op =>
      obtain ⟨-, -, hnil⟩ | ⟨kind, span, -, hlt, hcons⟩ := ahead_cases tokens c
      · rw [hnil] at hop
        cases hop
      · refine Follows.deepen hwithin fun hlevel => ?_
        show Follows _ _ _ (Grammar.suffixes scope (inner scope c.deeper.next) (.unary op e)
          (ahead tokens c).tail) _ (suffixLoop scope tokens rounds (.unary op e) c.deeper.next)
        rw [hcons, List.tail_cons]
        have hmore : tokens.length < c.position + 1 + rounds := by omega
        exact ih (.unary op e) c.deeper.next (hwithin.deeper hlevel).next
          ⟨hfurther.further.trans (Nat.lt_succ_self _), hlt⟩ hmore

/-- The rule for suffixes calls that for operands and runs its loop, and then it lowers the counter
again. -/
theorem suffixed_inStep (c : Cursor) :
    InStep scope tokens (frames + 1) .suffixed c (body scope tokens call .suffixed c) := by
  rw [body, depth_bind, InStep, Call.reading, Grammar.suffixed]
  refine (hcall.below .suffixed .primary c trivial (by decide) (by decide) (Nat.le_refl _)).bind ?_
  rintro operand c₁ _ hwithin ⟨rfl, htook⟩
  have hrounds : tokens.length < c₁.position + (tokens.length + 1) := by omega
  have hinner : inner scope c₁ = inner scope c := inner_eq htook.level
  rw [← hinner]
  exact (suffixLoop_follows _ operand c₁ hwithin htook.toFurther hrounds).restoring

/-! ### Chains of operators -/

omit hcall in
/-- What a chain calls for its operands reads as the grammar does with the tighter tiers. -/
theorem Call.operand_reading (t : Tier) (c : Cursor) :
    (Call.operand t).reading scope tokens c =
      joined scope (inner scope c) t.tighter (ahead tokens c) := by
  cases t <;> rfl

omit hcall in
/-- The operand of a chain begins at the cursor. -/
theorem Call.operand_origin (t : Tier) (c : Cursor) : (Call.operand t).origin c = c.position := by
  cases t <;> rfl

omit hcall in
/-- The operand of a chain may be called at any cursor. -/
theorem Call.operand_ready (t : Tier) (c : Cursor) : (Call.operand t).Ready tokens c := by
  cases t <;> trivial

omit hcall in
/-- The operand of a chain is further down the grammar than the chain. -/
theorem Call.operand_rank_lt (t : Tier) : (Call.operand t).rank < (Call.tier t).rank := by
  cases t <;> decide

omit hcall in
/-- The operand of a chain needs fewer frames than the chain. -/
theorem Call.operand_weight_lt (t : Tier) : (Call.operand t).weight < (Call.tier t).weight := by
  cases t <;> decide

/-- The operand of a chain, at the beginning of the chain or behind it. -/
theorem operand_follows (t : Tier) {c₀ c : Cursor} (hwithin : Within scope.options.maxDepth c₀ c)
    (hle : c₀.position ≤ c.position) :
    Follows scope.options.maxDepth (Ample scope.options.maxDepth tokens (frames + 1) (.tier t) c₀)
      c₀ (joined scope (inner scope c) t.tighter (ahead tokens c))
      (Leaves tokens (Took tokens c.position c.depth)) (call (.operand t) c) := by
  have h := hcall.enter (.tier t) (.operand t) hwithin (Call.operand_ready t c)
    ⟨levelNeed_lt_of_rank (Call.operand_rank_lt t) hwithin.depth_le,
      tokenNeed_lt_of_weight (Call.operand_weight_lt t) (by rw [Call.operand_origin]; exact hle)⟩
  rwa [Call.operand_reading, Call.operand_origin] at h

/-- The operators of a chain raise the counter and leave it raised. -/
theorem chainLoop_follows (t : Tier) {c₀ : Cursor} :
    ∀ (rounds : Nat) (left : Expr) (c : Cursor), Within scope.options.maxDepth c₀ c →
      Further tokens c₀.position c → tokens.length < c.position + rounds →
      Follows scope.options.maxDepth
        (Ample scope.options.maxDepth tokens (frames + 1) (.tier t) c₀) c₀
        (Grammar.chain scope (inner scope c) t left (ahead tokens c))
        (Leaves tokens (Further tokens c₀.position))
        (chainLoop scope tokens t (call (.operand t)) rounds left c) := by
  intro rounds
  induction rounds with
  | zero =>
    intro left c _ hfurther hrounds
    exact absurd hfurther.inside (Nat.not_le_of_lt hrounds)
  | succ rounds ih =>
    intro left c hwithin hfurther hrounds
    have hstay : Follows scope.options.maxDepth
        (Ample scope.options.maxDepth tokens (frames + 1) (.tier t) c₀) c₀
        (.ok (left, ahead tokens c)) (Leaves tokens (Further tokens c₀.position))
        (.done left c) := .done hwithin rfl ⟨rfl, hfurther⟩
    rw [chainLoop, peek?_bind]
    obtain ⟨hnone, -, hnil⟩ | ⟨kind, span, hsome, hlt, hcons⟩ := ahead_cases tokens c
    · rw [hnil] at hstay
      rw [hnone, hnil]
      exact hstay
    · rw [hcons] at hstay
      rw [hsome, hcons, Option.map_some, Option.bind_some, Grammar.chain]
      dsimp only
      cases t.joint? kind with
      | none => exact hstay
      | some joint =>
        have hmore : c.position + 1 ≤ tokens.length := hlt
        dsimp only
        rw [skip_bind]
        refine Follows.deepen (c := c.next) hwithin.next fun hlevel => ?_
        refine (operand_follows hcall t (hwithin.next.deeper hlevel)
          (hfurther.further.le.trans (Nat.le_succ _))).bind ?_
        rintro right c₁ _ hwithin' ⟨rfl, htook⟩
        have hinner : inner scope c₁ = inner scope c.next.deeper := inner_eq htook.level
        rw [← hinner]
        have hpast : c.position + 1 < c₁.position := htook.further
        refine ih (joint.join left right) c₁ hwithin' ⟨?_, htook.inside⟩ ?_
        · exact hfurther.further.trans (by omega)
        · omega

/-- A chain calls the rule of its operands and runs the loop of its operators, and then it lowers
the counter again. -/
theorem tier_inStep (t : Tier) (c : Cursor) :
    InStep scope tokens (frames + 1) (.tier t) c (body scope tokens call (.tier t) c) := by
  rw [body, depth_bind, InStep, Call.reading, joined]
  refine (operand_follows hcall t (.refl c) (Nat.le_refl _)).bind ?_
  rintro left c₁ _ hwithin ⟨rfl, htook⟩
  have hrounds : tokens.length < c₁.position + (tokens.length + 1) := by omega
  have hinner : inner scope c₁ = inner scope c := inner_eq htook.level
  rw [← hinner]
  exact (chainLoop_follows hcall t _ left c₁ hwithin htook.toFurther hrounds).restoring

/-! ### Arguments and calls -/

/-- The arguments, from the first of those that are left. -/
theorem argumentLoop_follows (callee : String) (offset : Nat) {c₀ : Cursor} :
    ∀ (rounds n : Nat) (c : Cursor), Within scope.options.maxDepth c₀ c →
      Further tokens c₀.position c → tokens.length < c.position + rounds →
      tokens.length < c.position + n →
      Follows scope.options.maxDepth
        (Ample scope.options.maxDepth tokens (frames + 1) (.call callee offset) c₀) c₀
        (Grammar.arguments scope (inner scope c) n (ahead tokens c))
        (Leaves tokens (Took tokens c₀.position c.depth))
        (argumentLoop tokens (call .expression) rounds c) := by
  intro rounds
  induction rounds with
  | zero =>
    intro n c _ hfurther hrounds
    exact absurd hfurther.inside (Nat.not_le_of_lt hrounds)
  | succ rounds ih =>
    intro n c hwithin hfurther hrounds hn
    cases n with
    | zero => exact absurd hfurther.inside (Nat.not_le_of_lt hn)
    | succ n =>
      rw [argumentLoop, Grammar.arguments]
      refine (expression_follows hcall (.call callee offset) Nat.one_pos hwithin hfurther).bind ?_
      rintro first c₁ _ hwithin₁ ⟨rfl, htook⟩
      have htook₀ : Took tokens c₀.position c.depth c₁ :=
        ⟨⟨hfurther.further.trans htook.further, htook.inside⟩, htook.level⟩
      have hstay : Follows scope.options.maxDepth
          (Ample scope.options.maxDepth tokens (frames + 1) (.call callee offset) c₀) c₀
          (.ok ([first], ahead tokens c₁)) (Leaves tokens (Took tokens c₀.position c.depth))
          (.done [first] c₁) := .done hwithin₁ rfl ⟨rfl, htook₀⟩
      rw [peek?_bind]
      obtain ⟨hnone, -, hnil⟩ | ⟨kind, span, hsome, hlt, hcons⟩ := ahead_cases tokens c₁
      · rw [hnil] at hstay
        rw [hnone, hnil]
        exact hstay
      · rw [hcons] at hstay
        rw [hsome, hcons]
        cases kind
        case comma =>
          have hpast : c.position < c₁.position := htook.further
          have hmore : tokens.length < c₁.position + 1 + rounds := by omega
          have hmore' : tokens.length < c₁.position + 1 + n := by omega
          have hinner : inner scope c₁.next = inner scope c := inner_eq htook.level
          rw [← hinner]
          refine (ih n c₁.next hwithin₁.next ⟨htook₀.further.trans (Nat.lt_succ_self _), hlt⟩
            hmore hmore').bind ?_
          rintro others c₂ _ hwithin₂ ⟨rfl, htook'⟩
          exact .done hwithin₂ rfl ⟨rfl, htook'.toFurther, htook'.level.trans htook.level⟩
        all_goals exact hstay

/-- What stands between the parentheses is empty or a list of arguments. -/
theorem arguments_follows (callee : String) (offset : Nat) {c₀ c : Cursor}
    (hwithin : Within scope.options.maxDepth c₀ c) (hfurther : Further tokens c₀.position c) :
    Follows scope.options.maxDepth
      (Ample scope.options.maxDepth tokens (frames + 1) (.call callee offset) c₀) c₀
      (between scope (inner scope c) (ahead tokens c))
      (Leaves tokens (Took tokens c₀.position c.depth))
      (arguments tokens (call .expression) c) := by
  have hgiven := argumentLoop_follows hcall callee offset (tokens.length + 1)
    ((ahead tokens c).length + 1) c hwithin hfurther (by omega)
    (by rw [ahead, List.length_drop]; omega)
  rw [arguments, peek?_bind]
  obtain ⟨hnone, -, hnil⟩ | ⟨kind, span, hsome, -, hcons⟩ := ahead_cases tokens c
  · rw [hnil] at hgiven
    rw [hnone, hnil]
    exact hgiven
  · rw [hcons] at hgiven
    rw [hsome, hcons]
    cases kind
    case rightParen => exact .done hwithin rfl ⟨by rw [hcons], hfurther, rfl⟩
    all_goals exact hgiven

/-- A call runs the loop of its arguments, and takes the parenthesis behind them. -/
theorem call_inStep (callee : String) (offset : Nat) (c : Cursor) :
    InStep scope tokens (frames + 1) (.call callee offset) c
      (body scope tokens call (.call callee offset) c) := by
  rw [body, InStep, Call.reading]
  refine (Follows.expect (.refl c)).bind ?_
  rintro _ _ _ hwithin ⟨rfl, rfl, hinside⟩
  rw [call_eq_bind]
  refine (arguments_follows hcall callee offset hwithin ⟨Nat.lt_succ_self _, hinside⟩).bind ?_
  rintro given c₁ _ hwithin₁ ⟨rfl, htook⟩
  refine (Follows.expect hwithin₁).bind ?_
  rintro _ _ _ hwithin₂ ⟨rfl, rfl, hinside₁⟩
  by_cases haccess : (isAccessor callee && (sourceName? given).isNone) = true
  · rw [if_pos haccess, if_pos haccess]
    exact .fault hwithin₂ rfl
  · rw [if_neg haccess, if_neg haccess]
    exact .done hwithin₂ rfl
      ⟨rfl, ⟨htook.further.trans (Nat.lt_succ_self _), hinside₁⟩, htook.level⟩

/-! ### Operands -/

/-- A name calls the rule for calls or for conditionals, or is a value by itself. -/
theorem named_inStep (name : String) (offset : Nat) (c : Cursor)
    (hready : 0 < c.position ∧ c.position ≤ tokens.length) :
    InStep scope tokens (frames + 1) (.named name offset) c
      (body scope tokens call (.named name offset) c) := by
  have horigin : c.position - 1 < c.position := by omega
  have hstay : ∀ e : Expr, Follows scope.options.maxDepth
      (Ample scope.options.maxDepth tokens (frames + 1) (.named name offset) c) c
      (.ok (e, ahead tokens c)) (Leaves tokens (Took tokens (c.position - 1) c.depth))
      (.done e c) := fun e => .done (.refl c) rfl ⟨rfl, ⟨horigin, hready.2⟩, rfl⟩
  rw [body, InStep, Call.reading]
  unfold Grammar.named
  cases hkeyword : Keyword.ofName? name with
  | some keyword =>
    cases keyword with
    | true => exact hstay _
    | false => exact hstay _
    | «if» =>
      have hback : back c = .done () (c.goTo (c.position - 1)) := if_neg hready.1.ne'
      dsimp only
      rw [bind_done hback]
      exact hcall.nested (.named name offset) .branching (c := c.goTo (c.position - 1))
        ((Within.refl c).goTo _) trivial rfl
        (tokenNeed_lt_of_weight Nat.one_lt_two (Nat.le_refl _))
    | _ => exact .fault (.refl c) rfl
  | none =>
    dsimp only
    rw [peek?_bind]
    obtain ⟨hnone, -, hnil⟩ | ⟨kind, span, hsome, -, hcons⟩ := ahead_cases tokens c
    · have hstay := hstay (.symbol name)
      rw [hnil] at hstay
      rw [hnone, hnil]
      exact hstay
    · have hstay := hstay (.symbol name)
      rw [hcons] at hstay
      rw [hsome, hcons]
      cases kind
      case leftParen =>
        have hparen := hcall.below (.named name offset) (.call name offset) c trivial
          Nat.one_lt_two Nat.one_lt_two (Nat.pred_le _)
        rw [Call.reading, hcons] at hparen
        refine hparen.imp ?_
        rintro e c₁ _ ⟨rfl, htook⟩
        exact ⟨rfl, ⟨horigin.trans htook.further, htook.inside⟩, htook.level⟩
      all_goals exact hstay

/-- An expression in parentheses or brackets, behind the opening one. -/
theorem enclosed_follows (close : Token.Kind) (wrap : Expr → Expr) {c : Cursor}
    (hlt : c.position < tokens.length) :
    Follows scope.options.maxDepth (Ample scope.options.maxDepth tokens (frames + 1) .primary c) c
      (do
        let (e, rest) ← expression scope (inner scope c) (ahead tokens c.next)
        let rest ← scope.expect close rest
        return (wrap e, rest))
      (Leaves tokens (Took tokens c.position c.depth))
      ((do
        let e ← call .expression
        expect scope tokens close
        return wrap e : Program Expr) c.next) := by
  have hopened : Further tokens c.position c.next := ⟨Nat.lt_succ_self _, hlt⟩
  refine (expression_follows hcall .primary (by decide) (Within.refl c).next hopened).bind ?_
  rintro e c₁ _ hwithin ⟨rfl, htook⟩
  refine (Follows.expect hwithin).bind ?_
  rintro _ _ _ hwithin' ⟨rfl, rfl, hinside⟩
  have hpast : c.position + 1 < c₁.position := htook.further
  have hfurther : c.position < c₁.position + 1 := by omega
  exact .done hwithin' rfl ⟨rfl, ⟨hfurther, hinside⟩, htook.level⟩

/-- An operand takes its first token, and calls what that token begins. -/
theorem primary_inStep (c : Cursor) :
    InStep scope tokens (frames + 1) .primary c (body scope tokens call .primary c) := by
  rw [body, here_bind, InStep, Call.reading]
  obtain ⟨hnone, -, hnil⟩ | ⟨kind, span, hsome, hlt, hcons⟩ := ahead_cases tokens c
  · have hadvance : advance? tokens c = .done none c := by
      rw [advance?, hnone]
    rw [bind_done hadvance]
    have hfail : Follows scope.options.maxDepth
        (Ample scope.options.maxDepth tokens (frames + 1) .primary c) c
        (scope.fault (ahead tokens c) .unexpectedEnd)
        (Leaves tokens (Took tokens c.position c.depth))
        (fail scope tokens .unexpectedEnd c : Outcome Expr) := .fail (.refl c)
    rw [hnil] at hfail ⊢
    exact hfail
  · have hadvance : advance? tokens c = .done (some ⟨kind, span⟩) c.next := by
      rw [advance?, hsome]
    have hoperand : ∀ e : Expr, Follows scope.options.maxDepth
        (Ample scope.options.maxDepth tokens (frames + 1) .primary c) c
        (.ok (e, ahead tokens c.next)) (Leaves tokens (Took tokens c.position c.depth))
        (.done e c.next) :=
      fun e => .done (Within.refl c).next rfl ⟨rfl, ⟨Nat.lt_succ_self _, hlt⟩, rfl⟩
    rw [bind_done hadvance]
    cases kind
    case number value => rw [hcons]; exact hoperand _
    case text value => rw [hcons]; exact hoperand _
    case leftParen => rw [hcons]; exact enclosed_follows hcall .rightParen id hlt
    case leftBracket => rw [hcons]; exact enclosed_follows hcall .rightBracket (.unary .abs) hlt
    case name name =>
      have hname := hcall.enter .primary (.named name span.start) (c := c.next)
        (Within.refl c).next ⟨Nat.succ_pos _, hlt⟩
        ⟨levelNeed_lt_of_rank (Nat.lt_succ_self _) (Nat.le_refl _),
          tokenNeed_lt_of_weight (Nat.lt_succ_self _) (Nat.le_refl _)⟩
      have htokens : tokens.drop (c.next.position - 1) = ahead tokens c := rfl
      rw [Call.reading, htokens, hcons] at hname
      rw [hcons]
      exact hname
    all_goals
      rw [hcons]
      exact .fault (Within.refl c).next rfl

/-! ### Conditionals -/

/-- The last branch of a conditional, behind what announces it if that is there. -/
theorem alternate_follows (k : Call) (hrank : 0 < k.rank) {c c₁ : Cursor} (present : Bool)
    (hwithin : Within scope.options.maxDepth c c₁)
    (htook : Took tokens (k.origin c) c.depth c₁)
    (hpresent : present = true → c₁.position < tokens.length) :
    Follows scope.options.maxDepth (Ample scope.options.maxDepth tokens (frames + 1) k c) c
      (Grammar.alternate scope (inner scope c) present (ahead tokens c₁))
      (Leaves tokens (Took tokens (k.origin c) c.depth))
      (alternate present (call .expression) c₁) := by
  cases present with
  | false => exact .done hwithin rfl ⟨rfl, htook⟩
  | true =>
    have hlt := hpresent rfl
    have hfurther : Further tokens (k.origin c) c₁.next :=
      ⟨htook.further.trans (Nat.lt_succ_self _), hlt⟩
    have hinner : inner scope c₁.next = inner scope c := inner_eq htook.level
    show Follows _ _ _ (do
      let (e, rest) ← expression scope (inner scope c) (ahead tokens c₁).tail
      return (some e, rest)) _ ((do
        let e ← call .expression
        return some e : Program (Option Expr)) c₁.next)
    rw [tail_ahead, ← hinner]
    refine (expression_follows hcall k hrank hwithin.next hfurther).bind ?_
    rintro e c₂ _ hwithin' ⟨rfl, htook'⟩
    exact .done hwithin' rfl ⟨rfl, htook.andThen htook' (Nat.le_succ _)⟩

/-- A conditional in words calls expressions for its test and for its branches. -/
theorem branching_inStep (c : Cursor) :
    InStep scope tokens (frames + 1) .branching c (body scope tokens call .branching c) := by
  rw [body, InStep, Call.reading, Grammar.branching]
  refine (Follows.expectKeyword (.refl c)).bind ?_
  rintro _ _ _ hwithin ⟨rfl, rfl, hinside⟩
  refine (expression_follows hcall .branching (by decide) hwithin
    ⟨Nat.lt_succ_self _, hinside⟩).bind ?_
  rintro test c₁ _ hwithin₁ ⟨rfl, htest⟩
  have htest₀ : Took tokens c.position c.depth c₁ :=
    ⟨⟨(Nat.lt_succ_self _).trans htest.further, htest.inside⟩, htest.level⟩
  refine (Follows.expectKeyword hwithin₁).bind ?_
  rintro _ _ _ hwithin₂ ⟨rfl, rfl, hinside₁⟩
  have hinner : inner scope c₁.next = inner scope c := inner_eq htest.level
  rw [← hinner]
  refine (expression_follows hcall .branching (by decide) hwithin₂
    ⟨htest₀.further.trans (Nat.lt_succ_self _), hinside₁⟩).bind ?_
  rintro consequent c₂ _ hwithin₃ ⟨rfl, hconsequent⟩
  rw [peekKeyword?_bind, hinner]
  refine (alternate_follows hcall .branching (by decide) _ hwithin₃
    (htest₀.andThen hconsequent (Nat.le_succ _)) ?_).bind ?_
  · exact fun hpresent => lt_of_nextKeyword? (eq_of_beq hpresent)
  · rintro other c₃ _ hwithin₄ ⟨rfl, hother⟩
    exact .done hwithin₄ rfl ⟨rfl, hother⟩

/-- A conditional calls the chains of its test, and expressions for its branches. -/
theorem conditional_inStep (c : Cursor) :
    InStep scope tokens (frames + 1) .conditional c (body scope tokens call .conditional c) := by
  rw [body, peekKeyword?_bind, InStep, Call.reading, Grammar.conditional]
  by_cases hif : nextKeyword? (ahead tokens c) = some .if
  · rw [if_pos hif, if_pos hif]
    exact hcall.below .conditional .branching c trivial (by decide) (by decide) (Nat.le_refl _)
  · rw [if_neg hif, if_neg hif]
    refine (hcall.below .conditional (.tier .or) c trivial (by decide) (by decide)
      (Nat.le_refl _)).bind ?_
    rintro test c₁ _ hwithin ⟨rfl, htook⟩
    have hstay : Follows scope.options.maxDepth
        (Ample scope.options.maxDepth tokens (frames + 1) .conditional c) c
        (.ok (test, ahead tokens c₁)) (Leaves tokens (Took tokens c.position c.depth))
        (.done test c₁) := .done hwithin rfl ⟨rfl, htook⟩
    rw [peek?_bind]
    obtain ⟨hnone, -, hnil⟩ | ⟨kind, span, hsome, hlt, hcons⟩ := ahead_cases tokens c₁
    · rw [hnil] at hstay
      rw [hnone, hnil]
      exact hstay
    · rw [hcons] at hstay
      rw [hsome, hcons]
      cases kind
      case question =>
        have hinner : inner scope c₁.next = inner scope c := inner_eq htook.level
        rw [← hinner]
        have hfurther : Further tokens c.position c₁.next :=
          ⟨htook.further.trans (Nat.lt_succ_self _), hlt⟩
        refine (expression_follows hcall .conditional (by decide) hwithin.next hfurther).bind ?_
        rintro consequent c₂ _ hwithin' ⟨rfl, htook'⟩
        rw [peek?_bind, hinner, getElem?_eq_head?, Option.any_map]
        refine (alternate_follows hcall .conditional (by decide) _ hwithin'
          (htook.andThen htook' (Nat.le_succ _)) ?_).bind ?_
        · intro hpresent
          obtain ⟨-, -, hnil⟩ | ⟨-, -, -, hlt', -⟩ := ahead_cases tokens c₂
          · rw [hnil] at hpresent
            cases hpresent
          · exact hlt'
        · rintro other c₃ _ hwithin'' ⟨rfl, hother⟩
          exact .done hwithin'' rfl ⟨rfl, hother⟩
      all_goals exact hstay

/-! ### All calls -/

/-- With one frame more than the calls it makes, every rule keeps in step. -/
theorem keeps_succ : Keeps scope tokens (frames + 1) (body scope tokens call) := by
  intro k c hready
  cases k with
  | expression => exact expression_inStep hcall c
  | assignment => exact assignment_inStep hcall c
  | conditional => exact conditional_inStep hcall c
  | branching => exact branching_inStep hcall c
  | tier t => exact tier_inStep hcall t c
  | power => exact power_inStep hcall c
  | signed => exact signed_inStep hcall c
  | suffixed => exact suffixed_inStep hcall c
  | primary => exact primary_inStep hcall c
  | named name offset => exact named_inStep hcall name offset c hready
  | call callee offset => exact call_inStep hcall callee offset c

end Rules

/-- Whatever the number of frames is, a call keeps in step with the grammar. -/
theorem keeps_perform (scope : Scope) (tokens : List Token) (frames : Nat) :
    Keeps scope tokens frames (perform scope tokens frames) := by
  induction frames with
  | zero => exact fun k c _ => .overflow (.refl c) (not_ample_zero k c)
  | succ frames ih => exact keeps_succ ih

/-! ### Statements -/

/-- The frames for all statements of a formula. -/
def AmpleFrames (limit : Nat) (tokens : List Token) (frames : Nat) : Prop :=
  16 * (limit + 1) ≤ frames ∨ 16 * (tokens.length + 1) ≤ frames

/-- All tokens were taken and all levels given back. -/
structure Finished (tokens : List Token) (es : List Expr) (c : Cursor) (r : List Expr) : Prop where
  result : r = es
  position : c.position = tokens.length
  depth : c.depth = 0

/-- A statement begins with no level taken. -/
theorem statement_follows (scope : Scope) (tokens : List Token) (frames : Nat) {c : Cursor}
    (hwithin : Within scope.options.maxDepth .start c) (hdepth : c.depth = 0) :
    Follows scope.options.maxDepth (AmpleFrames scope.options.maxDepth tokens (frames + 1)) .start
      (expressionWithin scope scope.options.maxDepth (ahead tokens c))
      (Leaves tokens (Took tokens c.position 0)) (perform scope tokens frames .expression c) := by
  have hinner : expression scope (innerAt scope scope.options.maxDepth) =
      expression scope (inner scope c) := by
    rw [inner, hdepth, Nat.sub_zero]
  have hcall := keeps_perform scope tokens frames .expression c trivial
  rw [expressionWithin_eq, hinner, ← hdepth]
  refine hcall.within hwithin ?_
  rintro (h | h)
  · refine .inl ?_
    rw [levelNeed, hdepth, Call.rank]
    omega
  · refine .inr ?_
    rw [tokenNeed, Call.weight]
    omega

/-- The statements, from the first of those that are left. -/
theorem statementLoop_follows (scope : Scope) (tokens : List Token) (frames : Nat) :
    ∀ (rounds n : Nat) (c : Cursor), Within scope.options.maxDepth .start c → c.depth = 0 →
      c.position < tokens.length → tokens.length < c.position + rounds →
      tokens.length ≤ c.position + n →
      Follows scope.options.maxDepth (AmpleFrames scope.options.maxDepth tokens (frames + 1)) .start
        (Grammar.statements scope n (ahead tokens c)) (Finished tokens)
        (statementLoop scope tokens (perform scope tokens frames .expression) rounds c) := by
  intro rounds
  induction rounds with
  | zero =>
    intro n c _ _ hlt hrounds
    exact absurd hlt (Nat.not_lt_of_lt hrounds)
  | succ rounds ih =>
    intro n c hwithin hdepth hlt hrounds hn
    cases n with
    | zero => exact absurd hlt (Nat.not_lt_of_le hn)
    | succ n =>
      rw [statementLoop, Grammar.statements]
      refine (statement_follows scope tokens frames hwithin hdepth).bind ?_
      rintro first c₁ _ hwithin₁ ⟨rfl, htook⟩
      have hpast : c.position < c₁.position := htook.further
      rw [peek?_bind]
      obtain ⟨hnone, hle, hnil⟩ | ⟨kind, span, hsome, hlt₁, hcons⟩ := ahead_cases tokens c₁
      · rw [hnone, hnil]
        exact .done hwithin₁ rfl ⟨rfl, Nat.le_antisymm htook.inside hle, htook.level⟩
      · rw [hsome, hcons, Option.map_some]
        dsimp only
        by_cases hkind : (kind == .semicolon) = true
        · rw [if_pos hkind, if_pos hkind]
          by_cases hdialect : scope.options.dialect = .legacy
          · rw [if_pos hdialect, if_neg (not_not_intro hdialect), skip_bind, peek?_bind]
            obtain ⟨hnone', hle, hnil⟩ | ⟨kind', span', hsome', hlt₂, hcons'⟩ :=
              ahead_cases tokens c₁.next
            · rw [hnone', hnil]
              exact .done hwithin₁.next rfl ⟨rfl, Nat.le_antisymm hlt₁ hle, htook.level⟩
            · have hmore : tokens.length < c₁.position + 1 + rounds := by omega
              have hmore' : tokens.length ≤ c₁.position + 1 + n := by omega
              have hothers := ih n c₁.next hwithin₁.next htook.level hlt₂ hmore hmore'
              rw [hcons'] at hothers
              rw [hsome', hcons']
              refine hothers.bind ?_
              rintro others c₂ _ hwithin₂ ⟨rfl, hposition, hlevel⟩
              exact .done hwithin₂ rfl ⟨rfl, hposition, hlevel⟩
          · rw [if_neg hdialect, if_pos hdialect, ← hcons]
            exact .fail hwithin₁
        · rw [if_neg hkind, if_neg hkind, ← hcons]
          exact .fail hwithin₁

/-! ### Formulas -/

/-- The descent over the tokens of a formula keeps in step with the grammar. -/
theorem run_follows (options : Options) (sourceEnd : Nat) (tokens : List Token) (frames : Nat) :
    Follows options.maxDepth (AmpleFrames options.maxDepth tokens frames) .start
      (ofTokens options sourceEnd tokens)
      (fun es c formula => formula = ⟨options.dialect, es⟩ ∧
        c.position = (dropMark options.dialect tokens).length ∧ c.depth = 0)
      (run options sourceEnd tokens frames) := by
  rw [run, ofTokens]
  generalize hts : dropMark options.dialect tokens = ts
  cases frames with
  | zero =>
    refine .overflow (.refl _) ?_
    rintro (h | h)
    · omega
    · omega
  | succ frames =>
    rw [Descent.statements]
    by_cases hempty : ts.isEmpty = true
    · rw [if_pos hempty, if_pos hempty]
      exact .fault (.refl _) rfl
    · rw [if_neg hempty, if_neg hempty]
      have hlt : 0 < ts.length := List.length_pos_iff.mpr (mt List.isEmpty_iff.mpr hempty)
      have hloop := statementLoop_follows ⟨options, sourceEnd⟩ ts frames (ts.length + 1) ts.length
        .start (.refl _) rfl hlt (by omega) (by omega)
      have hlength : ts.length ≤ tokens.length :=
        hts ▸ length_dropMark_le options.dialect tokens
      have hample : AmpleFrames options.maxDepth tokens (frames + 1) →
          AmpleFrames options.maxDepth ts (frames + 1) :=
        Or.imp_right (Nat.mul_le_mul_left 16 (Nat.succ_le_succ hlength)).trans
      refine (hloop.within (.refl _) hample).mapAnswer ?_
      rintro es c _ ⟨rfl, hposition, hdepth⟩
      exact ⟨rfl, hposition, hdepth⟩

/-- A descent has the answer of the grammar unless it finds no frame. -/
theorem formula?_run (options : Options) (sourceEnd : Nat) (tokens : List Token) (frames : Nat) :
    (run options sourceEnd tokens frames).formula? options.dialect =
        some (ofTokens options sourceEnd tokens) ∨
      (∃ c, run options sourceEnd tokens frames = .stopped .overflow c) ∧
        ¬ AmpleFrames options.maxDepth tokens frames := by
  have hrun := run_follows options sourceEnd tokens frames
  generalize run options sourceEnd tokens frames = o at hrun
  cases hrun with
  | done _ heq hpost =>
    obtain ⟨rfl, -, -⟩ := hpost
    exact .inl (congrArg some heq.symm)
  | fault _ heq => exact .inl (congrArg some heq.symm)
  | overflow _ hshort => exact .inr ⟨⟨_, rfl⟩, hshort⟩

/-- Recursive descent is bounded and balanced. With sixteen frames for each nesting level and
sixteen more, or with as many for the tokens, the descent gives exactly what the grammar
gives. With fewer frames it does so too or finds no frame, and in no case does a loop go on
or a counter fall below zero. The nesting counter never passes its limit. An accepted formula
has taken all tokens, and every call of a rule takes at least one, stays within the tokens
and leaves the counter as it was. -/
theorem run_bounded (options : Options) (sourceEnd : Nat) (tokens : List Token) :
    (∀ frames, 16 * (options.maxDepth + 1) ≤ frames ∨ 16 * (tokens.length + 1) ≤ frames →
      (run options sourceEnd tokens frames).formula? options.dialect =
        some (ofTokens options sourceEnd tokens)) ∧
    (∀ frames,
      (run options sourceEnd tokens frames).formula? options.dialect =
          some (ofTokens options sourceEnd tokens) ∨
        ∃ c, run options sourceEnd tokens frames = .stopped .overflow c) ∧
    (∀ frames, (run options sourceEnd tokens frames).cursor.deepest ≤ options.maxDepth) ∧
    (∀ frames es c, run options sourceEnd tokens frames = .done es c →
      c.position = (dropMark options.dialect tokens).length ∧ c.depth = 0) ∧
    ∀ frames k c e c', (∀ name offset, k ≠ .named name offset) →
      perform ⟨options, sourceEnd⟩ tokens frames k c = .done e c' →
        c.position < c'.position ∧ c'.position ≤ tokens.length ∧ c'.depth = c.depth := by
  refine ⟨?_, ?_, ?_, ?_, ?_⟩
  · intro frames hample
    exact (formula?_run options sourceEnd tokens frames).resolve_right
      fun hoverflow => hoverflow.2 hample
  · intro frames
    exact (formula?_run options sourceEnd tokens frames).imp_right And.left
  · intro frames
    have hdeepest := (run_follows options sourceEnd tokens frames).cursor_within.deepest_le
    exact hdeepest.trans (max_le (Nat.zero_le _) (Nat.le_refl _))
  · intro frames es c hdone
    have hrun := run_follows options sourceEnd tokens frames
    rw [hdone] at hrun
    obtain ⟨_, -, hposition, hdepth⟩ := hrun.done_post
    exact ⟨hposition, hdepth⟩
  · intro frames k c e c' hrule hdone
    have hready : k.Ready tokens c := by
      cases k with
      | named name offset => exact absurd rfl (hrule name offset)
      | _ => trivial
    have horigin : k.origin c = c.position := by
      cases k with
      | named name offset => exact absurd rfl (hrule name offset)
      | _ => rfl
    have hcall := keeps_perform ⟨options, sourceEnd⟩ tokens frames k c hready
    rw [hdone, InStep, horigin] at hcall
    obtain ⟨_, -, htook⟩ := hcall.done_post
    exact ⟨htook.further, htook.inside, htook.level⟩

/-- A sign in front of a conditional, which is a word that is read twice. -/
def negatedChoice : List Token :=
  [⟨.minus, ⟨0, 1⟩⟩, ⟨.name "if", ⟨1, 3⟩⟩, ⟨.name "a", ⟨4, 5⟩⟩, ⟨.name "then", ⟨6, 10⟩⟩,
    ⟨.name "b", ⟨11, 12⟩⟩]

/-- The formula `-if a then b` needs four nesting levels and finds its frames. -/
theorem run_bounded_negatedChoice :
    (run ⟨.simplified, 4⟩ 12 negatedChoice 80).formula? .simplified =
      some (.ok ⟨.simplified, [.unary .minus (.conditional (.symbol "a") (.symbol "b") none)]⟩) :=
  ((run_bounded ⟨.simplified, 4⟩ 12 negatedChoice).1 80 (.inl (by decide))).trans rfl

end Dashboard.Formula.Descent
