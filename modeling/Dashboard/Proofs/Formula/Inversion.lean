import Dashboard.Formula.Grammar

/-!
# The Rules Read Backwards

For every rule of the grammar this module has one lemma that says what a success of the rule
consists of: which rules succeeded on which tokens, which token was taken between them, and
how the tree is put together. All that is proved of the formulas that can be read goes
through these lemmas, and no other module unfolds a rule to see why it succeeded.

A rule that goes one nesting level further in does so by `nested`, and its lemma hands out
the rules of that level. So a property of all rules is proved by induction on the budget,
with one case for each lemma.

## Main results

* `bind_eq_ok` — a sequence succeeds if its two parts do.
* `nested_eq_ok`, `expect_eq_ok`, `primary_eq_ok`, `suffixes_eq_ok`, `chain_eq_ok`,
  `joined_cons_eq_ok`, `conditional_eq_ok`, `assignment_eq_ok` — the rules read backwards.
* `statements_succ_eq_ok` — the first statement of a formula, and what comes behind it.
-/

namespace Dashboard.Formula.Grammar

/-- A sequence whose first part succeeds goes on with what that gave. -/
theorem ok_bind {ε α β : Type} (a : α) (f : α → Except ε β) : Except.ok a >>= f = f a := rfl

/-- A sequence succeeds exactly if its first part does and the second part does with what the
first one gave. -/
theorem bind_eq_ok {ε α β : Type} {x : Except ε α} {f : α → Except ε β} {b : β} :
    x >>= f = .ok b ↔ ∃ a, x = .ok a ∧ f a = .ok b := by
  cases x with
  | error e => exact ⟨nofun, nofun⟩
  | ok a => exact ⟨fun h => ⟨a, rfl, h⟩, fun ⟨_, ha, h⟩ => Except.ok.inj ha ▸ h⟩

variable {scope : Scope} {inner : Option (Unit → Inner)}

/-! ### Nesting and closing tokens -/

/-- A nested rule needs a level that is left. -/
theorem nested_eq_ok {rule : Inner → Rule} {ts : List Token} {r : Expr × List Token}
    (h : nested scope inner rule ts = .ok r) :
    ∃ below, inner = some below ∧ rule (below ()) ts = .ok r := by
  cases inner with
  | none => cases h
  | some below => exact ⟨below, rfl, h⟩

/-- The closing token that was expected is there. -/
theorem expect_eq_ok {kind : Token.Kind} {ts rest : List Token}
    (h : scope.expect kind ts = .ok rest) :
    ∃ t, ts = t :: rest ∧ (t.kind == kind) = true := by
  unfold Scope.expect at h
  split at h
  · cases h
  · next t more =>
    split at h
    · next hkind =>
      cases h
      exact ⟨t, rfl, hkind⟩
    · cases h

/-- The keyword that was expected is there. -/
theorem expectKeyword_eq_ok {keyword : Keyword} {ts rest : List Token}
    (h : scope.expectKeyword keyword ts = .ok rest) :
    nextKeyword? ts = some keyword ∧ rest = ts.tail := by
  rw [Scope.expectKeyword] at h
  split at h
  · next hnext =>
    cases h
    exact ⟨hnext, rfl⟩
  · cases h

/-! ### Operands -/

/-- A list of arguments is one argument, with the others behind a comma if there is one. -/
theorem arguments_succ_eq_ok {n : Nat} {ts rest : List Token} {given : List Expr}
    (h : arguments scope inner (n + 1) ts = .ok (given, rest)) :
    ∃ first middle, expression scope inner ts = .ok (first, middle) ∧
      ((∃ span more others, middle = ⟨.comma, span⟩ :: more ∧
          arguments scope inner n more = .ok (others, rest) ∧ given = first :: others) ∨
        rest = middle ∧ given = [first]) := by
  rw [arguments, bind_eq_ok] at h
  obtain ⟨⟨first, middle⟩, hfirst, h⟩ := h
  refine ⟨first, middle, hfirst, ?_⟩
  dsimp only at h
  split at h
  · next span more =>
    rw [bind_eq_ok] at h
    obtain ⟨⟨others, last⟩, hothers, h⟩ := h
    cases h
    exact .inl ⟨span, more, others, rfl, hothers, rfl⟩
  · cases h
    exact .inr ⟨rfl, rfl⟩

/-- A call has its arguments, if any, and its closing parenthesis, and an accessor has the
argument that it needs. -/
theorem call_eq_ok {callee : String} {offset : Nat} {ts rest : List Token} {e : Expr}
    (h : call scope inner callee offset ts = .ok (e, rest)) :
    ∃ given middle,
      ((∃ span more, ts = ⟨.rightParen, span⟩ :: more ∧ given = [] ∧ middle = ts) ∨
        arguments scope inner (ts.length + 1) ts = .ok (given, middle)) ∧
      scope.expect .rightParen middle = .ok rest ∧
      (isAccessor callee = true → (sourceName? given).isSome = true) ∧
      e = .call callee given := by
  obtain ⟨given, middle, hgiven, h⟩ : ∃ given middle,
      ((∃ span more, ts = ⟨.rightParen, span⟩ :: more ∧ given = [] ∧ middle = ts) ∨
        arguments scope inner (ts.length + 1) ts = .ok (given, middle)) ∧
      (do
        let last ← scope.expect .rightParen middle
        if isAccessor callee && (sourceName? given).isNone then
          .error ⟨offset, .badAccessorArgument callee⟩
        else return (Expr.call callee given, last)) = Except.ok (e, rest) := by
    unfold call at h
    dsimp only at h
    split at h
    · next span more => exact ⟨[], _, .inl ⟨span, more, rfl, rfl, rfl⟩, h⟩
    · rw [bind_eq_ok] at h
      obtain ⟨⟨given, middle⟩, hgiven, h⟩ := h
      exact ⟨given, middle, .inr hgiven, h⟩
  rw [bind_eq_ok] at h
  obtain ⟨last, hlast, h⟩ := h
  split at h
  · cases h
  · next haccess =>
    cases h
    refine ⟨given, middle, hgiven, hlast, ?_, rfl⟩
    intro hcallee
    cases hname : sourceName? given with
    | none => simp [hcallee, hname] at haccess
    | some name => rfl

/-- An operand that begins with a name is a truth value, a conditional, a call or a
symbol. -/
theorem named_eq_ok {name : String} {offset : Nat} {ts following rest : List Token} {e : Expr}
    (h : named scope inner name offset ts following = .ok (e, rest)) :
    (Keyword.ofName? name = some .true ∧ e = .boolean true ∧ rest = following) ∨
      (Keyword.ofName? name = some .false ∧ e = .boolean false ∧ rest = following) ∨
      (Keyword.ofName? name = some .if ∧
        nested scope inner Inner.branching ts = .ok (e, rest)) ∨
      (Keyword.ofName? name = none ∧ ∃ span more, following = ⟨.leftParen, span⟩ :: more ∧
        call scope inner name offset more = .ok (e, rest)) ∨
      (Keyword.ofName? name = none ∧ e = .symbol name ∧ rest = following ∧
        ∀ span more, following ≠ ⟨.leftParen, span⟩ :: more) := by
  unfold named at h
  split at h
  · next hkeyword =>
    cases h
    exact .inl ⟨hkeyword, rfl, rfl⟩
  · next hkeyword =>
    cases h
    exact .inr (.inl ⟨hkeyword, rfl, rfl⟩)
  · next hkeyword => exact .inr (.inr (.inl ⟨hkeyword, h⟩))
  · cases h
  · next hkeyword =>
    split at h
    · next span more => exact .inr (.inr (.inr (.inl ⟨hkeyword, span, more, rfl, h⟩)))
    · next hparen =>
      cases h
      exact .inr (.inr (.inr (.inr ⟨hkeyword, rfl, rfl, hparen⟩)))

/-- An operand is a number, a text, something in parentheses or brackets, or begins with a
name. -/
theorem primary_eq_ok {ts rest : List Token} {e : Expr}
    (h : primary scope inner ts = .ok (e, rest)) :
    ∃ span more,
      (∃ value, ts = ⟨.number value, span⟩ :: more ∧ e = .number value ∧ rest = more) ∨
      (∃ value, ts = ⟨.text value, span⟩ :: more ∧ e = .text value ∧ rest = more) ∨
      (ts = ⟨.leftParen, span⟩ :: more ∧ ∃ middle,
        expression scope inner more = .ok (e, middle) ∧
          scope.expect .rightParen middle = .ok rest) ∨
      (ts = ⟨.leftBracket, span⟩ :: more ∧ ∃ operand middle,
        expression scope inner more = .ok (operand, middle) ∧
          scope.expect .rightBracket middle = .ok rest ∧ e = .unary .abs operand) ∨
      (∃ name, ts = ⟨.name name, span⟩ :: more ∧
        named scope inner name span.start ts more = .ok (e, rest)) := by
  cases ts with
  | nil => cases h
  | cons t more =>
      obtain ⟨kind, span⟩ := t
      refine ⟨span, more, ?_⟩
      cases kind with
      | number value =>
          cases h
          exact .inl ⟨value, rfl, rfl, rfl⟩
      | text value =>
          cases h
          exact .inr (.inl ⟨value, rfl, rfl, rfl⟩)
      | leftParen =>
          simp only [primary, bind_eq_ok] at h
          obtain ⟨⟨inside, middle⟩, hinside, last, hlast, h⟩ := h
          cases h
          exact .inr (.inr (.inl ⟨rfl, middle, hinside, hlast⟩))
      | leftBracket =>
          simp only [primary, bind_eq_ok] at h
          obtain ⟨⟨inside, middle⟩, hinside, last, hlast, h⟩ := h
          cases h
          exact .inr (.inr (.inr (.inl ⟨rfl, inside, middle, hinside, hlast, rfl⟩)))
      | name name => exact .inr (.inr (.inr (.inr ⟨name, rfl, h⟩)))
      | _ => cases h

/-! ### Suffixes, signs and powers -/

/-- A suffix stands around what is in front of it. -/
theorem suffixes_eq_ok {left e : Expr} {ts rest : List Token}
    (h : suffixes scope inner left ts = .ok (e, rest)) :
    (∃ op below, suffix? ts = some op ∧ inner = some below ∧
        (below ()).suffixes (.unary op left) ts.tail = .ok (e, rest)) ∨
      (suffix? ts = none ∧ e = left ∧ rest = ts) := by
  rw [suffixes] at h
  split at h
  · next op hop =>
    obtain ⟨below, hbelow, h⟩ := nested_eq_ok h
    exact .inl ⟨op, below, hop, hbelow, h⟩
  · next hnone =>
    cases h
    exact .inr ⟨hnone, rfl, rfl⟩

/-- An operand with suffixes is an operand and what its suffixes make of it. -/
theorem suffixed_eq_ok {ts rest : List Token} {e : Expr}
    (h : suffixed scope inner ts = .ok (e, rest)) :
    ∃ operand middle, primary scope inner ts = .ok (operand, middle) ∧
      suffixes scope inner operand middle = .ok (e, rest) := by
  rw [suffixed, bind_eq_ok] at h
  obtain ⟨⟨operand, middle⟩, hoperand, h⟩ := h
  exact ⟨operand, middle, hoperand, h⟩

/-- A sign stands around what is behind it. -/
theorem signed_eq_ok {ts rest : List Token} {e : Expr}
    (h : signed scope inner ts = .ok (e, rest)) :
    (∃ op below operand, sign? ts = some op ∧ inner = some below ∧
        (below ()).signed ts.tail = .ok (operand, rest) ∧ e = .unary op operand) ∨
      (sign? ts = none ∧ suffixed scope inner ts = .ok (e, rest)) := by
  rw [signed] at h
  split at h
  · next op hop =>
    rw [bind_eq_ok] at h
    obtain ⟨⟨operand, middle⟩, hoperand, h⟩ := h
    obtain ⟨below, hbelow, hoperand⟩ := nested_eq_ok hoperand
    cases h
    exact .inl ⟨op, below, operand, hop, hbelow, hoperand, rfl⟩
  · next hnone => exact .inr ⟨hnone, h⟩

/-- A power has an exponent behind a caret if there is one. -/
theorem power_eq_ok {ts rest : List Token} {e : Expr}
    (h : power scope inner ts = .ok (e, rest)) :
    ∃ base middle, signed scope inner ts = .ok (base, middle) ∧
      ((∃ span more below exponent, middle = ⟨.caret, span⟩ :: more ∧ inner = some below ∧
          (below ()).power more = .ok (exponent, rest) ∧ e = .binary .pow base exponent) ∨
        (e = base ∧ rest = middle ∧ ∀ span more, middle ≠ ⟨.caret, span⟩ :: more)) := by
  rw [power, bind_eq_ok] at h
  obtain ⟨⟨base, middle⟩, hbase, h⟩ := h
  refine ⟨base, middle, hbase, ?_⟩
  dsimp only at h
  split at h
  · next span more =>
    rw [bind_eq_ok] at h
    obtain ⟨⟨exponent, last⟩, hexponent, h⟩ := h
    obtain ⟨below, hbelow, hexponent⟩ := nested_eq_ok hexponent
    cases h
    exact .inl ⟨span, more, below, exponent, rfl, hbelow, hexponent, rfl⟩
  · next hcaret =>
    cases h
    exact .inr ⟨rfl, rfl, hcaret⟩

/-! ### Chains of operators -/

/-- The rest of a chain begins with an operator of its tier, or it is empty. -/
theorem chain_eq_ok {tier : Tier} {left e : Expr} {ts rest : List Token}
    (h : chain scope inner tier left ts = .ok (e, rest)) :
    (∃ t more joint below right middle, ts = t :: more ∧ tier.joint? t.kind = some joint ∧
        inner = some below ∧ (below ()).operand tier more = .ok (right, middle) ∧
        (below ()).chain tier (joint.join left right) middle = .ok (e, rest)) ∨
      ((∀ t more, ts = t :: more → tier.joint? t.kind = none) ∧ e = left ∧ rest = ts) := by
  cases ts with
  | nil =>
      cases h
      exact .inr ⟨nofun, rfl, rfl⟩
  | cons t more =>
      rw [chain] at h
      dsimp only at h
      split at h
      · next hjoint =>
        cases h
        refine .inr ⟨?_, rfl, rfl⟩
        intro t' more' heq
        obtain ⟨rfl, rfl⟩ := List.cons.inj heq
        exact hjoint
      · next joint hjoint =>
        obtain ⟨below, hbelow, h⟩ := nested_eq_ok h
        rw [bind_eq_ok] at h
        obtain ⟨⟨right, middle⟩, hright, h⟩ := h
        exact .inl ⟨t, more, joint, below, right, middle, rfl, hjoint, hbelow, hright, h⟩

/-- A chain of a tier begins with a chain of the next tier. -/
theorem joined_cons_eq_ok {tier : Tier} {tighter : List Tier} {ts rest : List Token} {e : Expr}
    (h : joined scope inner (tier :: tighter) ts = .ok (e, rest)) :
    ∃ left middle, joined scope inner tighter ts = .ok (left, middle) ∧
      chain scope inner tier left middle = .ok (e, rest) := by
  rw [joined, bind_eq_ok] at h
  obtain ⟨⟨left, middle⟩, hleft, h⟩ := h
  exact ⟨left, middle, hleft, h⟩

/-! ### Conditionals and assignments -/

/-- A second branch is there if its mark is. -/
theorem alternate_eq_ok {present : Bool} {ts rest : List Token} {o : Option Expr}
    (h : alternate scope inner present ts = .ok (o, rest)) :
    (present = true ∧ ∃ e, expression scope inner ts.tail = .ok (e, rest) ∧ o = some e) ∨
      (present = false ∧ o = none ∧ rest = ts) := by
  rw [alternate] at h
  split at h
  · next hpresent =>
    rw [bind_eq_ok] at h
    obtain ⟨⟨e, last⟩, he, h⟩ := h
    cases h
    exact .inl ⟨hpresent, e, he, rfl⟩
  · next habsent =>
    cases h
    exact .inr ⟨Bool.not_eq_true _ ▸ habsent, rfl, rfl⟩

/-- A conditional in words has its keywords and its parts. -/
theorem branching_eq_ok {ts rest : List Token} {e : Expr}
    (h : branching scope inner ts = .ok (e, rest)) :
    ∃ test consequent other middle middle', nextKeyword? ts = some .if ∧
      expression scope inner ts.tail = .ok (test, middle) ∧
      nextKeyword? middle = some .then ∧
      expression scope inner middle.tail = .ok (consequent, middle') ∧
      alternate scope inner (nextKeyword? middle' == some .else) middle' = .ok (other, rest) ∧
      e = .conditional test consequent other := by
  simp only [branching, bind_eq_ok] at h
  obtain ⟨ts₁, hif, ⟨test, middle⟩, htest, ts₂, hthen, ⟨consequent, middle'⟩, hconsequent,
    ⟨other, last⟩, hother, h⟩ := h
  obtain ⟨hif', rfl⟩ := expectKeyword_eq_ok hif
  obtain ⟨hthen', rfl⟩ := expectKeyword_eq_ok hthen
  cases h
  exact ⟨test, consequent, other, middle, middle', hif', htest, hthen', hconsequent, hother,
    rfl⟩

/-- A conditional is one in words, one in signs, or no conditional at all. -/
theorem conditional_eq_ok {ts rest : List Token} {e : Expr}
    (h : conditional scope inner ts = .ok (e, rest)) :
    (nextKeyword? ts = some .if ∧ branching scope inner ts = .ok (e, rest)) ∨
      (nextKeyword? ts ≠ some .if ∧ ∃ test middle,
        joined scope inner Tier.all ts = .ok (test, middle) ∧
        ((∃ span more consequent other middle', middle = ⟨.question, span⟩ :: more ∧
            expression scope inner more = .ok (consequent, middle') ∧
            alternate scope inner (middle'.head?.any fun t => t.kind == .colon) middle' =
              .ok (other, rest) ∧
            e = .conditional test consequent other) ∨
          (e = test ∧ rest = middle ∧ ∀ span more, middle ≠ ⟨.question, span⟩ :: more))) := by
  rw [conditional] at h
  split at h
  · next hif => exact .inl ⟨hif, h⟩
  · next hif =>
    rw [bind_eq_ok] at h
    obtain ⟨⟨test, middle⟩, htest, h⟩ := h
    refine .inr ⟨hif, test, middle, htest, ?_⟩
    dsimp only at h
    split at h
    · next span more =>
      simp only [bind_eq_ok] at h
      obtain ⟨⟨consequent, middle'⟩, hconsequent, ⟨other, last⟩, hother, h⟩ := h
      cases h
      exact .inl ⟨span, more, consequent, other, middle', rfl, hconsequent, hother, rfl⟩
    · next hquestion =>
      cases h
      exact .inr ⟨rfl, rfl, hquestion⟩

/-- An assignment is one of the legacy dialect, to a symbol. -/
theorem assignment_eq_ok {ts rest : List Token} {e : Expr}
    (h : assignment scope inner ts = .ok (e, rest)) :
    ∃ target middle, conditional scope inner ts = .ok (target, middle) ∧
      ((∃ span more name below value, middle = ⟨.assign, span⟩ :: more ∧
          scope.options.dialect = .legacy ∧ target = .symbol name ∧ inner = some below ∧
          (below ()).assignment more = .ok (value, rest) ∧ e = .assignment name value) ∨
        (e = target ∧ rest = middle ∧ ∀ span more, middle ≠ ⟨.assign, span⟩ :: more)) := by
  rw [assignment, bind_eq_ok] at h
  obtain ⟨⟨target, middle⟩, htarget, h⟩ := h
  refine ⟨target, middle, htarget, ?_⟩
  dsimp only at h
  split at h
  · next span more =>
    split at h
    · cases h
    · next hdialect =>
      split at h
      · next name =>
        rw [bind_eq_ok] at h
        obtain ⟨⟨value, last⟩, hvalue, h⟩ := h
        obtain ⟨below, hbelow, hvalue⟩ := nested_eq_ok hvalue
        cases h
        exact .inl ⟨span, more, name, below, value, rfl, Decidable.not_not.mp hdialect, rfl,
          hbelow, hvalue, rfl⟩
      · cases h
  · next hassign =>
    cases h
    exact .inr ⟨rfl, rfl, hassign⟩

/-! ### Statements -/

/-- The statements of a formula are its first one alone, or with the others behind a
semicolon. -/
theorem statements_succ_eq_ok {n : Nat} {ts : List Token} {es : List Expr}
    (h : statements scope (n + 1) ts = .ok es) :
    ∃ first rest, expressionWithin scope scope.options.maxDepth ts = .ok (first, rest) ∧
      ((rest = [] ∧ es = [first]) ∨
        ∃ t more, rest = t :: more ∧ (t.kind == .semicolon) = true ∧
          scope.options.dialect = .legacy ∧
          ((more = [] ∧ es = [first]) ∨
            ∃ others, statements scope n more = .ok others ∧ es = first :: others ∧
              more ≠ [])) := by
  rw [statements, bind_eq_ok] at h
  obtain ⟨⟨first, rest⟩, hfirst, h⟩ := h
  refine ⟨first, rest, hfirst, ?_⟩
  cases rest with
  | nil =>
      cases h
      exact .inl ⟨rfl, rfl⟩
  | cons t more =>
      dsimp only at h
      split at h
      · next hsemicolon =>
        split at h
        · cases h
        · next hdialect =>
          have hlegacy := Decidable.not_not.mp hdialect
          refine .inr ⟨t, more, rfl, hsemicolon, hlegacy, ?_⟩
          split at h
          · next hempty =>
            cases h
            exact .inl ⟨List.isEmpty_iff.mp hempty, rfl⟩
          · next hmore =>
            rw [bind_eq_ok] at h
            obtain ⟨others, hothers, h⟩ := h
            cases h
            exact .inr ⟨others, hothers, rfl, fun hnil => hmore (List.isEmpty_iff.mpr hnil)⟩
      · cases h

end Dashboard.Formula.Grammar
