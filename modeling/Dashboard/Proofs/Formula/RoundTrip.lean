import Dashboard.Proofs.Formula.Spelling
import Dashboard.Proofs.Formula.WellFormed

/-!
# Reading a Rendering

The rendering of a well-formed tree is read back as that tree. By induction on the tree, the
tokens of its rendering spell it at its own level: each construct puts its parts where their
levels are high enough, or in parentheses, and the lemma of the construct does the rest.

The right operand of a remainder is the one place where levels do not decide. A percent sign
is an operator only in front of a token that an operand can begin with, and a sign is none.

## Main results

* `Renders.fit` — what is put in parentheses where needed has the level required.
* `renders_render` — the rendering of a well-formed tree spells it.
* `ofTokens_render` — a formula whose tokens render a tree has that tree as its statement.
-/

namespace Dashboard.Formula

open Grammar

/-- All tokens of the given kinds, wherever they stand in a source, spell the tree. -/
def Renders (scope : Scope) (l : Level) (kinds : List Token.Kind) (e : Expr) : Prop :=
  ∀ ts : List Token, ts.map Token.kind = kinds → Spells scope l ts e

variable {scope : Scope} {l : Level} {kinds : List Token.Kind} {e : Expr}

/-- Tokens whose first kind is known. -/
theorem map_kind_eq_cons {kind : Token.Kind} {ts : List Token}
    (h : ts.map Token.kind = kind :: kinds) :
    ∃ span more, ts = ⟨kind, span⟩ :: more ∧ more.map Token.kind = kinds := by
  obtain ⟨⟨kind', span⟩, more, rfl, hkind, hmore⟩ := List.map_eq_cons_iff.mp h
  obtain rfl : kind' = kind := hkind
  exact ⟨span, more, rfl, hmore⟩

/-- A token whose kind is known. -/
theorem map_kind_eq_singleton {kind : Token.Kind} {ts : List Token}
    (h : ts.map Token.kind = [kind]) : ∃ span, ts = [⟨kind, span⟩] := by
  obtain ⟨span, more, rfl, hmore⟩ := map_kind_eq_cons h
  rw [List.map_eq_nil_iff] at hmore
  exact ⟨span, hmore ▸ rfl⟩

/-! ### Parentheses where needed -/

/-- What renders a tree at a level renders it at every looser one. -/
theorem Renders.loosen {required : Level} (h : Renders scope l kinds e)
    (hle : required.rank ≤ l.rank) : Renders scope required kinds e :=
  fun ts hts => (h ts hts).loosen hle

/-- A rendering in parentheses is an operand. -/
theorem Renders.parenthesized (h : Renders scope l kinds e) :
    Renders scope .operand (parenthesized kinds) e := by
  intro ts hts
  obtain ⟨left, more, rfl, hmore⟩ := map_kind_eq_cons hts
  obtain ⟨inside, last, rfl, hinside, hlast⟩ := List.map_eq_append_iff.mp hmore
  obtain ⟨right, rfl⟩ := map_kind_eq_singleton hlast
  exact ((h inside hinside).loosen (Nat.zero_le _)).parenthesized left right

/-- **A rendering that is put in parentheses where needed has the level required.** -/
theorem Renders.fit (h : Renders scope l kinds e) (required : Level) :
    Renders scope required (fit required l kinds) e := by
  rw [Formula.fit]
  split
  · refine h.parenthesized.loosen ?_
    cases required with
    | tier t => cases t <;> decide
    | _ => decide
  · next hle => exact h.loosen (Nat.le_of_not_lt hle)

/-- A rendering that is shielded from a percent sign begins as an operand does. -/
theorem Renders.shield (h : Renders scope .power kinds e) {ts : List Token}
    (hts : ts.map Token.kind = shield kinds) :
    Spells scope .power ts e ∧ ∃ t more, ts = t :: more ∧ t.kind.startsOperand = true := by
  rw [Formula.shield] at hts
  split at hts
  · have hoperand := h.parenthesized ts hts
    refine ⟨hoperand.loosen (by decide), ?_⟩
    obtain ⟨t, more, rfl, ⟨hstarts, -⟩ | ⟨hrank, -⟩⟩ := hoperand.opens
    · exact ⟨t, more, rfl, hstarts⟩
    · exact absurd hrank (by decide)
  · next hsign =>
    have hpower := h ts hts
    refine ⟨hpower, ?_⟩
    obtain ⟨t, more, rfl, ⟨hstarts, -⟩ | ⟨-, hbegins⟩⟩ := hpower.opens
    · exact ⟨t, more, rfl, hstarts⟩
    · rw [← hts, List.map_cons, List.head?_cons, Option.any_some] at hsign
      exact absurd hbegins hsign

/-! ### Operators -/

/-- The token of an operation is an operator of its tier. -/
theorem joint?_kind_of_tier? {op : BinaryOp} {t : Tier} (h : op.tier? = some t) :
    t.joint? op.kind = some (.binary op) := by
  cases op <;> cases h <;> rfl

/-- The token of a short circuit is an operator of its tier. -/
theorem joint?_kind_tier (op : LogicalOp) : op.tier.joint? op.kind = some (.logical op) := by
  cases op <;> rfl

/-- A short circuit ends its left operand. -/
theorem ends_logical (op : LogicalOp) (span : Span) (more : List Token) :
    (Level.tier op.tier).Ends (⟨op.kind, span⟩ :: more) := by
  have hjoint : ∀ tighter ∈ op.tier.tighter, tighter.joint? op.kind = none := by
    cases op <;> decide
  refine ⟨⟨?_, ?_, ?_⟩, ?_⟩
  · intro t ht
    cases ht
    cases op <;> rfl
  · cases op <;> rfl
  · intro span' more' heq
    cases op <;> cases heq
  · intro tighter htighter t ht
    cases ht
    exact hjoint tighter htighter

/-- An operator ends its left operand, a percent sign only if an operand begins behind it. -/
theorem ends_binary {op : BinaryOp} {t : Tier} (h : op.tier? = some t) (span : Span)
    {more : List Token}
    (hoperand : op = .mod → ∃ u others, more = u :: others ∧ u.kind.startsOperand = true) :
    (Level.tier t).Ends (⟨op.kind, span⟩ :: more) := by
  have hjoint : ∀ tighter ∈ t.tighter, tighter.joint? op.kind = none := by
    cases op <;> cases h <;> decide
  refine ⟨⟨?_, ?_, ?_⟩, ?_⟩
  · intro u hu
    cases hu
    cases op <;> rfl
  · cases op with
    | mod =>
        obtain ⟨u, others, rfl, hstarts⟩ := hoperand rfl
        show (if _ then none else some UnaryOp.percent) = none
        rw [List.head?_cons, Option.any_some, if_pos hstarts]
    | _ => rfl
  · intro span' more' heq
    cases op with
    | pow => cases h
    | _ => cases heq
  · intro tighter htighter u hu
    cases hu
    exact hjoint tighter htighter

/-- A short circuit of two renderings. -/
theorem Renders.logical {left right : List Token.Kind} {e' : Expr} (op : LogicalOp)
    (hleft : Renders scope (.tier op.tier) left e)
    (hright : Renders scope (rightLevel op.tier) right e') :
    Renders scope (.tier op.tier) (left ++ op.kind :: right) (.logical op e e') := by
  intro ts hts
  obtain ⟨first, others, rfl, hfirst, hothers⟩ := List.map_eq_append_iff.mp hts
  obtain ⟨span, second, rfl, hsecond⟩ := map_kind_eq_cons hothers
  exact (hleft first hfirst).joined (hright second hsecond) (joint?_kind_tier op)
    fun rest => ends_logical op span (second ++ rest)

/-- An operation of a tier on two renderings. -/
theorem Renders.binary {left right : List Token.Kind} {e' : Expr} {op : BinaryOp} {t : Tier}
    (htier : op.tier? = some t) (hleft : Renders scope (.tier t) left e)
    (hright : Renders scope (rightLevel t) right e') :
    Renders scope (.tier t) (left ++ op.kind :: fitRight op right) (.binary op e e') := by
  intro ts hts
  obtain ⟨first, others, rfl, hfirst, hothers⟩ := List.map_eq_append_iff.mp hts
  obtain ⟨span, second, rfl, hsecond⟩ := map_kind_eq_cons hothers
  obtain ⟨hspells, hoperand⟩ : Spells scope (rightLevel t) second e' ∧
      (op = .mod → ∃ u more, second = u :: more ∧ u.kind.startsOperand = true) := by
    rw [fitRight] at hsecond
    split at hsecond
    · next hop =>
      subst hop
      cases htier
      obtain ⟨hspells, hoperand⟩ := hright.shield hsecond
      exact ⟨hspells, fun _ => hoperand⟩
    · next hop => exact ⟨hright second hsecond, fun h => absurd h hop⟩
  refine (hleft first hfirst).joined hspells (joint?_kind_of_tier? htier) fun rest => ?_
  refine ends_binary htier span fun hop => ?_
  obtain ⟨u, more, rfl, hstarts⟩ := hoperand hop
  exact ⟨u, more ++ rest, rfl, hstarts⟩

/-- A power of two renderings. -/
theorem Renders.power {base exponent : List Token.Kind} {e' : Expr}
    (hbase : Renders scope .sign base e) (hexponent : Renders scope .power exponent e') :
    Renders scope .power (base ++ .caret :: exponent) (.binary .pow e e') := by
  intro ts hts
  obtain ⟨first, others, rfl, hfirst, hothers⟩ := List.map_eq_append_iff.mp hts
  obtain ⟨span, second, rfl, hsecond⟩ := map_kind_eq_cons hothers
  exact (hbase first hfirst).power (hexponent second hsecond) span

/-- A sign in front of a rendering. -/
theorem Renders.signed {op : UnaryOp} (hop : op = .minus ∨ op = .plus)
    (h : Renders scope .sign kinds e) :
    Renders scope .sign (signKind op :: kinds) (.unary op e) := by
  intro ts hts
  obtain ⟨span, more, rfl, hmore⟩ := map_kind_eq_cons hts
  exact (h more hmore).signed hop span

/-- A suffix behind a rendering. -/
theorem Renders.suffixed {op : UnaryOp} (hop : op = .percent ∨ op = .square)
    (h : Renders scope .suffix kinds e) :
    Renders scope .suffix (kinds ++ [suffixKind op]) (.unary op e) := by
  intro ts hts
  obtain ⟨first, last, rfl, hfirst, hlast⟩ := List.map_eq_append_iff.mp hts
  obtain ⟨span, rfl⟩ := map_kind_eq_singleton hlast
  exact (h first hfirst).suffixed hop span

/-- A rendering in brackets. -/
theorem Renders.abs (h : Renders scope (.tier .or) kinds e) :
    Renders scope .operand (.leftBracket :: (kinds ++ [.rightBracket])) (.unary .abs e) := by
  intro ts hts
  obtain ⟨left, more, rfl, hmore⟩ := map_kind_eq_cons hts
  obtain ⟨inside, last, rfl, hinside, hlast⟩ := List.map_eq_append_iff.mp hmore
  obtain ⟨right, rfl⟩ := map_kind_eq_singleton hlast
  exact (h inside hinside).abs left right

/-- The renderings of arguments spell them. -/
theorem spellsArguments_of_render {es : List Expr} (hne : es ≠ [])
    (each : ∀ a ∈ es, Renders scope a.level a.render a) {ts : List Token}
    (hts : ts.map Token.kind = Expr.renderArguments es) : SpellsArguments scope ts es := by
  induction es generalizing ts with
  | nil => exact absurd rfl hne
  | cons a rest ih =>
      have hfirst := (each a List.mem_cons_self).fit (.tier .or)
      cases rest with
      | nil =>
          rw [Expr.renderArguments] at hts
          exact .single (hfirst ts hts)
      | cons b others =>
          rw [Expr.renderArguments] at hts
          · obtain ⟨first, more, rfl, hfirst', hmore⟩ := List.map_eq_append_iff.mp hts
            obtain ⟨span, second, rfl, hsecond⟩ := map_kind_eq_cons hmore
            refine .cons span (hfirst first hfirst') (ih (List.cons_ne_nil b others) ?_ hsecond)
            exact fun a' ha' => each a' (List.mem_cons_of_mem _ ha')
          · exact List.cons_ne_nil b others

/-! ### The round trip -/

/-- **The rendering of a well-formed tree spells it**, at the level of its outermost
construct. -/
theorem renders_render (h : e.WellFormed scope.options.dialect) :
    Renders scope e.level e.render e := by
  induction h with
  | number value =>
      intro ts hts
      obtain ⟨span, rfl⟩ := map_kind_eq_singleton hts
      exact .number value span
  | text value =>
      intro ts hts
      obtain ⟨span, rfl⟩ := map_kind_eq_singleton hts
      exact .text value span
  | boolean value =>
      intro ts hts
      cases value with
      | true =>
          obtain ⟨span, rfl⟩ := map_kind_eq_singleton hts
          exact .boolean true span
      | false =>
          obtain ⟨span, rfl⟩ := map_kind_eq_singleton hts
          exact .boolean false span
  | symbol hname =>
      intro ts hts
      obtain ⟨span, rfl⟩ := map_kind_eq_singleton hts
      exact .symbol hname span
  | unary op _ ih =>
      cases op with
      | minus => exact (ih.fit .sign).signed (.inl rfl)
      | plus => exact (ih.fit .sign).signed (.inr rfl)
      | abs => exact (ih.fit (.tier .or)).abs
      | percent => exact (ih.fit .suffix).suffixed (.inl rfl)
      | square => exact (ih.fit .suffix).suffixed (.inr rfl)
  | binary op _ _ ihl ihr =>
      rw [Expr.level, Expr.render]
      cases htier : op.tier? with
      | some t => exact .binary htier (ihl.fit (.tier t)) (ihr.fit (rightLevel t))
      | none =>
          cases op with
          | pow => exact (ihl.fit .sign).power (ihr.fit .power)
          | _ => cases htier
  | logical op _ _ ihl ihr =>
      rw [Expr.level, Expr.render]
      exact .logical op (ihl.fit (.tier op.tier)) (ihr.fit (rightLevel op.tier))
  | conditional _ _ iht ihc =>
      intro ts hts
      rw [Expr.render] at hts
      obtain ⟨first, others, rfl, hfirst, hothers⟩ := List.map_eq_append_iff.mp hts
      obtain ⟨question, second, rfl, hsecond⟩ := map_kind_eq_cons hothers
      exact (iht.fit (.tier .or) first hfirst).conditional (ihc.fit (.tier .or) second hsecond)
        question
  | alternative _ _ _ iht ihc iha =>
      intro ts hts
      rw [Expr.render] at hts
      obtain ⟨first, others, rfl, hfirst, hothers⟩ := List.map_eq_append_iff.mp hts
      obtain ⟨question, branches, rfl, hbranches⟩ := map_kind_eq_cons hothers
      obtain ⟨second, last, rfl, hsecond, hlast⟩ := List.map_eq_append_iff.mp hbranches
      obtain ⟨colon, third, rfl, hthird⟩ := map_kind_eq_cons hlast
      exact (iht.fit (.tier .or) first hfirst).alternative
        (ihc.fit (.tier .or) second hsecond) (iha.fit (.tier .or) third hthird) question colon
  | @call callee arguments hcallee haccess _ ih =>
      intro ts hts
      rw [Expr.render] at hts
      obtain ⟨name, more, rfl, hmore⟩ := map_kind_eq_cons hts
      obtain ⟨left, others, rfl, hothers⟩ := map_kind_eq_cons hmore
      obtain ⟨given, last, rfl, hgiven, hlast⟩ := List.map_eq_append_iff.mp hothers
      obtain ⟨right, rfl⟩ := map_kind_eq_singleton hlast
      refine .call hcallee haccess ?_ name left right
      by_cases hnil : arguments = []
      · subst hnil
        rw [Expr.renderArguments, List.map_eq_nil_iff] at hgiven
        exact .inl ⟨hgiven, rfl⟩
      · exact .inr (spellsArguments_of_render hnil ih hgiven)
  | assignment hdialect htarget _ ih =>
      intro ts hts
      rw [Expr.render] at hts
      obtain ⟨name, more, rfl, hmore⟩ := map_kind_eq_cons hts
      obtain ⟨assign, value, rfl, hvalue⟩ := map_kind_eq_cons hmore
      exact .assignment hdialect htarget (ih.fit (.tier .or) value hvalue) name assign

/-- An expression with a budget is one that goes further in with that budget. -/
theorem expressionWithin_eq (budget : Nat) :
    expressionWithin scope budget = expression scope (innerAt scope budget) := by
  cases budget with
  | zero => rfl
  | succ budget => rfl

/-- A phrase does not begin with the mark in front of a formula. -/
theorem dropMark_of_opens {dialect : Dialect} {ts : List Token} (h : l.Opens ts) :
    dropMark dialect ts = ts := by
  obtain ⟨⟨kind, span⟩, more, rfl, hbegins⟩ := h
  cases dialect with
  | legacy => rfl
  | simplified =>
      cases kind with
      | assign =>
          rcases hbegins with ⟨hstarts, -⟩ | ⟨-, hsign⟩
          · cases hstarts
          · cases hsign
      | _ => rfl

/-- **Reading a rendering gives the tree back.** The tokens that render a well-formed tree,
wherever they stand in a source, are read as a formula with that tree as its only statement,
if the bound on nesting is greater than the number of tokens. -/
theorem ofTokens_render {dialect : Dialect} {maxDepth sourceEnd : Nat} {ts : List Token}
    (he : e.WellFormed dialect) (hts : ts.map Token.kind = e.render)
    (hdepth : e.render.length < maxDepth) :
    ofTokens ⟨dialect, maxDepth⟩ sourceEnd ts = .ok ⟨dialect, [e]⟩ := by
  have hspells : Spells ⟨⟨dialect, maxDepth⟩, sourceEnd⟩ .statement ts e :=
    (renders_render he ts hts).loosen (Nat.zero_le _)
  rw [← hts, List.length_map] at hdepth
  have hread := hspells.expression_eq_of_statement hdepth
    ⟨endsExpression_nil, nofun⟩
  rw [List.append_nil] at hread
  rw [ofTokens]
  dsimp only
  rw [dropMark_of_opens hspells.opens]
  obtain ⟨t, more, rfl, -⟩ := hspells.opens
  rw [List.length_cons, Grammar.statements, expressionWithin_eq, hread]
  rfl

/-- A tree whose rendering needs parentheses for each of the reasons there are: a looser
operator, a power as a base, and a sign behind a percent sign. -/
def sample : Expr :=
  .binary .mod (.binary .add (.symbol "a") (.symbol "b"))
    (.binary .pow (.unary .minus (.symbol "c"))
      (.binary .mul (.binary .pow (.binary .pow (.symbol "d") (.symbol "e")) (.symbol "f"))
        (.unary .percent (.symbol "g"))))

/-- The sample is rendered as `(a + b) % (-c ^ ((d ^ e) ^ f * g%))`, and read back. -/
theorem ofTokens_sample :
    sample.render = [.leftParen, .name "a", .plus, .name "b", .rightParen, .percent,
      .leftParen, .minus, .name "c", .caret, .leftParen, .leftParen, .name "d", .caret,
      .name "e", .rightParen, .caret, .name "f", .star, .name "g", .percent, .rightParen,
      .rightParen] ∧
    ofTokens ⟨.simplified, defaultMaxDepth⟩ 0 (sample.render.map fun kind => ⟨kind, ⟨0, 0⟩⟩) =
      .ok ⟨.simplified, [sample]⟩ := by
  have hname : ∀ name ∈ ["a", "b", "c", "d", "e", "f", "g"], Keyword.ofName? name = none := by
    decide
  have hwf : sample.WellFormed .simplified := by
    refine .binary _ (.binary _ (.symbol ?_) (.symbol ?_)) (.binary _ (.unary _ (.symbol ?_))
      (.binary _ (.binary _ (.binary _ (.symbol ?_) (.symbol ?_)) (.symbol ?_))
        (.unary _ (.symbol ?_))))
    all_goals exact hname _ (by decide)
  exact ⟨rfl, ofTokens_render hwf rfl (by decide)⟩

end Dashboard.Formula
