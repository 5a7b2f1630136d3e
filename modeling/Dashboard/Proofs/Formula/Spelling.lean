import Dashboard.Proofs.Formula.Inversion
import Dashboard.Proofs.Formula.Rendering

/-!
# What Tokens Spell

A list of tokens spells a tree at a level if the rules of that level read the tree off the
front and leave exactly what follows the tokens. This holds only if what follows cannot
extend the tree: a phrase that ends in a power must not be followed by a caret, and so on.
`Level.Ends` says what may follow at each level.

The rules for suffixes and for operators of a tier go on reading as long as they find
something that fits. Their level is therefore stated with an open end: the rule comes to the
point where it has read the tree and looks for more. A left operand can then be followed by
its operator.

Each construct of the grammar has one lemma here: if its parts are spelled at the levels that
their positions require, the whole is spelled at the level of the construct. A tree that is
spelled at a level is also spelled at all looser ones.

## The budget

A rule that goes one nesting level further in has taken a token before it does, so a budget
of as many levels as there are tokens is enough.

## Main results

* `Spells.loosen` — what is spelled at a level is spelled at every looser one.
* `Spells.parenthesized`, `Spells.suffixed`, `Spells.signed`, `Spells.power`,
  `Spells.joined`, `Spells.conditional`, `Spells.assignment` — one lemma for each construct.
-/

namespace Dashboard.Formula

open Grammar

/-! ### What may follow -/

/-- The next token cannot begin an operand. -/
def NoOperand (rest : List Token) : Prop :=
  ∀ t ∈ rest.head?, t.kind.startsOperand = false

/-- The next token is not of the kind. -/
def NotNext (kind : Token.Kind) (rest : List Token) : Prop :=
  ∀ span more, rest ≠ ⟨kind, span⟩ :: more

/-- The next token is no operator of the tier. -/
def NoJoint (tier : Tier) (rest : List Token) : Prop :=
  ∀ t ∈ rest.head?, tier.joint? t.kind = none

/-- The next token extends neither an operand nor a power. -/
structure EndsPower (rest : List Token) : Prop where
  operand : NoOperand rest
  suffix : suffix? rest = none
  caret : NotNext .caret rest

/-- The next token extends no chain of operators either. -/
structure EndsOperators (rest : List Token) : Prop extends EndsPower rest where
  joint : ∀ tier, NoJoint tier rest

/-- The next token extends nothing that an expression can begin with. -/
structure EndsExpression (rest : List Token) : Prop extends EndsOperators rest where
  question : NotNext .question rest
  assign : NotNext .assign rest

/-- What may follow a phrase of a level. Behind suffixes another one may follow, and behind
operators of a tier another one of the same tier or of a looser one. -/
def Level.Ends : Level → List Token → Prop
  | .operand, rest | .suffix, rest => NoOperand rest
  | .sign, rest => NoOperand rest ∧ suffix? rest = none
  | .power, rest => EndsPower rest
  | .tier t, rest => EndsPower rest ∧ ∀ tighter ∈ t.tighter, NoJoint tighter rest
  | .statement, rest => EndsExpression rest ∧ NotNext .colon rest

/-- Nothing follows at the end of the tokens. -/
theorem endsExpression_nil : EndsExpression [] where
  operand := nofun
  suffix := rfl
  caret := nofun
  joint _ := nofun
  question := nofun
  assign := nofun

/-- The tokens that close or separate expressions. -/
def Token.Kind.Closes (kind : Token.Kind) : Prop :=
  kind = .rightParen ∨ kind = .rightBracket ∨ kind = .comma ∨ kind = .colon

/-- The tokens of a conditional and an assignment extend no chain of operators, nor do
closing tokens. -/
theorem endsOperators_cons {kind : Token.Kind} (span : Span) (more : List Token)
    (h : kind.Closes ∨ kind = .question ∨ kind = .assign) :
    EndsOperators (⟨kind, span⟩ :: more) := by
  refine ⟨⟨?_, ?_, ?_⟩, ?_⟩
  · intro t ht
    cases ht
    rcases h with (rfl | rfl | rfl | rfl) | rfl | rfl <;> rfl
  · rcases h with (rfl | rfl | rfl | rfl) | rfl | rfl <;> rfl
  · rintro _ _ heq
    cases heq
    rcases h with (h | h | h | h) | h | h <;> cases h
  · intro tier t ht
    cases ht
    rcases h with (rfl | rfl | rfl | rfl) | rfl | rfl <;> cases tier <;> rfl

/-- A closing token extends nothing. -/
theorem endsExpression_cons {kind : Token.Kind} (span : Span) (more : List Token)
    (h : kind.Closes) : EndsExpression (⟨kind, span⟩ :: more) := by
  refine ⟨endsOperators_cons span more (.inl h), ?_, ?_⟩
  · rintro _ _ heq
    cases heq
    rcases h with h | h | h | h <;> cases h
  · rintro _ _ heq
    cases heq
    rcases h with h | h | h | h <;> cases h

/-! ### Spelling -/

variable {scope : Scope}

/-- The rules one level in, with a budget of nesting levels. -/
def innerAt (scope : Scope) : Nat → Option (Unit → Inner)
  | 0 => none
  | budget + 1 => some fun _ => rules scope budget

/-- The rules with a budget are those that go further in with one level less. -/
theorem rules_eq_level (budget : Nat) : rules scope budget = level scope (innerAt scope budget) := by
  cases budget with
  | zero => rfl
  | succ budget => rfl

/-- With a level left, a nested rule is that of the level further in. -/
theorem nested_innerAt (budget : Nat) (rule : Inner → Rule) (ts : List Token) :
    nested scope (innerAt scope (budget + 1)) rule ts =
      rule (level scope (innerAt scope budget)) ts := by
  rw [← rules_eq_level]
  rfl

/-- The rules of a level read a tree off the front of the tokens and leave the rest, those
with an open end to the point where they look for more. -/
def Level.Reads (scope : Scope) (ts : List Token) (e : Expr) (budget : Nat)
    (rest : List Token) : Level → Prop
  | .operand => primary scope (innerAt scope budget) (ts ++ rest) = .ok (e, rest)
  | .suffix =>
    ∃ left, budget ≤ left + ts.length ∧
      suffixed scope (innerAt scope budget) (ts ++ rest) =
        suffixes scope (innerAt scope left) e rest
  | .sign => signed scope (innerAt scope budget) (ts ++ rest) = .ok (e, rest)
  | .power => Grammar.power scope (innerAt scope budget) (ts ++ rest) = .ok (e, rest)
  | .tier t =>
    ∃ left, budget ≤ left + ts.length ∧
      joined scope (innerAt scope budget) (t :: t.tighter) (ts ++ rest) =
        chain scope (innerAt scope left) t e rest
  | .statement => assignment scope (innerAt scope budget) (ts ++ rest) = .ok (e, rest)

/-- A phrase of a level can begin with a token: with one that an operand can begin with, or
with a sign if the level is loose enough. -/
def Level.Begins (l : Level) (kind : Token.Kind) : Prop :=
  (kind.startsOperand = true ∧ kind.keyword? ≠ some .if) ∨
    (l.rank ≤ Level.sign.rank ∧ kind.isSign = true)

/-- The tokens are not empty, and begin as a phrase of a level can. -/
def Level.Opens (l : Level) (ts : List Token) : Prop :=
  ∃ t more, ts = t :: more ∧ l.Begins t.kind

/-- The tokens spell the tree at a level, whatever follows that cannot extend it. -/
structure Spells (scope : Scope) (l : Level) (ts : List Token) (e : Expr) : Prop where
  opens : l.Opens ts
  reads : ∀ budget rest, ts.length ≤ budget → l.Ends rest → l.Reads scope ts e budget rest

variable {ts : List Token} {e : Expr} {l : Level}

/-! ### Where the rules stop -/

/-- No suffixes are read where none follows. -/
theorem suffixes_of_suffix?_eq_none {inner : Option (Unit → Inner)} {rest : List Token}
    (h : suffix? rest = none) : suffixes scope inner e rest = .ok (e, rest) := by
  rw [suffixes, h]

/-- A chain ends where no operator of its tier follows. -/
theorem chain_of_noJoint {inner : Option (Unit → Inner)} {tier : Tier} {rest : List Token}
    (h : NoJoint tier rest) : chain scope inner tier e rest = .ok (e, rest) := by
  cases rest with
  | nil => rfl
  | cons t more =>
      have hjoint : tier.joint? t.kind = none := h t rfl
      rw [chain]
      dsimp only
      rw [hjoint]

/-- An operand and its suffixes, in front of which no sign stands. -/
theorem signed_eq_of_suffixes {inner : Option (Unit → Inner)} {operand : Expr}
    {middle rest : List Token} (hsign : sign? ts = none)
    (hprimary : primary scope inner ts = .ok (operand, middle))
    (hsuffixes : suffixes scope inner operand middle = .ok (e, rest)) :
    signed scope inner ts = .ok (e, rest) := by
  rw [signed, hsign]
  dsimp only
  rw [suffixed, hprimary]
  exact hsuffixes

/-- What no caret follows is read as a power without an exponent. -/
theorem power_eq_of_signed {inner : Option (Unit → Inner)} {rest : List Token}
    (hcaret : NotNext .caret rest) (h : signed scope inner ts = .ok (e, rest)) :
    Grammar.power scope inner ts = .ok (e, rest) := by
  rw [Grammar.power, h, ok_bind]
  dsimp only
  split
  · next span more => exact absurd rfl (hcaret span more)
  · rfl

/-- What a caret follows is read as the base of a power. -/
theorem power_eq_of_exponent {n : Nat} {base exponent : Expr} {span : Span}
    {more rest : List Token}
    (hbase : signed scope (innerAt scope (n + 1)) ts = .ok (base, ⟨.caret, span⟩ :: more))
    (hexponent : Grammar.power scope (innerAt scope n) more = .ok (exponent, rest)) :
    Grammar.power scope (innerAt scope (n + 1)) ts = .ok (.binary .pow base exponent, rest) := by
  rw [Grammar.power, hbase, ok_bind]
  dsimp only
  rw [nested_innerAt]
  dsimp only [level]
  rw [hexponent]
  rfl

/-- What no question mark follows is read as a conditional without branches. -/
theorem conditional_eq_of_joined {inner : Option (Unit → Inner)} {rest : List Token}
    (hif : nextKeyword? ts ≠ some .if) (hquestion : NotNext .question rest)
    (h : Grammar.joined scope inner Tier.all ts = .ok (e, rest)) :
    Grammar.conditional scope inner ts = .ok (e, rest) := by
  rw [Grammar.conditional, if_neg hif, h, ok_bind]
  dsimp only
  split
  · next span more => exact absurd rfl (hquestion span more)
  · rfl

/-- What a question mark follows is read as a test, and what no colon follows as its only
branch. -/
theorem conditional_eq_of_consequent {inner : Option (Unit → Inner)} {test consequent : Expr}
    {question : Span} {more rest : List Token} (hif : nextKeyword? ts ≠ some .if)
    (htest : Grammar.joined scope inner Tier.all ts = .ok (test, ⟨.question, question⟩ :: more))
    (hconsequent : expression scope inner more = .ok (consequent, rest))
    (hcolon : NotNext .colon rest) :
    Grammar.conditional scope inner ts = .ok (.conditional test consequent none, rest) := by
  have hnone : (rest.head?.any fun t => t.kind == .colon) = false := by
    cases rest with
    | nil => rfl
    | cons t others =>
        obtain ⟨kind, span⟩ := t
        cases kind with
        | colon => exact absurd rfl (hcolon span others)
        | _ => rfl
  rw [Grammar.conditional, if_neg hif, htest, ok_bind]
  dsimp only
  rw [hconsequent, ok_bind]
  dsimp only
  rw [hnone]
  rfl

/-- What stands in brackets is read as its absolute value. -/
theorem primary_eq_abs {inner : Option (Unit → Inner)} {rest : List Token} (left right : Span)
    (h : expression scope inner ts = .ok (e, ⟨.rightBracket, right⟩ :: rest)) :
    primary scope inner (⟨.leftBracket, left⟩ :: ts) = .ok (.unary .abs e, rest) := by
  rw [primary]
  dsimp only
  rw [h]
  rfl

/-- A token that an operand can begin with is no sign. -/
theorem sign?_of_startsOperand {t : Token} (more : List Token)
    (h : t.kind.startsOperand = true) : sign? (t :: more) = none := by
  obtain ⟨kind, span⟩ := t
  cases kind with
  | plus | minus => cases h
  | _ => rfl

/-- No phrase begins with an `if`. -/
theorem Level.Begins.keyword?_ne {kind : Token.Kind} (h : l.Begins kind) :
    kind.keyword? ≠ some .if := by
  rcases h with ⟨-, hne⟩ | ⟨-, hsign⟩
  · exact hne
  · cases kind with
    | plus | minus => exact nofun
    | _ => cases hsign

/-! ### Looser levels -/

/-- What a phrase can begin with, one of a looser level can begin with too. -/
theorem Level.Begins.loosen {required : Level} {kind : Token.Kind} (h : l.Begins kind)
    (hle : required.rank ≤ l.rank) : required.Begins kind := by
  rcases h with h | ⟨hrank, hsign⟩
  · exact .inl h
  · exact .inr ⟨Nat.le_trans hle hrank, hsign⟩

/-- Tokens that begin as a phrase can, begin as one of a looser level can too. -/
theorem Level.Opens.loosen {required : Level} (h : l.Opens ts)
    (hle : required.rank ≤ l.rank) : required.Opens ts := by
  obtain ⟨t, more, hts, hbegins⟩ := h
  exact ⟨t, more, hts, hbegins.loosen hle⟩

/-- How tokens begin is a matter of the first ones. -/
theorem Level.Opens.append (h : l.Opens ts) (others : List Token) : l.Opens (ts ++ others) := by
  obtain ⟨t, more, rfl, hbegins⟩ := h
  exact ⟨t, more ++ others, rfl, hbegins⟩

/-- An operand is one without suffixes. -/
theorem Spells.suffix_of_operand (h : Spells scope .operand ts e) :
    Spells scope .suffix ts e where
  opens := h.opens.loosen (by decide)
  reads budget rest hbudget hends := by
    have hprimary : primary scope (innerAt scope budget) (ts ++ rest) = .ok (e, rest) :=
      h.reads budget rest hbudget hends
    refine ⟨budget, Nat.le_add_right _ _, ?_⟩
    rw [suffixed, hprimary]
    rfl

/-- An operand with its suffixes is one without signs. -/
theorem Spells.sign_of_suffix (h : Spells scope .suffix ts e) : Spells scope .sign ts e where
  opens := h.opens.loosen (by decide)
  reads budget rest hbudget hends := by
    obtain ⟨hoperand, hsuffix⟩ := hends
    obtain ⟨left, -, hsuffixed⟩ := h.reads budget rest hbudget hoperand
    obtain ⟨t, more, rfl, ⟨hstarts, -⟩ | ⟨hrank, -⟩⟩ := h.opens
    · have hsign : sign? (t :: more ++ rest) = none := sign?_of_startsOperand _ hstarts
      rw [Level.Reads, signed, hsign]
      dsimp only
      rw [hsuffixed, suffixes_of_suffix?_eq_none hsuffix]
    · exact absurd hrank (by decide)

/-- What no caret follows is a power without an exponent. -/
theorem Spells.power_of_sign (h : Spells scope .sign ts e) : Spells scope .power ts e where
  opens := h.opens.loosen (by decide)
  reads budget rest hbudget hends := by
    have hsigned : signed scope (innerAt scope budget) (ts ++ rest) = .ok (e, rest) :=
      h.reads budget rest hbudget ⟨hends.operand, hends.suffix⟩
    exact power_eq_of_signed hends.caret hsigned

/-- A power is a chain of a single operand of the tightest tier. -/
theorem Spells.multiplicative_of_power (h : Spells scope .power ts e) :
    Spells scope (.tier .multiplicative) ts e where
  opens := h.opens.loosen (by decide)
  reads budget rest hbudget hends := by
    have hpower : Grammar.power scope (innerAt scope budget) (ts ++ rest) = .ok (e, rest) :=
      h.reads budget rest hbudget hends.1
    refine ⟨budget, Nat.le_add_right _ _, ?_⟩
    rw [joined, Tier.tighter, joined, hpower]
    rfl

/-- A chain of a tier is a chain of a single operand of the next looser tier. -/
theorem Spells.tier_of_tier {tight loose : Tier} (hnext : loose.tighter = tight :: tight.tighter)
    (hrank : rankOfTier loose ≤ rankOfTier tight) (h : Spells scope (.tier tight) ts e) :
    Spells scope (.tier loose) ts e where
  opens := h.opens.loosen hrank
  reads budget rest hbudget hends := by
    obtain ⟨hpower, hjoint⟩ := hends
    rw [hnext] at hjoint
    obtain ⟨left, -, hjoined⟩ := h.reads budget rest hbudget
      ⟨hpower, fun t ht => hjoint t (List.mem_cons_of_mem _ ht)⟩
    refine ⟨budget, Nat.le_add_right _ _, ?_⟩
    rw [hnext, joined, hjoined, chain_of_noJoint (hjoint tight List.mem_cons_self)]
    rfl

/-- A chain of the loosest tier is read as what a conditional begins with. -/
theorem Spells.joined_eq (h : Spells scope (.tier .or) ts e) {budget : Nat}
    {rest : List Token} (hbudget : ts.length ≤ budget) (hends : EndsOperators rest) :
    nextKeyword? (ts ++ rest) ≠ some .if ∧
      Grammar.joined scope (innerAt scope budget) Tier.all (ts ++ rest) = .ok (e, rest) := by
  obtain ⟨left, -, hjoined⟩ := h.reads budget rest hbudget
    ⟨hends.toEndsPower, fun t _ => hends.joint t⟩
  obtain ⟨t, more, rfl, hbegins⟩ := h.opens
  exact ⟨hbegins.keyword?_ne, hjoined.trans (chain_of_noJoint (hends.joint .or))⟩

/-- A chain of the loosest tier is read as a conditional that has no branches. -/
theorem Spells.conditional_eq (h : Spells scope (.tier .or) ts e) {budget : Nat}
    {rest : List Token} (hbudget : ts.length ≤ budget) (hends : EndsOperators rest)
    (hquestion : NotNext .question rest) :
    Grammar.conditional scope (innerAt scope budget) (ts ++ rest) = .ok (e, rest) := by
  obtain ⟨hif, hjoined⟩ := h.joined_eq hbudget hends
  exact conditional_eq_of_joined hif hquestion hjoined

/-- What is read as a conditional is read as a whole expression if no assignment follows. -/
theorem assignment_eq_of_conditional {inner : Option (Unit → Inner)} {rest : List Token}
    (h : Grammar.conditional scope inner (ts ++ rest) = .ok (e, rest))
    (hassign : NotNext .assign rest) :
    Grammar.assignment scope inner (ts ++ rest) = .ok (e, rest) := by
  rw [Grammar.assignment, h, ok_bind]
  dsimp only
  split
  · next span more => exact absurd rfl (hassign span more)
  · rfl

/-- A chain of the loosest tier is read as a whole expression. -/
theorem Spells.assignment_eq (h : Spells scope (.tier .or) ts e) {budget : Nat}
    {rest : List Token} (hbudget : ts.length ≤ budget) (hends : EndsExpression rest) :
    Grammar.assignment scope (innerAt scope budget) (ts ++ rest) = .ok (e, rest) :=
  assignment_eq_of_conditional
    (h.conditional_eq hbudget hends.toEndsOperators hends.question) hends.assign

/-- A chain of the loosest tier is a statement. -/
theorem Spells.statement_of_or (h : Spells scope (.tier .or) ts e) :
    Spells scope .statement ts e where
  opens := h.opens.loosen (by decide)
  reads _ _ hbudget hends := h.assignment_eq hbudget hends.1

/-- What is spelled at a level is spelled at the next looser one. -/
theorem Spells.looser (h : Spells scope l ts e) : Spells scope l.looser ts e := by
  cases l with
  | statement => exact h
  | tier t =>
      cases t with
      | or => exact h.statement_of_or
      | and => exact h.tier_of_tier rfl (by decide)
      | equality => exact h.tier_of_tier rfl (by decide)
      | relational => exact h.tier_of_tier rfl (by decide)
      | additive => exact h.tier_of_tier rfl (by decide)
      | multiplicative => exact h.tier_of_tier rfl (by decide)
  | power => exact h.multiplicative_of_power
  | sign => exact h.power_of_sign
  | suffix => exact h.sign_of_suffix
  | operand => exact h.suffix_of_operand

/-- **What is spelled at a level is spelled at every looser one.** -/
theorem Spells.loosen {required : Level} (h : Spells scope l ts e)
    (hle : required.rank ≤ l.rank) : Spells scope required ts e := by
  induction hn : l.rank - required.rank generalizing l with
  | zero =>
      have heq : required = l := Level.rank_injective (by omega)
      exact heq ▸ h
  | succ n ih =>
      have hrank := l.rank_looser
      exact ih h.looser (by omega) (by omega)

/-! ### Expressions between other tokens -/

/-- A statement is read as an expression if a level is left. -/
theorem Spells.expression_eq_of_statement (h : Spells scope .statement ts e) {budget : Nat}
    {rest : List Token} (hbudget : ts.length < budget) (hends : Level.statement.Ends rest) :
    expression scope (innerAt scope budget) (ts ++ rest) = .ok (e, rest) := by
  obtain ⟨below, rfl⟩ : ∃ below, budget = below + 1 := ⟨budget - 1, by omega⟩
  rw [expression, nested_innerAt]
  exact h.reads below rest (by omega) hends

/-- A chain of the loosest tier is read as an expression if a level is left, also in front of
a colon. -/
theorem Spells.expression_eq (h : Spells scope (.tier .or) ts e) {budget : Nat}
    {rest : List Token} (hbudget : ts.length < budget) (hends : EndsExpression rest) :
    expression scope (innerAt scope budget) (ts ++ rest) = .ok (e, rest) := by
  obtain ⟨below, rfl⟩ : ∃ below, budget = below + 1 := ⟨budget - 1, by omega⟩
  rw [expression, nested_innerAt]
  exact h.assignment_eq (by omega) hends

/-! ### Operands -/

/-- A single token spells an operand if it is read as one wherever no operand follows. -/
theorem Spells.single {t : Token} (hstarts : t.kind.startsOperand = true)
    (hif : t.kind.keyword? ≠ some .if)
    (h : ∀ inner rest, NoOperand rest → primary scope inner (t :: rest) = .ok (e, rest)) :
    Spells scope .operand [t] e where
  opens := ⟨t, [], rfl, .inl ⟨hstarts, hif⟩⟩
  reads _ rest _ hends := h _ rest hends

/-- A number is an operand. -/
theorem Spells.number (value : Float) (span : Span) :
    Spells scope .operand [⟨.number value, span⟩] (.number value) :=
  .single rfl nofun fun _ _ _ => rfl

/-- A text is an operand. -/
theorem Spells.text (value : String) (span : Span) :
    Spells scope .operand [⟨.text value, span⟩] (.text value) :=
  .single rfl nofun fun _ _ _ => rfl

/-- A truth value is an operand, spelled as its keyword. -/
theorem Spells.boolean (value : Bool) (span : Span) :
    Spells scope .operand
      [⟨.name (if value then Keyword.true else Keyword.false).spelling, span⟩]
      (.boolean value) := by
  cases value with
  | true =>
      have hstarts : (Token.Kind.name Keyword.true.spelling).startsOperand = true := by decide
      have hif : (Token.Kind.name Keyword.true.spelling).keyword? ≠ some .if := by decide
      exact .single hstarts hif fun _ _ _ => rfl
  | false =>
      have hstarts : (Token.Kind.name Keyword.false.spelling).startsOperand = true := by decide
      have hif : (Token.Kind.name Keyword.false.spelling).keyword? ≠ some .if := by decide
      exact .single hstarts hif fun _ _ _ => rfl

/-- A name that is no keyword can begin an operand. -/
theorem startsOperand_name {name : String} (h : Keyword.ofName? name = none) :
    (Token.Kind.name name).startsOperand = true := by
  rw [Token.Kind.startsOperand, h]

/-- A name that is no keyword is read as a symbol if no operand can follow. A parenthesis, which
would make it a call, can begin one. -/
theorem primary_eq_symbol {inner : Option (Unit → Inner)} {name : String} {rest : List Token}
    (h : Keyword.ofName? name = none) (span : Span) (hends : NoOperand rest) :
    primary scope inner (⟨.name name, span⟩ :: rest) = .ok (.symbol name, rest) := by
  show named scope inner name span.start _ rest = _
  have hcall : ∀ parenthesis more, rest = ⟨.leftParen, parenthesis⟩ :: more → False := by
    rintro parenthesis more rfl
    have hparenthesis := hends _ rfl
    cases hparenthesis
  rw [named, h]
  exact hcall

/-- A name that is no keyword is an operand. -/
theorem Spells.symbol {name : String} (h : Keyword.ofName? name = none) (span : Span) :
    Spells scope .operand [⟨.name name, span⟩] (.symbol name) := by
  have hkeyword : (Token.Kind.name name).keyword? = none := h
  exact .single (startsOperand_name h) (hkeyword ▸ nofun) fun _ _ hends =>
    primary_eq_symbol h span hends

/-- A statement in parentheses is an operand. -/
theorem Spells.parenthesized (h : Spells scope .statement ts e) (left right : Span) :
    Spells scope .operand (⟨.leftParen, left⟩ :: (ts ++ [⟨.rightParen, right⟩])) e where
  opens := ⟨_, _, rfl, .inl ⟨rfl, nofun⟩⟩
  reads budget rest hbudget _ := by
    have hlength : ts.length < budget := by
      rw [List.length_cons, List.length_append] at hbudget
      omega
    have hinside := h.expression_eq_of_statement hlength
      ⟨endsExpression_cons right rest (.inl rfl), nofun⟩
    rw [Level.Reads, List.cons_append, List.append_assoc, List.singleton_append, primary]
    dsimp only
    rw [hinside]
    rfl

/-- An expression in brackets is its absolute value. -/
theorem Spells.abs (h : Spells scope (.tier .or) ts e) (left right : Span) :
    Spells scope .operand (⟨.leftBracket, left⟩ :: (ts ++ [⟨.rightBracket, right⟩]))
      (.unary .abs e) where
  opens := ⟨_, _, rfl, .inl ⟨rfl, nofun⟩⟩
  reads budget rest hbudget _ := by
    have hlength : ts.length < budget := by
      rw [List.length_cons, List.length_append] at hbudget
      omega
    have hinside := h.expression_eq hlength
      (endsExpression_cons right rest (.inr (.inl rfl)))
    rw [Level.Reads, List.cons_append, List.append_assoc, List.singleton_append]
    exact primary_eq_abs left right hinside

/-! ### Calls -/

/-- The tokens spell the arguments of a call, separated by commas. -/
inductive SpellsArguments (scope : Scope) : List Token → List Expr → Prop
  | single {ts : List Token} {e : Expr} :
      Spells scope (.tier .or) ts e → SpellsArguments scope ts [e]
  | cons {ts more : List Token} {e : Expr} {es : List Expr} (span : Span) :
      Spells scope (.tier .or) ts e → SpellsArguments scope more es →
      SpellsArguments scope (ts ++ ⟨.comma, span⟩ :: more) (e :: es)

/-- Arguments begin as an expression can. -/
theorem SpellsArguments.opens {es : List Expr} (h : SpellsArguments scope ts es) :
    (Level.tier .or).Opens ts := by
  cases h with
  | single he => exact he.opens
  | cons span he hes => exact he.opens.append _

/-- Arguments are read up to the closing parenthesis, since each takes at least a token. -/
theorem SpellsArguments.arguments_eq {es : List Expr} (h : SpellsArguments scope ts es)
    {n budget : Nat} (hn : ts.length ≤ n) (hbudget : ts.length < budget) (right : Span)
    (rest : List Token) :
    arguments scope (innerAt scope budget) n (ts ++ ⟨.rightParen, right⟩ :: rest) =
      .ok (es, ⟨.rightParen, right⟩ :: rest) := by
  induction h generalizing n with
  | @single ts e he =>
      obtain ⟨t, more, rfl, -⟩ := he.opens
      obtain ⟨m, rfl⟩ : ∃ m, n = m + 1 := ⟨n - 1, by rw [List.length_cons] at hn; omega⟩
      rw [arguments, he.expression_eq hbudget (endsExpression_cons right rest (.inl rfl))]
      rfl
  | @cons ts more e es span he hes ih =>
      rw [List.length_append, List.length_cons] at hn hbudget
      obtain ⟨m, rfl⟩ : ∃ m, n = m + 1 := ⟨n - 1, by omega⟩
      have hlength : ts.length < budget := by omega
      have hfirst := he.expression_eq hlength
        (endsExpression_cons span (more ++ ⟨.rightParen, right⟩ :: rest) (.inr (.inr (.inl rfl))))
      have hothers := ih (n := m) (by omega) (by omega)
      rw [List.append_assoc, List.cons_append, arguments, hfirst, ok_bind]
      dsimp only
      rw [hothers]
      rfl

/-- A call whose accessor has the argument that it needs is not refused. -/
theorem not_refused {callee : String} {es : List Expr}
    (haccess : isAccessor callee = true → (sourceName? es).isSome = true) :
    ¬ (isAccessor callee && (sourceName? es).isNone) = true := by
  intro hrefused
  rw [Bool.and_eq_true] at hrefused
  have hsome := haccess hrefused.1
  rw [Option.isNone_iff_eq_none.mp hrefused.2] at hsome
  cases hsome

/-- A call without arguments. -/
theorem call_eq_of_nil {inner : Option (Unit → Inner)} {callee : String} {offset : Nat}
    (haccess : isAccessor callee = true → (sourceName? []).isSome = true) (right : Span)
    (rest : List Token) :
    Grammar.call scope inner callee offset (⟨.rightParen, right⟩ :: rest) =
      .ok (.call callee [], rest) := by
  show (if (isAccessor callee && (sourceName? []).isNone) = true then _ else _) = _
  rw [if_neg (not_refused haccess)]
  rfl

/-- A call with arguments. None of them begins with the parenthesis that would end the
call. -/
theorem call_eq_of_arguments {inner : Option (Unit → Inner)} {callee : String} {offset : Nat}
    {es : List Expr} {right : Span} {rest : List Token}
    (haccess : isAccessor callee = true → (sourceName? es).isSome = true)
    (hopens : (Level.tier .or).Opens ts)
    (harguments : arguments scope inner (ts.length + 1) ts =
      .ok (es, ⟨.rightParen, right⟩ :: rest)) :
    Grammar.call scope inner callee offset ts = .ok (.call callee es, rest) := by
  unfold Grammar.call
  split
  · obtain ⟨t, more, heq, ⟨hstarts, -⟩ | ⟨-, hsign⟩⟩ := hopens
    · cases heq
      cases hstarts
    · cases heq
      cases hsign
  · rw [harguments]
    show (if (isAccessor callee && (sourceName? es).isNone) = true then _ else _) = _
    rw [if_neg (not_refused haccess)]
    rfl

/-- A call is an operand. -/
theorem Spells.call {callee : String} {es : List Expr}
    (hcallee : Keyword.ofName? callee = none)
    (haccess : isAccessor callee = true → (sourceName? es).isSome = true)
    (h : ts = [] ∧ es = [] ∨ SpellsArguments scope ts es) (name left right : Span) :
    Spells scope .operand
      (⟨.name callee, name⟩ :: ⟨.leftParen, left⟩ :: (ts ++ [⟨.rightParen, right⟩]))
      (.call callee es) where
  opens := by
    have hkeyword : (Token.Kind.name callee).keyword? = none := hcallee
    exact ⟨_, _, rfl, .inl ⟨startsOperand_name hcallee, hkeyword ▸ nofun⟩⟩
  reads budget rest hbudget _ := by
    have hlength : ts.length < budget := by
      rw [List.length_cons, List.length_cons, List.length_append] at hbudget
      omega
    show named scope _ callee name.start _
      (⟨.leftParen, left⟩ :: (ts ++ [⟨.rightParen, right⟩] ++ rest)) = _
    rw [List.append_assoc, List.singleton_append, named, hcallee]
    rcases h with ⟨rfl, rfl⟩ | h
    · exact call_eq_of_nil haccess right rest
    · have hn : ts.length ≤ (ts ++ ⟨.rightParen, right⟩ :: rest).length + 1 := by
        rw [List.length_append]
        omega
      exact call_eq_of_arguments haccess (h.opens.append _)
        (h.arguments_eq hn hlength right rest)

/-! ### Suffixes, signs and powers -/

/-- The token of a suffix. -/
def suffixKind : UnaryOp → Token.Kind
  | .square => .squared
  | _ => .percent

/-- A suffix token is read as a suffix unless an operand can begin behind it. -/
theorem suffix?_of_noOperand {op : UnaryOp} (hop : op = .percent ∨ op = .square) (span : Span)
    {rest : List Token} (h : NoOperand rest) :
    suffix? (⟨suffixKind op, span⟩ :: rest) = some op := by
  rcases hop with rfl | rfl
  · show (if _ then none else some UnaryOp.percent) = _
    rw [if_neg]
    cases rest with
    | nil => exact nofun
    | cons t more =>
        rw [List.head?_cons, Option.any_some, h t rfl]
        exact nofun
  · rfl

/-- A suffix can stand behind an operand with suffixes. -/
theorem Spells.suffixed {op : UnaryOp} (hop : op = .percent ∨ op = .square)
    (h : Spells scope .suffix ts e) (span : Span) :
    Spells scope .suffix (ts ++ [⟨suffixKind op, span⟩]) (.unary op e) where
  opens := h.opens.append _
  reads budget rest hbudget hends := by
    rw [List.length_append, List.length_singleton] at hbudget
    have hoperand : NoOperand (⟨suffixKind op, span⟩ :: rest) := by
      intro t ht
      cases ht
      rcases hop with rfl | rfl <;> rfl
    obtain ⟨left, hleft, hsuffixed⟩ := h.reads budget _ (by omega) hoperand
    obtain ⟨below, rfl⟩ : ∃ below, left = below + 1 := ⟨left - 1, by omega⟩
    refine ⟨below, ?_, ?_⟩
    · rw [List.length_append, List.length_singleton]
      omega
    · rw [List.append_assoc, List.singleton_append, hsuffixed, suffixes,
        suffix?_of_noOperand hop span hends]
      dsimp only
      rw [nested_innerAt]
      rfl

/-- The token of a sign. -/
def signKind : UnaryOp → Token.Kind
  | .plus => .plus
  | _ => .minus

/-- A sign can stand in front of an operand with signs. -/
theorem Spells.signed {op : UnaryOp} (hop : op = .minus ∨ op = .plus)
    (h : Spells scope .sign ts e) (span : Span) :
    Spells scope .sign (⟨signKind op, span⟩ :: ts) (.unary op e) where
  opens := by
    refine ⟨_, _, rfl, .inr ⟨Nat.le_refl _, ?_⟩⟩
    rcases hop with rfl | rfl <;> rfl
  reads budget rest hbudget hends := by
    rw [List.length_cons] at hbudget
    obtain ⟨below, rfl⟩ : ∃ below, budget = below + 1 := ⟨budget - 1, by omega⟩
    have hinside : Grammar.signed scope (innerAt scope below) (ts ++ rest) = .ok (e, rest) :=
      h.reads below rest (by omega) hends
    have hsign : sign? (⟨signKind op, span⟩ :: (ts ++ rest)) = some op := by
      rcases hop with rfl | rfl <;> rfl
    rw [Level.Reads, List.cons_append, Grammar.signed, hsign]
    dsimp only
    rw [nested_innerAt, List.tail_cons]
    dsimp only [level]
    rw [hinside]
    rfl

/-- A base and its exponent are a power. -/
theorem Spells.power {more : List Token} {exponent : Expr} (hbase : Spells scope .sign ts e)
    (hexponent : Spells scope .power more exponent) (span : Span) :
    Spells scope .power (ts ++ ⟨.caret, span⟩ :: more) (.binary .pow e exponent) where
  opens := (hbase.opens.loosen (by decide)).append _
  reads budget rest hbudget hends := by
    rw [List.length_append, List.length_cons] at hbudget
    obtain ⟨below, rfl⟩ : ∃ below, budget = below + 1 := ⟨budget - 1, by omega⟩
    have hcaret : NoOperand (⟨.caret, span⟩ :: (more ++ rest)) := by
      intro t ht
      cases ht
      rfl
    have hleft : Grammar.signed scope (innerAt scope (below + 1))
        (ts ++ ⟨.caret, span⟩ :: (more ++ rest)) = .ok (e, ⟨.caret, span⟩ :: (more ++ rest)) :=
      hbase.reads _ _ (by omega) ⟨hcaret, rfl⟩
    have hright : Grammar.power scope (innerAt scope below) (more ++ rest) =
        .ok (exponent, rest) := hexponent.reads below rest (by omega) hends
    rw [Level.Reads, List.append_assoc, List.cons_append]
    exact power_eq_of_exponent hleft hright

/-! ### Chains of operators -/

/-- The tiers behind the first tighter one are those that are tighter than it. -/
theorem tighter_of_tighter_cons {t t' : Tier} {more : List Tier} (h : t.tighter = t' :: more) :
    more = t'.tighter := by
  cases t <;> cases h <;> rfl

/-- What is spelled at the level of a right operand is read as one. -/
theorem Spells.operand_eq {t : Tier} (h : Spells scope (rightLevel t) ts e) {budget : Nat}
    {rest : List Token} (hbudget : ts.length ≤ budget) (hends : (Level.tier t).Ends rest) :
    Grammar.joined scope (innerAt scope budget) t.tighter (ts ++ rest) = .ok (e, rest) := by
  obtain ⟨hpower, hjoint⟩ := hends
  cases htighter : t.tighter with
  | nil =>
      rw [rightLevel, htighter] at h
      exact h.reads budget rest hbudget hpower
  | cons t' more =>
      rw [rightLevel, htighter] at h
      rw [htighter] at hjoint
      obtain rfl := tighter_of_tighter_cons htighter
      obtain ⟨left, -, hjoined⟩ := h.reads budget rest hbudget
        ⟨hpower, fun u hu => hjoint u (List.mem_cons_of_mem _ hu)⟩
      exact hjoined.trans (chain_of_noJoint (hjoint t' List.mem_cons_self))

/-- An operator of a tier stands between an operand that may be of the same tier and one that
is tighter. -/
theorem Spells.joined {t : Tier} {kind : Token.Kind} {joint : Joint} {span : Span}
    {more : List Token} {right : Expr} (hleft : Spells scope (.tier t) ts e)
    (hright : Spells scope (rightLevel t) more right) (hjoint : t.joint? kind = some joint)
    (hends : ∀ rest, (Level.tier t).Ends (⟨kind, span⟩ :: (more ++ rest))) :
    Spells scope (.tier t) (ts ++ ⟨kind, span⟩ :: more) (joint.join e right) where
  opens := hleft.opens.append _
  reads budget rest hbudget hrest := by
    rw [List.length_append, List.length_cons] at hbudget
    obtain ⟨left, hleftover, hjoined⟩ := hleft.reads budget _ (by omega) (hends rest)
    obtain ⟨below, rfl⟩ : ∃ below, left = below + 1 := ⟨left - 1, by omega⟩
    refine ⟨below, ?_, ?_⟩
    · rw [List.length_append, List.length_cons]
      omega
    · have hlength : more.length ≤ below := by omega
      have hoperand := hright.operand_eq hlength hrest
      rw [List.append_assoc, List.cons_append, hjoined, chain]
      dsimp only
      rw [hjoint]
      dsimp only
      rw [nested_innerAt]
      dsimp only [level]
      rw [hoperand]
      rfl

/-! ### Conditionals and assignments -/

/-- A test and a branch are a conditional. -/
theorem Spells.conditional {more : List Token} {consequent : Expr}
    (htest : Spells scope (.tier .or) ts e) (hconsequent : Spells scope (.tier .or) more consequent)
    (question : Span) :
    Spells scope .statement (ts ++ ⟨.question, question⟩ :: more)
      (.conditional e consequent none) where
  opens := (htest.opens.loosen (by decide)).append _
  reads budget rest hbudget hends := by
    obtain ⟨hends, hcolon⟩ := hends
    rw [List.length_append, List.length_cons] at hbudget
    refine assignment_eq_of_conditional ?_ hends.assign
    have hfirst : ts.length ≤ budget := by omega
    have hsecond : more.length < budget := by omega
    obtain ⟨hif, hjoined⟩ := htest.joined_eq hfirst
      (endsOperators_cons question (more ++ rest) (.inr (.inl rfl)))
    have hbranch := hconsequent.expression_eq hsecond hends
    rw [List.append_assoc, List.cons_append]
    exact conditional_eq_of_consequent hif hjoined hbranch hcolon

/-- A test and two branches are a conditional. -/
theorem Spells.alternative {more others : List Token} {consequent alternate : Expr}
    (htest : Spells scope (.tier .or) ts e) (hconsequent : Spells scope (.tier .or) more consequent)
    (halternate : Spells scope (.tier .or) others alternate) (question colon : Span) :
    Spells scope .statement
      (ts ++ ⟨.question, question⟩ :: (more ++ ⟨.colon, colon⟩ :: others))
      (.conditional e consequent (some alternate)) where
  opens := (htest.opens.loosen (by decide)).append _
  reads budget rest hbudget hends := by
    rw [List.length_append, List.length_cons, List.length_append, List.length_cons] at hbudget
    refine assignment_eq_of_conditional ?_ hends.1.assign
    have hfirst : ts.length ≤ budget := by omega
    have hsecond : more.length < budget := by omega
    have hthird : others.length < budget := by omega
    obtain ⟨hif, hjoined⟩ := htest.joined_eq hfirst
      (endsOperators_cons question (more ++ ⟨.colon, colon⟩ :: (others ++ rest)) (.inr (.inl rfl)))
    have hbranch := hconsequent.expression_eq hsecond
      (endsExpression_cons colon (others ++ rest) (.inr (.inr (.inr rfl))))
    have hother := halternate.expression_eq hthird hends.1
    have hpresent : (((⟨.colon, colon⟩ : Token) :: (others ++ rest)).head?.any
        fun t => t.kind == .colon) = true := rfl
    rw [List.append_assoc, List.cons_append, List.append_assoc, List.cons_append,
      Grammar.conditional, if_neg hif, hjoined, ok_bind]
    dsimp only
    rw [hbranch, ok_bind]
    dsimp only
    rw [hpresent, Grammar.alternate, if_pos rfl, List.tail_cons, hother]
    rfl

/-- In the legacy dialect a symbol and a value are an assignment. -/
theorem Spells.assignment {target : String} (hdialect : scope.options.dialect = .legacy)
    (htarget : Keyword.ofName? target = none) (h : Spells scope (.tier .or) ts e)
    (name assign : Span) :
    Spells scope .statement (⟨.name target, name⟩ :: ⟨.assign, assign⟩ :: ts)
      (.assignment target e) where
  opens := by
    have hsymbol : Spells scope .operand [⟨.name target, name⟩] (.symbol target) :=
      .symbol htarget name
    have hopens : Level.statement.Opens [⟨.name target, name⟩] :=
      hsymbol.opens.loosen (by decide)
    exact hopens.append (⟨.assign, assign⟩ :: ts)
  reads budget rest hbudget hends := by
    rw [List.length_cons, List.length_cons] at hbudget
    obtain ⟨below, rfl⟩ : ∃ below, budget = below + 1 := ⟨budget - 1, by omega⟩
    have hsymbol : Spells scope (.tier .or) [⟨.name target, name⟩] (.symbol target) :=
      (Spells.symbol htarget name).loosen (by decide)
    have hfirst : [(⟨.name target, name⟩ : Token)].length ≤ below + 1 := Nat.le_add_left 1 below
    have hsecond : ts.length ≤ below := by omega
    have htargeted := hsymbol.conditional_eq hfirst
      (endsOperators_cons assign (ts ++ rest) (.inr (.inr rfl))) nofun
    have hvalue := h.assignment_eq hsecond hends.1
    show Grammar.assignment scope _
      ([⟨.name target, name⟩] ++ ⟨.assign, assign⟩ :: (ts ++ rest)) = _
    rw [Grammar.assignment, htargeted, ok_bind]
    dsimp only
    rw [if_neg (not_not_intro hdialect), nested_innerAt]
    dsimp only [level]
    rw [hvalue]
    rfl

end Dashboard.Formula
