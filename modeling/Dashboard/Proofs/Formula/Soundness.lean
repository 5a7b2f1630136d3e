import Dashboard.Proofs.Formula.Derivation
import Dashboard.Proofs.Formula.Spelling

/-!
# What is Read is Derived

Every rule that succeeds has taken tokens from the front that derive its tree, as a phrase of
the stratum that the rule reads, and has left the others. No token is skipped and none is
taken twice, because what was taken and what is left are together what was given.

Besides, a rule stops only where nothing follows that it could have taken. This is needed in
two places. A percent sign that no suffix has taken is followed by the operand of a remainder,
and a conditional in words that stands as an operand reaches as far as it can.

The rules that go on from what stands to the left are stated with the tokens that derive it:
together with the tokens that they take, these derive the result.

## Main results

* `Grammar.StopsExpression.closed` — an expression stops where nothing continues it.
* `Grammar.rules_sound` — the rules of every nesting level read what tokens derive.
* `derivesFormula_of_ofTokens` — all tokens of a formula derive its statements.
-/

namespace Dashboard.Formula

open Grammar (Tier)

/-! ### Tokens and kinds -/

/-- The kind of the next token. -/
def nextKind? (rest : List Token) : Option Token.Kind :=
  rest.head?.map Token.kind

/-- A closing or separating token is recognised by its kind. -/
theorem kind_eq_of_beq {kind wanted : Token.Kind} (hwanted : wanted.Closes ∨ wanted = .semicolon)
    (h : (kind == wanted) = true) : kind = wanted := by
  rcases hwanted with (rfl | rfl | rfl | rfl) | rfl
  all_goals cases kind <;> first | rfl | cases h

/-- No phrase is empty. -/
theorem Derives.ne_nil {dialect : Dialect} {stratum : Stratum} {kinds : List Token.Kind}
    {next : Option Token.Kind} {e : Expr} (h : Derives dialect stratum kinds next e) :
    kinds ≠ [] := by
  induction h with
  | ofConditional _ ih => exact ih
  | ofOr _ ih => exact ih
  | ofBranching _ ih => exact ih
  | ofWithin _ ih => exact ih
  | ofSign _ ih => exact ih
  | ofSuffix _ ih => exact ih
  | ofOperand _ ih => exact ih
  | branchingOperand _ _ ih => exact ih
  | _ => simp

/-- The stratum of the chains of the first of some tiers; without one, that of a power. -/
def stratumOf : List Tier → Stratum
  | [] => .power
  | tier :: _ => .tier tier

/-- What a tier joins is of the stratum within it. -/
theorem stratumOf_tighter (tier : Tier) : stratumOf tier.tighter = .within tier := by
  cases tier <;> rfl

namespace Grammar

/-! ### Where a rule stops -/

/-- The next token extends neither an operand nor a power. -/
structure StopsPower (rest : List Token) : Prop where
  suffix : suffix? rest = none
  caret : NotNext .caret rest

/-- The next token extends no chain of some tiers either. -/
structure StopsTiers (tiers : List Tier) (rest : List Token) : Prop extends StopsPower rest where
  joint : ∀ tier ∈ tiers, NoJoint tier rest

/-- The next token does not make a test of what stands in front of it either. -/
structure StopsConditional (rest : List Token) : Prop extends StopsTiers Tier.all rest where
  question : NotNext .question rest

/-- The next token extends nothing that an expression can be. -/
structure StopsExpression (rest : List Token) : Prop extends StopsConditional rest where
  assign : NotNext .assign rest

/-- Every tier is one of the six. -/
theorem Tier.mem_all (tier : Tier) : tier ∈ Tier.all := by
  cases tier <;> decide

/-- **An expression stops where nothing continues it.** -/
theorem StopsExpression.closed {rest : List Token} (h : StopsExpression rest) :
    Closed (nextKind? rest) := by
  intro kind hkind hcontinues
  cases rest with
  | nil => cases hkind
  | cons t more =>
      obtain ⟨kind', span⟩ := t
      cases hkind
      cases hcontinues with
      | @operator tier _ joint hoperator =>
          have hnone : tier.joint? kind' = none := h.joint tier (Tier.mem_all tier) _ rfl
          rw [operatorOf_iff.mp hoperator] at hnone
          cases hnone
      | caret => exact h.caret span more rfl
      | squared => cases h.suffix
      | question => exact h.question span more rfl
      | assign => exact h.assign span more rfl

/-- A suffix is a raised two, or a percent sign behind which no operand can begin. -/
theorem suffix?_eq_some {ts : List Token} {op : UnaryOp} (h : suffix? ts = some op) :
    ∃ t more, ts = t :: more ∧
      ((t.kind = .squared ∧ op = .square) ∨
        (t.kind = .percent ∧ op = .percent ∧ BeginsNothing (nextKind? more))) := by
  unfold suffix? at h
  split at h
  · cases h
    exact ⟨_, _, rfl, .inl ⟨rfl, rfl⟩⟩
  · next span more =>
    split at h
    · cases h
    · next hnone =>
      cases h
      refine ⟨_, _, rfl, .inr ⟨rfl, rfl, ?_⟩⟩
      intro kind hkind
      cases more with
      | nil => cases hkind
      | cons u others =>
          cases hkind
          simpa using hnone
  · cases h

/-- A percent sign that is no suffix stands in front of an operand. -/
theorem startsOperand_of_suffix?_eq_none {t : Token} {more : List Token}
    (h : suffix? (t :: more) = none) (hpercent : t.kind = .percent) :
    (nextKind? more).any Token.Kind.startsOperand = true := by
  obtain ⟨kind, span⟩ := t
  obtain rfl : kind = .percent := hpercent
  rw [suffix?] at h
  split at h
  · next hstarts =>
    cases more with
    | nil => cases hstarts
    | cons u others => exact hstarts
  · cases h

/-- A sign is a minus or a plus. -/
theorem sign?_eq_some {ts : List Token} {op : UnaryOp} (h : sign? ts = some op) :
    ∃ t more, ts = t :: more ∧
      ((t.kind = .minus ∧ op = .minus) ∨ (t.kind = .plus ∧ op = .plus)) := by
  unfold sign? at h
  split at h
  · cases h
    exact ⟨_, _, rfl, .inl ⟨rfl, rfl⟩⟩
  · cases h
    exact ⟨_, _, rfl, .inr ⟨rfl, rfl⟩⟩
  · cases h

/-- The next keyword is a token of its own. -/
theorem nextKeyword?_eq_some {ts : List Token} {keyword : Keyword}
    (h : nextKeyword? ts = some keyword) :
    ∃ t more, ts = t :: more ∧ t.kind.keyword? = some keyword := by
  cases ts with
  | nil => cases h
  | cons t more => exact ⟨t, more, rfl, h⟩

/-! ### What a rule takes -/

/-- A rule has taken tokens that derive a tree and has left the others, and nothing that
follows extends the tree. -/
def Takes (dialect : Dialect) (stratum : Stratum) (stops : List Token → Prop)
    (ts : List Token) (e : Expr) (rest : List Token) : Prop :=
  ∃ taken, ts = taken ++ rest ∧
    Derives dialect stratum (taken.map Token.kind) (nextKind? rest) e ∧ stops rest

/-- A rule reads what tokens derive. -/
def ReadsDerived (dialect : Dialect) (stratum : Stratum) (stops : List Token → Prop)
    (rule : Rule) : Prop :=
  ∀ ⦃ts e rest⦄, rule ts = .ok (e, rest) → Takes dialect stratum stops ts e rest

/-- A rule goes on from what tokens to the left derive, if a condition on what follows them is
met: with what it takes, they derive the result. -/
def GoesOnDerived (dialect : Dialect) (stratum : Stratum) (starts stops : List Token → Prop)
    (rule : Expr → Rule) : Prop :=
  ∀ ⦃kinds left ts e rest⦄, Derives dialect stratum kinds (nextKind? ts) left → starts ts →
    rule left ts = .ok (e, rest) → ∃ taken, ts = taken ++ rest ∧
      Derives dialect stratum (kinds ++ taken.map Token.kind) (nextKind? rest) e ∧ stops rest

/-- The rules of a nesting level read what tokens derive. -/
structure Inner.Sound (dialect : Dialect) (rules : Inner) : Prop where
  assignment : ReadsDerived dialect .assignment StopsExpression rules.assignment
  branching : ReadsDerived dialect .branching StopsExpression rules.branching
  power : ReadsDerived dialect .power StopsPower rules.power
  signed : ReadsDerived dialect .sign (fun rest => suffix? rest = none) rules.signed
  operand : ∀ tier, ReadsDerived dialect (.within tier) (StopsTiers tier.tighter)
    (rules.operand tier)
  chain : ∀ tier, GoesOnDerived dialect (.tier tier) (StopsTiers tier.tighter)
    (StopsTiers (tier :: tier.tighter)) (rules.chain tier)
  suffixes : GoesOnDerived dialect .suffix (fun _ => True) (fun rest => suffix? rest = none)
    rules.suffixes

section Level

variable {scope : Scope} {inner : Option (Unit → Inner)}
  (hinner : ∀ below, inner = some below → (below ()).Sound scope.options.dialect)

include hinner

/-- Expressions are derived if the rules one level further in are sound. -/
theorem expression_sound :
    ReadsDerived scope.options.dialect .assignment StopsExpression (expression scope inner) := by
  intro ts e rest h
  obtain ⟨below, hbelow, h⟩ := nested_eq_ok h
  exact (hinner below hbelow).assignment h

/-- The arguments of a call, read behind what opens it, keep it open: an argument and its comma
belong to what opens the call for the next one. -/
theorem arguments_sound {n : Nat} {ts rest : List Token} {given : List Expr} {callee : String}
    (h : arguments scope inner n ts = .ok (given, rest)) (hn : ts.length < n)
    (kinds : List Token.Kind) (before : List Expr)
    (hopen : ∀ right next e, Derives scope.options.dialect .assignment right next e →
      Derives scope.options.dialect .opening (kinds ++ right) next
        (.call callee (before ++ [e]))) :
    ∃ taken, ts = taken ++ rest ∧
      Derives scope.options.dialect .opening (kinds ++ taken.map Token.kind) (nextKind? rest)
        (.call callee (before ++ given)) := by
  induction n generalizing ts given before kinds with
  | zero => omega
  | succ n ih =>
      obtain ⟨first, middle, hfirst, hrest⟩ := arguments_succ_eq_ok h
      obtain ⟨taken, rfl, hderives, -⟩ := expression_sound hinner hfirst
      have hcall := hopen _ _ _ hderives
      rcases hrest with ⟨span, more, others, rfl, hothers, rfl⟩ | ⟨rfl, rfl⟩
      · rw [List.length_append, List.length_cons] at hn
        obtain ⟨taken', rfl, hlast⟩ := ih hothers (by omega)
          (kinds ++ taken.map Token.kind ++ [.comma]) (before ++ [first]) (by
            intro right next e hright
            rw [List.append_assoc, List.singleton_append]
            exact hcall.furtherArgument hright)
        refine ⟨taken ++ ⟨.comma, span⟩ :: taken', by simp, ?_⟩
        simpa using hlast
      · exact ⟨taken, rfl, hcall⟩

/-- A call is derived from its name, the parenthesis and what it takes. -/
theorem call_sound {callee : String} (hname : Keyword.ofName? callee = none) (offset : Nat)
    {ts rest : List Token} {e : Expr} (h : call scope inner callee offset ts = .ok (e, rest)) :
    ∃ taken, ts = taken ++ rest ∧
      Derives scope.options.dialect .operand
        (.name callee :: .leftParen :: taken.map Token.kind) (nextKind? rest) e := by
  obtain ⟨given, middle, hgiven, hclose, haccess, rfl⟩ := call_eq_ok h
  obtain ⟨close, rfl, hkind⟩ := expect_eq_ok hclose
  have hclose' := kind_eq_of_beq (.inl (.inl rfl)) hkind
  rcases hgiven with ⟨span, more, rfl, rfl, hmiddle⟩ | hgiven
  · obtain ⟨rfl, rfl⟩ := List.cons.inj hmiddle
    refine ⟨[_], rfl, .emptyCall hname ?_⟩
    cases haccessor : isAccessor callee with
    | false => rfl
    | true => cases haccess haccessor
  · obtain ⟨taken, rfl, hopening⟩ := arguments_sound hinner hgiven (Nat.lt_succ_self _)
      [.name callee, .leftParen] [] (fun right next e hright => .firstArgument hname hright)
    have hnext : nextKind? (close :: rest) = some .rightParen := congrArg some hclose'
    rw [hnext] at hopening
    refine ⟨taken ++ [close], by simp, ?_⟩
    rw [List.map_append, List.map_singleton, hclose']
    exact hopening.call haccess

/-- What a name begins is derived from the name on. -/
theorem named_sound {name : String} {span : Span} {more rest : List Token} {e : Expr}
    (h : named scope inner name span.start (⟨.name name, span⟩ :: more) more = .ok (e, rest)) :
    Takes scope.options.dialect .operand (fun _ => True) (⟨.name name, span⟩ :: more) e rest := by
  rcases named_eq_ok h with ⟨hkeyword, rfl, rfl⟩ | ⟨hkeyword, rfl, rfl⟩ | ⟨-, hbranching⟩ |
    ⟨hname, paren, others, rfl, hcall⟩ | ⟨hname, rfl, rfl, hparen⟩
  · exact ⟨[_], rfl, .true hkeyword, trivial⟩
  · exact ⟨[_], rfl, .false hkeyword, trivial⟩
  · obtain ⟨below, hbelow, hbranching⟩ := nested_eq_ok hbranching
    obtain ⟨taken, htaken, hderives, hstops⟩ := (hinner below hbelow).branching hbranching
    exact ⟨taken, htaken, hderives.branchingOperand hstops.closed, trivial⟩
  · obtain ⟨taken, rfl, hderives⟩ := call_sound hinner hname _ hcall
    exact ⟨⟨.name name, span⟩ :: ⟨.leftParen, paren⟩ :: taken, rfl, hderives, trivial⟩
  · refine ⟨[_], rfl, .symbol hname ?_, trivial⟩
    intro hnext
    cases rest with
    | nil => cases hnext
    | cons t others =>
        obtain ⟨kind, span'⟩ := t
        cases hnext
        exact hparen span' others rfl

/-- Operands are derived. -/
theorem primary_sound :
    ReadsDerived scope.options.dialect .operand (fun _ => True) (primary scope inner) := by
  intro ts e rest h
  obtain ⟨span, more, ⟨value, rfl, rfl, rfl⟩ | ⟨value, rfl, rfl, rfl⟩ |
    ⟨rfl, middle, hinside, hclose⟩ | ⟨rfl, operand, middle, hinside, hclose, rfl⟩ |
    ⟨name, rfl, hnamed⟩⟩ := primary_eq_ok h
  · exact ⟨[_], rfl, .number value, trivial⟩
  · exact ⟨[_], rfl, .text value, trivial⟩
  · obtain ⟨taken, rfl, hderives, -⟩ := expression_sound hinner hinside
    obtain ⟨close, rfl, hkind⟩ := expect_eq_ok hclose
    have hclose' := kind_eq_of_beq (.inl (.inl rfl)) hkind
    have hnext : nextKind? (close :: rest) = some .rightParen := congrArg some hclose'
    rw [hnext] at hderives
    refine ⟨⟨.leftParen, span⟩ :: (taken ++ [close]), by simp, ?_, trivial⟩
    rw [List.map_cons, List.map_append, List.map_singleton, hclose']
    exact hderives.parentheses
  · obtain ⟨taken, rfl, hderives, -⟩ := expression_sound hinner hinside
    obtain ⟨close, rfl, hkind⟩ := expect_eq_ok hclose
    have hclose' := kind_eq_of_beq (.inl (.inr (.inl rfl))) hkind
    have hnext : nextKind? (close :: rest) = some .rightBracket := congrArg some hclose'
    rw [hnext] at hderives
    refine ⟨⟨.leftBracket, span⟩ :: (taken ++ [close]), by simp, ?_, trivial⟩
    rw [List.map_cons, List.map_append, List.map_singleton, hclose']
    exact hderives.brackets
  · exact named_sound hinner hnamed

/-- Suffixes go on from an operand, until none follows. -/
theorem suffixes_sound :
    GoesOnDerived scope.options.dialect .suffix (fun _ => True)
      (fun rest => suffix? rest = none) (suffixes scope inner) := by
  intro kinds left ts e rest hleft _ h
  rcases suffixes_eq_ok h with ⟨op, below, hop, hbelow, hsuffixes⟩ | ⟨hnone, rfl, rfl⟩
  · obtain ⟨t, more, rfl, hkind⟩ := suffix?_eq_some hop
    have hextended : Derives scope.options.dialect .suffix (kinds ++ [t.kind]) (nextKind? more)
        (.unary op left) := by
      obtain ⟨kind, span⟩ := t
      rcases hkind with ⟨rfl, rfl⟩ | ⟨rfl, rfl, hbegins⟩
      · exact .squared hleft
      · exact .percent hleft hbegins
    obtain ⟨taken, rfl, hderives, hstops⟩ :=
      (hinner below hbelow).suffixes hextended trivial hsuffixes
    exact ⟨t :: taken, rfl, by simpa using hderives, hstops⟩
  · exact ⟨[], rfl, by simpa using hleft, hnone⟩

/-- Operands with suffixes are derived. -/
theorem suffixed_sound :
    ReadsDerived scope.options.dialect .suffix (fun rest => suffix? rest = none)
      (suffixed scope inner) := by
  intro ts e rest h
  obtain ⟨operand, middle, hoperand, hsuffixes⟩ := suffixed_eq_ok h
  obtain ⟨taken, rfl, hderives, -⟩ := primary_sound hinner hoperand
  obtain ⟨taken', rfl, hderives', hstops⟩ :=
    suffixes_sound hinner (.ofOperand hderives) trivial hsuffixes
  exact ⟨taken ++ taken', by simp, by simpa using hderives', hstops⟩

/-- Operands with signs are derived. -/
theorem signed_sound :
    ReadsDerived scope.options.dialect .sign (fun rest => suffix? rest = none)
      (signed scope inner) := by
  intro ts e rest h
  rcases signed_eq_ok h with ⟨op, below, operand, hop, hbelow, hoperand, rfl⟩ | ⟨-, hsuffixed⟩
  · obtain ⟨⟨kind, span⟩, more, rfl, hkind⟩ := sign?_eq_some hop
    obtain ⟨taken, htaken, hderives, hstops⟩ := (hinner below hbelow).signed hoperand
    obtain rfl : more = taken ++ rest := htaken
    refine ⟨⟨kind, span⟩ :: taken, rfl, ?_, hstops⟩
    rcases hkind with ⟨rfl, rfl⟩ | ⟨rfl, rfl⟩
    · exact .minus hderives
    · exact .plus hderives
  · obtain ⟨taken, rfl, hderives, hstops⟩ := suffixed_sound hinner hsuffixed
    exact ⟨taken, rfl, .ofSuffix hderives, hstops⟩

/-- Powers are derived. -/
theorem power_sound :
    ReadsDerived scope.options.dialect .power StopsPower (power scope inner) := by
  intro ts e rest h
  obtain ⟨base, middle, hbase, hrest⟩ := power_eq_ok h
  obtain ⟨taken, rfl, hderives, hsuffix⟩ := signed_sound hinner hbase
  rcases hrest with ⟨span, more, below, exponent, rfl, hbelow, hexponent, rfl⟩ |
    ⟨rfl, rfl, hcaret⟩
  · obtain ⟨taken', rfl, hderives', hstops⟩ := (hinner below hbelow).power hexponent
    refine ⟨taken ++ ⟨.caret, span⟩ :: taken', by simp, ?_, hstops⟩
    simpa using Derives.power hderives hderives'
  · exact ⟨taken, rfl, .ofSign hderives, hsuffix, hcaret⟩

/-- The operators of a tier go on from its first operand, until none of them follows. -/
theorem chain_sound (tier : Tier) :
    GoesOnDerived scope.options.dialect (.tier tier) (StopsTiers tier.tighter)
      (StopsTiers (tier :: tier.tighter)) (chain scope inner tier) := by
  intro kinds left ts e rest hleft hstarts h
  rcases chain_eq_ok h with ⟨t, more, joint, below, right, middle, rfl, hjoint, hbelow, hright,
    hchain⟩ | ⟨hnone, rfl, rfl⟩
  · obtain ⟨taken, rfl, hderives, hmiddle⟩ := (hinner below hbelow).operand tier hright
    have hpercent : t.kind = .percent →
        (taken.map Token.kind).head?.any Token.Kind.startsOperand = true := by
      intro hkind
      have hbegins := startsOperand_of_suffix?_eq_none hstarts.suffix hkind
      cases taken with
      | nil => exact absurd rfl hderives.ne_nil
      | cons u others => exact hbegins
    have hjoined := Derives.joined (operatorOf_iff.mpr hjoint) hleft hderives hpercent
    obtain ⟨taken', rfl, hderives', hstops⟩ :=
      (hinner below hbelow).chain tier hjoined hmiddle hchain
    exact ⟨t :: (taken ++ taken'), by simp, by simpa using hderives', hstops⟩
  · refine ⟨[], rfl, by simpa using hleft, hstarts.toStopsPower, ?_⟩
    intro tier' htier' t ht
    rcases List.mem_cons.mp htier' with rfl | htighter
    · cases rest with
      | nil => cases ht
      | cons u more =>
          cases ht
          exact hnone _ _ rfl
    · exact hstarts.joint tier' htighter t ht

/-- A chain of the first of some tiers that follow each other is read as one of its
stratum. -/
theorem joined_sound {tiers : List Tier}
    (hfollow : ∀ tier more, tiers = tier :: more → more = tier.tighter) :
    ReadsDerived scope.options.dialect (stratumOf tiers) (StopsTiers tiers)
      (joined scope inner tiers) := by
  induction tiers with
  | nil =>
      intro ts e rest h
      obtain ⟨taken, rfl, hderives, hstops⟩ := power_sound hinner h
      exact ⟨taken, rfl, hderives, hstops, nofun⟩
  | cons tier more ih =>
      obtain rfl := hfollow tier more rfl
      intro ts e rest h
      obtain ⟨left, middle, hleft, hchain⟩ := joined_cons_eq_ok h
      obtain ⟨taken, rfl, hderives, hmiddle⟩ := ih (fun _ _ => tighter_of_tighter_cons) hleft
      rw [stratumOf_tighter] at hderives
      obtain ⟨taken', rfl, hderives', hstops⟩ :=
        chain_sound hinner tier (.ofWithin hderives) hmiddle hchain
      refine ⟨taken ++ taken', by simp, ?_, hstops⟩
      rw [List.map_append]
      exact hderives'

/-- What the tighter tiers read is an operand of this one. -/
theorem operand_sound (tier : Tier) :
    ReadsDerived scope.options.dialect (.within tier) (StopsTiers tier.tighter)
      (joined scope inner tier.tighter) := by
  rw [← stratumOf_tighter]
  exact joined_sound hinner fun _ _ => tighter_of_tighter_cons

/-- A second branch is read behind its mark; if there is none, no mark of one follows. -/
theorem alternate_sound (spelling : Spelling) {present : Bool} {ts rest : List Token}
    {other : Option Expr}
    (hpresent : present = true → ∃ t more, ts = t :: more ∧ spelling.IsAlternate t.kind)
    (habsent : present = false → NoAlternate spelling (nextKind? ts))
    (h : alternate scope inner present ts = .ok (other, rest)) :
    (∃ t more e, ts = t :: more ∧ spelling.IsAlternate t.kind ∧ other = some e ∧
        Takes scope.options.dialect .assignment StopsExpression more e rest) ∨
      (other = none ∧ rest = ts ∧ NoAlternate spelling (nextKind? ts)) := by
  rcases alternate_eq_ok h with ⟨htrue, e, he, rfl⟩ | ⟨hfalse, rfl, rfl⟩
  · obtain ⟨t, more, rfl, hmark⟩ := hpresent htrue
    exact .inl ⟨t, more, e, rfl, hmark, rfl, expression_sound hinner he⟩
  · exact .inr ⟨rfl, rfl, habsent hfalse⟩

/-- The mark of a second branch in words is the keyword that comes next. -/
theorem alternate_words_sound {ts rest : List Token} {other : Option Expr}
    (h : alternate scope inner (nextKeyword? ts == some .else) ts = .ok (other, rest)) :
    (∃ t more e, ts = t :: more ∧ t.kind.keyword? = some .else ∧ other = some e ∧
        Takes scope.options.dialect .assignment StopsExpression more e rest) ∨
      (other = none ∧ rest = ts ∧ NoAlternate .words (nextKind? ts)) := by
  refine alternate_sound hinner .words ?_ ?_ h
  · intro hpresent
    exact nextKeyword?_eq_some (beq_iff_eq.mp hpresent)
  · intro habsent kind hkind helse
    cases ts with
    | nil => cases hkind
    | cons t more =>
        cases hkind
        rw [beq_eq_false_iff_ne] at habsent
        exact habsent helse

/-- The mark of a second branch in signs is a colon. -/
theorem alternate_signs_sound {ts rest : List Token} {other : Option Expr}
    (h : alternate scope inner (ts.head?.any fun t => t.kind == .colon) ts =
      .ok (other, rest)) :
    (∃ t more e, ts = t :: more ∧ t.kind = .colon ∧ other = some e ∧
        Takes scope.options.dialect .assignment StopsExpression more e rest) ∨
      (other = none ∧ rest = ts ∧ NoAlternate .signs (nextKind? ts)) := by
  refine alternate_sound hinner .signs ?_ ?_ h
  · intro hpresent
    cases ts with
    | nil => cases hpresent
    | cons t more =>
        exact ⟨t, more, rfl, kind_eq_of_beq (.inl (.inr (.inr (.inr rfl)))) hpresent⟩
  · rintro habsent kind hkind rfl
    cases ts with
    | nil => cases hkind
    | cons t more =>
        obtain ⟨kind', span⟩ := t
        cases hkind
        cases habsent

/-- Conditionals in words are derived. -/
theorem branching_sound :
    ReadsDerived scope.options.dialect .branching StopsExpression (branching scope inner) := by
  intro ts e rest h
  obtain ⟨test, consequent, other, middle, middle', hif, htest, hthen, hconsequent, hother,
    rfl⟩ := branching_eq_ok h
  obtain ⟨ifWord, more, rfl, hifWord⟩ := nextKeyword?_eq_some hif
  obtain ⟨left, hleft, hderives, -⟩ := expression_sound hinner htest
  obtain rfl : more = left ++ middle := hleft
  obtain ⟨thenWord, more', rfl, hthenWord⟩ := nextKeyword?_eq_some hthen
  obtain ⟨right, hright, hderives', hstops⟩ := expression_sound hinner hconsequent
  obtain rfl : more' = right ++ middle' := hright
  rcases alternate_words_sound hinner hother with
    ⟨elseWord, others, alternate, rfl, helse, rfl, last, rfl, halternate, hstops'⟩ |
    ⟨rfl, rfl, hnone⟩
  · refine ⟨ifWord :: (left ++ thenWord :: (right ++ elseWord :: last)), by simp, ?_, hstops'⟩
    simpa using Derives.branchElse hifWord hthenWord helse hderives hderives' halternate
  · refine ⟨ifWord :: (left ++ thenWord :: right), by simp, ?_, hstops⟩
    simpa using Derives.branch hifWord hthenWord hderives hderives' hnone

/-- Conditionals are derived. -/
theorem conditional_sound :
    ReadsDerived scope.options.dialect .conditional StopsConditional
      (conditional scope inner) := by
  intro ts e rest h
  rcases conditional_eq_ok h with ⟨-, hbranching⟩ | ⟨-, test, middle, htest, hrest⟩
  · obtain ⟨taken, rfl, hderives, hstops⟩ := branching_sound hinner hbranching
    exact ⟨taken, rfl, .ofBranching hderives, hstops.toStopsConditional⟩
  · have hall : ∀ tier more, Tier.all = tier :: more → more = tier.tighter := by
      intro tier more heq
      cases heq
      rfl
    obtain ⟨left, rfl, hderives, htiers⟩ := joined_sound hinner hall htest
    rcases hrest with ⟨span, more, consequent, other, middle', rfl, hconsequent, hother, rfl⟩ |
      ⟨rfl, rfl, hquestion⟩
    · obtain ⟨right, rfl, hderives', hstops⟩ := expression_sound hinner hconsequent
      rcases alternate_signs_sound hinner hother with
        ⟨⟨kind, colon⟩, others, alternate, rfl, hcolon, rfl, last, rfl, halternate, hstops'⟩ |
        ⟨rfl, rfl, hnone⟩
      · obtain rfl : kind = .colon := hcolon
        refine ⟨left ++ ⟨.question, span⟩ :: (right ++ ⟨.colon, colon⟩ :: last), by simp, ?_,
          hstops'.toStopsConditional⟩
        simpa using Derives.alternative hderives hderives' halternate
      · refine ⟨left ++ ⟨.question, span⟩ :: right, by simp, ?_, hstops.toStopsConditional⟩
        simpa using Derives.choice hderives hderives' hnone
    · exact ⟨left, rfl, .ofOr hderives, htiers, hquestion⟩

/-- Assignments are derived. -/
theorem assignment_sound :
    ReadsDerived scope.options.dialect .assignment StopsExpression (assignment scope inner) := by
  intro ts e rest h
  obtain ⟨target, middle, htarget, hrest⟩ := assignment_eq_ok h
  obtain ⟨left, rfl, htarget, hstops⟩ := conditional_sound hinner htarget
  rcases hrest with ⟨span, more, name, below, value, rfl, hlegacy, rfl, hbelow, hvalue, rfl⟩ |
    ⟨rfl, rfl, hassign⟩
  · obtain ⟨right, rfl, hvalue, hstops'⟩ := (hinner below hbelow).assignment hvalue
    refine ⟨left ++ ⟨.assign, span⟩ :: right, by simp, ?_, hstops'⟩
    simpa using Derives.assign hlegacy htarget hvalue
  · exact ⟨left, rfl, .ofConditional htarget, hstops, hassign⟩

/-- If the rules one level further in read what tokens derive, so do those of a level. -/
theorem level_sound : (level scope inner).Sound scope.options.dialect where
  assignment := assignment_sound hinner
  branching := branching_sound hinner
  power := power_sound hinner
  signed := signed_sound hinner
  operand := operand_sound hinner
  chain := chain_sound hinner
  suffixes := suffixes_sound hinner

end Level

/-- **The rules of every nesting level read what tokens derive**, by induction on the
budget. -/
theorem rules_sound (scope : Scope) (budget : Nat) :
    (rules scope budget).Sound scope.options.dialect := by
  induction budget with
  | zero => exact level_sound nofun
  | succ budget ih =>
      refine level_sound ?_
      intro below hbelow
      cases hbelow
      exact ih

/-- **The rules of every nesting level are sound**, by induction on the budget. -/
theorem sound_innerAt (scope : Scope) (budget : Nat) :
    ∀ below, innerAt scope budget = some below → (below ()).Sound scope.options.dialect := by
  cases budget with
  | zero => exact nofun
  | succ budget =>
      rintro _ ⟨⟩
      exact rules_sound scope budget

/-- **Every expression is derived**, and it stops where nothing continues it. -/
theorem expressionWithin_sound (scope : Scope) (budget : Nat) :
    ReadsDerived scope.options.dialect .assignment StopsExpression
      (expressionWithin scope budget) := by
  cases budget with
  | zero => exact expression_sound nofun
  | succ budget =>
      refine expression_sound ?_
      intro below hbelow
      cases hbelow
      exact rules_sound scope budget

/-- The tokens of a list of statements derive them, if the list is not cut short. -/
theorem statements_sound {scope : Scope} {n : Nat} {ts : List Token} {es : List Expr}
    (h : statements scope n ts = .ok es) (hn : ts.length ≤ n) (hne : ts ≠ []) :
    DerivesFormula scope.options.dialect (ts.map Token.kind) es := by
  induction n generalizing ts es with
  | zero => exact absurd (List.eq_nil_of_length_eq_zero (Nat.le_zero.mp hn)) hne
  | succ n ih =>
      obtain ⟨first, rest, hfirst, hrest⟩ := statements_succ_eq_ok h
      obtain ⟨taken, rfl, hderives, -⟩ := expressionWithin_sound _ _ hfirst
      rcases hrest with ⟨rfl, rfl⟩ | ⟨t, more, rfl, hsemicolon, hlegacy, hmore⟩
      · rw [List.append_nil]
        exact .single hderives
      · have hkind := kind_eq_of_beq (.inr rfl) hsemicolon
        have hnext : nextKind? (t :: more) = some .semicolon := congrArg some hkind
        rw [hnext] at hderives
        rw [List.map_append, List.map_cons, hkind]
        rcases hmore with ⟨rfl, rfl⟩ | ⟨others, hothers, rfl, hmore⟩
        · exact .trailing hlegacy hderives
        · rw [List.length_append, List.length_cons] at hn
          exact .statement hlegacy hderives (ih hothers (by omega) hmore)

end Grammar

/-- **All tokens of a formula derive its statements**, but for the mark in front. -/
theorem derivesFormula_of_ofTokens {options : Options} {sourceEnd : Nat} {tokens : List Token}
    {f : Formula} (h : ofTokens options sourceEnd tokens = .ok f) :
    f.dialect = options.dialect ∧
      DerivesFormula options.dialect ((dropMark options.dialect tokens).map Token.kind)
        f.statements := by
  unfold ofTokens at h
  dsimp only at h
  split at h
  · cases h
  · next hempty =>
    rw [Grammar.bind_eq_ok] at h
    obtain ⟨statements, hstatements, h⟩ := h
    cases h
    refine ⟨rfl, Grammar.statements_sound hstatements (Nat.le_refl _) ?_⟩
    intro hnil
    exact hempty (List.isEmpty_iff.mpr hnil)

end Dashboard.Formula
