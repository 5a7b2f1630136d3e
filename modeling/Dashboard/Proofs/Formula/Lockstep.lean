import Dashboard.Proofs.Formula.Shadow

/-!
# Reading in Lockstep

This module runs the rules on two lists of tokens side by side, the second of which shadows
the first one. Then both runs fail, or both succeed with the same tree, and what the second
run leaves shadows what the first one leaves. That a budget of nesting levels is used up
happens in both runs at the same place, so the budget is the same in both.

Each rule has one lemma, in terms of the rules one level further in. The list of arguments is
the only place where more is needed: its count of arguments comes from the number of tokens,
which is not the same in both runs, and is never used up because every argument takes a token.

## Main results

* `Grammar.rules_inStep` — the rules with the same budget run in lockstep.
* `Grammar.expressionWithin_inStep` — so do expressions.
* `ofTokens_inStep` — a formula is the same wherever its tokens stand, and however its
  operators are spelled.
-/

namespace Dashboard.Formula

/-! ### Computations side by side -/

/-- Two computations fail both, or both succeed with related results. -/
def Agree {ε ε' α β : Type} (R : α → β → Prop) : Except ε α → Except ε' β → Prop
  | .ok a, .ok b => R a b
  | .error _, .error _ => True
  | _, _ => False

/-- Sequences agree if their first parts do, and then their second parts on related results. -/
theorem Agree.bind {ε ε' α α' β β' : Type} {R : α → β → Prop} {S : α' → β' → Prop}
    {x : Except ε α} {y : Except ε' β} {k : α → Except ε α'} {l : β → Except ε' β'}
    (h : Agree R x y) (hk : ∀ a b, x = .ok a → y = .ok b → R a b → Agree S (k a) (l b)) :
    Agree S (x >>= k) (y >>= l) := by
  cases x with
  | error _ =>
      cases y with
      | error _ => trivial
      | ok b => exact h.elim
  | ok a =>
      cases y with
      | error _ => exact h.elim
      | ok b => exact hk a b rfl rfl h

/-- What is made of related results agrees if it is related. -/
theorem Agree.map {ε ε' α α' β β' : Type} {R : α → β → Prop} {S : α' → β' → Prop}
    {x : Except ε α} {y : Except ε' β} {f : α → α'} {g : β → β'}
    (h : Agree R x y) (hf : ∀ a b, R a b → S (f a) (g b)) : Agree S (x.map f) (y.map g) := by
  cases x with
  | error _ =>
      cases y with
      | error _ => trivial
      | ok b => exact h.elim
  | ok a =>
      cases y with
      | error _ => exact h.elim
      | ok b => exact hf a b h

/-- Agreement with an equal result means that both succeed with it, or none does. -/
theorem Agree.ok_iff {ε ε' α : Type} {x : Except ε α} {y : Except ε' α}
    (h : Agree (· = ·) x y) (a : α) : x = .ok a ↔ y = .ok a := by
  cases x with
  | error _ =>
      cases y with
      | error _ => exact ⟨nofun, nofun⟩
      | ok b => exact h.elim
  | ok b =>
      cases y with
      | error _ => exact h.elim
      | ok c =>
          obtain rfl : b = c := h
          simp

namespace Grammar

/-- The same tree, and tokens that shadow those that are left. -/
def SameResult {α : Type} (tail : List Token) (r r' : α × List Token) : Prop :=
  r.1 = r'.1 ∧ Shadows tail r.2 r'.2

/-- Two rules read tokens and those that shadow them in lockstep. -/
def InStep (tail : List Token) (rule rule' : Rule) : Prop :=
  ∀ ⦃ts ts'⦄, Shadows tail ts ts' → Agree (SameResult tail) (rule ts) (rule' ts')

/-- The rules of two nesting levels run in lockstep. -/
structure Inner.InStep (tail : List Token) (rules rules' : Inner) : Prop where
  assignment : Grammar.InStep tail rules.assignment rules'.assignment
  branching : Grammar.InStep tail rules.branching rules'.branching
  power : Grammar.InStep tail rules.power rules'.power
  signed : Grammar.InStep tail rules.signed rules'.signed
  operand : ∀ tier, Grammar.InStep tail (rules.operand tier) (rules'.operand tier)
  chain : ∀ tier e, Grammar.InStep tail (rules.chain tier e) (rules'.chain tier e)
  suffixes : ∀ e, Grammar.InStep tail (rules.suffixes e) (rules'.suffixes e)

/-- What is read takes a token. -/
theorem length_lt_of_takes {dialect : Dialect} {stratum : Stratum} {stops : List Token → Prop}
    {ts rest : List Token} {e : Expr} (h : Takes dialect stratum stops ts e rest) :
    rest.length < ts.length := by
  obtain ⟨taken, rfl, hderives, -⟩ := h
  have hne : taken ≠ [] := fun hnil => hderives.ne_nil (by rw [hnil]; rfl)
  have := List.length_pos_iff.mpr hne
  rw [List.length_append]
  omega

section Level

variable {scope scope' : Scope} {inner inner' : Option (Unit → Inner)} {tail : List Token}
  (htail : Sealed tail) (hoptions : scope'.options = scope.options)
  (hinner : Option.Rel (fun below below' => (below ()).InStep tail (below' ())) inner inner')

include hinner in
/-- If rules run in lockstep, so do they when they are entered one level further in. -/
theorem nested_inStep {rule rule' : Inner → Rule} {ts ts' : List Token}
    (h : ∀ rules rules' : Inner, rules.InStep tail rules' →
      Agree (SameResult tail) (rule rules ts) (rule' rules' ts')) :
    Agree (SameResult tail) (nested scope inner rule ts) (nested scope' inner' rule' ts') := by
  cases hinner with
  | none => trivial
  | some hbelow => exact h _ _ hbelow

include hinner in
/-- Expressions are read in lockstep if the rules one level further in are. -/
theorem expression_inStep : InStep tail (expression scope inner) (expression scope' inner') :=
  fun _ _ hts => nested_inStep hinner fun _ _ hrules => hrules.assignment hts

include htail in
/-- A closing token is there for both rules or for none. -/
theorem expect_inStep {kind : Token.Kind} (hkind : kind.Closes) {ts ts' : List Token}
    (hts : Shadows tail ts ts') :
    Agree (Shadows tail) (scope.expect kind ts) (scope'.expect kind ts') := by
  have hworded : kind.worded? = none := by
    rcases hkind with rfl | rfl | rfl | rfl <;> rfl
  have hsemicolon : kind ≠ .semicolon := by
    rintro rfl
    rcases hkind with h | h | h | h <;> cases h
  have hself : (kind == kind) = true := by
    rcases hkind with rfl | rfl | rfl | rfl <;> rfl
  have hfails : ∀ (scope : Scope) {ts : List Token}, NotNext kind ts →
      ∃ fault, scope.expect kind ts = .error fault := by
    intro scope ts hnot
    cases hexpect : scope.expect kind ts with
    | error fault => exact ⟨fault, rfl⟩
    | ok rest =>
        obtain ⟨⟨kind', span⟩, rfl, hbeq⟩ := expect_eq_ok hexpect
        obtain rfl : kind' = kind := kind_eq_of_beq (.inl hkind) hbeq
        exact absurd rfl (hnot span rest)
  rcases hts.next htail kind hworded hsemicolon with
    ⟨span, more, span', more', rfl, rfl, hmore⟩ | ⟨hnot, hnot'⟩
  · simp only [Scope.expect, hself, if_true]
    exact hmore
  · obtain ⟨fault, hfault⟩ := hfails scope hnot
    obtain ⟨fault', hfault'⟩ := hfails scope' hnot'
    rw [hfault, hfault']
    trivial

include htail in
/-- A keyword of a conditional is there for both rules or for none. -/
theorem expectKeyword_inStep {keyword : Keyword}
    (hkeyword : keyword = .if ∨ keyword = .then ∨ keyword = .else) {ts ts' : List Token}
    (hts : Shadows tail ts ts') :
    Agree (Shadows tail) (scope.expectKeyword keyword ts) (scope'.expectKeyword keyword ts') := by
  have hiff := hts.nextKeyword?_eq_iff htail keyword hkeyword
  rw [Scope.expectKeyword, Scope.expectKeyword]
  by_cases hnext : nextKeyword? ts = some keyword
  · rw [if_pos hnext, if_pos (hiff.mpr hnext)]
    exact hts.behind (by rintro rfl; cases hnext)
  · rw [if_neg hnext, if_neg (mt hiff.mp hnext)]
    trivial

/-! ### Operands -/

variable (hsound : ∀ below, inner = some below → (below ()).Sound scope.options.dialect)
  (hsound' : ∀ below, inner' = some below → (below ()).Sound scope'.options.dialect)

include htail hinner hsound hsound' in
/-- Arguments are read in lockstep. How many are admitted does not matter, as there are more of them
than tokens. -/
theorem arguments_inStep {n n' : Nat} {ts ts' : List Token} (hts : Shadows tail ts ts')
    (hn : ts.length < n) (hn' : ts'.length < n') :
    Agree (SameResult tail) (arguments scope inner n ts) (arguments scope' inner' n' ts') := by
  induction n generalizing n' ts ts' with
  | zero => omega
  | succ n ih =>
      obtain ⟨m, rfl⟩ : ∃ m, n' = m + 1 := ⟨n' - 1, by omega⟩
      rw [arguments, arguments]
      refine (expression_inStep hinner hts).bind ?_
      rintro ⟨first, rest⟩ ⟨first', rest'⟩ hfirst hfirst' ⟨heq, hrest⟩
      obtain rfl : first = first' := heq
      have hlt := length_lt_of_takes (expression_sound hsound hfirst)
      have hlt' := length_lt_of_takes (expression_sound hsound' hfirst')
      rcases hrest.next htail .comma rfl (by rintro ⟨⟩) with
        ⟨span, more, span', more', rfl, rfl, hmore⟩ | ⟨hcomma, hcomma'⟩
      · rw [List.length_cons] at hlt hlt'
        refine (ih hmore (by omega) (by omega)).bind ?_
        rintro ⟨others, rest⟩ ⟨others', rest'⟩ - - ⟨heq, hrest⟩
        exact ⟨congrArg (first :: ·) heq, hrest⟩
      · dsimp only
        split
        · next span more => exact absurd rfl (hcomma span more)
        · split
          · next span more => exact absurd rfl (hcomma' span more)
          · exact ⟨rfl, hrest⟩

include htail hinner hsound hsound' in
/-- Calls are read in lockstep. What follows the arguments is the same whether there are any. -/
theorem call_inStep (callee : String) (offset offset' : Nat) :
    InStep tail (call scope inner callee offset) (call scope' inner' callee offset') := by
  intro ts ts' hts
  have hclose : ∀ {given given' : List Expr} {rest rest' : List Token}, given = given' →
      Shadows tail rest rest' → Agree (SameResult tail)
        (do
          let last ← scope.expect .rightParen rest
          if isAccessor callee && (sourceName? given).isNone then
            .error ⟨offset, .badAccessorArgument callee⟩
          else return (Expr.call callee given, last) : Except Fault _)
        (do
          let last ← scope'.expect .rightParen rest'
          if isAccessor callee && (sourceName? given').isNone then
            .error ⟨offset', .badAccessorArgument callee⟩
          else return (Expr.call callee given', last) : Except Fault _) := by
    rintro given _ rest rest' rfl hrest
    refine (expect_inStep htail (.inl rfl) hrest).bind ?_
    intro last last' _ _ hlast
    split
    · trivial
    · exact ⟨rfl, hlast⟩
  rcases hts.next htail .rightParen rfl (by rintro ⟨⟩) with
    ⟨span, more, span', more', rfl, rfl, hmore⟩ | ⟨hparen, hparen'⟩
  · exact hclose rfl hts
  · unfold call
    dsimp only
    split
    · next span more => exact absurd rfl (hparen span more)
    · split
      · next span more => exact absurd rfl (hparen' span more)
      · refine (arguments_inStep htail hinner hsound hsound' hts (Nat.lt_succ_self _)
          (Nat.lt_succ_self _)).bind ?_
        rintro ⟨given, rest⟩ ⟨given', rest'⟩ - - ⟨heq, hrest⟩
        exact hclose heq hrest

include htail hinner hsound hsound' in
/-- What a name begins is read in lockstep. -/
theorem named_inStep (name : String) (offset offset' : Nat) {ts ts' : List Token}
    (hts : Shadows tail ts ts') :
    InStep tail (named scope inner name offset ts) (named scope' inner' name offset' ts') := by
  intro rest rest' hrest
  unfold named
  split
  · exact ⟨rfl, hrest⟩
  · exact ⟨rfl, hrest⟩
  · exact nested_inStep hinner fun _ _ hrules => hrules.branching hts
  · trivial
  · rcases hrest.next htail .leftParen rfl (by rintro ⟨⟩) with
      ⟨span, more, span', more', rfl, rfl, hmore⟩ | ⟨hparen, hparen'⟩
    · exact call_inStep htail hinner hsound hsound' name offset offset' hmore
    · split
      · next span more => exact absurd rfl (hparen span more)
      · split
        · next span more => exact absurd rfl (hparen' span more)
        · exact ⟨rfl, hrest⟩

/-- No operand begins with an operator that can be written as a word. -/
theorem primary_of_worded? {t : Token} {more : List Token} {word : Keyword}
    (hword : t.kind.worded? = some word) :
    ∃ fault, primary scope inner (t :: more) = .error fault := by
  obtain ⟨kind, span⟩ := t
  rcases worded?_eq_some hword with rfl | rfl | rfl | ⟨value, rfl, hvalue, hwords⟩
  · exact ⟨_, rfl⟩
  · exact ⟨_, rfl⟩
  · exact ⟨_, rfl⟩
  · refine ⟨⟨span.start, .unexpectedKeyword value⟩, ?_⟩
    rw [primary]
    dsimp only
    unfold named
    rw [hvalue]
    rcases hwords with rfl | rfl | rfl <;> rfl

include htail hinner hsound hsound' in
/-- Operands are read in lockstep. -/
theorem primary_inStep : InStep tail (primary scope inner) (primary scope' inner') := by
  intro ts ts' hts
  cases hts with
  | nil =>
      cases tail with
      | nil => trivial
      | cons t rest =>
          obtain ⟨kind, span⟩ := t
          obtain rfl : kind = .semicolon := htail _ rfl
          trivial
  | @cons t t' more more' halike hmore =>
      obtain ⟨kind, span⟩ := t
      obtain ⟨kind', span'⟩ := t'
      rcases halike with heq | ⟨word, hword, hword'⟩
      · obtain rfl : kind = kind' := heq
        cases kind with
        | number value => exact ⟨rfl, hmore⟩
        | text value => exact ⟨rfl, hmore⟩
        | leftParen =>
            refine (expression_inStep hinner hmore).bind ?_
            rintro ⟨e, rest⟩ ⟨e', rest'⟩ - - ⟨heq, hrest⟩
            refine (expect_inStep htail (.inl rfl) hrest).bind ?_
            intro last last' _ _ hlast
            exact ⟨heq, hlast⟩
        | leftBracket =>
            refine (expression_inStep hinner hmore).bind ?_
            rintro ⟨e, rest⟩ ⟨e', rest'⟩ - - ⟨heq, hrest⟩
            refine (expect_inStep htail (.inr (.inl rfl)) hrest).bind ?_
            intro last last' _ _ hlast
            exact ⟨congrArg (Expr.unary .abs) heq, hlast⟩
        | name name =>
            have hname : Shadows tail (⟨.name name, span⟩ :: more) (⟨.name name, span'⟩ :: more') :=
              .cons (.inl rfl) hmore
            exact named_inStep htail hinner hsound hsound' name span.start span'.start hname hmore
        | _ => trivial
      · obtain ⟨fault, hfault⟩ : ∃ fault, primary scope inner (⟨kind, span⟩ :: more) =
            .error fault := primary_of_worded? hword
        obtain ⟨fault', hfault'⟩ : ∃ fault, primary scope' inner' (⟨kind', span'⟩ :: more') =
            .error fault := primary_of_worded? hword'
        rw [hfault, hfault']
        trivial

/-! ### Suffixes, signs and powers -/

include htail hinner in
/-- Suffixes are read in lockstep. -/
theorem suffixes_inStep (e : Expr) :
    InStep tail (suffixes scope inner e) (suffixes scope' inner' e) := by
  intro ts ts' hts
  rw [suffixes, suffixes, hts.suffix?_eq htail]
  split
  · next op hop =>
    exact nested_inStep hinner fun _ _ hrules =>
      hrules.suffixes _ (hts.behind (by rintro rfl; cases hop))
  · exact ⟨rfl, hts⟩

include htail hinner hsound hsound' in
/-- Operands with suffixes are read in lockstep. -/
theorem suffixed_inStep : InStep tail (suffixed scope inner) (suffixed scope' inner') := by
  intro ts ts' hts
  rw [suffixed, suffixed]
  refine (primary_inStep htail hinner hsound hsound' hts).bind ?_
  rintro ⟨e, rest⟩ ⟨e', rest'⟩ - - ⟨heq, hrest⟩
  obtain rfl : e = e' := heq
  exact suffixes_inStep htail hinner e hrest

include htail hinner hsound hsound' in
/-- Operands with signs are read in lockstep. -/
theorem signed_inStep : InStep tail (signed scope inner) (signed scope' inner') := by
  intro ts ts' hts
  rw [signed, signed, hts.sign?_eq htail]
  split
  · next op hop =>
    refine (nested_inStep hinner fun _ _ hrules =>
      hrules.signed (hts.behind (by rintro rfl; cases hop))).bind ?_
    rintro ⟨e, rest⟩ ⟨e', rest'⟩ - - ⟨heq, hrest⟩
    exact ⟨congrArg (Expr.unary op) heq, hrest⟩
  · exact suffixed_inStep htail hinner hsound hsound' hts

include htail hinner hsound hsound' in
/-- Powers are read in lockstep. -/
theorem power_inStep : InStep tail (power scope inner) (power scope' inner') := by
  intro ts ts' hts
  rw [power, power]
  refine (signed_inStep htail hinner hsound hsound' hts).bind ?_
  rintro ⟨base, rest⟩ ⟨base', rest'⟩ - - ⟨heq, hrest⟩
  obtain rfl : base = base' := heq
  rcases hrest.next htail .caret rfl (by rintro ⟨⟩) with
    ⟨span, more, span', more', rfl, rfl, hmore⟩ | ⟨hcaret, hcaret'⟩
  · refine (nested_inStep hinner fun _ _ hrules => hrules.power hmore).bind ?_
    rintro ⟨exponent, last⟩ ⟨exponent', last'⟩ - - ⟨heq, hlast⟩
    exact ⟨congrArg (Expr.binary .pow base) heq, hlast⟩
  · dsimp only
    split
    · next span more => exact absurd rfl (hcaret span more)
    · split
      · next span more => exact absurd rfl (hcaret' span more)
      · exact ⟨rfl, hrest⟩

/-! ### Chains of operators -/

include htail hinner in
/-- The operators of a tier are read in lockstep. -/
theorem chain_inStep (tier : Tier) (left : Expr) :
    InStep tail (chain scope inner tier left) (chain scope' inner' tier left) := by
  intro ts ts' hts
  have hjoint := hts.joint?_eq htail tier
  have hends : ∀ {scope : Scope} {inner : Option (Unit → Inner)} {ts : List Token},
      (ts.head?.bind fun t => tier.joint? t.kind) = none →
      chain scope inner tier left ts = .ok (left, ts) := by
    intro scope inner ts hnone
    refine chain_of_noJoint ?_
    intro t ht
    rw [ht] at hnone
    exact hnone
  cases hnext : ts.head?.bind fun t => tier.joint? t.kind with
  | none =>
      rw [hends hnext, hends (hjoint.trans hnext)]
      exact ⟨rfl, hts⟩
  | some joint =>
      cases hts with
      | nil => cases hnext
      | @cons t t' more more' halike hmore =>
          have hkind : tier.joint? t.kind = some joint := hnext
          have hkind' : tier.joint? t'.kind = some joint := hjoint.trans hnext
          rw [chain, chain]
          dsimp only
          rw [hkind, hkind']
          refine nested_inStep hinner fun rules rules' hrules => ?_
          refine (hrules.operand tier hmore).bind ?_
          rintro ⟨right, rest⟩ ⟨right', rest'⟩ - - ⟨heq, hrest⟩
          obtain rfl : right = right' := heq
          exact hrules.chain tier _ hrest

include htail hinner hsound hsound' in
/-- The chains of all tiers are read in lockstep, by induction on the tiers. -/
theorem joined_inStep (tiers : List Tier) :
    InStep tail (joined scope inner tiers) (joined scope' inner' tiers) := by
  induction tiers with
  | nil => exact power_inStep htail hinner hsound hsound'
  | cons tier tighter ih =>
      intro ts ts' hts
      rw [joined, joined]
      refine (ih hts).bind ?_
      rintro ⟨left, rest⟩ ⟨left', rest'⟩ - - ⟨heq, hrest⟩
      obtain rfl : left = left' := heq
      exact chain_inStep htail hinner tier left hrest

/-! ### Conditionals and assignments -/

include hinner in
/-- A second branch is read by both rules or by none, if its mark is there for both. -/
theorem alternate_inStep {present present' : Bool} {ts ts' : List Token}
    (hpresent : present' = present) (hne : present = true → ts ≠ [])
    (hts : Shadows tail ts ts') :
    Agree (SameResult tail) (alternate scope inner present ts)
      (alternate scope' inner' present' ts') := by
  subst hpresent
  rw [alternate, alternate]
  split
  · next htrue =>
    refine (expression_inStep hinner (hts.behind (hne htrue))).bind ?_
    rintro ⟨e, rest⟩ ⟨e', rest'⟩ - - ⟨heq, hrest⟩
    exact ⟨congrArg some heq, hrest⟩
  · exact ⟨rfl, hts⟩

include htail hinner in
/-- Conditionals in words are read in lockstep. -/
theorem branching_inStep : InStep tail (branching scope inner) (branching scope' inner') := by
  intro ts ts' hts
  rw [branching, branching]
  refine (expectKeyword_inStep htail (.inl rfl) hts).bind ?_
  intro ts₁ ts₁' _ _ hts₁
  refine (expression_inStep hinner hts₁).bind ?_
  rintro ⟨test, ts₂⟩ ⟨test', ts₂'⟩ - - ⟨htest, hts₂⟩
  refine (expectKeyword_inStep htail (.inr (.inl rfl)) hts₂).bind ?_
  intro ts₃ ts₃' _ _ hts₃
  refine (expression_inStep hinner hts₃).bind ?_
  rintro ⟨consequent, ts₄⟩ ⟨consequent', ts₄'⟩ - - ⟨hconsequent, hts₄⟩
  have helse : (nextKeyword? ts₄' == some .else) = (nextKeyword? ts₄ == some .else) := by
    rw [Bool.eq_iff_iff, beq_iff_eq, beq_iff_eq]
    exact hts₄.nextKeyword?_eq_iff htail .else (.inr (.inr rfl))
  refine (alternate_inStep hinner helse (by rintro h rfl; cases h) hts₄).bind ?_
  rintro ⟨other, rest⟩ ⟨other', rest'⟩ - - ⟨hother, hrest⟩
  refine ⟨?_, hrest⟩
  obtain rfl : test = test' := htest
  obtain rfl : consequent = consequent' := hconsequent
  obtain rfl : other = other' := hother
  rfl

include htail hinner hsound hsound' in
/-- Conditionals are read in lockstep. -/
theorem conditional_inStep : InStep tail (conditional scope inner) (conditional scope' inner') := by
  intro ts ts' hts
  have hif := hts.nextKeyword?_eq_iff htail .if (.inl rfl)
  rw [conditional, conditional]
  by_cases hnext : nextKeyword? ts = some .if
  · rw [if_pos hnext, if_pos (hif.mpr hnext)]
    exact branching_inStep htail hinner hts
  · rw [if_neg hnext, if_neg (mt hif.mp hnext)]
    refine (joined_inStep htail hinner hsound hsound' _ hts).bind ?_
    rintro ⟨test, rest⟩ ⟨test', rest'⟩ - - ⟨heq, hrest⟩
    obtain rfl : test = test' := heq
    rcases hrest.next htail .question rfl (by rintro ⟨⟩) with
      ⟨span, more, span', more', rfl, rfl, hmore⟩ | ⟨hquestion, hquestion'⟩
    · refine (expression_inStep hinner hmore).bind ?_
      rintro ⟨consequent, ts₁⟩ ⟨consequent', ts₁'⟩ - - ⟨hconsequent, hts₁⟩
      obtain rfl : consequent = consequent' := hconsequent
      have hcolon : (ts₁'.head?.any fun t => t.kind == .colon) =
          ts₁.head?.any fun t => t.kind == .colon := by
        have hnot : ∀ {ts : List Token}, NotNext .colon ts →
            (ts.head?.any fun t => t.kind == .colon) = false := by
          intro ts hnot
          cases ts with
          | nil => rfl
          | cons t more =>
              obtain ⟨kind, span⟩ := t
              cases kind with
              | colon => exact absurd rfl (hnot span more)
              | _ => rfl
        rcases hts₁.next htail .colon rfl (by rintro ⟨⟩) with
          ⟨colon, others, colon', others', rfl, rfl, -⟩ | ⟨hnone, hnone'⟩
        · rfl
        · rw [hnot hnone, hnot hnone']
      refine (alternate_inStep hinner hcolon (by rintro h rfl; cases h) hts₁).bind ?_
      rintro ⟨other, last⟩ ⟨other', last'⟩ - - ⟨hother, hlast⟩
      exact ⟨congrArg (Expr.conditional test consequent) hother, hlast⟩
    · dsimp only
      split
      · next span more => exact absurd rfl (hquestion span more)
      · split
        · next span more => exact absurd rfl (hquestion' span more)
        · exact ⟨rfl, hrest⟩

include htail hoptions hinner hsound hsound' in
/-- Assignments are read in lockstep. -/
theorem assignment_inStep : InStep tail (assignment scope inner) (assignment scope' inner') := by
  intro ts ts' hts
  rw [assignment, assignment]
  refine (conditional_inStep htail hinner hsound hsound' hts).bind ?_
  rintro ⟨target, rest⟩ ⟨target', rest'⟩ - - ⟨heq, hrest⟩
  obtain rfl : target = target' := heq
  rcases hrest.next htail .assign rfl (by rintro ⟨⟩) with
    ⟨span, more, span', more', rfl, rfl, hmore⟩ | ⟨hassign, hassign'⟩
  · dsimp only
    rw [hoptions]
    split
    · trivial
    · split
      · next name =>
        refine (nested_inStep hinner fun _ _ hrules => hrules.assignment hmore).bind ?_
        rintro ⟨value, last⟩ ⟨value', last'⟩ - - ⟨hvalue, hlast⟩
        exact ⟨congrArg (Expr.assignment name) hvalue, hlast⟩
      · trivial
  · dsimp only
    split
    · next span more => exact absurd rfl (hassign span more)
    · split
      · next span more => exact absurd rfl (hassign' span more)
      · exact ⟨rfl, hrest⟩

include htail hoptions hinner hsound hsound' in
/-- If the rules one level further in run in lockstep, so do those of a level. -/
theorem level_inStep : (level scope inner).InStep tail (level scope' inner') where
  assignment := assignment_inStep htail hoptions hinner hsound hsound'
  branching := branching_inStep htail hinner
  power := power_inStep htail hinner hsound hsound'
  signed := signed_inStep htail hinner hsound hsound'
  operand tier := joined_inStep htail hinner hsound hsound' tier.tighter
  chain := chain_inStep htail hinner
  suffixes := suffixes_inStep htail hinner

end Level

/-! ### Formulas -/

section Formulas

variable {scope scope' : Scope} {tail : List Token} (htail : Sealed tail)
  (hoptions : scope'.options = scope.options)

include htail hoptions

/-- **The rules with the same budget run in lockstep**, by induction on the budget. -/
theorem rules_inStep (budget : Nat) :
    (rules scope budget).InStep tail (rules scope' budget) := by
  induction budget with
  | zero => exact level_inStep htail hoptions .none nofun nofun
  | succ budget ih =>
      refine level_inStep htail hoptions (.some ih) ?_ ?_
      · rintro _ ⟨⟩
        exact rules_sound scope budget
      · rintro _ ⟨⟩
        exact rules_sound scope' budget

/-- **Expressions are read in lockstep.** -/
theorem expressionWithin_inStep (budget : Nat) :
    InStep tail (expressionWithin scope budget) (expressionWithin scope' budget) := by
  cases budget with
  | zero => exact expression_inStep .none
  | succ budget => exact expression_inStep (.some (rules_inStep htail hoptions budget))

end Formulas

/-- What looks the same as a semicolon is one. -/
theorem semicolon_eq_of_alike {kind kind' : Token.Kind} (h : kind.Alike kind') :
    (kind' == .semicolon) = (kind == .semicolon) := by
  rcases h with rfl | ⟨word, hword, hword'⟩
  · rfl
  · have hnot : ∀ {kind : Token.Kind}, kind.worded? = some word →
        (kind == .semicolon) = false := by
      intro kind hworded
      rcases worded?_eq_some hworded with rfl | rfl | rfl | ⟨value, rfl, -⟩ <;> rfl
    rw [hnot hword, hnot hword']

/-- Lists of statements are read alike, however many more statements are admitted than there
are tokens. -/
theorem statements_inStep (scope scope' : Scope) (hoptions : scope'.options = scope.options)
    {n n' : Nat} {ts ts' : List Token} (hts : Shadows [] ts ts') (hne : ts ≠ [])
    (hn : ts.length ≤ n) (hn' : ts'.length ≤ n') :
    Agree (· = ·) (statements scope n ts) (statements scope' n' ts') := by
  have hlength := hts.length_eq
  rw [List.length_nil, Nat.add_zero] at hlength
  induction n generalizing n' ts ts' with
  | zero => exact absurd (List.eq_nil_of_length_eq_zero (Nat.le_zero.mp hn)) hne
  | succ n ih =>
      have hpos := List.length_pos_iff.mpr hne
      obtain ⟨m, rfl⟩ : ∃ m, n' = m + 1 := ⟨n' - 1, by omega⟩
      rw [statements, statements, hoptions]
      refine (expressionWithin_inStep sealed_nil hoptions _ hts).bind ?_
      rintro ⟨first, rest⟩ ⟨first', rest'⟩ hfirst - ⟨heq, hrest⟩
      obtain rfl : first = first' := heq
      cases hrest with
      | nil => rfl
      | @cons t t' more more' halike hmore =>
          have hlt := length_lt_of_takes (expressionWithin_sound _ _ hfirst)
          have hmore' := hmore.length_eq
          rw [List.length_nil, Nat.add_zero] at hmore'
          rw [List.length_cons] at hlt
          dsimp only
          rw [semicolon_eq_of_alike halike]
          split
          · split
            · trivial
            · cases hmore with
              | nil => rfl
              | cons halike' hothers =>
                  refine (ih (.cons halike' hothers) (List.cons_ne_nil _ _) (by omega) (by omega)
                    hmore').bind ?_
                  rintro others others' - - rfl
                  rfl
          · trivial

end Grammar

/-- What the tokens of a formula are read as, if there are any. -/
theorem ofTokens_of_ne_nil {options : Options} {sourceEnd : Nat} {tokens : List Token}
    (hne : dropMark options.dialect tokens ≠ []) :
    ofTokens options sourceEnd tokens =
      (Grammar.statements ⟨options, sourceEnd⟩ (dropMark options.dialect tokens).length
        (dropMark options.dialect tokens)).map (⟨options.dialect, ·⟩) := by
  unfold ofTokens
  dsimp only
  rw [if_neg (by simpa using hne)]
  cases Grammar.statements ⟨options, sourceEnd⟩ (dropMark options.dialect tokens).length
    (dropMark options.dialect tokens) with
  | error fault => rfl
  | ok es => rfl

/-- Without a mark in front nothing is dropped. -/
theorem dropMark_of_notNext {dialect : Dialect} {tokens : List Token}
    (h : NotNext .assign tokens) : dropMark dialect tokens = tokens := by
  unfold dropMark
  split
  · exact absurd rfl (h _ _)
  · rfl

/-- **A formula is the same wherever its tokens stand, and however its operators are
spelled.** -/
theorem ofTokens_inStep {options : Options} {sourceEnd sourceEnd' : Nat} {ts ts' : List Token}
    (hts : Shadows [] ts ts') :
    Agree (· = ·) (ofTokens options sourceEnd ts) (ofTokens options sourceEnd' ts') := by
  have hdrop : Shadows [] (dropMark options.dialect ts) (dropMark options.dialect ts') := by
    cases options.dialect with
    | legacy => exact hts
    | simplified =>
        rcases hts.next sealed_nil .assign rfl (by rintro ⟨⟩) with
          ⟨span, more, span', more', rfl, rfl, hmore⟩ | ⟨hassign, hassign'⟩
        · exact hmore
        · rw [dropMark_of_notNext hassign, dropMark_of_notNext hassign']
          exact hts
  have hnil : dropMark options.dialect ts' = [] ↔ dropMark options.dialect ts = [] := by
    rw [← List.length_eq_zero_iff, hdrop.length_eq, ← List.length_eq_zero_iff]
    rfl
  by_cases hne : dropMark options.dialect ts = []
  · unfold ofTokens
    rw [hne, hnil.mpr hne]
    trivial
  · rw [ofTokens_of_ne_nil hne, ofTokens_of_ne_nil (mt hnil.mp hne)]
    have hread := Grammar.statements_inStep ⟨options, sourceEnd⟩ ⟨options, sourceEnd'⟩ rfl hdrop
      hne (Nat.le_refl _) (Nat.le_refl _)
    exact hread.map fun _ _ heq => congrArg (Formula.mk options.dialect) heq

end Dashboard.Formula
