import Dashboard.Proofs.Formula.RoundTrip

/-!
# Where the Grammar is at Fault

The grammar finds a fault at the token that comes next, at one that it has taken, or at the end of
the source; only a formula without tokens is at fault at its beginning. A rule is **located** if
its fault is at one of the tokens that it is given or at the end of the source, and if it leaves
some of the last of these tokens. The second half is what makes the first one hold of the rules
that a rule is a part of: a place among the tokens that are left is a place among all of them.

## Main results

* `Grammar.Located.bind`, `Grammar.Located.andThen` — located computations one after the other.
* `Grammar.innerAt_located` — the rules of every nesting level are located.
* `offset_of_ofTokens` — where the grammar is at fault.
-/

namespace Dashboard.Formula

namespace Grammar

/-! ### Located computations -/

/-- The places that a fault in some tokens can be at. -/
def Scope.IsPlace (scope : Scope) (ts : List Token) (offset : Nat) : Prop :=
  offset = scope.sourceEnd ∨ ∃ t ∈ ts, offset = t.span.start

/-- A computation is **located** in the tokens it is given if it is at fault at one of their
places, and if it leaves some of the last of them. -/
def Located {α : Type} (scope : Scope) (left : α → List Token) (ts : List Token) :
    Except Fault α → Prop
  | .error fault => scope.IsPlace ts fault.offset
  | .ok a => left a <:+ ts

variable {scope : Scope} {ts ts' : List Token} {α β : Type} {left : α → List Token}

/-- A place in the last of some tokens is a place in all of them. -/
theorem Scope.IsPlace.mono {offset : Nat} (h : scope.IsPlace ts' offset) (hts : ts' <:+ ts) :
    scope.IsPlace ts offset := by
  rcases h with h | ⟨t, ht, h⟩
  · exact .inl h
  · exact .inr ⟨t, hts.subset ht, h⟩

/-- What is located in the last of some tokens is located in all of them. -/
theorem Located.mono {x : Except Fault α} (h : Located scope left ts' x) (hts : ts' <:+ ts) :
    Located scope left ts x := by
  cases x with
  | error fault => exact Scope.IsPlace.mono h hts
  | ok a => exact List.IsSuffix.trans h hts

/-- A sequence is located if its second part is, wherever the first one ends. -/
theorem Located.bind {left' : β → List Token} {x : Except Fault α} {k : α → Except Fault β}
    (h : Located scope left ts x) (hk : ∀ a, left a <:+ ts → Located scope left' ts (k a)) :
    Located scope left' ts (x >>= k) := by
  cases x with
  | error fault => exact h
  | ok a => exact hk a h

/-- What goes on with the tokens that are left is located if it is located in these. -/
theorem Located.andThen {left' : β → List Token} {x : Except Fault α} {k : α → Except Fault β}
    (h : Located scope left ts x) (hk : ∀ a, Located scope left' (left a) (k a)) :
    Located scope left' ts (x >>= k) :=
  h.bind fun a ha => (hk a).mono ha

/-- The next token is a place, and so is the end of the source. -/
theorem isPlace_here (scope : Scope) (ts : List Token) : scope.IsPlace ts (scope.here ts) := by
  cases ts with
  | nil => exact .inl rfl
  | cons t rest => exact .inr ⟨t, List.mem_cons_self, rfl⟩

/-- A fault at the next token is located. -/
theorem located_fault (cause : Fault.Cause) (hts : ts' <:+ ts) :
    Located scope left ts (scope.fault ts' cause) :=
  (isPlace_here scope ts').mono hts

/-- A missing token is at fault where it should have been. -/
theorem located_expect (scope : Scope) (kind : Token.Kind) (ts : List Token) :
    Located scope id ts (scope.expect kind ts) := by
  cases ts with
  | nil => exact located_fault _ List.suffix_rfl
  | cons t rest =>
      rw [Scope.expect]
      split
      · exact List.suffix_cons t rest
      · exact located_fault _ List.suffix_rfl

/-- A missing keyword is at fault where it should have been. -/
theorem located_expectKeyword (scope : Scope) (keyword : Keyword) (ts : List Token) :
    Located scope id ts (scope.expectKeyword keyword ts) := by
  rw [Scope.expectKeyword]
  split
  · exact List.tail_suffix ts
  · exact located_fault _ List.suffix_rfl

/-- A rule that is located in whatever tokens it is given. -/
def LocatedRule (scope : Scope) (rule : Rule) : Prop :=
  ∀ ts, Located scope Prod.snd ts (rule ts)

/-- The rules of a nesting level are located. -/
structure Inner.Located (scope : Scope) (rules : Inner) : Prop where
  assignment : LocatedRule scope rules.assignment
  branching : LocatedRule scope rules.branching
  power : LocatedRule scope rules.power
  signed : LocatedRule scope rules.signed
  operand : ∀ tier, LocatedRule scope (rules.operand tier)
  chain : ∀ tier left, LocatedRule scope (rules.chain tier left)
  suffixes : ∀ e, LocatedRule scope (rules.suffixes e)

/-! ### The rules of a nesting level -/

section Level

variable {inner : Option (Unit → Inner)}
  (hinner : ∀ below, inner = some below → (below ()).Located scope)

include hinner

/-- A rule that is entered one level further in is located, and so is the fault that the levels are
used up. -/
theorem nested_located {rule : Inner → Rule}
    (h : ∀ rules : Inner, rules.Located scope → LocatedRule scope (rule rules)) :
    LocatedRule scope (nested scope inner rule) := by
  intro ts
  cases inner with
  | none => exact located_fault _ List.suffix_rfl
  | some below => exact h _ (hinner below rfl) ts

/-- Expressions are located if the rules one level further in are. -/
theorem expression_located : LocatedRule scope (expression scope inner) :=
  nested_located hinner fun _ hrules => hrules.assignment

/-- Arguments are located, by induction on how many are admitted. -/
theorem arguments_located (n : Nat) (ts : List Token) :
    Located scope Prod.snd ts (arguments scope inner n ts) := by
  induction n generalizing ts with
  | zero => exact List.suffix_rfl
  | succ n ih =>
      refine (expression_located hinner ts).andThen ?_
      rintro ⟨first, rest⟩
      dsimp only
      split
      · next more =>
        exact ((ih more).mono (List.suffix_cons _ more)).bind fun _ h => h
      · exact List.suffix_rfl

/-- A call is given tokens behind its name, and it can be at fault at its name. -/
theorem call_located (callee : String) {offset : Nat} (hoffset : scope.IsPlace ts offset)
    (hts : ts' <:+ ts) : Located scope Prod.snd ts (call scope inner callee offset ts') := by
  have hclose : ∀ given : List Expr × List Token, given.2 <:+ ts → Located scope Prod.snd ts
      (do
        let last ← scope.expect .rightParen given.2
        if isAccessor callee && (sourceName? given.1).isNone then
          .error ⟨offset, .badAccessorArgument callee⟩
        else return (Expr.call callee given.1, last)) := by
    intro given hgiven
    refine ((located_expect scope .rightParen given.2).mono hgiven).bind fun last hlast => ?_
    split
    · exact hoffset
    · exact hlast
  unfold call
  dsimp only
  split
  · exact hclose ([], _) hts
  · exact ((arguments_located hinner _ ts').mono hts).bind hclose

/-- The name is the first of some tokens, and the rest is behind it. -/
theorem named_located (name : String) {offset : Nat} (hoffset : scope.IsPlace ts offset)
    {rest : List Token} (hrest : rest <:+ ts) :
    Located scope Prod.snd ts (named scope inner name offset ts rest) := by
  unfold named
  split
  · exact hrest
  · exact hrest
  · exact nested_located hinner (fun _ hrules => hrules.branching) ts
  · exact hoffset
  · split
    · exact call_located hinner name hoffset ((List.suffix_cons _ _).trans hrest)
    · exact hrest

/-- An operand is at fault at its first token, or in what it begins. -/
theorem primary_located : LocatedRule scope (primary scope inner) := by
  intro ts
  cases ts with
  | nil => exact located_fault _ List.suffix_rfl
  | cons t rest =>
      have hrest : rest <:+ t :: rest := List.suffix_cons t rest
      obtain ⟨kind, span⟩ := t
      cases kind with
      | number value => exact hrest
      | text value => exact hrest
      | leftParen =>
          refine ((expression_located hinner rest).mono hrest).bind fun r hr => ?_
          exact ((located_expect scope .rightParen r.2).mono hr).bind fun _ h => h
      | leftBracket =>
          refine ((expression_located hinner rest).mono hrest).bind fun r hr => ?_
          exact ((located_expect scope .rightBracket r.2).mono hr).bind fun _ h => h
      | name name => exact named_located hinner name (isPlace_here scope _) hrest
      | _ => exact located_fault _ List.suffix_rfl

/-- Suffixes are located, by induction on the tokens. -/
theorem suffixes_located (e : Expr) : LocatedRule scope (suffixes scope inner e) := by
  intro ts
  rw [suffixes]
  split
  · exact nested_located hinner
      (fun _ hrules ts => (hrules.suffixes _ ts.tail).mono (List.tail_suffix ts)) ts
  · exact List.suffix_rfl

/-- Operands with suffixes are located. -/
theorem suffixed_located : LocatedRule scope (suffixed scope inner) :=
  fun ts => (primary_located hinner ts).andThen fun r => suffixes_located hinner r.1 r.2

/-- Operands with signs are located. -/
theorem signed_located : LocatedRule scope (signed scope inner) := by
  intro ts
  rw [signed]
  split
  · have htail := nested_located hinner (fun _ hrules => hrules.signed) ts.tail
    exact (htail.mono (List.tail_suffix ts)).bind fun _ h => h
  · exact suffixed_located hinner ts

/-- Powers are located. -/
theorem power_located : LocatedRule scope (power scope inner) := by
  intro ts
  refine (signed_located hinner ts).andThen ?_
  rintro ⟨base, rest⟩
  dsimp only
  split
  · next more =>
    have hmore := nested_located hinner (fun _ hrules => hrules.power) more
    exact (hmore.mono (List.suffix_cons _ more)).bind fun _ h => h
  · exact List.suffix_rfl

/-- The operators of a tier are located. -/
theorem chain_located (tier : Tier) (e : Expr) :
    LocatedRule scope (chain scope inner tier e) := by
  intro ts
  cases ts with
  | nil => exact List.suffix_rfl
  | cons t rest =>
      rw [chain]
      dsimp only
      split
      · exact List.suffix_rfl
      · refine Located.mono ?_ (List.suffix_cons t rest)
        refine nested_located hinner (fun _ hrules ts => ?_) rest
        exact (hrules.operand tier ts).andThen fun r => hrules.chain tier _ r.2

/-- The chains of all tiers are located, by induction on the tiers. -/
theorem joined_located (tiers : List Tier) : LocatedRule scope (joined scope inner tiers) := by
  induction tiers with
  | nil => exact power_located hinner
  | cons tier tighter ih =>
      exact fun ts => (ih ts).andThen fun r => chain_located hinner tier r.1 r.2

/-- A second branch is located, whether it is there or not. -/
theorem alternate_located (present : Bool) (ts : List Token) :
    Located scope Prod.snd ts (alternate scope inner present ts) := by
  cases present with
  | false => exact List.suffix_rfl
  | true =>
      have htail := expression_located hinner ts.tail
      exact (htail.mono (List.tail_suffix ts)).bind fun _ h => h

/-- Conditionals in words are located. -/
theorem branching_located : LocatedRule scope (branching scope inner) := by
  intro ts
  refine (located_expectKeyword scope .if ts).andThen fun ts₁ => ?_
  refine (expression_located hinner ts₁).andThen ?_
  rintro ⟨test, ts₂⟩
  refine (located_expectKeyword scope .then ts₂).andThen fun ts₃ => ?_
  refine (expression_located hinner ts₃).andThen ?_
  rintro ⟨consequent, ts₄⟩
  exact (alternate_located hinner _ ts₄).bind fun _ h => h

/-- Conditionals are located. -/
theorem conditional_located : LocatedRule scope (conditional scope inner) := by
  intro ts
  rw [conditional]
  split
  · exact branching_located hinner ts
  · refine (joined_located hinner Tier.all ts).andThen ?_
    rintro ⟨test, rest⟩
    dsimp only
    split
    · next more =>
      refine ((expression_located hinner more).mono (List.suffix_cons _ more)).bind ?_
      rintro ⟨consequent, last⟩ hlast
      exact ((alternate_located hinner _ last).mono hlast).bind fun _ h => h
    · exact List.suffix_rfl

/-- Assignments are located. -/
theorem assignment_located : LocatedRule scope (assignment scope inner) := by
  intro ts
  refine (conditional_located hinner ts).bind ?_
  rintro ⟨target, rest⟩ hrest
  dsimp only
  split
  · next more =>
    split
    · exact located_fault _ hrest
    · cases target with
      | symbol name =>
          have hmore := nested_located hinner (fun _ hrules => hrules.assignment) more
          exact (hmore.mono ((List.suffix_cons _ more).trans hrest)).bind fun _ h => h
      | _ => exact located_fault _ List.suffix_rfl
  · exact hrest

/-- If the rules one level further in are located, so are those of a level. -/
theorem level_located : (level scope inner).Located scope where
  assignment := assignment_located hinner
  branching := branching_located hinner
  power := power_located hinner
  signed := signed_located hinner
  operand tier := joined_located hinner tier.tighter
  chain := chain_located hinner
  suffixes := suffixes_located hinner

end Level

/-! ### All levels -/

/-- **The rules of every nesting level are located**, by induction on the budget. -/
theorem innerAt_located (scope : Scope) (budget : Nat) :
    ∀ below, innerAt scope budget = some below → (below ()).Located scope := by
  induction budget with
  | zero => exact nofun
  | succ budget ih =>
      rintro _ ⟨⟩
      dsimp only
      rw [rules_eq_level]
      exact level_located ih

/-- Statements are located, whatever is left of them. -/
theorem statements_located (scope : Scope) (n : Nat) (ts : List Token) :
    Located scope (fun _ => []) ts (statements scope n ts) := by
  induction n generalizing ts with
  | zero => exact List.nil_suffix
  | succ n ih =>
      rw [statements, expressionWithin_eq]
      refine (expression_located (innerAt_located scope _) ts).andThen ?_
      rintro ⟨first, rest⟩
      dsimp only
      split
      · exact List.nil_suffix
      · next t more =>
        split
        · split
          · exact located_fault _ List.suffix_rfl
          · split
            · exact List.nil_suffix
            · exact ((ih more).mono (List.suffix_cons t more)).bind fun _ _ => List.nil_suffix
        · exact located_fault _ List.suffix_rfl

end Grammar

/-- What is left behind the mark is the last of the tokens. -/
theorem dropMark_suffix (dialect : Dialect) (tokens : List Token) :
    dropMark dialect tokens <:+ tokens := by
  unfold dropMark
  split
  · exact List.suffix_cons _ _
  · exact List.suffix_rfl

/-- **Where the grammar is at fault**: at the beginning of the source, if there is nothing to read,
at its end, or at one of the tokens. -/
theorem offset_of_ofTokens {options : Options} {sourceEnd : Nat} {tokens : List Token}
    {fault : Fault} (h : ofTokens options sourceEnd tokens = .error fault) :
    (dropMark options.dialect tokens = [] ∧ fault.offset = 0) ∨ fault.offset = sourceEnd ∨
      ∃ t ∈ tokens, fault.offset = t.span.start := by
  unfold ofTokens at h
  dsimp only at h
  split at h
  · next hempty =>
    cases h
    exact .inl ⟨List.isEmpty_iff.mp hempty, rfl⟩
  · have hlocated := Grammar.statements_located ⟨options, sourceEnd⟩
      (dropMark options.dialect tokens).length (dropMark options.dialect tokens)
    revert h hlocated
    cases Grammar.statements ⟨options, sourceEnd⟩ (dropMark options.dialect tokens).length
      (dropMark options.dialect tokens) with
    | ok es => exact nofun
    | error fault' =>
        rintro ⟨⟩ hplace
        exact .inr (Grammar.Scope.IsPlace.mono hplace (dropMark_suffix options.dialect tokens))

end Dashboard.Formula
