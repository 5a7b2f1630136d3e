import Dashboard.Proofs.Formula.Pieces
import Dashboard.Proofs.Formula.Soundness

/-!
# What is Read is Spelled

The tokens that a formula is read from derive its statements, and they spell the pieces of
these statements. So every operand, operator and call is in the tree once and at its place, and
every second branch is that of the conditional which a scan from left to right gives it to.

A phrase is scanned in the middle of a formula, where something is open already and something
follows. What it **leaves** open are conditionals without a second branch, and no second branch
of theirs follows; this is what makes the next mark of one pass them by. In front of a token
that continues an expression nothing is left open at all, or else the innermost conditional
would end where the expression does.

## Main results

* `Derives.reads` — the tokens of a phrase spell the pieces of its tree, by induction on the
  rules of the grammar with one lemma for each form of a phrase.
* `DerivesFormula.scan_eq` — the tokens of a formula spell the pieces of its statements.
* `ofTokens_sound` — all tokens of a formula that is read derive it and spell its pieces.
-/

namespace Dashboard.Formula

open Grammar (Tier Joint)

/-! ### Phrases -/

/-- A conditional that is left open has no second branch in what follows. -/
def Frame.Spares (next : Option Token.Kind) : Frame → Prop
  | .consequent spelling _ => NoAlternate spelling next
  | _ => False

/-- What is left open is no bracket. -/
theorem Frame.Spares.isBracket {next : Option Token.Kind} {frame : Frame}
    (h : frame.Spares next) : frame.isBracket = false := by
  cases frame with
  | bracket => exact h.elim
  | _ => rfl

/-- What is left open is no test. -/
theorem Frame.Spares.isTest {next : Option Token.Kind} {frame : Frame}
    (h : frame.Spares next) : frame.isTest = false := by
  cases frame with
  | test => exact h.elim
  | _ => rfl

/-- A conditional that is left open does not take the mark that follows. -/
theorem Frame.Spares.number?_eq_none {spelling : Spelling} {kind : Token.Kind} {frame : Frame}
    (h : frame.Spares (some kind)) (hkind : spelling.IsAlternate kind) :
    frame.number? spelling = none := by
  cases frame with
  | consequent spelling' number =>
      rw [Frame.number?, if_neg]
      rintro rfl
      exact h kind rfl hkind
  | _ => rfl

namespace Progress

/-- A closing bracket ends what is open inside of it. -/
theorem scan_close {opened outer : List Frame} {count : Nat} {close : Token.Kind}
    {rest : List Token.Kind} (hclose : close = .rightParen ∨ close = .rightBracket)
    (hopened : ∀ frame ∈ opened, frame.Spares (some close)) :
    scan ⟨opened ++ .bracket :: outer, count, true⟩ (close :: rest) =
      scan ⟨outer, count, true⟩ rest := by
  have hleave : leave Frame.isBracket (opened ++ .bracket :: outer) = outer :=
    leave_append (fun frame hframe => (hopened frame hframe).isBracket) rfl outer
  have hread : read ⟨opened ++ .bracket :: outer, count, true⟩ close rest.head? =
      ([], ⟨leave Frame.isBracket (opened ++ .bracket :: outer), count, true⟩) := by
    rcases hclose with rfl | rfl <;> rfl
  rw [scan_cons hread, hleave]
  rfl

/-- A comma ends what is open inside the brackets, but not the brackets. -/
theorem scan_comma {opened outer : List Frame} {count : Nat} {rest : List Token.Kind}
    (hopened : ∀ frame ∈ opened, frame.Spares (some .comma)) :
    scan ⟨opened ++ .bracket :: outer, count, true⟩ (.comma :: rest) =
      scan ⟨.bracket :: outer, count, false⟩ rest := by
  have hread : read ⟨opened ++ .bracket :: outer, count, true⟩ .comma rest.head? =
      ([], ⟨.bracket :: outer, count, false⟩) := by
    rw [read, dropWhile_frame (fun frame hframe => (hopened frame hframe).isBracket) rfl]
  rw [scan_cons hread]
  rfl

/-- A `then` ends what is open inside its test, and begins a first branch. -/
theorem scan_then {opened outer : List Frame} {count : Nat} {thenWord : Token.Kind}
    {rest : List Token.Kind} (hthen : thenWord.keyword? = some .then)
    (hopened : ∀ frame ∈ opened, frame.Spares (some thenWord)) :
    scan ⟨opened ++ .test :: outer, count, true⟩ (thenWord :: rest) =
      .conditional :: scan ⟨.consequent .words count :: outer, count + 1, false⟩ rest := by
  have hleave : leave Frame.isTest (opened ++ .test :: outer) = outer :=
    leave_append (fun frame hframe => (hopened frame hframe).isTest) rfl outer
  have hread : read ⟨opened ++ .test :: outer, count, true⟩ thenWord rest.head? =
      ([.conditional], ⟨.consequent .words count :: outer, count + 1, false⟩) := by
    rw [read_keyword hthen, readKeyword, hleave]
    rfl
  rw [scan_cons hread]
  rfl

/-- A mark of a second branch passes what is open inside a first branch of its spelling, which is of
the other spelling or else would take the mark, and begins the second branch of that conditional. -/
theorem scan_alternate {spelling : Spelling} {opened outer : List Frame} {number count : Nat}
    {mark : Token.Kind} {rest : List Token.Kind} (hmark : spelling.IsAlternate mark)
    (hopened : ∀ frame ∈ opened, frame.Spares (some mark)) :
    scan ⟨opened ++ .consequent spelling number :: outer, count, true⟩ (mark :: rest) =
      .alternate (some number) :: scan ⟨outer, count, false⟩ rest := by
  have hothers : ∀ frame ∈ opened, frame.number? spelling = none := by
    intro frame hframe
    exact (hopened frame hframe).number?_eq_none hmark
  have hself : (Frame.consequent spelling number).number? spelling = some number := if_pos rfl
  have howner : (opened ++ .consequent spelling number :: outer).findSome?
      (Frame.number? spelling) = some number := by
    rw [List.findSome?_append, List.findSome?_eq_none_iff.mpr hothers, Option.none_or,
      List.findSome?_cons, hself]
  have hleave : leave (fun frame => (frame.number? spelling).isSome)
      (opened ++ .consequent spelling number :: outer) = outer := by
    refine leave_append ?_ ?_ outer
    · intro frame hframe
      rw [hothers frame hframe]
      rfl
    · rw [hself]
      rfl
  have hread : read ⟨opened ++ .consequent spelling number :: outer, count, true⟩ mark
      rest.head? = ([.alternate (some number)], ⟨outer, count, false⟩) := by
    rw [read_alternate hmark, alternate, howner, hleave]
  rw [scan_cons hread]
  rfl

end Progress

/-- The strata whose phrases stand next to operators. -/
def Stratum.IsTight : Stratum → Prop
  | .tier _ | .power | .sign | .suffix | .operand => True
  | .assignment | .conditional | .branching | .opening => False

/-- The operands of a tier stand next to its operators. -/
theorem Stratum.isTight_within (tier : Tier) : (Stratum.within tier).IsTight := by
  cases tier <;> trivial

/-- What every phrase of a stratum keeps open: a call its parenthesis. -/
def Stratum.opened : Stratum → List Frame
  | .opening => [.bracket]
  | _ => []

/-- A phrase next to an operator has no parenthesis of a call open. -/
theorem Stratum.IsTight.opened_eq {stratum : Stratum} (h : stratum.IsTight) :
    stratum.opened = [] := by
  cases stratum with
  | opening => exact h.elim
  | _ => rfl

/-- What a phrase may keep open: conditionals without a second branch, and none of these in
front of what continues an expression. -/
structure Leaves (stratum : Stratum) (next : Option Token.Kind) (e : Expr)
    (opened : List Frame) : Prop where
  spares : ∀ frame ∈ opened, frame.Spares next
  closed : stratum.IsTight ∨ (∃ name, e = .symbol name) → opened = [] ∨ Closed next

namespace Leaves

variable {stratum stratum' : Stratum} {next : Option Token.Kind} {e : Expr}
  {opened : List Frame}

/-- A phrase may keep nothing open. -/
theorem nil : Leaves stratum next e [] where
  spares := nofun
  closed _ := .inl rfl

/-- Nothing is left open in front of what continues an expression. -/
theorem eq_nil {kind : Token.Kind} (h : Leaves stratum (some kind) e opened)
    (htight : stratum.IsTight ∨ ∃ name, e = .symbol name) (hkind : kind.Continues) :
    opened = [] := by
  rcases h.closed htight with hnil | hclosed
  · exact hnil
  · exact absurd hkind (hclosed kind rfl)

/-- What a tighter phrase may keep open, a looser one may. -/
theorem loosen (h : Leaves stratum next e opened)
    (htight : stratum'.IsTight → stratum.IsTight) : Leaves stratum' next e opened where
  spares := h.spares
  closed hwhich := h.closed (hwhich.imp_left htight)

/-- A phrase that ends with a tight one leaves open what that one does. -/
theorem of_tight {e' : Expr} (h : Leaves stratum next e opened) (htight : stratum.IsTight) :
    Leaves stratum' next e' opened where
  spares := h.spares
  closed _ := h.closed (.inl htight)

/-- A phrase that is no operand of an operator may be followed by one. -/
theorem of_spares (hspares : ∀ frame ∈ opened, frame.Spares next) (hloose : ¬ stratum.IsTight)
    (hsymbol : ∀ name, e ≠ .symbol name) : Leaves stratum next e opened where
  spares := hspares
  closed := by
    rintro (htight | ⟨name, rfl⟩)
    · exact absurd htight hloose
    · exact absurd rfl (hsymbol name)

end Leaves

/-- **The tokens of a phrase spell the pieces of its tree**, whatever is open in front of them
and whatever follows. -/
def Reads (stratum : Stratum) (kinds : List Token.Kind) (next : Option Token.Kind) (e : Expr) :
    Prop :=
  ∀ (s : Progress) (rest : List Token.Kind), s.ended = false → rest.head? = next →
    ∃ opened, Leaves stratum next e opened ∧
      s.scan (kinds ++ rest) = e.pieces s.count ++
        Progress.scan ⟨opened ++ (stratum.opened ++ s.opened), s.count + e.conditionals, true⟩ rest

/-- Tokens spell a test and the mark that begins the first branch of its conditional. -/
def Tests (spelling : Spelling) (kinds : List Token.Kind) (test : Expr) : Prop :=
  ∀ (s : Progress) (others : List Token.Kind), s.ended = false →
    s.scan (kinds ++ others) = test.pieces s.count ++ .conditional ::
      Progress.scan ⟨.consequent spelling (s.count + test.conditionals) :: s.opened,
        s.count + test.conditionals + 1, false⟩ others

namespace Reads

variable {stratum stratum' : Stratum} {kinds left middle right : List Token.Kind}
  {next : Option Token.Kind} {e e' test consequent alternate : Expr}

/-! ### Operands -/

/-- A token that is an operand by itself. -/
theorem single {kind : Token.Kind} {leaf : Expr} (hnone : leaf.conditionals = 0)
    (hpieces : ∀ first, leaf.pieces first = [.operand leaf])
    (hread : ∀ s : Progress, s.read kind next = ([.operand leaf], s.behind)) :
    Reads .operand [kind] next leaf := by
  intro s rest _ hrest
  refine ⟨[], .nil, ?_⟩
  rw [hpieces, hnone, List.singleton_append, Progress.scan_cons (hrest ▸ hread s)]
  rfl

/-- A phrase of a stratum is one of a looser stratum as well. -/
theorem loosen (h : Reads stratum kinds next e) (hopened : stratum'.opened = stratum.opened)
    (htight : stratum'.IsTight → stratum.IsTight) : Reads stratum' kinds next e := by
  intro s rest hs hrest
  obtain ⟨opened, hleaves, hscan⟩ := h s rest hs hrest
  rw [hopened]
  exact ⟨opened, hleaves.loosen htight, hscan⟩

/-- An expression in parentheses is an operand. -/
theorem parentheses (h : Reads .assignment kinds (some .rightParen) e) :
    Reads .operand (.leftParen :: (kinds ++ [.rightParen])) next e := by
  intro s rest _ _
  obtain ⟨opened, hleaves, hscan⟩ := h (s.enter .bracket) (.rightParen :: rest) rfl rfl
  refine ⟨[], .nil, ?_⟩
  calc s.scan (.leftParen :: (kinds ++ [.rightParen]) ++ rest)
      = (s.enter .bracket).scan (kinds ++ .rightParen :: rest) := by
        rw [List.cons_append, List.append_assoc, Progress.scan_cons rfl]
        rfl
    _ = e.pieces s.count ++ Progress.scan
          ⟨opened ++ .bracket :: s.opened, s.count + e.conditionals, true⟩
          (.rightParen :: rest) := hscan
    _ = e.pieces s.count ++ Progress.scan ⟨s.opened, s.count + e.conditionals, true⟩ rest := by
        rw [Progress.scan_close (.inl rfl) hleaves.spares]

/-- An expression in brackets is the operand that is its absolute value. -/
theorem brackets (h : Reads .assignment kinds (some .rightBracket) e) :
    Reads .operand (.leftBracket :: (kinds ++ [.rightBracket])) next (.unary .abs e) := by
  intro s rest _ _
  obtain ⟨opened, hleaves, hscan⟩ := h (s.enter .bracket) (.rightBracket :: rest) rfl rfl
  refine ⟨[], .nil, ?_⟩
  calc s.scan (.leftBracket :: (kinds ++ [.rightBracket]) ++ rest)
      = .unary .abs :: (s.enter .bracket).scan (kinds ++ .rightBracket :: rest) := by
        rw [List.cons_append, List.append_assoc, Progress.scan_cons rfl]
        rfl
    _ = .unary .abs :: (e.pieces s.count ++ Progress.scan
          ⟨opened ++ .bracket :: s.opened, s.count + e.conditionals, true⟩
          (.rightBracket :: rest)) := congrArg _ hscan
    _ = .unary .abs :: (e.pieces s.count ++
          Progress.scan ⟨s.opened, s.count + e.conditionals, true⟩ rest) := by
        rw [Progress.scan_close (.inr rfl) hleaves.spares]

/-- A conditional in words that stands as an operand has nothing behind it that continues an
expression, and so may leave itself open. -/
theorem branchingOperand (h : Reads .branching kinds next e) (hclosed : Closed next) :
    Reads .operand kinds next e := by
  intro s rest hs hrest
  obtain ⟨opened, hleaves, hscan⟩ := h s rest hs hrest
  exact ⟨opened, ⟨hleaves.spares, fun _ => .inr hclosed⟩, hscan⟩

/-! ### Calls -/

/-- A name, a parenthesis and an expression open a call. -/
theorem firstArgument {callee : String} (hname : Keyword.ofName? callee = none)
    (h : Reads .assignment kinds next e) :
    Reads .opening (.name callee :: .leftParen :: kinds) next (.call callee [e]) := by
  intro s rest _ hrest
  obtain ⟨opened, hleaves, hscan⟩ := h (s.enter .bracket) rest rfl hrest
  refine ⟨opened, .of_spares hleaves.spares id nofun, ?_⟩
  calc s.scan (.name callee :: .leftParen :: kinds ++ rest)
      = .callee callee :: (s.enter .bracket).scan (kinds ++ rest) :=
        Progress.scan_callee hname (kinds ++ rest)
    _ = .callee callee :: (e.pieces s.count ++ Progress.scan
          ⟨opened ++ .bracket :: s.opened, s.count + e.conditionals, true⟩ rest) :=
        congrArg _ hscan
    _ = Expr.pieces s.count (.call callee [e]) ++ Progress.scan
          ⟨opened ++ .bracket :: s.opened, s.count + e.conditionals, true⟩ rest := by
        rw [Expr.pieces, Expr.piecesOfAll, Expr.piecesOfAll, List.append_nil, List.cons_append]

/-- A comma leaves what the argument in front of it kept open. -/
theorem furtherArgument {callee : String} {arguments : List Expr}
    (hleft : Reads .opening left (some .comma) (.call callee arguments))
    (hright : Reads .assignment right next e) :
    Reads .opening (left ++ .comma :: right) next (.call callee (arguments ++ [e])) := by
  intro s rest hs hrest
  obtain ⟨opened, hleaves, hscan⟩ := hleft s (.comma :: (right ++ rest)) hs rfl
  obtain ⟨opened', hleaves', hscan'⟩ := hright
    ⟨.bracket :: s.opened, s.count + Expr.conditionalsOfAll arguments, false⟩ rest rfl hrest
  refine ⟨opened', .of_spares hleaves'.spares id nofun, ?_⟩
  calc s.scan (left ++ .comma :: right ++ rest)
      = s.scan (left ++ .comma :: (right ++ rest)) := by
        rw [List.append_assoc, List.cons_append]
    _ = Expr.pieces s.count (.call callee arguments) ++ Progress.scan
          ⟨opened ++ .bracket :: s.opened, s.count + Expr.conditionalsOfAll arguments, true⟩
          (.comma :: (right ++ rest)) := hscan
    _ = Expr.pieces s.count (.call callee arguments) ++ Progress.scan
          ⟨.bracket :: s.opened, s.count + Expr.conditionalsOfAll arguments, false⟩
          (right ++ rest) := congrArg _ (Progress.scan_comma hleaves.spares)
    _ = _ := by
        rw [hscan', Expr.pieces, Expr.pieces, Expr.piecesOfAll_append, Expr.conditionals,
          Expr.conditionalsOfAll_append, ← List.append_assoc]
        simp [Expr.piecesOfAll, Expr.conditionalsOfAll, Stratum.opened, Nat.add_assoc]

/-- The parenthesis that ends a call ends what its last argument kept open. -/
theorem call {callee : String} {arguments : List Expr}
    (h : Reads .opening kinds (some .rightParen) (.call callee arguments)) :
    Reads .operand (kinds ++ [.rightParen]) next (.call callee arguments) := by
  intro s rest hs _
  obtain ⟨opened, hleaves, hscan⟩ := h s (.rightParen :: rest) hs rfl
  refine ⟨[], .nil, ?_⟩
  rw [List.append_assoc, List.singleton_append, hscan]
  exact congrArg _ (Progress.scan_close (.inl rfl) hleaves.spares)

/-- A name and two parentheses are a call without arguments. -/
theorem emptyCall {callee : String} (hname : Keyword.ofName? callee = none) :
    Reads .operand [.name callee, .leftParen, .rightParen] next (.call callee []) := by
  intro s rest _ _
  refine ⟨[], .nil, ?_⟩
  calc s.scan ([.name callee, .leftParen, .rightParen] ++ rest)
      = .callee callee :: (s.enter .bracket).scan (.rightParen :: rest) :=
        Progress.scan_callee hname (.rightParen :: rest)
    _ = .callee callee :: Progress.scan ⟨s.opened, s.count, true⟩ rest := by
        rw [Progress.scan_cons rfl]
        rfl

/-! ### Operators -/

/-- In front of an operand a plus and a minus are signs. -/
theorem sign {op : UnaryOp} {kind : Token.Kind} (h : Reads .sign kinds next e)
    (hop : kind = .minus ∧ op = .minus ∨ kind = .plus ∧ op = .plus) :
    Reads .sign (kind :: kinds) next (.unary op e) := by
  intro s rest hs hrest
  obtain ⟨opened, hleaves, hscan⟩ := h s rest hs hrest
  refine ⟨opened, hleaves.of_tight trivial, ?_⟩
  have hread : ∀ next, s.read kind next = ([.unary op], s) := by
    intro next
    obtain ⟨opened', count, ended⟩ := s
    obtain rfl : ended = false := hs
    rcases hop with ⟨rfl, rfl⟩ | ⟨rfl, rfl⟩ <;> rfl
  rw [List.cons_append, Progress.scan_cons (hread _), hscan]
  rcases hop with ⟨-, rfl⟩ | ⟨-, rfl⟩ <;> rfl

/-- Behind an operand, a suffix. Nothing is open in front of it. -/
theorem suffix {op : UnaryOp} {kind : Token.Kind} (h : Reads .suffix kinds (some kind) e)
    (hcontinues : kind.Continues)
    (hread : ∀ s : Progress, s.read kind next = ([.unary op], s.behind))
    (hop : op = .square ∨ op = .percent) : Reads .suffix (kinds ++ [kind]) next (.unary op e) := by
  intro s rest hs hrest
  obtain ⟨opened, hleaves, hscan⟩ := h s (kind :: rest) hs rfl
  obtain rfl := hleaves.eq_nil (.inl trivial) hcontinues
  refine ⟨[], .nil, ?_⟩
  rw [List.append_assoc, List.singleton_append, hscan, Progress.scan_cons (hrest ▸ hread _)]
  rcases hop with rfl | rfl
  · exact (List.append_assoc ..).symm
  · exact (List.append_assoc ..).symm

/-- Two phrases with an operator between them. Nothing is open in front of the operator. -/
theorem operator {loose : Stratum} {kind : Token.Kind} {joint : Joint}
    (hleft : Reads stratum left (some kind) e) (hright : Reads stratum' right next e')
    (htight : stratum.IsTight) (htight' : stratum'.IsTight) (hloose : loose.IsTight)
    (hcontinues : kind.Continues)
    (hread : ∀ (s : Progress) (rest : List Token.Kind), s.ended = true →
      s.read kind (right ++ rest).head? = ([.joint joint], s.before)) :
    Reads loose (left ++ kind :: right) next (joint.join e e') := by
  intro s rest hs hrest
  obtain ⟨opened, hleaves, hscan⟩ := hleft s (kind :: (right ++ rest)) hs rfl
  obtain rfl := hleaves.eq_nil (.inl htight) hcontinues
  obtain ⟨opened', hleaves', hscan'⟩ :=
    hright ⟨s.opened, s.count + e.conditionals, false⟩ rest rfl hrest
  refine ⟨opened', hleaves'.of_tight htight', ?_⟩
  rw [htight.opened_eq] at hscan
  rw [htight'.opened_eq] at hscan'
  rw [hloose.opened_eq, joint.pieces_join, joint.conditionals_join, ← Nat.add_assoc]
  calc s.scan (left ++ kind :: right ++ rest)
      = s.scan (left ++ kind :: (right ++ rest)) := by
        rw [List.append_assoc, List.cons_append]
    _ = e.pieces s.count ++ Progress.scan ⟨s.opened, s.count + e.conditionals, true⟩
          (kind :: (right ++ rest)) := hscan
    _ = e.pieces s.count ++ .joint joint ::
          Progress.scan ⟨s.opened, s.count + e.conditionals, false⟩ (right ++ rest) := by
        rw [Progress.scan_cons (hread _ rest rfl)]
        rfl
    _ = _ := by rw [hscan', List.append_assoc, List.cons_append]

/-- The target of an assignment is a symbol, so that nothing is open behind it. -/
theorem assign {name : String} {value : Expr}
    (htarget : Reads .conditional left (some .assign) (.symbol name))
    (hvalue : Reads .assignment right next value) :
    Reads .assignment (left ++ .assign :: right) next (.assignment name value) := by
  intro s rest hs hrest
  obtain ⟨opened, hleaves, hscan⟩ := htarget s (.assign :: (right ++ rest)) hs rfl
  obtain rfl := hleaves.eq_nil (.inr ⟨name, rfl⟩) .assign
  obtain ⟨opened', hleaves', hscan'⟩ := hvalue ⟨s.opened, s.count, false⟩ rest rfl hrest
  refine ⟨opened', .of_spares hleaves'.spares id nofun, ?_⟩
  calc s.scan (left ++ .assign :: right ++ rest)
      = s.scan (left ++ .assign :: (right ++ rest)) := by
        rw [List.append_assoc, List.cons_append]
    _ = .operand (.symbol name) ::
          Progress.scan ⟨s.opened, s.count, true⟩ (.assign :: (right ++ rest)) := hscan
    _ = .operand (.symbol name) :: .assign ::
          Progress.scan ⟨s.opened, s.count, false⟩ (right ++ rest) :=
        congrArg _ (Progress.scan_cons rfl)
    _ = _ := by
        rw [hscan']
        rfl

/-! ### Conditionals -/

/-- Nothing is open in front of a question mark. -/
theorem question (h : Reads (.tier .or) left (some .question) test) :
    Tests .signs (left ++ [.question]) test := by
  intro s others hs
  obtain ⟨opened, hleaves, hscan⟩ := h s (.question :: others) hs rfl
  obtain rfl := hleaves.eq_nil (.inl trivial) .question
  rw [List.append_assoc, List.singleton_append, hscan, Progress.scan_cons rfl]
  rfl

/-- A `then` ends what is open inside the test. -/
theorem ifThen {ifWord thenWord : Token.Kind} (hif : ifWord.keyword? = some .if)
    (hthen : thenWord.keyword? = some .then)
    (h : Reads .assignment left (some thenWord) test) :
    Tests .words (ifWord :: (left ++ [thenWord])) test := by
  intro s others _
  obtain ⟨opened, hleaves, hscan⟩ := h (s.enter .test) (thenWord :: others) rfl rfl
  rw [List.cons_append, List.append_assoc, List.singleton_append,
    Progress.scan_cons (Progress.read_keyword hif)]
  exact hscan.trans (congrArg _ (Progress.scan_then hthen hleaves.spares))

/-- A conditional without a second branch is left open. -/
theorem choice {spelling : Spelling} (htest : Tests spelling left test)
    (h : Reads .assignment right next consequent) (hnone : NoAlternate spelling next)
    (hloose : ¬ stratum.IsTight) (hopened : stratum.opened = []) :
    Reads stratum (left ++ right) next (.conditional test consequent none) := by
  intro s rest hs hrest
  obtain ⟨opened, hleaves, hscan⟩ :=
    h ⟨.consequent spelling (s.count + test.conditionals) :: s.opened,
      s.count + test.conditionals + 1, false⟩ rest rfl hrest
  have hspares : ∀ frame ∈ opened ++ [.consequent spelling (s.count + test.conditionals)],
      frame.Spares next := by
    intro frame hframe
    rcases List.mem_append.mp hframe with hframe | hframe
    · exact hleaves.spares frame hframe
    · obtain rfl := List.mem_singleton.mp hframe
      exact hnone
  refine ⟨_, .of_spares hspares hloose nofun, ?_⟩
  rw [List.append_assoc, htest s _ hs, hscan, Expr.pieces, Expr.conditionals, hopened]
  simp [Stratum.opened, Nat.add_assoc]

/-- The mark of a second branch goes with the conditional whose first branch it ends. -/
theorem alternative {spelling : Spelling} {mark : Token.Kind} (htest : Tests spelling left test)
    (hmark : spelling.IsAlternate mark) (h : Reads .assignment middle (some mark) consequent)
    (h' : Reads .assignment right next alternate) (hloose : ¬ stratum.IsTight)
    (hopened : stratum.opened = []) :
    Reads stratum (left ++ (middle ++ mark :: right)) next
      (.conditional test consequent (some alternate)) := by
  intro s rest hs hrest
  obtain ⟨opened, hleaves, hscan⟩ :=
    h ⟨.consequent spelling (s.count + test.conditionals) :: s.opened,
      s.count + test.conditionals + 1, false⟩ (mark :: (right ++ rest)) rfl rfl
  obtain ⟨opened', hleaves', hscan'⟩ :=
    h' ⟨s.opened, s.count + test.conditionals + 1 + consequent.conditionals, false⟩ rest rfl hrest
  refine ⟨opened', .of_spares hleaves'.spares hloose nofun, ?_⟩
  have hsecond : Progress.scan ⟨opened ++ .consequent spelling (s.count + test.conditionals) ::
      s.opened, s.count + test.conditionals + 1 + consequent.conditionals, true⟩
      (mark :: (right ++ rest)) =
      .alternate (some (s.count + test.conditionals)) ::
        (alternate.pieces (s.count + test.conditionals + 1 + consequent.conditionals) ++
          Progress.scan ⟨opened' ++ s.opened,
            s.count + test.conditionals + 1 + consequent.conditionals + alternate.conditionals,
            true⟩ rest) :=
    (Progress.scan_alternate hmark hleaves.spares).trans (congrArg _ hscan')
  have hfirst := hscan.trans (congrArg _ hsecond)
  have hassoc : left ++ (middle ++ mark :: right) ++ rest =
      left ++ (middle ++ mark :: (right ++ rest)) := by simp
  rw [hassoc, htest s _ hs, hfirst, Expr.pieces, Expr.conditionals, hopened]
  simp [Nat.add_assoc]

end Reads

/-- **The tokens of a phrase spell the pieces of its tree**, by induction on the rules of the
grammar. -/
theorem Derives.reads {dialect : Dialect} {stratum : Stratum} {kinds : List Token.Kind}
    {next : Option Token.Kind} {e : Expr} (h : Derives dialect stratum kinds next e) :
    Reads stratum kinds next e := by
  induction h with
  | assign _ _ _ htarget hvalue => exact htarget.assign hvalue
  | ofConditional _ ih => exact ih.loosen rfl id
  | choice _ _ hnone htest hconsequent =>
      rw [List.append_cons]
      exact .choice htest.question hconsequent hnone id rfl
  | alternative _ _ _ htest hconsequent halternate =>
      rw [List.append_cons]
      exact .alternative htest.question rfl hconsequent halternate id rfl
  | ofOr _ ih => exact ih.loosen rfl nofun
  | ofBranching _ ih => exact ih.loosen rfl id
  | branch hif hthen _ _ hnone htest hconsequent =>
      rw [List.append_cons, ← List.cons_append]
      exact .choice (htest.ifThen hif hthen) hconsequent hnone id rfl
  | branchElse hif hthen helse _ _ _ htest hconsequent halternate =>
      rw [List.append_cons, ← List.cons_append]
      exact .alternative (htest.ifThen hif hthen) helse hconsequent halternate id rfl
  | @joined _ _ _ _ right _ _ _ hoperator _ _ hpercent hleft hright =>
      refine hleft.operator hright trivial (Stratum.isTight_within _) trivial
        (.operator hoperator) ?_
      intro s rest hs
      refine Progress.read_operator hoperator hs ?_
      intro hkind
      have hbegins := hpercent hkind
      cases right with
      | nil => cases hbegins
      | cons kind others => exact hbegins
  | @ofWithin tier _ _ _ _ ih =>
      have htight := Stratum.isTight_within tier
      exact ih.loosen htight.opened_eq.symm fun _ => htight
  | @power _ _ _ base exponent _ _ hbase hexponent =>
      change Reads .power _ _ ((Joint.binary .pow).join base exponent)
      exact hbase.operator hexponent trivial trivial trivial .caret fun _ _ _ => rfl
  | ofSign _ ih => exact ih.loosen rfl fun _ => trivial
  | minus _ ih => exact ih.sign (.inl ⟨rfl, rfl⟩)
  | plus _ ih => exact ih.sign (.inr ⟨rfl, rfl⟩)
  | ofSuffix _ ih => exact ih.loosen rfl fun _ => trivial
  | squared _ ih => exact ih.suffix .squared (fun _ => rfl) (.inl rfl)
  | percent _ hbegins ih =>
      exact ih.suffix (.operator .percent) (fun _ => Progress.read_percent hbegins) (.inr rfl)
  | ofOperand _ ih => exact ih.loosen rfl fun _ => trivial
  | number value => exact .single rfl (fun _ => rfl) fun _ => rfl
  | text value => exact .single rfl (fun _ => rfl) fun _ => rfl
  | true hkeyword => exact .single rfl (fun _ => rfl) fun _ => Progress.read_keyword hkeyword
  | false hkeyword => exact .single rfl (fun _ => rfl) fun _ => Progress.read_keyword hkeyword
  | symbol hname hnext => exact .single rfl (fun _ => rfl) fun _ => Progress.read_symbol hname hnext
  | parentheses _ ih => exact ih.parentheses
  | brackets _ ih => exact ih.brackets
  | branchingOperand _ hclosed ih => exact ih.branchingOperand hclosed
  | firstArgument hname _ ih => exact ih.firstArgument hname
  | furtherArgument _ _ hleft hright => exact hleft.furtherArgument hright
  | call _ _ ih => exact ih.call
  | emptyCall hname _ => exact .emptyCall hname

/-- **The tokens of a formula spell the pieces of its statements.** -/
theorem DerivesFormula.scan_eq {dialect : Dialect} {kinds : List Token.Kind} {es : List Expr}
    (h : DerivesFormula dialect kinds es) (count : Nat) :
    Progress.scan ⟨[], count, false⟩ kinds = Expr.piecesOfAll count es := by
  induction h generalizing count with
  | single h =>
      obtain ⟨opened, -, hscan⟩ := h.reads ⟨[], count, false⟩ [] rfl rfl
      rw [List.append_nil] at hscan
      exact hscan
  | trailing _ h =>
      obtain ⟨opened, -, hscan⟩ := h.reads ⟨[], count, false⟩ [.semicolon] rfl rfl
      exact hscan
  | @statement _ others e _ _ h _ ih =>
      obtain ⟨opened, -, hscan⟩ := h.reads ⟨[], count, false⟩ (.semicolon :: others) rfl rfl
      rw [hscan, Progress.scan_cons rfl, Expr.piecesOfAll, ← ih]
      rfl

/-- **Whatever is read as a formula derives it.** All tokens, but for the mark in front, are
derived by the grammar with the statements of the formula as their trees, and they spell the
pieces of these statements one after the other. -/
theorem ofTokens_sound {options : Options} {sourceEnd : Nat} {tokens : List Token} {f : Formula}
    (h : ofTokens options sourceEnd tokens = .ok f) :
    f.dialect = options.dialect ∧
      DerivesFormula options.dialect ((dropMark options.dialect tokens).map Token.kind)
        f.statements ∧
      Progress.start.scan ((dropMark options.dialect tokens).map Token.kind) =
        Expr.piecesOfAll 0 f.statements := by
  obtain ⟨hdialect, hderives⟩ := derivesFormula_of_ofTokens h
  exact ⟨hdialect, hderives, hderives.scan_eq 0⟩

/-- The tokens of `x = a ? if b then c% - d : c % (d); min(a, b)²;`. The first percent sign is
a percentage, because a minus begins no operand, and the second one takes a remainder. -/
def nestedChoice : List Token.Kind :=
  [.name "x", .assign, .name "a", .question, .name "if", .name "b", .name "then", .name "c",
    .percent, .minus, .name "d", .colon, .name "c", .percent, .leftParen, .name "d",
    .rightParen, .semicolon, .name "min", .leftParen, .name "a", .comma, .name "b",
    .rightParen, .squared, .semicolon]

/-- The statements of these tokens. The colon goes past the `if`, which is of the other
spelling, and begins the second branch of the question mark. -/
def nestedChoiceTrees : List Expr :=
  [.assignment "x" (.conditional (.symbol "a")
    (.conditional (.symbol "b")
      (.binary .sub (.unary .percent (.symbol "c")) (.symbol "d")) none)
    (some (.binary .mod (.symbol "c") (.symbol "d")))),
  .unary .square (.call "min" [.symbol "a", .symbol "b"])]

/-- The tokens are read as these statements, which are derived from them, and the scan from the left
finds the pieces of these in order. -/
theorem ofTokens_nestedChoice :
    ofTokens ⟨.legacy, defaultMaxDepth⟩ 0 (nestedChoice.map fun kind => ⟨kind, ⟨0, 0⟩⟩) =
        .ok ⟨.legacy, nestedChoiceTrees⟩ ∧
      DerivesFormula .legacy nestedChoice nestedChoiceTrees ∧
      Progress.start.scan nestedChoice =
        [.operand (.symbol "x"), .assign, .operand (.symbol "a"), .conditional,
          .operand (.symbol "b"), .conditional, .operand (.symbol "c"), .unary .percent,
          .joint (.binary .sub), .operand (.symbol "d"), .alternate (some 0),
          .operand (.symbol "c"), .joint (.binary .mod), .operand (.symbol "d"),
          .callee "min", .operand (.symbol "a"), .operand (.symbol "b"), .unary .square] := by
  have hread : ofTokens ⟨.legacy, defaultMaxDepth⟩ 0
      (nestedChoice.map fun kind => ⟨kind, ⟨0, 0⟩⟩) = .ok ⟨.legacy, nestedChoiceTrees⟩ := by rfl
  obtain ⟨-, hderives, hscan⟩ := ofTokens_sound hread
  exact ⟨hread, hderives, hscan⟩

end Dashboard.Formula
