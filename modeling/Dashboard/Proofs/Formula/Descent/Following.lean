import Dashboard.Proofs.Formula.Descent
import Dashboard.Proofs.Formula.RoundTrip
import Mathlib.Order.Lattice

/-!
# Keeping in Step with the Grammar

A descent and the grammar are compared where a call begins. The grammar gets the tokens from
the cursor on, and as its budget the nesting levels that the counter leaves. `Follows` says
what the outcome of the descent has to do with what the grammar reads there: it is the same
result or the same fault, or a call found no frame. It also says that the counter has not
passed its limit since then and is not below where it was, which is why no counter is ever
lowered below zero. `Follows` is closed under sequences, so a rule keeps in step if its parts
do.

## Frames

A call needs no more frames than the nesting levels or the tokens that are left account for.
Within one level the rules call each other in a fixed order, from an assignment down to the
operands; only an expression begins again, and it takes a level. The same order serves for the
tokens, except that an expression now stands above all other rules, since it is called behind
a token that its caller took. A name that turns out to be an `if` gives its token back and is
read again; it counts as a call that began with that token.

## Main results

* `Follows.bind` — a sequence keeps in step if its two parts do.
* `Follows.deepen`, `Keeps.nested` — a level is taken and given back as the budget has it.
* `Ample.of_lower` — a call that is lower than its caller has frames enough if that has.
* `Keeps.enter`, `Keeps.below` — a call from within another one keeps in step.
-/

namespace Dashboard.Formula.Descent

open Grammar

/-! ### Within bounds -/

/-- The nesting counter is no lower than it was, and it never passed the limit since. -/
structure Within (limit : Nat) (c c' : Cursor) : Prop where
  depth_le : c.depth ≤ c'.depth
  deepest_le : c'.deepest ≤ max c.deepest limit

variable {limit : Nat} {c₀ c c' c'' : Cursor}

/-- Nothing has happened yet at the cursor itself. -/
theorem Within.refl (c : Cursor) : Within limit c c :=
  ⟨Nat.le_refl _, Nat.le_max_left _ _⟩

/-- Bounds hold from one cursor to the next. -/
theorem Within.trans (h : Within limit c c') (h' : Within limit c' c'') : Within limit c c'' :=
  ⟨h.depth_le.trans h'.depth_le,
    h'.deepest_le.trans (max_le h.deepest_le (Nat.le_max_right _ _))⟩

/-- Moving the cursor does not touch the counter. -/
theorem Within.goTo (h : Within limit c c') (position : Nat) : Within limit c (c'.goTo position) :=
  ⟨h.depth_le, h.deepest_le⟩

/-- Taking a token does not touch the counter. -/
theorem Within.next (h : Within limit c c') : Within limit c c'.next := h.goTo _

/-- The counter can be raised below the limit. -/
theorem Within.deeper (h : Within limit c c') (hlevel : c'.depth < limit) :
    Within limit c c'.deeper :=
  ⟨h.depth_le.trans (Nat.le_succ _), max_le h.deepest_le (hlevel.trans_le (Nat.le_max_right _ _))⟩

/-- The counter can be lowered as far as where it was. -/
theorem Within.withDepth (h : Within limit c c') {depth : Nat} (hle : c.depth ≤ depth)
    (hle' : depth ≤ c'.depth) : Within limit c (c'.withDepth depth) :=
  ⟨hle, max_le h.deepest_le ((hle'.trans c'.depth_le_deepest).trans h.deepest_le)⟩

/-! ### Keeping in step -/

variable {α α' β β' : Type} {ample ample' : Prop}

/-- A descent that began at a cursor ends as the grammar does: with the result it has, with
the fault it has, or for want of frames if those were not ample. -/
inductive Follows (limit : Nat) (ample : Prop) (c : Cursor) (answer : Except Fault β)
    (post : α → Cursor → β → Prop) : Outcome α → Prop where
  | done {a : α} {c' : Cursor} {b : β} (hwithin : Within limit c c') (heq : answer = .ok b)
      (hpost : post a c' b) : Follows limit ample c answer post (.done a c')
  | fault {fault : Fault} {c' : Cursor} (hwithin : Within limit c c')
      (heq : answer = .error fault) : Follows limit ample c answer post (.stopped (.fault fault) c')
  | overflow {c' : Cursor} (hwithin : Within limit c c') (hshort : ¬ ample) :
      Follows limit ample c answer post (.stopped .overflow c')

variable {answer : Except Fault β} {next : β → Except Fault β'} {post : α → Cursor → β → Prop}
  {post' : α' → Cursor → β' → Prop} {o : Outcome α}

/-- A descent that is part of another one. -/
theorem Follows.within (h : Follows limit ample' c answer post o) (hwithin : Within limit c₀ c)
    (hample : ample → ample') : Follows limit ample c₀ answer post o := by
  cases h with
  | done h heq hpost => exact .done (hwithin.trans h) heq hpost
  | fault h heq => exact .fault (hwithin.trans h) heq
  | overflow h hshort => exact .overflow (hwithin.trans h) (mt hample hshort)

/-- Where a descent ends is within bounds, whatever the outcome. -/
theorem Follows.cursor_within (h : Follows limit ample c answer post o) :
    Within limit c o.cursor := by
  cases h with
  | done h _ _ | fault h _ | overflow h _ => exact h

/-- What is known of a result. -/
theorem Follows.done_post {a : α} (h : Follows limit ample c answer post (.done a c')) :
    ∃ b, post a c' b := by
  cases h with
  | done _ _ hpost => exact ⟨_, hpost⟩

/-- What is known of the end of a descent can be weakened. -/
theorem Follows.imp {post' : α → Cursor → β → Prop} (h : Follows limit ample c answer post o)
    (hpost : ∀ a c' b, post a c' b → post' a c' b) : Follows limit ample c answer post' o := by
  cases h with
  | done h heq hb => exact .done h heq (hpost _ _ _ hb)
  | fault h heq => exact .fault h heq
  | overflow h hshort => exact .overflow h hshort

/-- A sequence goes on where its first part has ended. -/
theorem bind_done {x : Program α} {f : α → Program α'} {a : α} (h : x c = .done a c') :
    (x >>= f) c = f a c' := by
  show (x c).andThen f = _
  rw [h]
  rfl

/-- A sequence stops where its first part has stopped. -/
theorem bind_stopped {x : Program α} {f : α → Program α'} {why : Stop}
    (h : x c = .stopped why c') : (x >>= f) c = .stopped why c' := by
  show (x c).andThen f = _
  rw [h]
  rfl

/-- A sequence keeps in step if its two parts do. -/
theorem Follows.bind {x : Program α} {f : α → Program α'}
    (hx : Follows limit ample c₀ answer post (x c))
    (hf : ∀ a c' b, Within limit c₀ c' → post a c' b →
      Follows limit ample c₀ (next b) post' (f a c')) :
    Follows limit ample c₀ (answer >>= next) post' ((x >>= f) c) := by
  generalize hx' : x c = o at hx
  cases hx with
  | done h heq hpost =>
    rw [bind_done hx', heq]
    exact hf _ _ _ h hpost
  | fault h heq =>
    rw [bind_stopped hx', heq]
    exact .fault h rfl
  | overflow h hshort =>
    rw [bind_stopped hx']
    exact .overflow h hshort

/-- The grammar may still put its result together when the descent is done. -/
theorem Follows.mapAnswer {g : β → β'} {post' : α → Cursor → β' → Prop}
    (h : Follows limit ample c answer post o)
    (hpost : ∀ a c' b, post a c' b → post' a c' (g b)) :
    Follows limit ample c (answer >>= fun b => .ok (g b)) post' o := by
  cases h with
  | done h heq hb => exact .done h (heq ▸ rfl) (hpost _ _ _ hb)
  | fault h heq => exact .fault h (heq ▸ rfl)
  | overflow h hshort => exact .overflow h hshort

/-! ### Tokens at the cursor -/

variable {scope : Scope} {tokens : List Token} {f : α → Program α'}

/-- The tokens from the cursor on. -/
def ahead (tokens : List Token) (c : Cursor) : List Token := tokens.drop c.position

/-- There is a token at the cursor or none. -/
theorem ahead_cases (tokens : List Token) (c : Cursor) :
    (tokens[c.position]? = none ∧ tokens.length ≤ c.position ∧ ahead tokens c = []) ∨
      ∃ kind span, tokens[c.position]? = some ⟨kind, span⟩ ∧ c.position < tokens.length ∧
        ahead tokens c = ⟨kind, span⟩ :: ahead tokens c.next := by
  by_cases h : c.position < tokens.length
  · refine .inr ⟨tokens[c.position].kind, tokens[c.position].span, ?_, h, ?_⟩
    · rw [List.getElem?_eq_getElem h]
    · exact List.drop_eq_getElem_cons h
  · have hle := Nat.le_of_not_lt h
    exact .inl ⟨List.getElem?_eq_none hle, hle, List.drop_eq_nil_of_le hle⟩

/-- The token at the cursor is the first one ahead. -/
theorem getElem?_eq_head? (tokens : List Token) (c : Cursor) :
    tokens[c.position]? = (ahead tokens c).head? := by
  rw [ahead, List.head?_drop]

/-- Looking at the next token gives its kind and leaves the cursor where it is. -/
theorem peek?_bind (f : Option Token.Kind → Program α) :
    (peek? tokens >>= f) c = f (tokens[c.position]?.map (·.kind)) c := rfl

/-- The next keyword is that of the tokens ahead. -/
theorem peekKeyword?_bind (f : Option Keyword → Program α) :
    (peekKeyword? tokens >>= f) c = f (nextKeyword? (ahead tokens c)) c := by
  show f ((tokens[c.position]?.map (·.kind)).bind Token.Kind.keyword?) c = _
  rw [getElem?_eq_head?, nextKeyword?, Option.bind_map]
  rfl

/-- The place of a fault is that of the tokens ahead. -/
theorem here_bind (f : Nat → Program α) :
    (here scope tokens >>= f) c = f (scope.here (ahead tokens c)) c := by
  show f ((tokens[c.position]?.map (·.span.start)).getD scope.sourceEnd) c = _
  obtain ⟨hnone, -, hnil⟩ | ⟨kind, span, hsome, -, hcons⟩ := ahead_cases tokens c
  · rw [hnone, hnil]
    rfl
  · rw [hsome, hcons]
    rfl

/-- Asking for the nesting counter leaves it as it is. -/
theorem depth_bind (f : Nat → Program α) : (depth >>= f) c = f c.depth c := rfl

/-- Skipping a token moves the cursor by one. -/
theorem skip_bind (f : Unit → Program α) :
    (skip >>= f) c = f () c.next := rfl

/-- A fault at the next token is at the same place for both. -/
theorem Follows.fail {cause : Fault.Cause} (hwithin : Within limit c₀ c) :
    Follows limit ample c₀ (scope.fault (ahead tokens c) cause) post
      (fail scope tokens cause c) := by
  rw [Descent.fail, here_bind]
  exact .fault hwithin rfl

/-- The token that had to come next is behind the cursor. -/
structure Passed (tokens : List Token) (c : Cursor) (_ : Unit) (c' : Cursor)
    (rest : List Token) : Prop where
  cursor : c' = c.next
  rest : rest = ahead tokens c'
  inside : c'.position ≤ tokens.length

/-- A token that has to come next is taken by both or missed by both. -/
theorem Follows.expect {kind : Token.Kind} (hwithin : Within limit c₀ c) :
    Follows limit ample c₀ (scope.expect kind (ahead tokens c)) (Passed tokens c)
      (expect scope tokens kind c) := by
  rw [Descent.expect, peek?_bind]
  unfold Scope.expect
  obtain ⟨hnone, -, hnil⟩ | ⟨found, span, hsome, hlt, hcons⟩ := ahead_cases tokens c
  · rw [hnone, hnil]
    dsimp only [Option.map_none]
    exact hnil ▸ .fail hwithin
  · rw [hsome, hcons]
    dsimp only [Option.map_some]
    by_cases hkind : (found == kind) = true
    · rw [if_pos hkind, if_pos hkind]
      exact .done hwithin.next rfl ⟨rfl, rfl, hlt⟩
    · rw [if_neg hkind, if_neg hkind]
      exact hcons ▸ .fail hwithin

/-- A keyword that comes next is a token. -/
theorem lt_of_nextKeyword? {keyword : Keyword}
    (h : nextKeyword? (ahead tokens c) = some keyword) : c.position < tokens.length := by
  obtain ⟨-, -, hnil⟩ | ⟨-, -, -, hlt, -⟩ := ahead_cases tokens c
  · rw [hnil] at h
    cases h
  · exact hlt

/-- Behind the first of the tokens ahead are those that the next cursor has ahead. -/
theorem tail_ahead (tokens : List Token) (c : Cursor) :
    (ahead tokens c).tail = ahead tokens c.next := List.tail_drop

/-- So is a keyword. -/
theorem Follows.expectKeyword {keyword : Keyword} (hwithin : Within limit c₀ c) :
    Follows limit ample c₀ (scope.expectKeyword keyword (ahead tokens c)) (Passed tokens c)
      (expectKeyword scope tokens keyword c) := by
  rw [Descent.expectKeyword, peekKeyword?_bind, Scope.expectKeyword]
  by_cases hkeyword : nextKeyword? (ahead tokens c) = some keyword
  · rw [if_pos hkeyword, if_pos hkeyword]
    exact .done hwithin.next rfl ⟨rfl, tail_ahead tokens c, lt_of_nextKeyword? hkeyword⟩
  · rw [if_neg hkeyword, if_neg hkeyword]
    exact .fail hwithin

/-! ### The nesting counter -/

/-- The rules of the next level at the cursor. -/
def inner (scope : Scope) (c : Cursor) : Option (Unit → Inner) :=
  innerAt scope (scope.options.maxDepth - c.depth)

/-- The rules one level further in depend on the counter alone. -/
theorem inner_eq (h : c'.depth = c.depth) : inner scope c' = inner scope c := by
  rw [inner, inner, h]

/-- A level is taken where the grammar goes further in, and missing where it cannot. -/
theorem Follows.deepen {f : Unit → Program α} {rule : Inner → Rule}
    {post : α → Cursor → Expr × List Token → Prop}
    (hwithin : Within scope.options.maxDepth c₀ c)
    (h : c.depth < scope.options.maxDepth →
      Follows scope.options.maxDepth ample c₀
        (rule (level scope (inner scope c.deeper)) (ahead tokens c)) post (f () c.deeper)) :
    Follows scope.options.maxDepth ample c₀
      (Grammar.nested scope (inner scope c) rule (ahead tokens c)) post
      ((Descent.deepen scope tokens >>= f) c) := by
  by_cases hlevel : scope.options.maxDepth ≤ c.depth
  · have hnone : inner scope c = none := by
      rw [inner, Nat.sub_eq_zero_of_le hlevel]
      rfl
    have hdeepen : Descent.deepen scope tokens c =
        .stopped (.fault ⟨scope.here (ahead tokens c),
          .nestedTooDeep scope.options.maxDepth⟩) c := by
      rw [Descent.deepen, depth_bind, if_pos hlevel, Descent.fail, here_bind]
      rfl
    rw [hnone, nested_none, bind_stopped hdeepen]
    exact .fault hwithin rfl
  · have hsome : scope.options.maxDepth - c.depth =
        (scope.options.maxDepth - c.deeper.depth) + 1 := by
      show _ = scope.options.maxDepth - (c.depth + 1) + 1
      omega
    have hdeepen : Descent.deepen scope tokens c = .done () c.deeper := by
      rw [Descent.deepen, depth_bind, if_neg hlevel]
      rfl
    rw [inner, hsome, nested_innerAt, bind_done hdeepen]
    exact h (Nat.lt_of_not_le hlevel)

/-! ### Frames -/

/-- Where a call stands in the order of the rules: a rule calls those of lower rank. -/
def Call.rank : Call → Nat
  | .expression => 0
  | .call _ _ | .branching => 1
  | .named _ _ => 2
  | .primary => 3
  | .suffixed => 4
  | .signed => 5
  | .power => 6
  | .tier t => 7 + t.tighter.length
  | .conditional => 13
  | .assignment => 14

/-- The rank of a call if not levels but tokens are counted. An expression is then the call
that leads to all others: it takes a level and no token. -/
def Call.weight : Call → Nat
  | .expression => 15
  | k => k.rank

/-- The token that a call began with. A name is behind the cursor already. -/
def Call.origin (c : Cursor) : Call → Nat
  | .named _ _ => c.position - 1
  | _ => c.position

/-- The frames that a call can take because of the nesting levels that are left. -/
def levelNeed (limit : Nat) (k : Call) (c : Cursor) : Nat :=
  k.rank + 1 + 15 * (limit - c.depth)

/-- The frames that a call can take because of the tokens that are left. -/
def tokenNeed (tokens : List Token) (k : Call) (c : Cursor) : Nat :=
  k.weight + 15 * (tokens.length - k.origin c)

/-- There are as many frames as a call can take, for one of the two reasons. -/
def Ample (limit : Nat) (tokens : List Token) (frames : Nat) (k : Call) (c : Cursor) : Prop :=
  levelNeed limit k c ≤ frames ∨ tokenNeed tokens k c ≤ frames

/-- A call can take fewer frames than another one. -/
structure Lower (limit : Nat) (tokens : List Token) (k' : Call) (c' : Cursor) (k : Call)
    (c : Cursor) : Prop where
  level : levelNeed limit k' c' < levelNeed limit k c
  token : tokenNeed tokens k' c' < tokenNeed tokens k c

variable {k k' : Call} {frames : Nat}

/-- A call that is lower than its caller has frames enough if that has. -/
theorem Ample.of_lower (hlower : Lower limit tokens k' c' k c)
    (h : Ample limit tokens (frames + 1) k c) : Ample limit tokens frames k' c' :=
  h.imp (fun h => Nat.le_of_lt_succ (hlower.level.trans_le h))
    (fun h => Nat.le_of_lt_succ (hlower.token.trans_le h))

/-- The rules of one nesting level call each other at most fourteen deep. -/
theorem Call.rank_le (k : Call) : k.rank ≤ 14 := by
  cases k with
  | tier t => cases t <;> decide
  | _ => simp [Call.rank]

/-- Counted by tokens, no call is for nothing. -/
theorem Call.weight_pos (k : Call) : 0 < k.weight := by
  cases k with
  | tier t => exact Nat.lt_of_lt_of_le (Nat.zero_lt_succ 6) (Nat.le_add_right 7 _)
  | _ => simp [Call.weight, Call.rank]

/-- Counted by tokens, at most fifteen calls follow each other without taking one. -/
theorem Call.weight_le (k : Call) : k.weight ≤ 15 := by
  cases k with
  | tier t => cases t <;> decide
  | _ => simp [Call.weight, Call.rank]

/-- Every call needs a frame for itself. -/
theorem not_ample_zero (k : Call) (c : Cursor) : ¬ Ample limit tokens 0 k c := by
  have := k.weight_pos
  rintro (h | h)
  · rw [levelNeed] at h
    omega
  · rw [tokenNeed] at h
    omega

/-- Within one level the frames are counted by the order of the rules. -/
theorem levelNeed_lt_of_rank (hrank : k'.rank < k.rank) (hdepth : c.depth ≤ c'.depth) :
    levelNeed limit k' c' < levelNeed limit k c := by
  rw [levelNeed, levelNeed]
  omega

/-- A level that is taken pays for all rules. -/
theorem levelNeed_lt_of_deeper (hlevel : c.depth < limit) (hdepth : c.depth < c'.depth) :
    levelNeed limit k' c' < levelNeed limit k c := by
  have := k'.rank_le
  rw [levelNeed, levelNeed]
  omega

/-- At one token the frames are counted by the order of the rules. -/
theorem tokenNeed_lt_of_weight (hweight : k'.weight < k.weight)
    (horigin : k.origin c ≤ k'.origin c') : tokenNeed tokens k' c' < tokenNeed tokens k c := by
  rw [tokenNeed, tokenNeed]
  omega

/-- A token that is taken pays for all rules. -/
theorem tokenNeed_lt_of_further (horigin : k.origin c < k'.origin c')
    (hinside : k'.origin c' ≤ tokens.length) : tokenNeed tokens k' c' < tokenNeed tokens k c := by
  have := k'.weight_le
  have := k.weight_pos
  rw [tokenNeed, tokenNeed]
  omega

/-! ### Calls that keep in step -/

/-- What the grammar reads where a call begins. -/
def Call.reading (scope : Scope) (tokens : List Token) (c : Cursor) :
    Call → Except Fault (Expr × List Token)
  | .expression => Grammar.expression scope (inner scope c) (ahead tokens c)
  | .assignment => Grammar.assignment scope (inner scope c) (ahead tokens c)
  | .conditional => Grammar.conditional scope (inner scope c) (ahead tokens c)
  | .branching => Grammar.branching scope (inner scope c) (ahead tokens c)
  | .tier t => joined scope (inner scope c) (t :: t.tighter) (ahead tokens c)
  | .power => Grammar.power scope (inner scope c) (ahead tokens c)
  | .signed => Grammar.signed scope (inner scope c) (ahead tokens c)
  | .suffixed => Grammar.suffixed scope (inner scope c) (ahead tokens c)
  | .primary => Grammar.primary scope (inner scope c) (ahead tokens c)
  | .named name offset =>
    Grammar.named scope (inner scope c) name offset (tokens.drop (c.position - 1)) (ahead tokens c)
  | .call callee offset => do
    let rest ← scope.expect .leftParen (ahead tokens c)
    Grammar.call scope (inner scope c) callee offset rest

/-- A call of `named` needs the name behind the cursor. -/
def Call.Ready (tokens : List Token) (c : Cursor) : Call → Prop
  | .named _ _ => 0 < c.position ∧ c.position ≤ tokens.length
  | _ => True

/-- The cursor is behind at least one token from the origin on. -/
structure Further (tokens : List Token) (origin : Nat) (c' : Cursor) : Prop where
  further : origin < c'.position
  inside : c'.position ≤ tokens.length

/-- Moreover the nesting counter is where it was. -/
structure Took (tokens : List Token) (origin depth : Nat) (c' : Cursor) : Prop
    extends Further tokens origin c' where
  level : c'.depth = depth

/-- One part of a rule behind another one. -/
theorem Took.andThen {origin origin' depth : Nat} (h : Took tokens origin depth c)
    (h' : Took tokens origin' c.depth c') (hle : c.position ≤ origin') :
    Took tokens origin depth c' :=
  ⟨⟨h.further.trans (hle.trans_lt h'.further), h'.inside⟩, h'.level.trans h.level⟩

/-- The result is that of the grammar, which leaves the tokens at the cursor. -/
def Leaves (tokens : List Token) (P : Cursor → Prop) (a : α) (c' : Cursor)
    (r : α × List Token) : Prop :=
  r = (a, ahead tokens c') ∧ P c'

/-- A rule that left the counter raised sets it back when it has a result. -/
theorem Follows.restoring {x : Program α} {answer : Except Fault (α × List Token)} {origin : Nat}
    (hx : Follows limit ample c₀ answer (Leaves tokens (Further tokens origin)) (x c)) :
    Follows limit ample c₀ answer (Leaves tokens (Took tokens origin c₀.depth))
      ((do
        let a ← x
        restore c₀.depth
        return a : Program α) c) := by
  generalize hx' : x c = o at hx
  cases hx with
  | @done a c' _ h heq hpost =>
    obtain ⟨rfl, hfurther⟩ := hpost
    rw [bind_done hx']
    exact .done (h.withDepth (Nat.le_refl _) h.depth_le) heq
      ⟨rfl, ⟨hfurther.further, hfurther.inside⟩, rfl⟩
  | fault h heq =>
    rw [bind_stopped hx']
    exact .fault h heq
  | overflow h hshort =>
    rw [bind_stopped hx']
    exact .overflow h hshort

/-- The outcome of a call with a number of frames is what the grammar reads. -/
abbrev InStep (scope : Scope) (tokens : List Token) (frames : Nat) (k : Call) (c : Cursor)
    (o : Outcome Expr) : Prop :=
  Follows scope.options.maxDepth (Ample scope.options.maxDepth tokens frames k c) c
    (k.reading scope tokens c) (Leaves tokens (Took tokens (k.origin c) c.depth)) o

/-- All calls with a number of frames keep in step with the grammar. -/
def Keeps (scope : Scope) (tokens : List Token) (frames : Nat) (call : Call → Program Expr) :
    Prop :=
  ∀ k c, k.Ready tokens c → InStep scope tokens frames k c (call k c)

variable {call : Call → Program Expr}

section Entering

variable (hcall : Keeps scope tokens frames call)
include hcall

/-- A call from within another one. -/
theorem Keeps.enter (k k' : Call) (hwithin : Within scope.options.maxDepth c₀ c)
    (hready : k'.Ready tokens c)
    (hlower : Lower scope.options.maxDepth tokens k' c k c₀) :
    Follows scope.options.maxDepth (Ample scope.options.maxDepth tokens (frames + 1) k c₀) c₀
      (k'.reading scope tokens c) (Leaves tokens (Took tokens (k'.origin c) c.depth)) (call k' c) :=
  (hcall k' c hready).within hwithin (Ample.of_lower hlower)

/-- A call of a rule that stands lower, at the same cursor. -/
theorem Keeps.below (k k' : Call) (c : Cursor) (hready : k'.Ready tokens c)
    (hrank : k'.rank < k.rank) (hweight : k'.weight < k.weight)
    (horigin : k.origin c ≤ k'.origin c) :
    Follows scope.options.maxDepth (Ample scope.options.maxDepth tokens (frames + 1) k c) c
      (k'.reading scope tokens c) (Leaves tokens (Took tokens (k'.origin c) c.depth)) (call k' c) :=
  hcall.enter k k' (.refl c) hready
    ⟨levelNeed_lt_of_rank hrank (Nat.le_refl _), tokenNeed_lt_of_weight hweight horigin⟩

/-- A call one nesting level further in. The level is given back, with a result and with a
fault. -/
theorem Keeps.nested (k k' : Call) {rule : Inner → Rule}
    (hwithin : Within scope.options.maxDepth c₀ c)
    (hready : k'.Ready tokens c.deeper)
    (hrule : k'.reading scope tokens c.deeper =
      rule (level scope (inner scope c.deeper)) (ahead tokens c))
    (htoken : tokenNeed tokens k' c.deeper < tokenNeed tokens k c₀) :
    Follows scope.options.maxDepth (Ample scope.options.maxDepth tokens (frames + 1) k c₀) c₀
      (Grammar.nested scope (inner scope c) rule (ahead tokens c))
      (Leaves tokens (Took tokens (k'.origin c.deeper) c.depth)) (nested scope tokens (call k') c) := by
  refine Follows.deepen hwithin fun hlevel => ?_
  have hlower : Lower scope.options.maxDepth tokens k' c.deeper k c₀ :=
    ⟨levelNeed_lt_of_deeper (hwithin.depth_le.trans_lt hlevel)
      (Nat.lt_succ_of_le hwithin.depth_le), htoken⟩
  have hrun := hcall k' c.deeper hready
  rw [InStep, hrule] at hrun
  show Follows _ _ _ _ _ (call k' c.deeper).lowered
  generalize call k' c.deeper = o at hrun
  have hback : ∀ {c'}, Within scope.options.maxDepth c.deeper c' →
      c'.depth ≠ 0 ∧ Within scope.options.maxDepth c₀ (c'.withDepth (c'.depth - 1)) := by
    intro c' h
    have hle : c.depth + 1 ≤ c'.depth := h.depth_le
    refine ⟨by omega, ?_⟩
    have hentry := hwithin.depth_le
    exact ((hwithin.deeper hlevel).trans h).withDepth (by omega) (by omega)
  cases hrun with
  | @done a c' b h heq hpost =>
    rw [Outcome.lowered, if_neg (hback h).1]
    obtain ⟨rfl, htook⟩ := hpost
    refine .done (hback h).2 heq ⟨rfl, ⟨htook.further, htook.inside⟩, ?_⟩
    show c'.depth - 1 = c.depth
    rw [htook.level]
    rfl
  | fault h heq =>
    rw [Outcome.lowered, if_neg (hback h).1]
    exact .fault (hback h).2 heq
  | overflow h hshort =>
    rw [Outcome.lowered, if_neg (hback h).1]
    exact .overflow (hback h).2 (mt (Ample.of_lower hlower) hshort)

end Entering

end Dashboard.Formula.Descent
