import Dashboard.Proofs.Formula.Soundness

/-!
# What the Rules See of the Tokens

The rules do not see everything about the tokens they read. They do not see where a token
stands, and they do not see whether an operator is written as a sign or as a word. And they
do not see past a semicolon: no rule takes one, and none tells it from the end of the tokens,
the rule for percent signs, which looks one token further, included.

So a list of tokens **shadows** another one if its tokens look the same one by one, and then
it ends, or goes on with a semicolon. This module has one lemma for everything that the rules
look at.

## Main results

* `Shadows.next` — the same closing or separating token comes next.
* `Shadows.nextKeyword?_eq_iff` — so does the same keyword of a conditional.
* `Shadows.suffix?_eq`, `Shadows.sign?_eq`, `Shadows.joint?_eq` — so does the same suffix, sign
  or operator of a tier.
-/

namespace Dashboard.Formula

open Grammar (Tier Joint)

/-! ### Tokens that look the same -/

/-- The operator that a token is, if it is one of those that can be written as a word. -/
def Token.Kind.worded? : Token.Kind → Option Keyword
  | .bothAnd => some .and
  | .eitherOr => some .or
  | .equal => some .equals
  | .name value => (Keyword.ofName? value).filter (· ∈ [Keyword.and, .or, .equals])
  | _ => none

/-- Kinds of tokens that no rule tells apart: they are the same, or spell the same operator. -/
def Token.Kind.Alike (kind kind' : Token.Kind) : Prop :=
  kind = kind' ∨ ∃ word, kind.worded? = some word ∧ kind'.worded? = some word

/-- Looking the same is symmetric. -/
theorem Token.Kind.Alike.symm {kind kind' : Token.Kind} (h : kind.Alike kind') :
    kind'.Alike kind := by
  rcases h with rfl | ⟨word, hword, hword'⟩
  · exact .inl rfl
  · exact .inr ⟨word, hword', hword⟩

/-- The operator of a tier that a word is. -/
def wordJoint? : Tier → Keyword → Option Joint
  | .or, .or => some (.logical .or)
  | .and, .and => some (.logical .and)
  | .equality, .equals => some (.binary .eq)
  | _, _ => none

section Worded

variable {kind kind' : Token.Kind} {word : Keyword}

/-- An operator with a word is written with its sign or with the word. -/
theorem worded?_eq_some (h : kind.worded? = some word) :
    kind = .bothAnd ∨ kind = .eitherOr ∨ kind = .equal ∨
      ∃ value, kind = .name value ∧ Keyword.ofName? value = some word ∧
        (word = .and ∨ word = .or ∨ word = .equals) := by
  cases kind with
  | bothAnd => exact .inl rfl
  | eitherOr => exact .inr (.inl rfl)
  | equal => exact .inr (.inr (.inl rfl))
  | name value =>
      obtain ⟨hvalue, hword⟩ := Option.filter_eq_some_iff.mp h
      exact .inr (.inr (.inr ⟨value, rfl, hvalue, by simpa using hword⟩))
  | _ => cases h

/-- Such an operator is none of the keywords of a conditional. -/
theorem keyword?_of_worded? (h : kind.worded? = some word) (keyword : Keyword)
    (hkeyword : keyword = .if ∨ keyword = .then ∨ keyword = .else) :
    kind.keyword? ≠ some keyword := by
  rcases worded?_eq_some h with rfl | rfl | rfl | ⟨value, rfl, hvalue, hword⟩
  · exact nofun
  · exact nofun
  · exact nofun
  · intro heq
    obtain rfl : word = keyword := Option.some.inj (hvalue.symm.trans heq)
    rcases hkeyword with rfl | rfl | rfl <;> simp at hword

/-- No operand begins with such an operator. -/
theorem startsOperand_of_worded? (h : kind.worded? = some word) :
    kind.startsOperand = false := by
  rcases worded?_eq_some h with rfl | rfl | rfl | ⟨value, rfl, hvalue, hword⟩
  · rfl
  · rfl
  · rfl
  · rw [Token.Kind.startsOperand, hvalue]
    rcases hword with rfl | rfl | rfl <;> rfl

/-- Which operator of which tier it is follows from its word. -/
theorem joint?_of_worded? (h : kind.worded? = some word) (tier : Tier) :
    tier.joint? kind = wordJoint? tier word := by
  rcases worded?_eq_some h with rfl | rfl | rfl | ⟨value, rfl, hvalue, hword⟩
  · cases h
    cases tier <;> rfl
  · cases h
    cases tier <;> rfl
  · cases h
    cases tier <;> rfl
  · have hkeyword : (Token.Kind.name value).keyword? = some word := hvalue
    have hsign : ((Token.Kind.name value == .eitherOr) = false) ∧
        ((Token.Kind.name value == .bothAnd) = false) := ⟨rfl, rfl⟩
    rcases hword with rfl | rfl | rfl <;> cases tier <;>
      simp [Tier.joint?, wordJoint?, hkeyword, hsign]

/-- Tokens that look the same are the same operator of a tier. -/
theorem Token.Kind.Alike.joint?_eq (h : kind.Alike kind') (tier : Tier) :
    tier.joint? kind' = tier.joint? kind := by
  rcases h with rfl | ⟨word, hword, hword'⟩
  · rfl
  · rw [joint?_of_worded? hword, joint?_of_worded? hword']

/-- An operand begins with both or with neither. -/
theorem Token.Kind.Alike.startsOperand_eq (h : kind.Alike kind') :
    kind'.startsOperand = kind.startsOperand := by
  rcases h with rfl | ⟨word, hword, hword'⟩
  · rfl
  · rw [startsOperand_of_worded? hword, startsOperand_of_worded? hword']

/-- What looks the same as a token that is no operator with a word is that token. -/
theorem Token.Kind.Alike.eq_of_worded?_eq_none (h : kind.Alike kind')
    (hnone : kind.worded? = none) : kind' = kind := by
  rcases h with rfl | ⟨word, hword, -⟩
  · rfl
  · rw [hnone] at hword
    cases hword

end Worded

/-! ### Shadows -/

/-- **Tokens that shadow others**: they look the same one by one, and a tail follows. -/
inductive Shadows (tail : List Token) : List Token → List Token → Prop
  | nil : Shadows tail [] tail
  | cons {t t' : Token} {ts ts' : List Token} : t.kind.Alike t'.kind → Shadows tail ts ts' →
      Shadows tail (t :: ts) (t' :: ts')

/-- Nothing follows, or a semicolon does. -/
def Sealed (tail : List Token) : Prop :=
  ∀ t ∈ tail.head?, t.kind = .semicolon

/-- Nothing at all is sealed. -/
theorem sealed_nil : Sealed [] := by
  rintro t ⟨⟩

/-- Tokens with a tail behind them shadow the tokens without it. -/
theorem shadows_append (ts tail : List Token) : Shadows tail ts (ts ++ tail) := by
  induction ts with
  | nil => exact .nil
  | cons t ts ih => exact .cons (.inl rfl) ih

variable {tail ts ts' : List Token}

/-- Only the tail makes the shadow longer. -/
theorem Shadows.length_eq (h : Shadows tail ts ts') :
    ts'.length = ts.length + tail.length := by
  induction h with
  | nil => simp
  | cons _ _ ih =>
      rw [List.length_cons, List.length_cons, ih]
      omega

namespace Shadows

variable (h : Shadows tail ts ts') (htail : Sealed tail)

include h htail

/-- A token that is neither an operator with a word nor a semicolon comes next in both lists
or in neither. -/
theorem next (kind : Token.Kind) (hworded : kind.worded? = none) (hkind : kind ≠ .semicolon) :
    (∃ span more span' more', ts = ⟨kind, span⟩ :: more ∧ ts' = ⟨kind, span'⟩ :: more' ∧
        Shadows tail more more') ∨
      (NotNext kind ts ∧ NotNext kind ts') := by
  cases h with
  | nil =>
      refine .inr ⟨nofun, ?_⟩
      rintro span more rfl
      exact hkind (htail _ rfl)
  | @cons t t' more more' halike hmore =>
      obtain ⟨kind₁, span⟩ := t
      obtain ⟨kind₂, span'⟩ := t'
      by_cases heq : kind₁ = kind
      · subst heq
        obtain rfl : kind₂ = kind₁ := halike.eq_of_worded?_eq_none hworded
        exact .inl ⟨span, more, span', more', rfl, rfl, hmore⟩
      · refine .inr ⟨?_, ?_⟩
        · rintro _ _ hcons
          cases hcons
          exact heq rfl
        · rintro _ _ hcons
          cases hcons
          exact heq (halike.symm.eq_of_worded?_eq_none hworded)

/-- A keyword of a conditional comes next in both lists or in neither. -/
theorem nextKeyword?_eq_iff (keyword : Keyword)
    (hkeyword : keyword = .if ∨ keyword = .then ∨ keyword = .else) :
    Grammar.nextKeyword? ts' = some keyword ↔ Grammar.nextKeyword? ts = some keyword := by
  cases h with
  | nil =>
      refine ⟨?_, nofun⟩
      cases tail with
      | nil => exact nofun
      | cons t more =>
          obtain ⟨kind, span⟩ := t
          obtain rfl : kind = .semicolon := htail _ rfl
          exact nofun
  | @cons t t' more more' halike hmore =>
      rcases halike with heq | ⟨word, hword, hword'⟩
      · simp [Grammar.nextKeyword?, heq]
      · exact iff_of_false (keyword?_of_worded? hword' keyword hkeyword)
          (keyword?_of_worded? hword keyword hkeyword)

/-- The same suffix comes next. A percent sign at the end is one, whether the tokens end there
or a semicolon follows. -/
theorem suffix?_eq : Grammar.suffix? ts' = Grammar.suffix? ts := by
  have hstarts : ∀ {more more' : List Token}, Shadows tail more more' →
      (more'.head?.any fun t => t.kind.startsOperand) =
        more.head?.any fun t => t.kind.startsOperand := by
    intro more more' hmore
    cases hmore with
    | nil =>
        cases tail with
        | nil => rfl
        | cons t rest =>
            obtain ⟨kind, span⟩ := t
            obtain rfl : kind = .semicolon := htail _ rfl
            rfl
    | cons halike _ => exact halike.startsOperand_eq
  cases h with
  | nil =>
      cases tail with
      | nil => rfl
      | cons t rest =>
          obtain ⟨kind, span⟩ := t
          obtain rfl : kind = .semicolon := htail _ rfl
          rfl
  | @cons t t' more more' halike hmore =>
      obtain ⟨kind, span⟩ := t
      obtain ⟨kind', span'⟩ := t'
      rcases halike with heq | ⟨word, hword, hword'⟩
      · obtain rfl : kind = kind' := heq
        cases kind with
        | percent => simp only [Grammar.suffix?, hstarts hmore]
        | _ => rfl
      · have hnone : ∀ {kind : Token.Kind} {span : Span} {more : List Token},
            kind.worded? = some word → Grammar.suffix? (⟨kind, span⟩ :: more) = none := by
          intro kind span more hworded
          rcases worded?_eq_some hworded with rfl | rfl | rfl | ⟨value, rfl, -⟩ <;> rfl
        rw [hnone hword, hnone hword']

/-- The same sign comes next. -/
theorem sign?_eq : Grammar.sign? ts' = Grammar.sign? ts := by
  cases h with
  | nil =>
      cases tail with
      | nil => rfl
      | cons t rest =>
          obtain ⟨kind, span⟩ := t
          obtain rfl : kind = .semicolon := htail _ rfl
          rfl
  | @cons t t' more more' halike hmore =>
      obtain ⟨kind, span⟩ := t
      obtain ⟨kind', span'⟩ := t'
      rcases halike with heq | ⟨word, hword, hword'⟩
      · obtain rfl : kind = kind' := heq
        cases kind <;> rfl
      · have hnone : ∀ {kind : Token.Kind} {span : Span} {more : List Token},
            kind.worded? = some word → Grammar.sign? (⟨kind, span⟩ :: more) = none := by
          intro kind span more hworded
          rcases worded?_eq_some hworded with rfl | rfl | rfl | ⟨value, rfl, -⟩ <;> rfl
        rw [hnone hword, hnone hword']

/-- The same operator of a tier comes next. -/
theorem joint?_eq (tier : Tier) :
    ts'.head?.bind (fun t => tier.joint? t.kind) = ts.head?.bind fun t => tier.joint? t.kind := by
  cases h with
  | nil =>
      cases tail with
      | nil => rfl
      | cons t rest =>
          obtain ⟨kind, span⟩ := t
          obtain rfl : kind = .semicolon := htail _ rfl
          cases tier <;> rfl
  | cons halike _ => exact halike.joint?_eq tier

omit htail in
/-- What is left behind the next token shadows what is left, if there is a next token. -/
theorem behind (hne : ts ≠ []) : Shadows tail ts.tail ts'.tail := by
  cases h with
  | nil => exact absurd rfl hne
  | cons _ hmore => exact hmore

end Shadows

end Dashboard.Formula
