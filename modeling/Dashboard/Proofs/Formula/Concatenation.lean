import Dashboard.LiveFormula
import Dashboard.Proofs.Formula.Lockstep
import Dashboard.Proofs.Formula.Printing

/-!
# Statement Lists End to End

Two lists of statements can be put one behind the other with a semicolon between them. Every
statement is read with the whole budget of nesting levels, and no rule sees past the
semicolon, so the two lists are read as if each of them stood alone.

The evaluation of the joined list is that of the first one and then that of the second one,
which finds the symbols that the first one has assigned. If the first one fails, nothing of
the second one happens, and what the first one has assigned and printed by then stays.

## Main results

* `Grammar.statements_join` — two lists of statements with a semicolon between them are read
  one after the other.
* `run_evaluateStatements_append` — statements are evaluated one list after the other.
* `LiveFormula.joined_composes` — both together.
-/

namespace Dashboard

namespace Formula

/-- The statements of one formula, and then those of another one. -/
def followedBy (f g : Formula) : Formula :=
  { f with statements := f.statements ++ g.statements }

namespace Grammar

/-! ### Reading -/

variable (scope scope' scope'' : Scope)

/-- **Two lists of statements with a semicolon between them are read one after the other.** By
induction on the first list: it ends behind a statement, and the second one follows behind the
semicolon, or it goes on, since it does not end in a semicolon. -/
theorem statements_join {separator : Token} (hseparator : separator.kind = .semicolon)
    (hlegacy : scope.options.dialect = .legacy) (hoptions : scope'.options = scope.options)
    (hoptions' : scope''.options = scope.options) {b : List Token} (hb : b ≠ []) {n m k : Nat}
    {a joined : List Token} (hjoined : Shadows (separator :: b) a joined) (hne : a ≠ [])
    (ha : ∀ t ∈ a.getLast?, t.kind ≠ .semicolon) (hn : a.length ≤ n) (hm : b.length ≤ m)
    (hk : joined.length ≤ k) :
    Agree (· = ·)
      (do
        let first ← statements scope n a
        let second ← statements scope' m b
        return first ++ second)
      (statements scope'' k joined) := by
  have hsealed : Sealed (separator :: b) := by
    rintro _ ⟨⟩
    exact hseparator
  induction n generalizing k a joined with
  | zero => exact absurd (List.eq_nil_of_length_eq_zero (Nat.le_zero.mp hn)) hne
  | succ n ih =>
      have hlength := hjoined.length_eq
      have hpos := List.length_pos_iff.mpr hne
      rw [List.length_cons] at hlength
      obtain ⟨k, rfl⟩ : ∃ k', k = k' + 1 := ⟨k - 1, by omega⟩
      rw [statements, statements, hoptions', bind_assoc]
      refine (expressionWithin_inStep hsealed hoptions' _ hjoined).bind ?_
      rintro ⟨e, rest⟩ ⟨e', rest'⟩ hfirst - ⟨heq, hrest⟩
      obtain rfl : e = e' := heq
      obtain ⟨taken, htaken, -, -⟩ := expressionWithin_sound _ _ hfirst
      cases hrest with
      | nil =>
          -- the first list ends
          have hempty : b.isEmpty = false := by simpa using hb
          simp only [hseparator, hlegacy, hempty]
          have hsecond : Agree (· = ·) (statements scope' m b) (statements scope'' k b) :=
            statements_inStep scope' scope'' (hoptions'.trans hoptions.symm)
              (by simpa using shadows_append b []) hb hm (by omega)
          refine hsecond.bind ?_
          rintro others others' - - rfl
          rfl
      | @cons t t' more more' halike hmore =>
          dsimp only
          rw [semicolon_eq_of_alike halike, hlegacy]
          split
          · next hsemicolon =>
            -- the first list goes on
            have hmore_ne : more ≠ [] := by
              rintro rfl
              exact ha t (by simp [htaken]) (kind_eq_of_beq (.inr rfl) hsemicolon)
            have hmore'_ne : more' ≠ [] := by
              rintro rfl
              cases hmore
            have hlast : more.getLast? = a.getLast? := by
              rw [htaken, List.getLast?_append, List.getLast?_cons_of_ne_nil hmore_ne]
              cases hget : more.getLast? with
              | none => exact absurd (List.getLast?_eq_none_iff.mp hget) hmore_ne
              | some last => rfl
            have hlengths : a.length = taken.length + (more.length + 1) := by
              rw [htaken, List.length_append, List.length_cons]
            have hmore_length := hmore.length_eq
            rw [List.length_cons] at hmore_length
            have hrest := ih hmore hmore_ne (by rwa [hlast]) (by omega) (k := k) (by omega)
            rw [if_neg (by simp), if_neg (by simpa using hmore_ne), if_neg (by simp),
              if_neg (by simpa using hmore'_ne), bind_assoc]
            have hcons := hrest.bind (S := (· = ·)) (k := fun es => pure (e :: es))
              (l := fun es => pure (e :: es)) fun _ _ _ _ heq => congrArg (e :: ·) heq
            simpa only [bind_assoc, pure_bind, List.cons_append] using hcons
          · trivial

/-- What is read is not without statements. -/
theorem statements_ne_nil {scope : Scope} {n : Nat} {ts : List Token} {es : List Expr}
    (h : statements scope (n + 1) ts = .ok es) : es ≠ [] := by
  obtain ⟨first, rest, -, ⟨-, rfl⟩ | ⟨t, more, -, -, -, ⟨-, rfl⟩ | ⟨others, -, rfl, -⟩⟩⟩ :=
    statements_succ_eq_ok h
  · exact nofun
  · exact nofun
  · exact nofun

end Grammar

/-- A formula has a statement. -/
theorem statements_ne_nil_of_ofTokens {options : Options} {sourceEnd : Nat}
    {tokens : List Token} {f : Formula} (h : ofTokens options sourceEnd tokens = .ok f) :
    f.statements ≠ [] := by
  by_cases hne : dropMark options.dialect tokens = []
  · unfold ofTokens at h
    rw [hne] at h
    cases h
  · rw [ofTokens_of_ne_nil hne] at h
    obtain ⟨n, hn⟩ := Nat.exists_eq_succ_of_ne_zero fun hzero =>
      hne (List.eq_nil_of_length_eq_zero hzero)
    rw [hn] at h
    cases hread : Grammar.statements ⟨options, sourceEnd⟩ (n + 1)
        (dropMark options.dialect tokens) with
    | error fault => rw [hread] at h; cases h
    | ok es =>
        rw [hread] at h
        cases h
        exact Grammar.statements_ne_nil hread

/-- A legacy formula is the list of its statements. There is no mark in front to be dropped. -/
theorem ofTokens_legacy {maxDepth sourceEnd : Nat} {tokens : List Token} (hne : tokens ≠ []) :
    ofTokens ⟨.legacy, maxDepth⟩ sourceEnd tokens =
      (Grammar.statements ⟨⟨.legacy, maxDepth⟩, sourceEnd⟩ tokens.length tokens).map
        (Formula.mk .legacy) :=
  ofTokens_of_ne_nil hne

/-- **Two lists of tokens with a semicolon between them** are read as a formula exactly if
each of them is, and its statements are theirs. -/
theorem ofTokens_join {maxDepth sourceEnd sourceEnd' sourceEnd'' : Nat} {separator : Token}
    {a b : List Token} (hseparator : separator.kind = .semicolon) (hne : a ≠ [])
    (ha : ∀ t ∈ a.getLast?, t.kind ≠ .semicolon) (hb : b ≠ []) (joined : Formula) :
    ofTokens ⟨.legacy, maxDepth⟩ sourceEnd (a ++ separator :: b) = .ok joined ↔
      ∃ first second, ofTokens ⟨.legacy, maxDepth⟩ sourceEnd' a = .ok first ∧
        ofTokens ⟨.legacy, maxDepth⟩ sourceEnd'' b = .ok second ∧
        joined = first.followedBy second := by
  have hread := Grammar.statements_join ⟨⟨.legacy, maxDepth⟩, sourceEnd'⟩
    ⟨⟨.legacy, maxDepth⟩, sourceEnd''⟩ ⟨⟨.legacy, maxDepth⟩, sourceEnd⟩ hseparator rfl rfl rfl hb
    (shadows_append a (separator :: b)) hne ha (Nat.le_refl _) (Nat.le_refl _) (Nat.le_refl _)
  have hmap : ∀ {x : Except Fault (List Expr)} {f : Formula},
      x.map (Formula.mk .legacy) = .ok f ↔ ∃ es, x = .ok es ∧ f = ⟨.legacy, es⟩ := by
    intro x f
    cases x with
    | error fault => exact ⟨nofun, nofun⟩
    | ok es => simp [Except.map, eq_comm]
  rw [ofTokens_legacy (by simp), ofTokens_legacy hne, ofTokens_legacy hb]
  simp only [hmap]
  constructor
  · rintro ⟨es, hes, rfl⟩
    obtain ⟨first, hfirst, hes⟩ := Grammar.bind_eq_ok.mp ((hread.ok_iff es).mpr hes)
    obtain ⟨second, hsecond, hes⟩ := Grammar.bind_eq_ok.mp hes
    cases hes
    exact ⟨_, _, ⟨first, hfirst, rfl⟩, ⟨second, hsecond, rfl⟩, rfl⟩
  · rintro ⟨_, _, ⟨first, hfirst, rfl⟩, ⟨second, hsecond, rfl⟩, rfl⟩
    refine ⟨first ++ second, (hread.ok_iff _).mp ?_, rfl⟩
    rw [hfirst, hsecond]
    rfl

/-! ### Evaluating -/

/-- Without statements the value is the one that is handed on; with them it is not looked
at. -/
theorem evaluateStatements_of_ne_nil {env : Environment} {es : List Expr} (hne : es ≠ [])
    (value value' : Value) :
    evaluateStatements env value es = evaluateStatements env value' es := by
  cases es with
  | nil => exact absurd rfl hne
  | cons e rest => rw [evaluateStatements, evaluateStatements]

/-- **Statements are evaluated one list after the other**; after a fault the second list is
left alone. -/
theorem run_evaluateStatements_append (env : Environment) (es es' : List Expr) (value : Value)
    (memory : Memory) :
    (evaluateStatements env value (es ++ es')).run memory =
      match (evaluateStatements env value es).run memory with
      | (.ok v, after) => (evaluateStatements env v es').run after
      | (.error fault, after) => (.error fault, after) := by
  induction es generalizing value memory with
  | nil => rfl
  | cons e rest ih =>
      rw [List.cons_append, evaluateStatements, evaluateStatements]
      simp only [ExceptT.run_bind]
      simp only [bind, StateT.bind]
      cases (e.evaluate env).run memory with
      | mk result after =>
          cases result with
          | error fault => rfl
          | ok v => exact ih v after

/-- A formula behind another one is evaluated in the memory that the first one has left. -/
theorem evaluate_followedBy {f g : Formula} (hdialect : g.dialect = f.dialect)
    (hne : g.statements ≠ []) (bindings : Bindings) (memory : Memory) :
    (f.followedBy g).evaluate bindings memory =
      match f.evaluate bindings memory with
      | (.ok _, after) => g.evaluate bindings after
      | (.error fault, after) => (.error fault, after) := by
  have happend := run_evaluateStatements_append ⟨f.dialect, bindings⟩ f.statements g.statements
    .undefined memory
  refine happend.trans ?_
  simp only [evaluate]
  split
  · next v after hfirst =>
    rw [hdialect, evaluateStatements_of_ne_nil hne v .undefined, hfirst]
  · next fault after hfirst => rw [hfirst]

end Formula

namespace LiveFormula

variable {f : LiveFormula} {first second : Formula}

/-- The same state with another formula. -/
def withFormula (f : LiveFormula) (formula : Formula) : LiveFormula :=
  { f with formula }

/-- If the first formula fails, the joined one fails alike, and what was assigned and printed
by then is all that was. -/
theorem run_followedBy_of_error (hdialect : second.dialect = first.dialect)
    (hne : second.statements ≠ []) {failure : Failure}
    (h : (f.withFormula first).run.result = .error failure) :
    (f.withFormula (first.followedBy second)).run.result = .error failure ∧
      (f.withFormula (first.followedBy second)).run.formula.symbols =
        (f.withFormula first).run.formula.symbols ∧
      (f.withFormula (first.followedBy second)).run.log = (f.withFormula first).run.log := by
  have hjoined := Formula.evaluate_followedBy hdialect hne f.bindings ⟨f.symbols, []⟩
  cases hfirst : first.evaluate f.bindings ⟨f.symbols, []⟩ with
  | mk result after =>
      simp only [run, withFormula, hfirst] at h ⊢
      cases result with
      | ok v => cases h
      | error fault =>
          rw [hjoined, hfirst]
          exact ⟨h, rfl, rfl⟩

/-- If the first formula succeeds, the joined one goes on with the second one, in the state
that the first one has left. -/
theorem run_followedBy_of_ok (hdialect : second.dialect = first.dialect)
    (hne : second.statements ≠ []) {value : Value}
    (h : (f.withFormula first).run.result = .ok value) :
    (f.withFormula (first.followedBy second)).run.result =
        ((f.withFormula first).run.formula.withFormula second).run.result ∧
      (f.withFormula (first.followedBy second)).run.formula.symbols =
        ((f.withFormula first).run.formula.withFormula second).run.formula.symbols ∧
      (f.withFormula (first.followedBy second)).run.log =
        (f.withFormula first).run.log ++
          ((f.withFormula first).run.formula.withFormula second).run.log := by
  have hjoined := Formula.evaluate_followedBy hdialect hne f.bindings ⟨f.symbols, []⟩
  cases hfirst : first.evaluate f.bindings ⟨f.symbols, []⟩ with
  | mk result after =>
      simp only [run, withFormula, hfirst] at h ⊢
      cases result with
      | error fault => cases h
      | ok v =>
          rw [hjoined, hfirst]
          have hbehind : second.evaluate f.bindings after =
              ((second.evaluate f.bindings ⟨after.symbols, []⟩).1,
                (second.evaluate f.bindings ⟨after.symbols, []⟩).2.behind after.printed) := by
            have := Formula.indifferent_evaluateStatements ⟨second.dialect, f.bindings⟩ .undefined
              second.statements ⟨after.symbols, []⟩ after.printed
            rwa [Formula.Memory.behind, List.append_nil] at this
          dsimp only
          rw [hbehind]
          exact ⟨rfl, rfl, List.map_append⟩

/-- **Statement lists compose**, in the legacy dialect. Two lists of tokens with a semicolon
between them are read as a formula exactly if each of them is read as one, and then its
statements are theirs. Its evaluation is that of the first formula and then that of the second
one in the state that the first one has left; if the first one fails, it fails alike, and
nothing of the second one happens. -/
theorem joined_composes (maxDepth sourceEnd sourceEnd' sourceEnd'' : Nat)
    (separator : Formula.Token) (a b : List Formula.Token)
    (hseparator : separator.kind = .semicolon) (hne : a ≠ [])
    (ha : ∀ t ∈ a.getLast?, t.kind ≠ .semicolon) (hb : b ≠ []) :
    (∀ joined, Formula.ofTokens ⟨.legacy, maxDepth⟩ sourceEnd (a ++ separator :: b) = .ok joined ↔
      ∃ first second, Formula.ofTokens ⟨.legacy, maxDepth⟩ sourceEnd' a = .ok first ∧
        Formula.ofTokens ⟨.legacy, maxDepth⟩ sourceEnd'' b = .ok second ∧
        joined = first.followedBy second) ∧
    ∀ first second, Formula.ofTokens ⟨.legacy, maxDepth⟩ sourceEnd' a = .ok first →
      Formula.ofTokens ⟨.legacy, maxDepth⟩ sourceEnd'' b = .ok second → ∀ f : LiveFormula,
        (∀ value, (f.withFormula first).run.result = .ok value →
          (f.withFormula (first.followedBy second)).run.result =
              ((f.withFormula first).run.formula.withFormula second).run.result ∧
            (f.withFormula (first.followedBy second)).run.formula.symbols =
              ((f.withFormula first).run.formula.withFormula second).run.formula.symbols ∧
            (f.withFormula (first.followedBy second)).run.log =
              (f.withFormula first).run.log ++
                ((f.withFormula first).run.formula.withFormula second).run.log) ∧
        (∀ failure, (f.withFormula first).run.result = .error failure →
          (f.withFormula (first.followedBy second)).run.result = .error failure ∧
            (f.withFormula (first.followedBy second)).run.formula.symbols =
              (f.withFormula first).run.formula.symbols ∧
            (f.withFormula (first.followedBy second)).run.log =
              (f.withFormula first).run.log) := by
  refine ⟨Formula.ofTokens_join hseparator hne ha hb, ?_⟩
  intro first second hfirst hsecond f
  have hdialect : second.dialect = first.dialect :=
    (Formula.derivesFormula_of_ofTokens hsecond).1.trans
      (Formula.derivesFormula_of_ofTokens hfirst).1.symm
  have hstatements := Formula.statements_ne_nil_of_ofTokens hsecond
  exact ⟨fun _ => run_followedBy_of_ok hdialect hstatements,
    fun _ => run_followedBy_of_error hdialect hstatements⟩

/-- The tokens of `level = 'low'`. -/
def setLevel : List Formula.Token :=
  [.name "level", .assign, .text "low"].map fun kind => ⟨kind, ⟨0, 0⟩⟩

/-- The tokens of `print(level); level`. -/
def showLevel : List Formula.Token :=
  [.name "print", .leftParen, .name "level", .rightParen, .semicolon, .name "level"].map
    fun kind => ⟨kind, ⟨0, 0⟩⟩

/-- A legacy formula that has not been told anything. -/
def blank : LiveFormula :=
  .ofFormula "" ⟨.legacy, []⟩

/-- What the first list assigns is what the second one prints and gives. -/
theorem joined_composes_level :
    ∃ joined, Formula.ofTokens ⟨.legacy, 3⟩ 0 (setLevel ++ ⟨.semicolon, ⟨0, 0⟩⟩ :: showLevel) =
        .ok joined ∧
      (blank.withFormula joined).run.result = .ok (.text "low") ∧
      (blank.withFormula joined).run.formula.assigned? "level" = some (.text "low") ∧
      (blank.withFormula joined).run.log = [.info "low"] := by
  obtain ⟨hread, hrun⟩ := joined_composes 3 0 0 0 ⟨.semicolon, ⟨0, 0⟩⟩ setLevel showLevel rfl nofun
    (by rintro _ ⟨⟩; exact nofun) nofun
  have hfirst : Formula.ofTokens ⟨.legacy, 3⟩ 0 setLevel =
      .ok ⟨.legacy, [.assignment "level" (.text "low")]⟩ := by rfl
  have hsecond : Formula.ofTokens ⟨.legacy, 3⟩ 0 showLevel =
      .ok ⟨.legacy, [.call "print" [.symbol "level"], .symbol "level"]⟩ := by rfl
  obtain ⟨hresult, hsymbols, hlog⟩ := (hrun _ _ hfirst hsecond blank).1 (.text "low") rfl
  refine ⟨_, (hread _).mpr ⟨_, _, hfirst, hsecond, rfl⟩, hresult, ?_, hlog⟩
  unfold assigned?
  rw [hsymbols]
  rfl

end LiveFormula

end Dashboard
