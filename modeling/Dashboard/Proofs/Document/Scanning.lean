import Dashboard.Text.Scanner
import Dashboard.Proofs.Document.Digits

/-!
# Following Scanners

A scanner **takes** a value off a text and leaves a rest, or it **refuses** the text. This
module follows scanners through `do` and `<|>`: a scanner takes what its parts take one after
the other, and an alternative takes a text that all alternatives before it refuse.

## Main results

* `Takes.bind`, `Takes.orElse`, `Refuses.orElse` — how scanners are put together.
* `takes_takeWhile_of_stops` — a run of characters up to where it stops.
* `takes_digits` — digits, as many as are asked for.
-/

namespace Dashboard.Text.Scanner

variable {α β : Type} {s t : Scanner α} {f : α → Scanner β} {a : α} {b : β}
  {text middle rest : List Char}

/-- A scanner takes a value off a text and leaves a rest. -/
def Takes (s : Scanner α) (text : List Char) (a : α) (rest : List Char) : Prop :=
  s.run text = some (a, rest)

/-- A scanner takes nothing off a text. -/
def Refuses (s : Scanner α) (text : List Char) : Prop :=
  s.run text = none

/-! ### One after the other -/

/-- A result alone takes nothing off a text. -/
theorem takes_pure (a : α) (text : List Char) : Takes (pure a) text a text :=
  rfl

/-- Failure refuses every text. -/
theorem refuses_failure (text : List Char) : Refuses (failure : Scanner α) text :=
  rfl

/-- To look at a text takes nothing off it. -/
theorem takes_get (text : List Char) : Takes get text text text :=
  rfl

/-- What comes next runs on what is left. -/
theorem Takes.run_bind (h : Takes s text a middle) : (s >>= f).run text = (f a).run middle := by
  rw [Takes] at h
  rw [StateT.run_bind, h]
  rfl

/-- Scanners one after the other take what each of them takes. -/
theorem Takes.bind (h : Takes s text a middle) (hf : Takes (f a) middle b rest) :
    Takes (s >>= f) text b rest :=
  h.run_bind.trans hf

/-- They refuse a text if the second one refuses what the first one leaves. -/
theorem Takes.bind_refuses (h : Takes s text a middle) (hf : Refuses (f a) middle) :
    Refuses (s >>= f) text :=
  h.run_bind.trans hf

/-- They refuse it, too, if the first one does. -/
theorem Refuses.bind (h : Refuses s text) : Refuses (s >>= f) text := by
  rw [Refuses] at h ⊢
  rw [StateT.run_bind, h]
  rfl

/-! ### One or the other -/

/-- A choice runs its second scanner where the first one fails. -/
theorem run_orElse (s t : Scanner α) (text : List Char) :
    (s <|> t).run text = (s.run text <|> t.run text) :=
  rfl

/-- A choice takes what its first scanner takes. -/
theorem Takes.orElse (h : Takes s text a rest) : Takes (s <|> t) text a rest := by
  rw [Takes] at h ⊢
  rw [run_orElse, h]
  rfl

/-- It takes what its second one takes, if the first one refuses the text. -/
theorem Refuses.orElse (h : Refuses s text) (ht : Takes t text a rest) :
    Takes (s <|> t) text a rest := by
  rw [Refuses] at h
  rw [Takes] at ht ⊢
  rw [run_orElse, h, ht]
  rfl

/-- It refuses what both of them refuse. -/
theorem Refuses.orElse_refuses (h : Refuses s text) (ht : Refuses t text) :
    Refuses (s <|> t) text := by
  rw [Refuses] at h ht ⊢
  rw [run_orElse, h, ht]
  rfl

/-- A scanner with another result refuses the same texts. -/
theorem Refuses.map {g : α → β} (h : Refuses s text) : Refuses (g <$> s) text := by
  rw [Refuses] at h ⊢
  rw [StateT.run_map, h]
  rfl

/-- What is optional and is refused is missing. -/
theorem Refuses.optional (h : Refuses s text) : Takes (optional s) text none text :=
  Refuses.orElse h.map (takes_pure none text)

/-! ### Characters and words -/

/-- A character with a property is taken. -/
theorem takes_satisfying {p : Char → Bool} {c : Char} (h : p c = true) (rest : List Char) :
    Takes (satisfying p) (c :: rest) c rest := by
  show (if p c then some (c, rest) else none) = _
  rw [if_pos h]

/-- A text that stops is refused where such a character is due. -/
theorem refuses_satisfying {p : Char → Bool} (h : Stops p text) :
    Refuses (satisfying p) text := by
  cases text with
  | nil => rfl
  | cons c rest =>
      show (if p c then some (c, rest) else none) = _
      rw [h c rfl, if_neg Bool.false_ne_true]

/-- A character is taken where it stands. -/
theorem takes_char (c : Char) (rest : List Char) : Takes (char c) (c :: rest) () rest :=
  (takes_satisfying (p := (· == c)) (beq_self_eq_true c) rest).bind (takes_pure () rest)

/-- A text is refused where a character is due that it does not begin with. -/
theorem refuses_char {c : Char} (h : ∀ rest, text ≠ c :: rest) : Refuses (char c) text := by
  refine (refuses_satisfying ?_).bind
  rintro d hd
  obtain ⟨rest, rfl⟩ := List.head?_eq_some_iff.mp hd
  exact beq_eq_false_iff_ne.mpr fun hdc => h rest (by rw [hdc])

/-- A text is refused where a word is due that it does not begin with. -/
theorem refuses_word {w : String} (h : ∀ rest, text ≠ w.toList ++ rest) :
    Refuses (word w) text := by
  show (if _ then _ else _) = _
  refine if_neg fun hbegins => ?_
  obtain ⟨rest, hrest⟩ := List.isPrefixOf_iff_prefix.mp hbegins
  exact h rest hrest.symm

/-- To look for a character takes nothing. -/
theorem takes_ahead (c : Char) (text : List Char) :
    Takes (ahead c) text (text.head? == some c) text :=
  rfl

/-- A run is skipped up to where it stops. -/
theorem takes_skipWhile_of_stops {p : Char → Bool} {run : List Char}
    (hrun : ∀ c ∈ run, p c = true) (hrest : Stops p rest) :
    Takes (skipWhile p) (run ++ rest) () rest := by
  rw [Takes, skipWhile_run, dropWhile_of_stops hrun hrest]

/-- A run is taken up to where it stops. -/
theorem takes_takeWhile_of_stops {p : Char → Bool} {run : List Char}
    (hrun : ∀ c ∈ run, p c = true) (hrest : Stops p rest) :
    Takes (takeWhile p) (run ++ rest) run rest := by
  rw [Takes, takeWhile_run, takeWhile_of_stops hrun hrest, dropWhile_of_stops hrun hrest]

/-- There are no blanks to take in front of a visible character. -/
theorem takes_blanks (h : Stops isBlank text) : Takes blanks text () text := by
  rw [Takes, blanks, skipWhile_run, h.dropWhile]

/-- Digits are taken up to the number of them that is asked for. -/
theorem takes_digits {width : Nat} {run : List Char} (hwidth : 0 < width) (hne : run ≠ [])
    (hrun : ∀ c ∈ run, isDigit c = true) (hrest : Stops isDigit rest) :
    Takes (digits width) (run ++ rest) (run.take width) (run.drop width ++ rest) := by
  have htail : Stops isDigit (rest.take (width - run.length)) := by
    intro c hc
    rw [List.head?_take] at hc
    split at hc
    · cases hc
    · exact hrest c hc
  have htaken : ((run ++ rest).take width).takeWhile isDigit = run.take width := by
    rw [List.take_append]
    exact takeWhile_of_stops (fun c hc => hrun c (List.mem_of_mem_take hc)) htail
  have hdropped : (run ++ rest).drop (run.take width).length = run.drop width ++ rest := by
    rw [List.length_take, List.drop_append_of_le_length (Nat.min_le_right _ _)]
    congr 1
    rcases Nat.le_total width run.length with hle | hle
    · rw [Nat.min_eq_left hle]
    · rw [Nat.min_eq_right hle, List.drop_length, List.drop_of_length_le hle]
  have hsome : ((run ++ rest).take width).takeWhile isDigit ≠ [] := by
    rw [htaken, ne_eq, List.take_eq_nil_iff, not_or]
    exact ⟨Nat.ne_of_gt hwidth, hne⟩
  show (if _ then _ else _) = _
  rw [if_neg (by rwa [List.isEmpty_iff]), htaken, hdropped]

end Dashboard.Text.Scanner
