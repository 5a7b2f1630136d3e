/-!
# Shortest Decimals

Every positive finite double is `m * 2 ^ q`. The reals that are read back as this double
form an interval around it; its ends belong to it exactly when `m` is even, because
reading breaks ties to even. The text of a double uses the fewest decimal digits that lie
in this interval, and among those the nearest to the double. Two candidates can be equally
near, as `0.2` and `0.3` are to a quarter above `2 ^ 50`; which of them is written is up to
the reader the text is for, so the rule for such a tie is a parameter.

All comparisons are made between natural numbers. With `num / den = 2 ^ (q - 2) / 10 ^ k`,
a number `x` of quarters of the double's unit lies below `c * 10 ^ k` exactly when
`x * num < c * den`.

## Main results

* `Grid.hit?_holds` — a hit on a decimal grid lies in the interval.
-/

namespace Dashboard.Decimal

/-- The positive number `mantissa * 2 ^ exponent`. -/
structure Dyadic where
  mantissa : Nat
  exponent : Int
  deriving DecidableEq, Repr

/-- The number `digits * 10 ^ exponent`. -/
structure Digits where
  digits : Nat
  exponent : Int
  deriving DecidableEq, Repr

/-! ### The interval of a double -/

/-- The lower end of the interval, in quarters of the unit `2 ^ exponent`. Below a power
of two the neighbour is only half a unit away, except below the smallest normal double. -/
def Dyadic.lower (v : Dyadic) : Nat :=
  if v.mantissa = Nat.pow 2 52 ∧ -1074 < v.exponent then 4 * v.mantissa - 1
  else 4 * v.mantissa - 2

/-- The upper end of the interval, in quarters of the unit `2 ^ exponent`. -/
def Dyadic.upper (v : Dyadic) : Nat :=
  4 * v.mantissa + 2

/-! ### Decimal grids -/

/-- Which of two equally near candidates is written. -/
inductive Tie where
  /-- The larger one. -/
  | up
  /-- The one whose last digit is even. -/
  | even
  deriving DecidableEq, Repr

/-- The candidate above `below` is preferred to the equally near `below`. -/
def Tie.TakesUpper (tie : Tie) (below : Nat) : Prop :=
  match tie with
  | .up => True
  | .even => below % 2 = 1

instance (tie : Tie) (below : Nat) : Decidable (tie.TakesUpper below) := by
  unfold Tie.TakesUpper; cases tie <;> infer_instance

/-- The ratio between a quarter of a double's unit and a power of ten. -/
structure Grid where
  num : Nat
  den : Nat

/-- The grid of the multiples of `10 ^ k`. -/
def Grid.of (v : Dyadic) (k : Int) : Grid where
  num := Nat.pow 2 (v.exponent - 2).toNat * Nat.pow 10 (-k).toNat
  den := Nat.pow 10 k.toNat * Nat.pow 2 (2 - v.exponent).toNat

/-- The grid point `c` is read back as the double. -/
def Grid.Holds (g : Grid) (v : Dyadic) (c : Nat) : Prop :=
  if v.mantissa % 2 = 0 then v.lower * g.num ≤ c * g.den ∧ c * g.den ≤ v.upper * g.num
  else v.lower * g.num < c * g.den ∧ c * g.den < v.upper * g.num

instance (g : Grid) (v : Dyadic) (c : Nat) : Decidable (g.Holds v c) := by
  unfold Grid.Holds; infer_instance

/-- The grid point that is read back as the double: the nearer of the double's two
neighbours on the grid if both are. -/
def Grid.hit? (g : Grid) (v : Dyadic) (tie : Tie) : Option Nat :=
  let exact := 4 * v.mantissa * g.num
  let below := exact / g.den
  let toLower := exact - below * g.den
  let toUpper := (below + 1) * g.den - exact
  if g.Holds v below then
    if g.Holds v (below + 1) ∧
        (toUpper < toLower ∨ toUpper = toLower ∧ tie.TakesUpper below) then
      some (below + 1)
    else some below
  else if g.Holds v (below + 1) then some (below + 1)
  else none

/-- A hit on a grid lies in the interval of the double. -/
theorem Grid.hit?_holds {g : Grid} {v : Dyadic} {tie : Tie} {c : Nat}
    (h : g.hit? v tie = some c) :
    g.Holds v c := by
  unfold hit? at h
  simp only at h
  split at h
  · split at h <;> simp_all
  · split at h <;> simp_all

/-! ### The shortest digits -/

/-- The number of decimal digits of a natural number. -/
def digitCount (n : Nat) : Nat :=
  (Nat.toDigits 10 n).length

/-- The power of ten of the leading decimal digit. -/
def Dyadic.leading (v : Dyadic) : Int :=
  let num := v.mantissa * Nat.pow 2 v.exponent.toNat
  let den := Nat.pow 2 (-v.exponent).toNat
  if den ≤ num then (digitCount (num / den) : Int) - 1
  else -(digitCount ((den - 1) / num) : Int)

/-- The first grid with a hit, from the grid of `10 ^ k` on, going down at most the given
number of powers of ten. -/
def Dyadic.search (v : Dyadic) (tie : Tie) (k : Int) : Nat → Option Digits
  | 0 => none
  | tries + 1 =>
    match (Grid.of v k).hit? v tie with
    | some c => some ⟨c, k⟩
    | none => v.search tie (k - 1) tries

/-- Moves the zeros that end the digits into the exponent, at most the given number. -/
def Digits.trimZeros (d : Digits) : Nat → Digits
  | 0 => d
  | n + 1 =>
    if d.digits % 10 = 0 ∧ d.digits ≠ 0 then
      Digits.trimZeros ⟨d.digits / 10, d.exponent + 1⟩ n
    else d

/-- The shortest digits of a double. Seventeen always suffice, so the exact floor on the
last grid is never needed. -/
def Dyadic.shortest (v : Dyadic) (tie : Tie) : Digits :=
  match v.search tie v.leading 17 with
  | some d => d.trimZeros 17
  | none => ⟨4 * v.mantissa * (Grid.of v (v.leading - 16)).num / (Grid.of v (v.leading - 16)).den,
      v.leading - 16⟩

end Dashboard.Decimal
