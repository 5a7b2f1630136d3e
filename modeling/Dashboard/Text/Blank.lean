/-!
# Blank Characters

The blank characters of a formula, of a numeric text and of a timestamp are those with
the Unicode property `White_Space`. There are twenty-five of them, in ten ranges.

## Main results

* `trimStart_append_of_blank` — blanks in front of a text do not change its trimmed form.
-/

namespace Dashboard.Text

/-- A character with the Unicode property `White_Space`. -/
def isBlank (c : Char) : Bool :=
  let n := c.toNat
  (9 ≤ n && n ≤ 13) || n == 32 || n == 0x85 || n == 0xA0 || n == 0x1680 ||
    (0x2000 ≤ n && n ≤ 0x200A) || n == 0x2028 || n == 0x2029 || n == 0x202F ||
    n == 0x205F || n == 0x3000

/-- Drops the blanks in front of a text. -/
def trimStart (text : List Char) : List Char :=
  text.dropWhile isBlank

/-- Drops the blanks on both sides of a text. -/
def trim (text : List Char) : List Char :=
  (trimStart (trimStart text).reverse).reverse

/-- Blanks in front of a text do not change its trimmed form. -/
theorem trimStart_append_of_blank {blanks : List Char} (text : List Char)
    (h : ∀ c ∈ blanks, isBlank c = true) : trimStart (blanks ++ text) = trimStart text := by
  induction blanks with
  | nil => rfl
  | cons c rest ih =>
    have hc : isBlank c = true := h c (by simp)
    have := ih fun d hd => h d (by simp [hd])
    simpa [trimStart, List.dropWhile_cons, hc] using this

end Dashboard.Text
