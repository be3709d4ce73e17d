/-!
# Lines

Cutting a text into lines at every kind of line break: line feed, carriage return (with or
without a line feed), vertical tab, form feed, the separators `\x1c … \x1e`, next line, and the
Unicode line and paragraph separators.

* `splitLines_of_forall`: a text without breaks is one line.
-/
namespace Liquid.Text

/-- The characters that end a line. -/
def isLineBreak (c : Char) : Bool :=
  let n := c.toNat
  (10 ≤ n && n ≤ 13) || (28 ≤ n && n ≤ 30) || n == 0x85 || n == 0x2028 || n == 0x2029

/-- The lines of `s`, with `line` (in reverse) already read; a break at the very end opens no
further line. -/
def splitLinesAux (line : List Char) : List Char → List (List Char)
  | [] => if line.isEmpty then [] else [line.reverse]
  | '\r' :: '\n' :: rest => line.reverse :: splitLinesAux [] rest
  | c :: rest =>
    if isLineBreak c then line.reverse :: splitLinesAux [] rest else splitLinesAux (c :: line) rest

/-- The lines of a text, without their breaks. -/
def splitLines (s : List Char) : List (List Char) := splitLinesAux [] s

theorem splitLinesAux_of_forall (line s : List Char) (h : ∀ c ∈ s, isLineBreak c = false)
    (hne : line ≠ [] ∨ s ≠ []) : splitLinesAux line s = [line.reverse ++ s] := by
  induction s generalizing line with
  | nil =>
    cases line with
    | nil => simp at hne
    | cons c l => simp [splitLinesAux]
  | cons c rest ih =>
    have hc := h c (by simp)
    have hcr : c ≠ '\r' := by rintro rfl; exact absurd hc (by decide)
    rw [splitLinesAux]
    · rw [if_neg (by simp [hc]), ih _ (fun d hd => h d (by simp [hd])) (by simp)]
      simp
    · intro _ he
      exact absurd he hcr

theorem splitLines_of_forall (s : List Char) (h : ∀ c ∈ s, isLineBreak c = false) (hne : s ≠ []) :
    splitLines s = [s] := by
  simpa [splitLines] using splitLinesAux_of_forall [] s h (Or.inr hne)

/-- Line feeds alone: every other spelling of a line end becomes one. -/
def normalizeNewlines : List Char → List Char
  | [] => []
  | '\r' :: '\n' :: rest => '\n' :: normalizeNewlines rest
  | '\r' :: rest => '\n' :: normalizeNewlines rest
  | c :: rest => c :: normalizeNewlines rest

end Liquid.Text
