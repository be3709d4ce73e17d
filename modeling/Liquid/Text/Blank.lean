/-!
# Blanks

Which characters count as white space, and trimming them off a text.

* `isBlank_of_isWhitespace`: every blank of the core library is one here.
* `trimStart_eq`, `trimEnd_append`: what trimming removes.
-/
namespace Liquid.Text

/-- White space: the ASCII controls `\t … \r` and `\x1c … \x1f`, the space, and the Unicode
spaces and line breaks. -/
def isBlank (c : Char) : Bool :=
  let n := c.toNat
  (9 ≤ n && n ≤ 13) || (28 ≤ n && n ≤ 32) || n == 0x85 || n == 0xa0 || n == 0x1680 ||
    (0x2000 ≤ n && n ≤ 0x200a) || n == 0x2028 || n == 0x2029 || n == 0x202f || n == 0x205f ||
    n == 0x3000

/-- The text without its leading blanks. -/
def trimStart (s : List Char) : List Char := s.dropWhile isBlank

/-- The text without its trailing blanks. -/
def trimEnd (s : List Char) : List Char := (s.reverse.dropWhile isBlank).reverse

/-- The text without its leading and trailing blanks. -/
def trim (s : List Char) : List Char := trimEnd (trimStart s)

theorem isBlank_of_isWhitespace (c : Char) (h : c.isWhitespace = true) : isBlank c = true := by
  simp only [Char.isWhitespace, Bool.or_eq_true, decide_eq_true_eq] at h
  rcases h with ((rfl | rfl) | rfl) | rfl <;> rfl

theorem trimStart_eq (s : List Char) : s.takeWhile isBlank ++ trimStart s = s :=
  List.takeWhile_append_dropWhile

theorem trimStart_length_le (s : List Char) : (trimStart s).length ≤ s.length :=
  (List.dropWhile_suffix isBlank).length_le

/-- What trimming the end takes off is a run of blanks. -/
theorem trimEnd_append (s : List Char) :
    ∃ w : List Char, trimEnd s ++ w = s ∧ ∀ c ∈ w, isBlank c = true := by
  refine ⟨(s.reverse.takeWhile isBlank).reverse, ?_, ?_⟩
  · rw [trimEnd, ← List.reverse_append, List.takeWhile_append_dropWhile, List.reverse_reverse]
  · intro c hc
    exact List.all_eq_true.1 (List.all_takeWhile (p := isBlank)) c (List.mem_reverse.1 hc)

end Liquid.Text
