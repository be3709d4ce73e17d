import Liquid.Text.Blank

/-!
# Searching, replacing and splitting

Substrings are looked for from the left, and occurrences do not overlap.

* `length_dropPrefix`: what follows an occurrence is shorter.
* `joinWith_split`: joining the parts of a split with the separator gives the text back.
-/
namespace Liquid.Text

/-- What follows `p` when the text starts with it. -/
def dropPrefix? : List Char → List Char → Option (List Char)
  | [], s => some s
  | _ :: _, [] => none
  | p :: ps, c :: cs => if p = c then dropPrefix? ps cs else none

theorem dropPrefix?_eq_some {p s r : List Char} : dropPrefix? p s = some r ↔ s = p ++ r := by
  induction p generalizing s with
  | nil => simp [dropPrefix?]
  | cons a p ih =>
    cases s with
    | nil => simp [dropPrefix?]
    | cons c s =>
      by_cases h : a = c
      · simp [dropPrefix?, h, ih]
      · simp [dropPrefix?, h, Ne.symm h]

theorem length_dropPrefix {p s r : List Char} (h : dropPrefix? p s = some r) :
    r.length + p.length = s.length := by
  rw [dropPrefix?_eq_some.1 h]; simp [Nat.add_comm]

/-- The text before the first occurrence of `p`, and the text after it. -/
def splitFirst? (p : List Char) : List Char → Option (List Char × List Char)
  | [] => if p.isEmpty then some ([], []) else none
  | c :: cs =>
    match dropPrefix? p (c :: cs) with
    | some rest => some ([], rest)
    | none => (splitFirst? p cs).map fun (before, rest) => (c :: before, rest)

theorem splitFirst?_eq_some {p s b r : List Char} (h : splitFirst? p s = some (b, r)) :
    s = b ++ p ++ r := by
  induction s generalizing b with
  | nil =>
    cases p with
    | nil => simp [splitFirst?] at h; simp [h]
    | cons a p => simp [splitFirst?] at h
  | cons c cs ih =>
    rw [splitFirst?] at h
    split at h
    · rename_i rest hd
      simp only [Option.some.injEq, Prod.mk.injEq] at h
      obtain ⟨rfl, rfl⟩ := h
      simpa using dropPrefix?_eq_some.1 hd
    · simp only [Option.map_eq_some_iff, Prod.exists, Prod.mk.injEq] at h
      obtain ⟨b', r', h1, rfl, rfl⟩ := h
      rw [ih h1]; simp

theorem length_splitFirst {p s b r : List Char} (hp : ¬p = []) (h : splitFirst? p s = some (b, r)) :
    r.length < s.length := by
  have hl := congrArg List.length (splitFirst?_eq_some h)
  have := List.length_pos_iff.2 hp
  simp only [List.length_append] at hl
  omega

/-- Whether `p` occurs in the text. -/
def occursIn (p s : List Char) : Bool := (splitFirst? p s).isSome

/-- The parts of a text between the occurrences of a non-empty separator. -/
def split (sep : List Char) (s : List Char) : List (List Char) :=
  if _ : sep = [] then [s]
  else match _ : splitFirst? sep s with
    | none => [s]
    | some (before, rest) => before :: split sep rest
termination_by s.length
decreasing_by exact length_splitFirst ‹_› ‹_›

/-- Texts written one after the other with a separator between. -/
def joinWith (sep : List Char) : List (List Char) → List Char
  | [] => []
  | [part] => part
  | part :: rest => part ++ sep ++ joinWith sep rest

theorem split_ne_nil (sep s : List Char) : split sep s ≠ [] := by
  rw [split]; split
  · simp
  · split <;> simp

theorem joinWith_split (sep s : List Char) : joinWith sep (split sep s) = s := by
  fun_induction split sep s with
  | case1 => simp [joinWith]
  | case2 => simp [joinWith]
  | case3 s hs before rest h ih =>
    rw [splitFirst?_eq_some h]
    cases hr : split sep rest with
    | nil => exact absurd hr (split_ne_nil sep rest)
    | cons part parts => rw [joinWith, ← hr, ih]; simp

/-- The text with `new` written before each character and at the end. -/
def interleave (new : List Char) : List Char → List Char
  | [] => new
  | c :: cs => new ++ c :: interleave new cs

/-- The text with every occurrence of `old` replaced.  An empty `old` occurs before each character
and at the end. -/
def replace (old new s : List Char) : List Char :=
  if old = [] then interleave new s else joinWith new (split old s)

/-- The text with the first occurrence of `old` replaced. -/
def replaceFirst (old new s : List Char) : List Char :=
  match splitFirst? old s with
  | some (before, rest) => before ++ new ++ rest
  | none => s

/-- The words of a text, with `word` (in reverse) already read. -/
def wordsAux (word : List Char) : List Char → List (List Char)
  | [] => if word.isEmpty then [] else [word.reverse]
  | c :: rest =>
    if isBlank c then
      if word.isEmpty then wordsAux [] rest else word.reverse :: wordsAux [] rest
    else wordsAux (c :: word) rest

/-- The maximal runs of characters that are not blank. -/
def words (s : List Char) : List (List Char) := wordsAux [] s

end Liquid.Text
