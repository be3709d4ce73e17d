import Liquid.Text.Search
import Liquid.Text.Word

/-!
# HTML in text

Escaping the five characters that have a meaning in HTML, with and without respect for entities
that are already there, and removing tags.

* `escape_append`: escaping works character by character.
* `length_dropTag`: what follows a tag is shorter.
-/
namespace Liquid.Text.Html

/-- One character, written as an entity if it has a meaning in HTML. -/
def escapeChar (c : Char) : List Char :=
  if c = '&' then "&amp;".toList
  else if c = '<' then "&lt;".toList
  else if c = '>' then "&gt;".toList
  else if c = '"' then "&quot;".toList
  else if c = '\'' then "&#39;".toList
  else [c]

/-- The text with every special character escaped. -/
def escape (s : List Char) : List Char := s.flatMap escapeChar

theorem escape_append (s t : List Char) : escape (s ++ t) = escape s ++ escape t :=
  List.flatMap_append

/-- ASCII letters. -/
def isLetter (c : Char) : Bool := c.isAlpha

/-- ASCII hexadecimal digits. -/
def isHexDigit (c : Char) : Bool := c.isDigit || ('a' ≤ c && c ≤ 'f') || ('A' ≤ c && c ≤ 'F')

/-- Whether the text is a run of one or more characters of the class `p` and then a semicolon. -/
def isRunThenSemicolon (p : Char → Bool) : List Char → Bool
  | c :: rest => p c && (rest.dropWhile p).head? == some ';'
  | [] => false

/-- Whether the text is the rest of an entity: a name, or a decimal or hexadecimal number, and a
semicolon. -/
def isEntityBody : List Char → Bool
  | '#' :: 'x' :: rest => isRunThenSemicolon isHexDigit rest
  | '#' :: 'X' :: rest => isRunThenSemicolon isHexDigit rest
  | '#' :: rest => isRunThenSemicolon isDigit rest
  | c :: rest => isLetter c && (rest.dropWhile Char.isAlphanum).head? == some ';'
  | [] => false

/-- The text with its special characters escaped, except ampersands that begin an entity. -/
def escapeOnce : List Char → List Char
  | [] => []
  | c :: rest => (if c = '&' && isEntityBody rest then [c] else escapeChar c) ++ escapeOnce rest

/-- A letter without its case, for comparison with a lower-case ASCII letter: the long s counts as
an s, the dotless and the dotted i as an i, and the Kelvin sign as a k. -/
def plainLetter (c : Char) : Char :=
  if c.toNat < 128 then c.toLower
  else if c.toNat = 0x17f then 's'
  else if c.toNat = 0x130 ∨ c.toNat = 0x131 then 'i'
  else if c.toNat = 0x212a then 'k'
  else c

/-- What follows the word `p` (in lower case) when the text starts with it in any case. -/
def dropWord? : List Char → List Char → Option (List Char)
  | [], s => some s
  | _ :: _, [] => none
  | p :: ps, c :: cs => if p = plainLetter c then dropWord? ps cs else none

/-- What follows the first occurrence of the word `p` in any case. -/
def dropThroughWord? (p : List Char) : List Char → Option (List Char)
  | [] => dropWord? p []
  | c :: cs =>
    match dropWord? p (c :: cs) with
    | some rest => some rest
    | none => dropThroughWord? p cs

/-- What follows an element written `opening … closing`. -/
def dropElement? (opening closing : String) (s : List Char) : Option (List Char) :=
  (dropWord? opening.toList s).bind (dropThroughWord? closing.toList)

/-- What follows the tag that the text starts with: a whole script, style or comment, or whatever
stands between angle brackets. -/
def dropTag? (s : List Char) : Option (List Char) :=
  (dropElement? "<script" "</script>" s).or <|
  (dropElement? "<style" "</style>" s).or <|
  (dropElement? "<!--" "-->" s).or <|
  dropElement? "<" ">" s

theorem length_dropWord {p s r : List Char} (h : dropWord? p s = some r) :
    r.length + p.length = s.length := by
  induction p generalizing s with
  | nil => simp [dropWord?] at h; simp [h]
  | cons a p ih =>
    cases s with
    | nil => simp [dropWord?] at h
    | cons c s =>
      rw [dropWord?] at h
      split at h
      · have := ih h; simp; omega
      · cases h

theorem length_dropThroughWord {p s r : List Char} (h : dropThroughWord? p s = some r) :
    r.length ≤ s.length := by
  induction s with
  | nil => have := length_dropWord h; omega
  | cons c s ih =>
    rw [dropThroughWord?] at h
    split at h
    · rename_i h'
      cases h
      have := length_dropWord h'; omega
    · have := ih h; simp; omega

theorem length_dropElement {opening closing : String} {s r : List Char}
    (ho : 0 < opening.toList.length) (h : dropElement? opening closing s = some r) :
    r.length < s.length := by
  simp only [dropElement?, Option.bind_eq_some_iff] at h
  obtain ⟨m, h1, h2⟩ := h
  have := length_dropWord h1
  have := length_dropThroughWord h2
  omega

theorem length_dropTag {s r : List Char} (h : dropTag? s = some r) : r.length < s.length := by
  simp only [dropTag?, Option.or_eq_some_iff] at h
  rcases h with h | ⟨-, h | ⟨-, h | ⟨-, h⟩⟩⟩ <;> exact length_dropElement (by decide) h

/-- The text without its tags. -/
def stripTags (s : List Char) : List Char :=
  match s with
  | [] => []
  | c :: rest =>
    match _ : dropTag? (c :: rest) with
    | some after => stripTags after
    | none => c :: stripTags rest
termination_by s.length
decreasing_by
  · exact length_dropTag ‹_›
  · simp

end Liquid.Text.Html
