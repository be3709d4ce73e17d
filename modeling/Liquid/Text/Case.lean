import Liquid.Text.CaseTable

/-!
# Upper case, lower case and case folding

Full Unicode case mapping: a character may become several, and a capital sigma at the end of a
word takes its final form.  Folding is the form in which texts are compared without regard to
case.

* `upper_append`, `fold_append`: both work character by character.
-/
namespace Liquid.Text

/-- The character a table of rows moves `c` to, or `c` itself. -/
def shiftBy (rows : List CaseRow) (c : Char) : Char :=
  match rows.findSome? (CaseRow.shift? c.toNat) with
  | some d => Char.ofNat (c.toNat + d).toNat
  | none => c

/-- The upper case of one character. -/
def upperChar (c : Char) : List Char :=
  if c.toNat < 128 then [c.toUpper]
  else match upperLong.lookup c.toNat with
    | some codes => codes.map Char.ofNat
    | none => [shiftBy upperRows c]

/-- The lower case of one character, wherever it stands. -/
def lowerChar (c : Char) : List Char :=
  if c.toNat < 128 then [c.toLower]
  else if c.toNat = 0x130 then ['i', Char.ofNat 0x307]
  else [shiftBy lowerRows c]

/-- The folded form of one character. -/
def foldChar (c : Char) : List Char :=
  if c.toNat < 128 then [c.toLower]
  else match foldLong.lookup c.toNat with
    | some codes => codes.map Char.ofNat
    | none =>
      match foldRows.findSome? (CaseRow.shift? c.toNat) with
      | some d => [Char.ofNat (c.toNat + d).toNat]
      | none => lowerChar c

/-- Whether the first character that case rules do not pass over has case. -/
def startsCased (s : List Char) : Bool :=
  match s.dropWhile fun c => caseIgnorableSpans.mem c.toNat with
  | c :: _ => casedSpans.mem c.toNat
  | [] => false

/-- The lower case of what follows `before` (given in reverse).  A capital sigma after a letter
and before none is final. -/
def lowerAfter (before : List Char) : List Char → List Char
  | [] => []
  | c :: rest =>
    (if c.toNat = 0x3a3 then
      [Char.ofNat (if startsCased before && !startsCased rest then 0x3c2 else 0x3c3)]
    else lowerChar c) ++ lowerAfter (c :: before) rest

/-- The upper case of a text. -/
def upper (s : List Char) : List Char := s.flatMap upperChar

/-- The lower case of a text. -/
def lower (s : List Char) : List Char := lowerAfter [] s

/-- The folded form of a text. -/
def fold (s : List Char) : List Char := s.flatMap foldChar

/-- The first character in upper case and the rest in lower case. -/
def capitalize : List Char → List Char
  | [] => []
  | c :: rest => upperChar c ++ lower rest

theorem upper_append (s t : List Char) : upper (s ++ t) = upper s ++ upper t :=
  List.flatMap_append

theorem fold_append (s t : List Char) : fold (s ++ t) = fold s ++ fold t :=
  List.flatMap_append

end Liquid.Text
