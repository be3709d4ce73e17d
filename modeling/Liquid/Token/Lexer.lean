import Liquid.Mistake
import Liquid.Text.Search
import Liquid.Text.Word

/-!
# Reading tokens

A source is cut into plain text, outputs `{{ … }}` and tags `{% … %}`.  A `-` beside a delimiter
trims the blanks of the text on that side.  What stands inside the blocks `raw` and `comment` is one
token, whatever it holds; comments nest.

Reading works on the remaining source alone: a lexeme records the source from its own beginning on,
and every step returns a rest that is shorter, which is why reading ends.

* `Scan.shorter`: what is left behind a region is shorter than what was there.
-/
namespace Liquid

open Liquid.Text

/-- A token on the way: its kind and text, and the source from its beginning on. -/
structure Lexeme where
  kind : Token.Kind
  text : List Char
  here : List Char
  trim : Bool := false

/-- A mistake, and the source from the place where it shows. -/
structure Slip where
  mistake : Mistake
  here : List Char

/-- The two kinds of region between delimiters. -/
inductive Region where
  | output
  | tag
  deriving DecidableEq, Repr

namespace Region

/-- The opening delimiter. -/
def opener : Region → List Char
  | .output => "\x7b\x7b".toList
  | .tag => "\x7b%".toList

/-- The closing delimiter. -/
def closer : Region → List Char
  | .output => "\x7d\x7d".toList
  | .tag => "%\x7d".toList

/-- The kind of the opening delimiter. -/
def openKind : Region → Token.Kind
  | .output => .variableBegin
  | .tag => .blockBegin

/-- The kind of the closing delimiter. -/
def closeKind : Region → Token.Kind
  | .output => .variableEnd
  | .tag => .blockEnd

end Region

/-- A delimiter, perhaps with a mark to trim, and what follows it. -/
structure Mark where
  trim : Bool
  rest : List Char

namespace Lexer

/-- The closing delimiter of a region, at the beginning of the source. -/
def closing? (region : Region) : List Char → Option Mark
  | '-' :: rest => (dropPrefix? region.closer rest).map (Mark.mk true)
  | s => (dropPrefix? region.closer s).map (Mark.mk false)

theorem length_closing {region : Region} {s : List Char} {m : Mark}
    (h : closing? region s = some m) :
    m.rest.length < s.length := by
  have hc : 0 < region.closer.length := by cases region <;> decide
  unfold closing? at h
  split at h <;> simp only [Option.map_eq_some_iff] at h <;> obtain ⟨r, hr, rfl⟩ := h <;>
    have := length_dropPrefix hr <;> simp only [List.length_cons] <;> omega

/-- The closing lexeme of a region. -/
def closingLexeme (region : Region) (s : List Char) (m : Mark) : Lexeme :=
  ⟨region.closeKind, region.closer, s, m.trim⟩

/-- The first opening delimiter: the text before it, the region it opens, the source from it on,
and what follows it. -/
structure Opening where
  before : List Char
  region : Region
  here : List Char
  mark : Mark

/-- The opening delimiter at the beginning of the source. -/
def opening? (s : List Char) : Option (Region × Mark) :=
  let found (region : Region) : Option (Region × Mark) :=
    (dropPrefix? region.opener s).map fun rest =>
      match rest with
      | '-' :: rest => (region, ⟨true, rest⟩)
      | rest => (region, ⟨false, rest⟩)
  (found .output).or (found .tag)

/-- The first opening delimiter of the source. -/
def findOpening? : List Char → Option Opening
  | [] => none
  | c :: rest =>
    match opening? (c :: rest) with
    | some (region, mark) => some ⟨[], region, c :: rest, mark⟩
    | none => (findOpening? rest).map fun o => { o with before := c :: o.before }

theorem length_opening {s : List Char} {region : Region} {m : Mark}
    (h : opening? s = some (region, m)) : m.rest.length < s.length := by
  have hc (r : Region) : 0 < r.opener.length := by cases r <;> decide
  simp only [opening?, Option.or_eq_some_iff, Option.map_eq_some_iff] at h
  obtain ⟨rest, hr, h⟩ | ⟨-, rest, hr, h⟩ := h <;>
  · have hl := length_dropPrefix hr
    have := hc .output
    have := hc .tag
    split at h <;> simp only [Prod.mk.injEq] at h <;> obtain ⟨-, rfl⟩ := h <;>
      simp only [List.length_cons] at hl ⊢ <;> omega

theorem length_findOpening {s : List Char} {o : Opening} (h : findOpening? s = some o) :
    o.mark.rest.length < o.here.length ∧ o.here.length ≤ s.length := by
  induction s generalizing o with
  | nil => simp [findOpening?] at h
  | cons c rest ih =>
    rw [findOpening?] at h
    split at h
    · rename_i region mark hm
      simp only [Option.some.injEq] at h
      subst h
      exact ⟨length_opening hm, Nat.le_refl _⟩
    · simp only [Option.map_eq_some_iff] at h
      obtain ⟨o', ho', rfl⟩ := h
      have := ih ho'
      exact ⟨this.1, by simp only [List.length_cons]; omega⟩

/-! ## Inside a region -/

/-- A lexeme at the beginning of a source, and the rest. -/
structure Word (s : List Char) where
  lexeme : Lexeme
  rest : List Char
  shorter : rest.length < s.length

/-- A character that can begin a name. -/
def beginsName (c : Char) : Bool := c.isAlpha || c == '_'

/-- What can follow the first character of a name: word characters and hyphens up to the last word
character, and a question mark. -/
def nameTail (s : List Char) : List Char × List Char :=
  let run := s.takeWhile fun c => isWord c || c == '-'
  let kept := (run.reverse.dropWhile (· == '-')).reverse
  match s.drop kept.length with
  | '?' :: rest => (kept ++ ['?'], rest)
  | rest => (kept, rest)

theorem length_nameTail (s : List Char) : (nameTail s).2.length ≤ s.length := by
  unfold nameTail
  simp only []
  split
  · rename_i rest h
    have := congrArg List.length h
    simp only [List.length_drop, List.length_cons] at this ⊢
    omega
  · simp

/-- A fraction: a point and at least one digit. -/
def fraction? : List Char → Option (List Char × List Char)
  | '.' :: c :: rest =>
    if isDigit c then some ('.' :: c :: rest.takeWhile isDigit, rest.dropWhile isDigit) else none
  | _ => none

theorem length_fraction {s f r : List Char} (h : fraction? s = some (f, r)) :
    r.length < s.length := by
  unfold fraction? at h
  split at h
  · split at h
    · simp only [Option.some.injEq, Prod.mk.injEq] at h
      obtain ⟨-, rfl⟩ := h
      rename_i rest _
      have := (List.dropWhile_suffix isDigit (l := rest)).length_le
      simp only [List.length_cons]
      omega
    · simp at h
  · simp at h

/-- The operators, longer ones first. -/
def operators : List (String × Token.Kind) :=
  [("==", .equal), ("!=", .notEqual), ("<>", .notEqual), ("<=", .lessOrEqual),
    (">=", .greaterOrEqual), ("..", .range), ("<", .less), (">", .greater), ("=", .assign),
    ("|", .pipe), (":", .colon), (",", .comma), (".", .dot), ("[", .leftBracket),
    ("]", .rightBracket), ("(", .leftParen), (")", .rightParen)]

/-- An operator at the beginning of the source. -/
def operator? (s : List Char) : List (String × Token.Kind) → Option (Word s)
  | [] => none
  | (sign, kind) :: more =>
    match h : dropPrefix? sign.toList s with
    | some rest =>
      if hs : 0 < sign.toList.length then
        some ⟨⟨kind, sign.toList, s, false⟩, rest, by have := length_dropPrefix h; omega⟩
      else operator? s more
    | none => operator? s more

/-- A string at the beginning of the source, behind its opening quote. -/
def string? (quote : Char) (rest : List Char) : Option (Word (quote :: rest)) :=
  match h : splitFirst? [quote] rest with
  | some (content, rest') =>
    some ⟨⟨.string, content, quote :: rest, false⟩, rest', by
      have := length_splitFirst (by simp) h; simp only [List.length_cons]; omega⟩
  | none => none

/-- A number whose first digit is `c`. -/
def number (c : Char) (rest : List Char) (afterDot : Bool) (sign : List Char) (here : List Char)
    (hl : rest.length < here.length) : Word here :=
  let whole := sign ++ c :: rest.takeWhile isDigit
  let rest' := rest.dropWhile isDigit
  have hr : rest'.length ≤ rest.length := (List.dropWhile_suffix isDigit).length_le
  if afterDot then ⟨⟨.integer, whole, here, false⟩, rest', by omega⟩
  else
    match h : fraction? rest' with
    | some (fraction, rest'') =>
      ⟨⟨.float, whole ++ fraction, here, false⟩, rest'', by have := length_fraction h; omega⟩
    | none => ⟨⟨.integer, whole, here, false⟩, rest', by omega⟩

/-- A number at the beginning of the source.  Behind a point a number has neither sign nor
fraction. -/
def number? (afterDot : Bool) : (s : List Char) → Option (Word s)
  | [] => none
  | c :: rest =>
    if isDigit c then some (number c rest afterDot [] (c :: rest) (length_lt_cons c rest))
    else if c = '-' && !afterDot then
      match rest with
      | d :: rest' =>
        if isDigit d then some (number d rest' afterDot ['-'] (c :: d :: rest')
          (length_lt_cons_cons c d rest'))
        else none
      | [] => none
    else none

/-- A name at the beginning of the source. -/
def name? : (s : List Char) → Option (Word s)
  | [] => none
  | c :: rest =>
    if beginsName c then
      some ⟨⟨.name, c :: (nameTail rest).1, c :: rest, false⟩, (nameTail rest).2, by
        have := length_nameTail rest; simp only [List.length_cons]; omega⟩
    else none

/-- The lexeme at the beginning of a source that begins with no blank and no closing delimiter. -/
def word (afterDot : Bool) (c : Char) (rest : List Char) : Except Slip (Word (c :: rest)) :=
  if c = '"' ∨ c = '\'' then
    match string? c rest with
    | some w => pure w
    | none => throw ⟨.unterminatedString c, c :: rest⟩
  else
    match number? afterDot (c :: rest) with
    | some w => pure w
    | none =>
      match name? (c :: rest) with
      | some w => pure w
      | none =>
        match operator? (c :: rest) operators with
        | some w => pure w
        | none => throw ⟨.unexpectedCharacter c, c :: rest⟩

/-- The lexemes of a region with its closing delimiter, whether that one trims, and the rest. -/
structure Scan (s : List Char) where
  lexemes : List Lexeme
  trim : Bool
  rest : List Char
  shorter : rest.length < s.length

/-- The mistake of a region without end. -/
def unclosed (region : Region) (begin : List Char) : Slip :=
  ⟨.unclosedDelimiter (String.ofList region.opener) (String.ofList region.closer), begin⟩

/-- The lexemes up to the closing delimiter of a region that began at `begin`. -/
def inside (region : Region) (begin : List Char) (afterDot : Bool) (s : List Char) :
    Except Slip (Scan s) :=
  match h : trimStart s with
  | [] => throw (unclosed region begin)
  | c :: rest =>
    have hs : (c :: rest).length ≤ s.length := h ▸ trimStart_length_le s
    match hm : closing? region (c :: rest) with
    | some m =>
      pure ⟨[closingLexeme region (c :: rest) m], m.trim, m.rest, by
        have := length_closing hm; omega⟩
    | none => do
      let w ← word afterDot c rest
      let more ← inside region begin (w.lexeme.kind == .dot) w.rest
      pure ⟨w.lexeme :: more.lexemes, more.trim, more.rest, by
        have := more.shorter; have := w.shorter; omega⟩
termination_by s.length
decreasing_by have := w.shorter; omega

/-! ## Verbatim blocks -/

/-- A tag inside a verbatim block: the source from its opening delimiter, from its word, and from
its closing delimiter (without the mark to trim) on, both marks, and the rest. -/
structure VerbatimTag where
  here : List Char
  trimLeft : Bool
  word : List Char
  close : List Char
  trimRight : Bool
  rest : List Char

/-- What follows the opening delimiter of a tag and the blanks behind it. -/
def tagWord? (s : List Char) : Option Mark :=
  match dropPrefix? Region.tag.opener s with
  | some ('-' :: rest) => some ⟨true, trimStart rest⟩
  | some rest => some ⟨false, trimStart rest⟩
  | none => none

/-- The source from the closing delimiter without its mark on. -/
def closeOf (s : List Char) (m : Mark) : List Char := if m.trim then s.drop 1 else s

/-- The end of a raw block: a tag that holds one word and nothing else. -/
def endRaw? (s : List Char) : Option VerbatimTag := do
  let m ← tagWord? s
  let after ← dropPrefix? "endraw".toList m.rest
  let closer := trimStart after
  let c ← closing? .tag closer
  return ⟨s, m.trim, m.rest, closeOf closer c, c.trim, c.rest⟩

/-- The first closing delimiter of a region, and the source from it on. -/
def findClosing? (region : Region) : List Char → Option (List Char × Mark)
  | [] => none
  | c :: rest =>
    match closing? region (c :: rest) with
    | some m => some (c :: rest, m)
    | none => findClosing? region rest

/-- Whether no word character follows. -/
def endsWord : List Char → Bool
  | [] => true
  | c :: _ => !isWord c

/-- A tag that opens or closes a comment, whatever else it holds, and whether it closes. -/
def commentTag? (s : List Char) : Option (Bool × VerbatimTag) := do
  let m ← tagWord? s
  let (closes, after) ←
    ((dropPrefix? "endcomment".toList m.rest).map fun after => (true, after)).or
      ((dropPrefix? "comment".toList m.rest).map fun after => (false, after))
  if endsWord after then
    let (closer, c) ← findClosing? .tag after
    return (closes, ⟨s, m.trim, m.rest, closeOf closer c, c.trim, c.rest⟩)
  else none

/-- The first end of a raw block. -/
def findEndRaw? : List Char → Option VerbatimTag
  | [] => none
  | c :: rest => (endRaw? (c :: rest)).or (findEndRaw? rest)

theorem length_tagWord {s : List Char} {m : Mark} (h : tagWord? s = some m) :
    m.rest.length < s.length := by
  have hc : 0 < Region.tag.opener.length := by decide
  unfold tagWord? at h
  split at h
  · rename_i rest hd
    simp only [Option.some.injEq] at h
    have hl := length_dropPrefix hd
    have := trimStart_length_le rest
    subst h
    simp only [List.length_cons] at hl ⊢
    omega
  · rename_i rest _ hd
    simp only [Option.some.injEq] at h
    have hl := length_dropPrefix hd
    have := trimStart_length_le rest
    subst h
    simp only [] at hl ⊢
    omega
  · simp at h

theorem length_findClosing {region : Region} {s t : List Char} {m : Mark}
    (h : findClosing? region s = some (t, m)) : m.rest.length < s.length := by
  induction s with
  | nil => simp [findClosing?] at h
  | cons c rest ih =>
    rw [findClosing?] at h
    split at h
    · rename_i m' hm
      simp only [Option.some.injEq, Prod.mk.injEq] at h
      obtain ⟨-, rfl⟩ := h
      exact length_closing hm
    · have := ih h; simp only [List.length_cons]; omega

theorem length_commentTag {s : List Char} {b : Bool} {t : VerbatimTag}
    (h : commentTag? s = some (b, t)) : t.rest.length < s.length := by
  simp only [commentTag?, Option.bind_eq_bind, Option.bind_eq_some_iff, Prod.exists] at h
  obtain ⟨m, hm, closes, after, ha, h⟩ := h
  split at h
  · simp only [Option.bind_eq_some_iff, Prod.exists, Option.pure_def, Option.some.injEq,
      Prod.mk.injEq] at h
    obtain ⟨closer, c, hc, -, rfl⟩ := h
    have h1 := length_tagWord hm
    have h2 := length_findClosing hc
    have h3 : after.length ≤ m.rest.length := by
      simp only [Option.or_eq_some_iff, Option.map_eq_some_iff, Prod.mk.injEq] at ha
      obtain ⟨x, hx, -, rfl⟩ | ⟨-, x, hx, -, rfl⟩ := ha <;>
        have := length_dropPrefix hx <;> omega
    simp only []
    omega
  · simp at h

/-- The end of a comment inside which `depth` further comments are open. -/
def findEndComment? (depth : Nat) (s : List Char) : Option VerbatimTag :=
  match _ : s with
  | [] => none
  | c :: rest =>
    match h : commentTag? (c :: rest) with
    | some (true, t) =>
      match depth with
      | 0 => some t
      | depth + 1 => findEndComment? depth t.rest
    | some (false, t) => findEndComment? (depth + 1) t.rest
    | none => findEndComment? depth rest
termination_by s.length
decreasing_by
  · exact length_commentTag h
  · exact length_commentTag h
  · simp

theorem length_endRaw {s : List Char} {t : VerbatimTag} (h : endRaw? s = some t) :
    t.rest.length < s.length := by
  simp only [endRaw?, Option.bind_eq_bind, Option.bind_eq_some_iff, Option.pure_def,
    Option.some.injEq] at h
  obtain ⟨m, hm, after, ha, c, hc, rfl⟩ := h
  have h1 := length_tagWord hm
  have h2 := length_dropPrefix ha
  have h3 := trimStart_length_le after
  have h4 := length_closing hc
  simp only []
  omega

theorem length_findEndRaw {s : List Char} {t : VerbatimTag} (h : findEndRaw? s = some t) :
    t.rest.length < s.length := by
  induction s with
  | nil => simp [findEndRaw?] at h
  | cons c rest ih =>
    simp only [findEndRaw?, Option.or_eq_some_iff] at h
    rcases h with h | ⟨-, h⟩
    · exact length_endRaw h
    · have := ih h; simp only [List.length_cons]; omega

theorem length_findEndComment {depth : Nat} {s : List Char} {t : VerbatimTag}
    (h : findEndComment? depth s = some t) : t.rest.length < s.length := by
  fun_induction findEndComment? depth s with
  | case1 => simp at h
  | case2 c rest t' ht =>
    simp only [Option.some.injEq] at h
    subst h
    exact length_commentTag ht
  | case3 c rest t' ht d ih =>
    have := ih h; have := length_commentTag ht; omega
  | case4 d c rest t' ht ih =>
    have := ih h; have := length_commentTag ht; omega
  | case5 d c rest ht ih =>
    have := ih h; simp only [List.length_cons]; omega

/-- The two blocks whose content is not read. -/
inductive Verbatim where
  | raw
  | comment
  deriving DecidableEq, Repr

/-- The end of a verbatim block. -/
def Verbatim.findEnd? : Verbatim → List Char → Option VerbatimTag
  | .raw => findEndRaw?
  | .comment => findEndComment? 0

/-- The keyword of a verbatim block. -/
def Verbatim.keyword : Verbatim → String
  | .raw => "raw"
  | .comment => "comment"

/-- The mistake of a verbatim block without end. -/
def Verbatim.unclosed : Verbatim → Mistake
  | .raw => .unclosedVerbatim "raw" "raw"
  | .comment => .unclosedVerbatim "comment" "commented"

theorem Verbatim.length_findEnd {v : Verbatim} {s : List Char} {t : VerbatimTag}
    (h : v.findEnd? s = some t) : t.rest.length < s.length := by
  cases v
  · exact length_findEndRaw h
  · exact length_findEndComment h

/-- A text without the blanks at those of its ends that are to be trimmed. -/
def trimmed (left right : Bool) (s : List Char) : List Char :=
  let s := if left then trimStart s else s
  if right then trimEnd s else s

/-- The content of a verbatim block and its end tag. -/
def verbatimLexemes (v : Verbatim) (trim : Bool) (s : List Char) (t : VerbatimTag) : List Lexeme :=
  [⟨.raw, trimmed trim t.trimLeft (s.take (s.length - t.here.length)), s, false⟩,
    ⟨.blockBegin, Region.tag.opener, t.here, t.trimLeft⟩,
    ⟨.name, ("end" ++ v.keyword).toList, t.word, false⟩,
    ⟨.blockEnd, Region.tag.closer, t.close, t.trimRight⟩]

/-! ## Regions and text -/

/-- The verbatim block that a tag with these lexemes opens, the closing delimiter included. -/
def verbatim? : List Lexeme → Option Verbatim
  | first :: rest =>
    if first.kind = .name then
      if first.text = "comment".toList then some .comment
      else if first.text = "raw".toList ∧ rest.length = 1 then some .raw
      else none
    else none
  | [] => none

/-- A tag that began at `begin`, with the verbatim block that it opens. -/
def tagRegion (begin s : List Char) : Except Slip (Scan s) := do
  let r ← inside .tag begin false s
  match verbatim? r.lexemes with
  | none => pure r
  | some v =>
    match h : v.findEnd? r.rest with
    | none => throw ⟨v.unclosed, begin⟩
    | some t =>
      pure ⟨r.lexemes ++ verbatimLexemes v r.trim r.rest t, t.trimRight, t.rest, by
        have := Verbatim.length_findEnd h; have := r.shorter; omega⟩

/-- A note: `#` and whatever follows up to the closing delimiter. -/
def noteRegion (begin s rest : List Char) (hl : rest.length < s.length) : Except Slip (Scan s) :=
  match h : findClosing? .tag rest with
  | none => throw (unclosed .tag begin)
  | some (closer, m) =>
    pure ⟨[⟨.name, ['#'], '#' :: rest, false⟩,
      ⟨.raw, trim (rest.take (rest.length - closer.length)), rest, false⟩,
      closingLexeme .tag closer m], m.trim, m.rest, by have := length_findClosing h; omega⟩

/-- The lexemes behind an opening delimiter. -/
def region (r : Region) (begin s : List Char) : Except Slip (Scan s) :=
  match r with
  | .output => inside .output begin false s
  | .tag =>
    match h : trimStart s with
    | '#' :: rest => noteRegion begin s rest (by
        have := trimStart_length_le s; rw [h] at this; simp only [List.length_cons] at this; omega)
    | _ => tagRegion begin s

/-- Plain text, which leaves no lexeme when nothing of it is left. -/
def data (left right : Bool) (text here : List Char) : List Lexeme :=
  match trimmed left right text with
  | [] => []
  | text => [⟨.data, text, here, false⟩]

/-- The lexemes of a source; `trim` tells whether the region before it asks for trimming. -/
def lexemes (trim : Bool) (s : List Char) : Except Slip (List Lexeme) :=
  match h : findOpening? s with
  | none => pure (data trim false s s ++ [⟨.eof, [], [], false⟩])
  | some o => do
    let r ← region o.region o.here o.mark.rest
    let more ← lexemes r.trim r.rest
    return data trim o.mark.trim o.before s ++
      ⟨o.region.openKind, o.region.opener, o.here, o.mark.trim⟩ :: (r.lexemes ++ more)
termination_by s.length
decreasing_by have := length_findOpening h; have := r.shorter; omega

end Lexer

/-- A lexeme as a token, given the places of its source. -/
def Lexeme.toToken (places : Array Position) (l : Lexeme) : Token :=
  ⟨l.kind, String.ofList l.text, Position.among places l.here, l.trim⟩

theorem Lexeme.position_toToken (source : List Char) (l : Lexeme) :
    (l.toToken (Position.places source)).position = Position.of source l.here :=
  Position.among_places source l.here

/-- The tokens of a source, the last of which marks its end. -/
def tokenize (source : String) : Except Misplaced (List Token) :=
  let s := source.toList
  match Lexer.lexemes false s with
  | .ok ls => .ok (ls.map (Lexeme.toToken (Position.places s)))
  | .error slip => .error ⟨slip.mistake, Position.of s slip.here⟩

end Liquid
