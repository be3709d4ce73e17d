import Liquid.Fault

/-!
# Colours on the terminal

Diagnostics are coloured with escape sequences, but only where colours are wanted.  Everything here
takes a switch `colour`; when it is off, no text is changed.

* `paint_off`: without colours the text stays as it is.
-/
namespace Liquid

/-- The styles of a text. -/
inductive Style where
  | reset
  | bold
  | dim
  | cyan
  | green
  | yellow
  | brightRed
  | brightGreen
  deriving DecidableEq, Repr

namespace Style

/-- The escape sequence that begins a style. -/
def sequence : Style → String
  | .reset => "\x1b[0m"
  | .bold => "\x1b[1m"
  | .dim => "\x1b[2m"
  | .cyan => "\x1b[36m"
  | .green => "\x1b[32m"
  | .yellow => "\x1b[33m"
  | .brightRed => "\x1b[91m"
  | .brightGreen => "\x1b[92m"

/-- The style with a given name. -/
def ofName? : String → Option Style
  | "reset" => some .reset
  | "bold" => some .bold
  | "dim" => some .dim
  | "cyan" => some .cyan
  | "green" => some .green
  | "yellow" => some .yellow
  | "bright_red" => some .brightRed
  | "bright_green" => some .brightGreen
  | _ => none

end Style

namespace Paint

/-- A text in some styles. -/
def paint (colour : Bool) (styles : List Style) (text : String) : String :=
  if colour && !styles.isEmpty then
    String.join (styles.map Style.sequence) ++ text ++ Style.reset.sequence
  else text

theorem paint_off (styles : List Style) (text : String) : paint false styles text = text := rfl

/-- A text in styles that are given by name; names count only when colours are wanted. -/
def paintNamed (colour : Bool) (names : List String) (text : String) : Except Fault String :=
  if colour then
    match names.mapM Style.ofName? with
    | some styles => pure (paint true styles text)
    | none => throw { kind := .missingKey }
  else pure text

/-- The parameter bytes of an escape sequence, the bytes between, and its final byte. -/
def sequenceTail? (s : List Char) : Option (List Char) :=
  let between (low high : Nat) (c : Char) : Bool := low ≤ c.toNat && c.toNat ≤ high
  match (s.dropWhile (between 0x30 0x3f)).dropWhile (between 0x20 0x2f) with
  | c :: rest => if between 0x40 0x7e c then some rest else none
  | [] => none

theorem length_sequenceTail {s r : List Char} (h : sequenceTail? s = some r) :
    r.length < s.length := by
  unfold sequenceTail? at h
  simp only [] at h
  split at h
  · rename_i c rest he
    have h1 := (List.dropWhile_suffix
      (fun c : Char => 0x30 ≤ c.toNat && c.toNat ≤ 0x3f) (l := s)).length_le
    have h2 := (List.dropWhile_suffix (fun c : Char => 0x20 ≤ c.toNat && c.toNat ≤ 0x2f)
      (l := s.dropWhile fun c : Char => 0x30 ≤ c.toNat && c.toNat ≤ 0x3f)).length_le
    rw [he] at h2
    simp only [List.length_cons] at h2
    split at h
    · simp only [Option.some.injEq] at h; subst h; omega
    · simp at h
  · simp at h

/-- The text without its escape sequences. -/
def strip (s : List Char) : List Char :=
  match s with
  | [] => []
  | c :: rest =>
    if c = '\x1b' then
      match rest with
      | '[' :: more =>
        match _ : sequenceTail? more with
        | some after => strip after
        | none => c :: strip ('[' :: more)
      | more => c :: strip more
    else c :: strip rest
termination_by s.length
decreasing_by
  · have := length_sequenceTail ‹_›
    simp only [List.length_cons]
    omega
  all_goals
    simp only [List.length_cons]
    omega

/-- An error code. -/
def code (colour : Bool) (text : String) : String := paint colour [.brightRed, .bold] text

/-- A place in a template. -/
def location (colour : Bool) (text : String) : String := paint colour [.cyan] text

/-- The word before a hint. -/
def hint (colour : Bool) (text : String) : String := paint colour [.green] text

/-- A suggested name. -/
def suggestion (colour : Bool) (text : String) : String := paint colour [.brightGreen, .bold] text

/-- What matters less. -/
def dim (colour : Bool) (text : String) : String := paint colour [.dim] text

/-- A message behind its code, if there is one. -/
def header (colour : Bool) (codeText message : String) : String :=
  if codeText = "" then message else code colour codeText ++ ": " ++ message

/-- A number in a column of at least three places. -/
def column (n : Int) : String :=
  let s := toString n
  String.ofList (List.replicate (3 - s.length) ' ') ++ s

/-- A numbered line of a source; the line with the error is marked. -/
def sourceLine (colour : Bool) (number : Int) (content : String) (isError : Bool) : String :=
  paint colour [.yellow] ((if isError then ">" else " ") ++ column number) ++ " | " ++
    (if isError then paint colour [.brightRed] content else dim colour content)

/-- Whether colours are wanted: forced, forbidden, or because a terminal shows them. -/
def wanted (force forbid : Option String) (terminal : Bool) : Bool :=
  if (force.getD "") ≠ "" then true else if (forbid.getD "") ≠ "" then false else terminal

end Paint

end Liquid
