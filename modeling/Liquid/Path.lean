import Liquid.Number.Reader
import Liquid.Text.Blank
import Liquid.Text.Quoted
import Liquid.Text.Search
import Liquid.Value.Segment

/-!
# Paths

A path such as `items[0].name` names a variable and the steps from its value: names and digits
behind points, and positions and quoted keys in brackets.

* `Segment.toValue_key`: a name is looked up as a text.
-/
namespace Liquid

open Liquid.Text

/-- A step of a path. -/
inductive Segment where
  | key (text : String)
  | position (n : Int)
  deriving DecidableEq, Repr

/-- What a step asks for, as a value. -/
def Segment.toValue : Segment → Value
  | .key text => .text text
  | .position n => .int n

theorem Segment.toValue_key (text : String) : (key text).toValue = .text text := rfl

/-- A path: the name of a variable and the steps from its value. -/
structure Path where
  name : String
  segments : List Segment
  deriving DecidableEq, Repr

/-- A text that is no path. -/
structure MalformedPath where
  text : String

/-- What is said of a text that is no path. -/
def MalformedPath.message (e : MalformedPath) : String := "Invalid variable path: " ++ quoted e.text

namespace Path

/-- A name at the beginning of a text, and the rest. -/
def name? : List Char → Option (String × List Char)
  | [] => none
  | c :: rest =>
    if c.isAlpha || c == '_' then
      let run := rest.takeWhile fun c => isWord c || c == '-'
      match rest.dropWhile fun c => isWord c || c == '-' with
      | '?' :: rest => some (String.ofList (c :: run ++ ['?']), rest)
      | rest => some (String.ofList (c :: run), rest)
    else none

/-- Digits at the beginning of a text, as a number, and the rest. -/
def digits? (s : List Char) : Option (Int × List Char) :=
  match s.takeWhile isDigit with
  | [] => none
  | ds => some ((Number.readInt? ds).getD 0, s.dropWhile isDigit)

/-- Digits, perhaps behind a minus, as a number, and the rest. -/
def signedDigits? : List Char → Option (Int × List Char)
  | '-' :: s => (digits? s).map fun (n, rest) => (-n, rest)
  | s => digits? s

/-- A position in brackets, behind the opening one. -/
def position? (s : List Char) : Option (Int × List Char) :=
  match signedDigits? s with
  | some (n, ']' :: rest) => some (n, rest)
  | _ => none

/-- A key in brackets, behind its opening quote: it holds no line feed and ends at the first quote
with a closing bracket behind it. -/
def quotedKey? (quote : Char) (s : List Char) : Option (List Char × List Char) := do
  let (key, rest) ← splitFirst? [quote, ']'] s
  if '\n' ∈ key then none else some (key, rest)

/-- A step at the beginning of a text, and the rest. -/
def segment? : List Char → Option (Segment × List Char)
  | '.' :: rest =>
    match name? rest with
    | some (name, rest) => some (.key name, rest)
    | none => (digits? rest).map fun (n, rest) => (.position n, rest)
  | '[' :: rest =>
    match position? rest with
    | some (n, rest) => some (.position n, rest)
    | none =>
      match rest with
      | c :: rest =>
        if c = '"' ∨ c = '\'' then
          (quotedKey? c rest).map fun (key, rest) => (.key (String.ofList key), rest)
        else none
      | [] => none
  | _ => none

theorem length_name {s r : List Char} {n : String} (h : name? s = some (n, r)) :
    r.length < s.length := by
  cases s with
  | nil => simp [name?] at h
  | cons c rest =>
    have hl := (List.dropWhile_suffix (fun c => isWord c || c == '-') (l := rest)).length_le
    simp only [name?] at h
    split at h
    · split at h <;> simp only [Option.some.injEq, Prod.mk.injEq] at h <;>
        obtain ⟨-, rfl⟩ := h <;> simp_all only [List.length_cons] <;> omega
    · cases h

theorem length_digits {s r : List Char} {n : Int} (h : digits? s = some (n, r)) :
    r.length ≤ s.length := by
  unfold digits? at h
  split at h
  · cases h
  · simp only [Option.some.injEq, Prod.mk.injEq] at h
    obtain ⟨-, rfl⟩ := h
    exact (List.dropWhile_suffix _).length_le

theorem length_signedDigits {s r : List Char} {n : Int} (h : signedDigits? s = some (n, r)) :
    r.length ≤ s.length := by
  unfold signedDigits? at h
  split at h
  · simp only [Option.map_eq_some_iff, Prod.exists, Prod.mk.injEq] at h
    obtain ⟨k, r', hk, -, rfl⟩ := h
    have := length_digits hk
    simp only [List.length_cons]
    omega
  · exact length_digits h

theorem length_position {s r : List Char} {n : Int} (h : position? s = some (n, r)) :
    r.length < s.length := by
  unfold position? at h
  split at h
  · rename_i m rest hm
    simp only [Option.some.injEq, Prod.mk.injEq] at h
    obtain ⟨-, rfl⟩ := h
    have := length_signedDigits hm
    simp only [List.length_cons] at this
    omega
  · cases h

theorem length_segment {s r : List Char} {g : Segment} (h : segment? s = some (g, r)) :
    r.length < s.length := by
  unfold segment? at h
  split at h
  · split at h
    · rename_i name rest hn
      simp only [Option.some.injEq, Prod.mk.injEq] at h
      obtain ⟨-, rfl⟩ := h
      have := length_name hn
      simp only [List.length_cons]
      omega
    · simp only [Option.map_eq_some_iff, Prod.exists, Prod.mk.injEq] at h
      obtain ⟨n, rest, hn, -, rfl⟩ := h
      have := length_digits hn
      simp only [List.length_cons]
      omega
  · split at h
    · rename_i n rest hn
      simp only [Option.some.injEq, Prod.mk.injEq] at h
      obtain ⟨-, rfl⟩ := h
      have := length_position hn
      simp only [List.length_cons]
      omega
    · split at h
      · split at h
        · simp only [Option.map_eq_some_iff, Prod.exists, Prod.mk.injEq, quotedKey?,
            Option.bind_eq_bind, Option.bind_eq_some_iff] at h
          obtain ⟨key, rest, ⟨k, r', hk, h⟩, -, rfl⟩ := h
          have := length_splitFirst (by simp) hk
          split at h
          · cases h
          · simp only [Option.some.injEq, Prod.mk.injEq] at h
            obtain ⟨-, rfl⟩ := h
            simp only [List.length_cons]
            omega
        · cases h
      · cases h
  · cases h

/-- The steps that make up a text. -/
def segments? (s : List Char) : Option (List Segment) :=
  match s with
  | [] => some []
  | c :: s =>
    match _ : segment? (c :: s) with
    | some (g, rest) => (segments? rest).map (g :: ·)
    | none => none
termination_by s.length
decreasing_by exact length_segment ‹_›

/-- Reads a path.  Blanks around it and a point before it do not count. -/
def read (text : String) : Except MalformedPath Path :=
  let s := trim text.toList
  let first := match s with
    | '.' :: rest => name? rest
    | s => name? s
  match first.bind fun (name, rest) => (segments? rest).map (Path.mk name) with
  | some path => pure path
  | none => throw ⟨String.ofList s⟩

/-- The value at the end of the steps from a value. -/
def follow (v : Value) : List Segment → Except Fault Value
  | [] => pure v
  | g :: rest => do follow (← v.segment g.toValue) rest

end Path

end Liquid
