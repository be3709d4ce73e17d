import Liquid.Text.Utf8

/-!
# Percent escapes

Text as it stands in a URL: letters, digits and `-_.!~*'()` stand for themselves, every other
character is written as the escapes `%XX` of its UTF-8 bytes.

* `encodeChar_of_isUnreserved`: what stands for itself.
-/
namespace Liquid.Text.Percent

/-- Characters that are not escaped. -/
def isUnreserved (c : Char) : Bool :=
  c.isAlphanum || c ∈ ['-', '_', '.', '!', '~', '*', '\'', '(', ')']

/-- One hexadecimal digit in upper case. -/
def hexDigit (n : Nat) : Char := Char.ofNat (if n < 10 then 48 + n else 55 + n)

/-- The value of a hexadecimal digit. -/
def hexValue? (c : Char) : Option Nat :=
  if c.isDigit then some (c.toNat - 48)
  else if 'a' ≤ c ∧ c ≤ 'f' then some (c.toNat - 87)
  else if 'A' ≤ c ∧ c ≤ 'F' then some (c.toNat - 55)
  else none

/-- The escape of one byte. -/
def escapeByte (b : Nat) : List Char := ['%', hexDigit (b / 16), hexDigit (b % 16)]

/-- One character, escaped if need be. -/
def encodeChar (c : Char) : List Char :=
  if isUnreserved c then [c] else (Utf8.encodeChar c).flatMap escapeByte

/-- The text with its characters escaped. -/
def encode (s : List Char) : List Char := s.flatMap encodeChar

theorem encodeChar_of_isUnreserved {c : Char} (h : isUnreserved c = true) : encodeChar c = [c] := by
  simp [encodeChar, h]

/-- Why a text cannot be decoded. -/
inductive Fault where
  /-- A percent sign not followed by two hexadecimal digits, its position, and what stands there. -/
  | malformed (position : Nat) (found : List Char)
  /-- The escapes of a run do not form characters. -/
  | undecodable (reason : Utf8.Fault)
  deriving DecidableEq, Repr

/-- Whether two hexadecimal digits come next. -/
def startsWithHex : List Char → Bool
  | a :: b :: _ => (hexValue? a).isSome && (hexValue? b).isSome
  | _ => false

/-- The first percent sign that starts no escape, counting from `position`, and the text there. -/
def malformed? (position : Nat) : List Char → Option (Nat × List Char)
  | [] => none
  | c :: rest =>
    if c = '%' ∧ startsWithHex rest = false then some (position, (c :: rest).take 3)
    else malformed? (position + 1) rest

/-- Decodes the runs of ASCII characters one by one; `run` holds the bytes of the current run in
reverse.  Other characters stand for themselves. -/
def decodeRuns (run : List Nat) : List Char → Except Utf8.Fault (List Char)
  | [] => Utf8.decode run.reverse
  | '%' :: a :: b :: rest =>
    match hexValue? a, hexValue? b with
    | some x, some y => decodeRuns ((16 * x + y) :: run) rest
    | _, _ => decodeRuns (37 :: run) (a :: b :: rest)
  | c :: rest =>
    if c.toNat < 128 then decodeRuns (c.toNat :: run) rest
    else do
      let before ← Utf8.decode run.reverse
      let after ← decodeRuns [] rest
      return before ++ c :: after

/-- The text behind the escapes. -/
def decode (s : List Char) : Except Fault (List Char) :=
  match malformed? 0 s with
  | some (position, found) => .error (.malformed position found)
  | none => (decodeRuns [] s).mapError .undecodable

end Liquid.Text.Percent
