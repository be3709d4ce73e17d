import Liquid.Fault
import Liquid.Text.Search

/-!
# Pathnames

The names of files and directories: the parts between slashes, with the parts that say nothing left
out.  Where a pathname leads can be told without looking at any file, since nothing is linked: the
place is the names that lead there from the root.

* `join_relative`: a relative pathname goes on from the directory.
* `path_join_relative`: so it leads to where its parts lead from there.
-/
namespace Liquid

/-- A pathname: one or two slashes if it starts at the root, and its parts, of which none is empty
or a single dot. -/
structure Pathname where
  root : String
  parts : List String
  deriving DecidableEq, Repr

namespace Pathname

/-- The slashes that count at the start of a text: exactly two stay two, more are one. -/
def rootOf (s : List Char) : String :=
  match (s.takeWhile (· == '/')).length with
  | 0 => ""
  | 2 => "//"
  | _ => "/"

/-- Reads a pathname. -/
def ofString (s : String) : Pathname :=
  ⟨rootOf s.toList,
    ((Text.split ['/'] s.toList).map String.ofList).filter fun p => p != "" && p != "."⟩

/-- The pathname as it is written. -/
def text (p : Pathname) : String :=
  if p.root = "" ∧ p.parts = [] then "." else p.root ++ String.intercalate "/" p.parts

/-- A pathname that goes on from a directory, unless it starts at the root. -/
def join (directory p : Pathname) : Pathname :=
  if p.root = "" then { directory with parts := directory.parts ++ p.parts } else p

theorem join_relative {p : Pathname} (h : p.root = "") (directory : Pathname) :
    directory.join p = ⟨directory.root, directory.parts ++ p.parts⟩ := by
  simp [join, h]

/-- The last part. -/
def last? (p : Pathname) : Option String := p.parts.getLast?

/-- The end of a file name from its last dot on, if there is something on either side of it. -/
def suffixOf (name : String) : String :=
  let afterDot := name.toList.reverse.takeWhile (· != '.')
  if afterDot = [] ∨ name.length ≤ afterDot.length + 1 then ""
  else String.ofList ('.' :: afterDot.reverse)

/-- The suffix of the last part. -/
def suffix (p : Pathname) : String := (p.last?.map suffixOf).getD ""

/-- The pathname with more at the end of its last part; there must be one. -/
def extend (p : Pathname) (more : String) : Except Fault Pathname :=
  match p.last? with
  | some name => pure { p with parts := p.parts.dropLast ++ [name ++ more] }
  | none => throw { kind := .wrongValue }

/-- One part further from a place.  Nothing lies above the root. -/
def further (place : List String) (part : String) : List String :=
  if part = ".." then place.dropLast else place ++ [part]

/-- Where a pathname starts: at the root, or in the working directory. -/
def start (p : Pathname) (here : List String) : List String := if p.root = "" then here else []

/-- Where a pathname leads. -/
def path (p : Pathname) (here : List String) : List String := p.parts.foldl further (p.start here)

theorem path_join_relative {p : Pathname} (h : p.root = "") (directory : Pathname)
    (here : List String) :
    (directory.join p).path here = p.parts.foldl further (directory.path here) := by
  rw [join_relative h, path, List.foldl_append]
  rfl

/-- Whether a part holds the null character, which stands in no name. -/
def hasNull (p : Pathname) : Bool := p.parts.any fun part => part.toList.contains '\x00'

/-- Where a pathname leads, if it can lead anywhere. -/
def resolve (p : Pathname) (here : List String) : Except Fault (List String) :=
  if p.hasNull then throw { kind := .wrongValue, note := some "embedded null byte" }
  else pure (p.path here)

end Pathname

end Liquid
