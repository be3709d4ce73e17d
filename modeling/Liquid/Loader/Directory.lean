import Liquid.Diagnostic.Error
import Liquid.Loader.Pathname
import Liquid.Text.Lines
import Liquid.Text.Utf8

/-!
# Directories of templates

A tree of files, and the templates among them.  A template is looked for in some directories, one
after the other, under its exact name and, if that has no suffix, under its name with `.liquid`.  A
file that does not lie within the directory it is looked for in is never found.

* `isDirectory_nil`: what has entries is a directory.
* `read?_isWithin`: a file that is read lies within the directory it was looked for in.
-/
namespace Liquid

/-- A text, and the file that it comes from. -/
structure Source where
  text : String
  filename : Option String
  deriving DecidableEq, Repr

/-- A file with its text, or a directory with what it holds under each name. -/
inductive FileTree where
  | file (text : String)
  | directory (entries : List (String × FileTree))

namespace FileTree

/-- What some names lead to, each of them in the directory before it. -/
def at? : List String → FileTree → Option FileTree
  | [], t => some t
  | _ :: _, .file _ => none
  | name :: rest, .directory entries => (entries.lookup name).bind (at? rest)

/-- The text of the file that some names lead to. -/
def file? (t : FileTree) (names : List String) : Option String :=
  match t.at? names with
  | some (.file text) => some text
  | _ => none

/-- Whether some names lead to a directory. -/
def isDirectory (t : FileTree) (names : List String) : Bool :=
  match t.at? names with
  | some (.directory _) => true
  | _ => false

theorem isDirectory_nil (entries : List (String × FileTree)) :
    (directory entries).isDirectory [] = true := rfl

mutual

/-- The names that lead to files. -/
def files : FileTree → List (List String)
  | .file _ => [[]]
  | .directory entries => filesIn entries

/-- The names that lead to files from the entries of a directory on. -/
def filesIn : List (String × FileTree) → List (List String)
  | [] => []
  | (name, t) :: rest => t.files.map (name :: ·) ++ filesIn rest

end

end FileTree

/-- A tree of files from the root on, the working directory in it, and the directories in which
templates are looked for. -/
structure Directory where
  tree : FileTree
  here : List String
  paths : List Pathname
  here_isDirectory : tree.isDirectory here = true

namespace Directory

/-- The largest number of bytes in a part of a pathname. -/
def partLimit : Nat := 255

/-- The number of bytes at which a pathname is too long. -/
def pathLimit : Nat := 4096

/-- A pathname that is too long to be looked up. -/
def tooLong : Fault := { kind := .system, note := some "File name too long" }

/-- Follows the parts of a pathname from a place.  Every part but the last must lead to a directory.
-/
def walk (d : Directory) (place : List String) : List String → Except Fault (Option (List String))
  | [] => pure (some place)
  | part :: rest =>
    if !d.tree.isDirectory place then pure none
    else if partLimit < part.utf8ByteSize then throw tooLong
    else d.walk (Pathname.further place part) rest

/-- The place at the end of a pathname, if it can be followed. -/
def find? (d : Directory) (p : Pathname) : Except Fault (Option (List String)) :=
  if pathLimit ≤ p.text.utf8ByteSize then throw tooLong
  else d.walk (p.start d.here) p.parts

/-- The text of a file that lies within a directory. -/
def read? (d : Directory) (directory : List String) (p : Pathname) :
    Except Fault (Option Source) := do
  if !directory.isPrefixOf (← p.resolve d.here) then return none
  else
    match (← d.find? p).bind d.tree.file? with
    | some text =>
      return some ⟨String.ofList (Text.normalizeNewlines text.toList), some p.text⟩
    | none => return none

/-- The pathnames under which a template is looked for in a directory. -/
def candidates (directory : Pathname) (name : String) : Except Fault (List Pathname) := do
  let p := directory.join (.ofString name)
  if p.suffix != "" then return [p] else return [p, ← p.extend ".liquid"]

/-- The first file that is found. -/
def readFirst? (d : Directory) (directory : List String) :
    List Pathname → Except Fault (Option Source)
  | [] => pure none
  | p :: rest => do
    match ← d.read? directory p with
    | some source => return some source
    | none => d.readFirst? directory rest

/-- Looks for a template in some directories. -/
def search (d : Directory) (name : String) : List Pathname → Except Fault (Option Source)
  | [] => pure none
  | directory :: rest => do
    let root ← directory.resolve d.here
    match ← d.readFirst? root (← candidates directory name) with
    | some source => return some source
    | none => d.search name rest

/-- The failure to find a template. -/
def notFound (d : Directory) (name : String) : Error :=
  .of (.notFound
    ("Template '" ++ name ++ "' not found in: " ++
      String.intercalate ", " (d.paths.map Pathname.text))
    none (some name))

/-- Looks for a template. -/
def load (d : Directory) (name : String) : Except Error Source :=
  match d.search name d.paths with
  | .error fault => throw (.ofFault fault)
  | .ok (some source) => pure source
  | .ok none => throw (d.notFound name)

/-- The suffixes of templates. -/
def suffixes : List String := [".liquid", ".html", ".txt", ".md", ".xml", ".json"]

/-- The templates in a directory and below it. -/
def namesIn (d : Directory) (directory : Pathname) : List String :=
  match d.find? directory with
  | .ok (some parts) =>
    if d.tree.isDirectory parts then
      d.tree.files.filterMap fun f =>
        if parts.isPrefixOf f && suffixes.contains ((f.getLast?.map Pathname.suffixOf).getD "") then
          some (String.intercalate "/" (f.drop parts.length))
        else none
    else []
  | _ => []

/-- All templates. -/
def names (d : Directory) : List String := d.paths.flatMap d.namesIn

theorem read?_isWithin {d : Directory} {directory : List String} {p : Pathname} {source : Source}
    (h : d.read? directory p = .ok (some source)) : directory <+: p.path d.here := by
  unfold read? Pathname.resolve at h
  cases hn : p.hasNull with
  | true => simp [hn, bind, Except.bind, throw, throwThe, MonadExceptOf.throw] at h
  | false =>
    cases hw : directory.isPrefixOf (p.path d.here) with
    | true => exact List.isPrefixOf_iff_prefix.1 hw
    | false => simp [hn, bind, Except.bind, hw, pure, Except.pure] at h

end Directory

end Liquid
