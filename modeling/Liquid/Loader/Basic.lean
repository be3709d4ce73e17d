import Liquid.Loader.Directory
import Liquid.Text.Similar

/-!
# Loaders

Where the sources of templates come from: a table, a function of the host, files, or several
loaders of which the first that knows a template gives it.

* `load_table`: a table gives what stands under a name.
* `load_choice_cons`: a loader that knows a template hides what the loaders after it know.
-/
namespace Liquid

/-- A loader. -/
inductive Loader where
  | table (templates : List (String × String))
  | function (find : String → Option Source)
  | files (directory : Directory)
  | choice (loaders : List Loader)

namespace Loader

/-- Texts in order, each once. -/
def inOrder (names : List String) : List String :=
  names.eraseDups.mergeSort fun a b => decide (a ≤ b)

/-- How many names are told when none is close to the one that is looked for. -/
def hintLimit : Nat := 10

/-- What helps when a name is not among those that are there: the closest of them, or a few. -/
def hint (name : String) (known : List String) : String :=
  match Text.Similar.closest? name known with
  | some meant => ". Did you mean '" ++ meant ++ "'?"
  | none =>
    if known.isEmpty then ""
    else
      ". Available: " ++ String.intercalate ", " (known.take hintLimit) ++
        (if hintLimit < known.length then " ... (" ++ toString known.length ++ " total)" else "")

/-- The failure to find a template. -/
def notFound (name more : String) : Error :=
  .of (.notFound ("Template '" ++ name ++ "' not found" ++ more) none (some name))

mutual

/-- The source of a template. -/
def load (name : String) : Loader → Except Error Source
  | .table templates =>
    match templates.lookup name with
    | some text => pure ⟨text, none⟩
    | none => throw (notFound name (hint name (inOrder (templates.map Prod.fst))))
  | .function find =>
    match find name with
    | some source => pure source
    | none => throw (notFound name "")
  | .files directory => directory.load name
  | .choice loaders => do
    match ← loadFirst name loaders with
    | some source => return source
    | none =>
      throw (notFound name (" in any of " ++ toString loaders.length ++ " loaders"))

/-- The source of a template from the first of the loaders that finds it. -/
def loadFirst (name : String) : List Loader → Except Error (Option Source)
  | [] => pure none
  | loader :: rest =>
    match loader.load name with
    | .ok source => pure (some source)
    | .error e =>
      match e.failure with
      | .notFound _ _ _ => loadFirst name rest
      | _ => throw e

end

theorem load_table {templates : List (String × String)} {name text : String}
    (h : templates.lookup name = some text) : (table templates).load name = .ok ⟨text, none⟩ := by
  simp only [load, h]
  rfl

theorem load_choice_cons {name : String} {first : Loader} {source : Source}
    (h : first.load name = .ok source) (rest : List Loader) :
    (choice (first :: rest)).load name = .ok source := by
  simp only [load, loadFirst, h]
  rfl

mutual

/-- The names that a loader can tell; a function of the host tells none. -/
def names? : Loader → Option (List String)
  | .table templates => some (templates.map Prod.fst)
  | .function _ => none
  | .files directory => some directory.names
  | .choice loaders => some (allNames loaders)

/-- The names that some loaders can tell. -/
def allNames : List Loader → List String
  | [] => []
  | loader :: rest => loader.names?.getD [] ++ allNames rest

end

/-- All templates that a loader can tell, in order. -/
def list? (l : Loader) : Option (List String) := l.names?.map inOrder

/-- The name of the kind of loader. -/
def kindName : Loader → String
  | .table _ => "DictLoader"
  | .function _ => "FunctionLoader"
  | .files _ => "FileSystemLoader"
  | .choice _ => "ChoiceLoader"

/-- Puts a template into a table, or takes it out; other loaders stay as they are. -/
def put (l : Loader) (name : String) (text : Option String) : Loader :=
  match l with
  | .table templates =>
    let others := templates.filter fun (n, _) => n != name
    .table (others ++ (text.map fun t => (name, t)).toList)
  | l => l

end Loader

end Liquid
