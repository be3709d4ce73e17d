import Liquid.Filter.Table
import Liquid.Render.Node

/-!
# Environments

An environment holds what its templates share: an engine, the globals, whether names must mean
something, how deep templates may be nested, and the shelf of loaded templates.  Templates are read,
loaded and rendered through it.

* `render_keeps`: a rendering changes the shelf and nothing else.
* `given_none`, `given_data`: a rendering is given nothing or some data.
-/
namespace Liquid

/-- What the templates of a host share. -/
structure Environment where
  engine : Engine
  globals : Bindings
  strict : Bool
  maxDepth : Int
  shelf : Shelf

/-- What is given to a rendering: nothing, data, or something that is no data. -/
inductive Given where
  | nothing
  | data (bindings : Bindings)
  | other

/-- The data of a rendering: what is given by position, and bindings by name that go before it. -/
def Given.bindings (byPosition : List Given) (byName : Bindings) : Except Fault Bindings :=
  match byPosition with
  | [] | [.nothing] => pure (Bindings.setAll byName [])
  | [.data given] => pure (Bindings.setAll byName given)
  | more =>
    throw
      { kind := .wrongType
        note := some ("render() takes at most 1 positional argument (a mapping), got " ++
          toString more.length) }

theorem Given.given_none : Given.bindings [] [] = .ok [] := rfl

theorem Given.given_data (given : Bindings) : Given.bindings [.data given] [] = .ok given := rfl

/-- A template on one line. -/
def Template.summary (t : Template) : String :=
  "<Template " ++ (nonEmpty? t.name).getD "(inline)" ++ ">"

namespace Environment

/-- The number of templates that stay loaded unless another is asked for. -/
def usualCacheSize : Int := 400

/-- The filters of the language, for a time that counts as now. -/
def languageFilters (now : DateTime) : List (String × FilterFunction) :=
  (Filter.table now).map fun (name, filter) => (name, filter.apply)

/-- An environment with no host filters, host tags or globals. -/
def create (now : DateTime) (loader : Option Loader) (cacheSize : Int) : Environment where
  engine := { loader, filters := { builtins := languageFilters now }, tags := {} }
  globals := []
  strict := false
  maxDepth := Place.usualLimit
  shelf := { cache := { maxSize := cacheSize, label := "templates" } }

/-! ## Filters and tags of the host -/

/-- What the host asks of the filters or of the tags of an environment. -/
inductive Change where
  | filters (change : Registry.Change FilterFunction)
  | tags (change : Registry.Change TagOffer)

/-- Registers a filter. -/
def Change.addFilter (name : String) (filter : FilterFunction) : Change :=
  .filters (.set name filter)

/-- Registers a tag. -/
def Change.addTag (name : String) (run : List Value → Program) (block : Bool) : Change :=
  .tags (.set name (.tag ⟨block, run⟩))

/-- The filter that is offered under a name.  Whatever is offered as a filter is one. -/
def asFilter (_name : String) (filter : FilterFunction) : Except Fault FilterFunction := pure filter

/-- Does what the host asks for. -/
def change (env : Environment) : Change → Except Fault Unit × Environment
  | .filters c =>
    match env.engine.filters.change asFilter c with
    | .ok filters => (pure (), { env with engine := { env.engine with filters } })
    | .error f => (throw f, env)
  | .tags c =>
    match env.engine.tags.change TagOffer.asTag c with
    | .ok tags => (pure (), { env with engine := { env.engine with tags } })
    | .error f => (throw f, env)

/-! ## Templates -/

/-- Reads a template. -/
def read (env : Environment) (source : String) (name : Option String) : Except Error Template :=
  env.engine.read source name none

/-- Takes a template from the shelf or loads it. -/
def get (env : Environment) (name : String) : Except Error Loaded × Environment :=
  let (found, shelf) := env.engine.fetch name env.shelf
  (found, { env with shelf })

/-- Forgets all loaded templates. -/
def clearCache (env : Environment) : Environment :=
  { env with shelf := { env.shelf with cache := env.shelf.cache.clear } }

/-- The number of levels of templates that may be entered. -/
def levels (env : Environment) : Nat := env.maxDepth.toNat

/-- How a rendering ended. -/
def ended (result : Except Stop Unit) : Except Error Unit := result.mapError Stop.toError

/-- The setting at the start of a template. -/
def setting (env : Environment) (data : Bindings) (place : Option Place) : Setting where
  engine := env.engine
  around := ⟨env.globals, data, [], env.strict⟩
  place

/-- The place at the start of a template. -/
def placeOf (env : Environment) (t : Template) : Place where
  template := t.name
  filename := t.filename
  source := some t.source
  limit := env.maxDepth

/-- The state at the start of a rendering. -/
def start (env : Environment) (s : Setting) : State :=
  { positions := .outside s.around.loopBound, shelf := env.shelf }

/-- Renders a template. -/
def render (env : Environment) (t : Template) (data : Bindings) :
    Except Error String × Environment :=
  let s := env.setting data (some (env.placeOf t))
  let (result, st) := Run.enter s.place (renderNodes (below env.levels) s t.nodes) (env.start s)
  ((ended result).map fun () => st.output, { env with shelf := st.shelf })

/-- The number of levels of templates below nodes that are rendered without a place. -/
def freeLevels : Nat := Place.usualLimit.toNat + 1

/-- Renders nodes without a place, and tells the local names at the end.  The first template that is
entered is at depth zero. -/
def renderFree (env : Environment) (nodes : List Node) (data : Bindings) :
    Except Error (String × Bindings) × Environment :=
  let s := env.setting data none
  let (result, st) := renderNodes (below freeLevels) s nodes (env.start s)
  let locals := st.locals.map fun (n, v) => (n, v.now st.positions)
  ((ended result).map fun () => (st.output, locals), { env with shelf := st.shelf })

/-- Renders a template by its name. -/
def renderNamed (env : Environment) (name : String) (data : Except Fault Bindings) :
    Except Error String × Environment :=
  match env.get name with
  | (.error e, env) => (.error e, env)
  | (.ok t, env) =>
    match data with
    | .error f => (.error (.ofFault f), env)
    | .ok data => env.render t.toTemplate data

/-- The environment on one line. -/
def summary (env : Environment) : String :=
  "<Environment loader=" ++ ((env.engine.loader.map Loader.kindName).getD "None") ++ " filters=" ++
    toString env.engine.filters.overrides.length ++ " tags=" ++
    toString env.engine.tags.overrides.length ++ ">"

theorem render_keeps (env : Environment) (t : Template) (data : Bindings) :
    (env.render t data).2 = { env with shelf := (env.render t data).2.shelf } := rfl

end Environment

end Liquid
