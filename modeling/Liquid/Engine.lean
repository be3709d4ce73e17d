import Liquid.Cache
import Liquid.Expr.Eval
import Liquid.Loader.Basic
import Liquid.Tag
import Liquid.Template

/-!
# Engines

What a rendering needs besides the names: a loader, the filters and the tags; and the shelf of the
templates that were loaded.

* `fetch_of_peek`: a template on the shelf is not loaded again.
* `fetch_of_error`: a template that cannot be loaded leaves nothing on the shelf.
-/
namespace Liquid

/-- A template that was loaded, numbered in the order of loading. -/
structure Loaded extends Template where
  number : Nat

/-- The templates that were loaded last, and how many were loaded in all. -/
structure Shelf where
  cache : Cache Loaded
  loads : Nat := 0

/-- A loader, filters and tags. -/
structure Engine where
  loader : Option Loader
  filters : Registry FilterFunction
  tags : Registry HostTag

namespace Engine

/-- The names of the tags of the host, and whether they have a body. -/
def tagBlocks (engine : Engine) : List (String × Bool) :=
  engine.tags.overrides.map fun (name, tag) => (name, tag.block)

/-- Reads a template. -/
def read (engine : Engine) (source : String) (name filename : Option String) :
    Except Error Template :=
  (Template.read engine.tagBlocks source name filename).mapError fun e => .of (.unreadable e)

/-- Loads a template. -/
def load (engine : Engine) (name : String) : Except Error Template :=
  match engine.loader with
  | none => throw (Loader.notFound name " (no loader configured)")
  | some loader => do
    let source ← loader.load name
    engine.read source.text (some name) source.filename

/-- Takes a template from the shelf, or loads it and puts it there. -/
def fetch (engine : Engine) (name : String) (shelf : Shelf) : Except Error Loaded × Shelf :=
  match shelf.cache.find? name with
  | (some t, cache) => (.ok t, { shelf with cache })
  | (none, cache) =>
    match engine.load name with
    | .error e => (.error e, { shelf with cache })
    | .ok t =>
      let t : Loaded := { t with number := shelf.loads }
      (.ok t, { cache := cache.insert name t, loads := shelf.loads + 1 })

theorem fetch_of_peek {engine : Engine} {name : String} {shelf : Shelf} {t : Loaded}
    (h : shelf.cache.peek? name = some t) :
    (engine.fetch name shelf).1 = .ok t ∧ (engine.fetch name shelf).2.loads = shelf.loads := by
  simp [fetch, Cache.find?, h]

theorem fetch_of_error {engine : Engine} {name : String} {shelf : Shelf} {e : Error}
    (hp : shelf.cache.peek? name = none) (he : engine.load name = .error e) :
    engine.fetch name shelf =
      (.error e,
        { shelf with cache := { shelf.cache with misses := shelf.cache.misses + 1 } }) := by
  simp [fetch, Cache.find?, hp, he]

/-- A template is found in the cache or made by loading it. -/
theorem fetch_eq_findOrMake (engine : Engine) (name : String) (shelf : Shelf) :
    ((engine.fetch name shelf).1, (engine.fetch name shelf).2.cache) =
      shelf.cache.findOrMake name
        (fun _ => (engine.load name).map fun t => { t with number := shelf.loads }) := by
  unfold fetch Cache.findOrMake
  cases shelf.cache.find? name with
  | mk found cache =>
    cases found with
    | some t => rfl
    | none => cases engine.load name <;> rfl

end Engine

end Liquid
