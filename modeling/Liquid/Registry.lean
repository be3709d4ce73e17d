import Liquid.Fault
import Liquid.Text.Quoted

/-!
# Registries

A registry knows filters or tags by name.  What the host registers stands in front of what the
language has of itself: it hides it, and when it is taken away again, that shows as before.

* `change`: what the host asks for is done as a whole, or not at all.
* `get?_set_self`, `get?_set_of_ne`: registering a name changes what that name means, and no other.
* `get?_of_delete_self`, `get?_of_delete_of_ne`: taking a name away brings back what it hid, and
  changes no other name.
* `mem_names_iff`: the names are those that mean something.
-/
namespace Liquid

/-- What the host registers, each name once, and what the language has of itself. -/
structure Registry (α : Type) where
  overrides : List (String × α) := []
  builtins : List (String × α) := []

namespace Registry

variable {α : Type}

/-- What a name means. -/
def get? (r : Registry α) (name : String) : Option α :=
  (r.overrides.lookup name).or (r.builtins.lookup name)

/-- What a name means; a name that means nothing is a fault. -/
def find (r : Registry α) (name : String) : Except Fault α :=
  match r.get? name with
  | some x => pure x
  | none => throw { kind := .missingKey }

/-- What a name means, or something else if it means nothing. -/
def getD (r : Registry α) (name : String) (other : α) : α := (r.get? name).getD other

/-- Whether a name means anything. -/
def contains (r : Registry α) (name : String) : Bool := (r.get? name).isSome

/-- All names but one with what they mean. -/
def without (name : String) (entries : List (String × α)) : List (String × α) :=
  entries.filter fun (n, _) => n != name

/-- Registers a name; what the host registered under it before is forgotten. -/
def set (r : Registry α) (name : String) (x : α) : Registry α :=
  { r with overrides := (name, x) :: without name r.overrides }

/-- Registers names one after the other. -/
def setAll (r : Registry α) (entries : List (String × α)) : Registry α :=
  entries.foldl (fun r (name, x) => r.set name x) r

/-- Takes away what the host registered under a name. -/
def delete (r : Registry α) (name : String) : Except Fault (Registry α) :=
  if (r.overrides.lookup name).isSome then
    pure { r with overrides := without name r.overrides }
  else throw { kind := .missingKey }

/-- All names that mean something, in order. -/
def names (r : Registry α) : List String :=
  ((r.overrides ++ r.builtins).map Prod.fst).eraseDups.mergeSort fun a b => decide (a ≤ b)

/-- The number of names that mean something. -/
def size (r : Registry α) : Nat := r.names.length

/-- All names with what they mean, in order. -/
def items (r : Registry α) : Except Fault (List (String × α)) :=
  r.names.mapM fun name => do return (name, ← r.find name)

/-- What all names mean, in their order. -/
def values (r : Registry α) : Except Fault (List α) := r.names.mapM r.find

/-- All names with what they mean, as a table of its own. -/
def copy (r : Registry α) : List (String × α) :=
  (setAll { overrides := r.builtins } r.overrides).overrides

/-- The registry on one line. -/
def summary (r : Registry α) (label : String) : String :=
  "<" ++ label ++ " [" ++ String.intercalate ", " (r.names.map Text.quoted) ++ "]>"

/-! ## Changes -/

/-- What the host asks of a registry: to register what it offers under a name or under several, or to
take away what it registered. -/
inductive Change (β : Type) where
  | set (name : String) (offer : β)
  | update (offers : List (String × β))
  | delete (name : String)

/-- What is offered under some names, if all of it is accepted. -/
def acceptAll {β : Type} (accept : String → β → Except Fault α) :
    List (String × β) → Except Fault (List (String × α))
  | [] => pure []
  | (name, offer) :: rest => do
    let x ← accept name offer
    return (name, x) :: (← acceptAll accept rest)

/-- The registry once the host's wish is done. -/
def change {β : Type} (accept : String → β → Except Fault α) (r : Registry α) :
    Change β → Except Fault (Registry α)
  | .set name offer => do return r.set name (← accept name offer)
  | .update offers => do return r.setAll (← acceptAll accept offers)
  | .delete name => r.delete name

/-! ## What names mean -/

theorem lookup_without_self (name : String) (entries : List (String × α)) :
    (without name entries).lookup name = none := by
  induction entries with
  | nil => rfl
  | cons entry rest ih =>
    obtain ⟨n, x⟩ := entry
    by_cases h : n = name
    · simpa [without, h] using ih
    · have hn : (name == n) = false := by simpa using Ne.symm h
      simpa [without, h, List.lookup_cons, hn] using ih

theorem lookup_without_of_ne {name other : String} (h : other ≠ name)
    (entries : List (String × α)) : (without name entries).lookup other = entries.lookup other := by
  induction entries with
  | nil => rfl
  | cons entry rest ih =>
    obtain ⟨n, x⟩ := entry
    by_cases hn : n = name
    · subst hn
      have ho : (other == n) = false := by simpa using h
      simpa [without, List.lookup_cons, ho] using ih
    · by_cases ho : other = n
      · simp [without, hn, ho]
      · have ho' : (other == n) = false := by simpa using ho
        simpa [without, hn, List.lookup_cons, ho'] using ih

theorem get?_set_self (r : Registry α) (name : String) (x : α) :
    (r.set name x).get? name = some x := by
  simp [get?, set]

theorem get?_set_of_ne {name other : String} (h : other ≠ name) (r : Registry α) (x : α) :
    (r.set name x).get? other = r.get? other := by
  have ho : (other == name) = false := by simpa using h
  simp [get?, set, List.lookup_cons, ho, lookup_without_of_ne h]

theorem get?_of_delete_self {r s : Registry α} {name : String} (h : r.delete name = .ok s) :
    s.get? name = r.builtins.lookup name := by
  unfold delete at h
  split at h
  · cases h
    simp [get?, lookup_without_self]
  · cases h

theorem get?_of_delete_of_ne {r s : Registry α} {name other : String} (h : r.delete name = .ok s)
    (hne : other ≠ name) : s.get? other = r.get? other := by
  unfold delete at h
  split at h
  · cases h
    simp [get?, lookup_without_of_ne hne]
  · cases h

theorem lookup_isSome_iff (name : String) (entries : List (String × α)) :
    (entries.lookup name).isSome ↔ name ∈ entries.map Prod.fst := by
  induction entries with
  | nil => simp
  | cons entry rest ih =>
    obtain ⟨n, x⟩ := entry
    by_cases h : name = n
    · simp [h]
    · have hn : (name == n) = false := by simpa using h
      simp [List.lookup_cons, hn, h, ih]

theorem mem_names_iff (r : Registry α) (name : String) :
    name ∈ r.names ↔ (r.get? name).isSome := by
  have hs : name ∈ r.names ↔ name ∈ (r.overrides ++ r.builtins).map Prod.fst := by
    simp [names, List.mem_mergeSort, List.mem_eraseDups]
  rw [hs, get?, Option.isSome_or, List.map_append, List.mem_append, Bool.or_eq_true,
    lookup_isSome_iff, lookup_isSome_iff]

end Registry

end Liquid
