import Liquid.Text.Quoted

/-!
# A cache of bounded size

A cache keeps the values that were used last.  It counts how often a value was found and how often
it was not.

* `length_insert_le`: a cache never holds more than its size.
* `find?_miss`: a value that is not there changes nothing but the count of misses.
* `findOrMake_error`: so does a value that cannot be made.
-/
namespace Liquid

/-- A cache: its size, its label, its entries (the last used at the end) and its counts. -/
structure Cache (α : Type) (κ : Type := String) where
  maxSize : Int
  label : String
  entries : List (κ × α) := []
  hits : Nat := 0
  misses : Nat := 0

namespace Cache

variable {α κ : Type}

/-- The number of entries that the cache can hold. -/
def capacity (c : Cache α κ) : Nat := c.maxSize.toNat

/-- Forgets all values and counts. -/
def clear (c : Cache α κ) : Cache α κ := { c with entries := [], hits := 0, misses := 0 }

/-- The cache on one line. -/
def summary (c : Cache α κ) : String :=
  "<LRUCache " ++ Text.quoted c.label ++ " " ++ toString c.entries.length ++ "/" ++
    toString c.maxSize ++ ">"

variable [DecidableEq κ]

/-- The value under a key. -/
def peek? (c : Cache α κ) (key : κ) : Option α :=
  (c.entries.find? fun (k, _) => k == key).map Prod.snd

/-- Whether there is a value under a key. -/
def contains (c : Cache α κ) (key : κ) : Bool := (c.peek? key).isSome

/-- The entries of all other keys. -/
def without (c : Cache α κ) (key : κ) : List (κ × α) :=
  c.entries.filter fun (k, _) => k != key

/-- Looks for a value.  One that is found becomes the last used. -/
def find? (c : Cache α κ) (key : κ) : Option α × Cache α κ :=
  match c.peek? key with
  | some v => (some v, { c with entries := c.without key ++ [(key, v)], hits := c.hits + 1 })
  | none => (none, { c with misses := c.misses + 1 })

/-- Stores a value, which becomes the last used; what was used longest ago makes room. -/
def insert (c : Cache α κ) (key : κ) (value : α) : Cache α κ :=
  if c.maxSize ≤ 0 then c
  else
    let entries := c.without key ++ [(key, value)]
    { c with entries := entries.drop (entries.length - c.capacity) }

/-- Looks for a value.  One that is not there is made and stored; what goes wrong with making it is
not kept. -/
def findOrMake {ε : Type} (c : Cache α κ) (key : κ) (make : Unit → Except ε α) :
    Except ε α × Cache α κ :=
  match c.find? key with
  | (some v, c) => (.ok v, c)
  | (none, c) =>
    match make () with
    | .error e => (.error e, c)
    | .ok v => (.ok v, c.insert key v)

theorem find?_miss {c : Cache α κ} {key : κ} (h : c.peek? key = none) :
    c.find? key = (none, { c with misses := c.misses + 1 }) := by
  simp [find?, h]

theorem find?_fst (c : Cache α κ) (key : κ) : (c.find? key).1 = c.peek? key := by
  cases h : c.peek? key <;> simp [find?, h]

section

variable {ε : Type} {c : Cache α κ} {key : κ}

theorem findOrMake_found {make : Unit → Except ε α} {v : α} (h : c.peek? key = some v) :
    c.findOrMake key make = (.ok v, (c.find? key).2) := by
  simp [findOrMake, find?, h]

theorem findOrMake_error (h : c.peek? key = none) (e : ε) :
    c.findOrMake key (fun _ => .error e) = (.error e, { c with misses := c.misses + 1 }) := by
  simp [findOrMake, find?_miss h]

theorem findOrMake_ok (h : c.peek? key = none) (v : α) :
    c.findOrMake key (fun _ => (.ok v : Except ε α)) =
      (.ok v, { c with misses := c.misses + 1 }.insert key v) := by
  simp [findOrMake, find?_miss h]

end

theorem length_insert_le (c : Cache α κ) (key : κ) (value : α)
    (h : c.entries.length ≤ c.capacity) : (c.insert key value).entries.length ≤ c.capacity := by
  unfold insert
  split
  · exact h
  · simp only [List.length_drop]
    omega

theorem mem_of_peek? {c : Cache α κ} {key : κ} {x : α} (h : c.peek? key = some x) :
    (key, x) ∈ c.entries := by
  unfold peek? at h
  cases hf : c.entries.find? fun (k, _) => k == key with
  | none => rw [hf] at h; cases h
  | some entry =>
    obtain ⟨k, y⟩ := entry
    rw [hf] at h
    obtain rfl : y = x := Option.some.inj h
    have hk : k = key := by simpa using List.find?_some hf
    exact hk ▸ List.mem_of_find?_eq_some hf

theorem mem_insert {c : Cache α κ} {key : κ} {x : α} {entry : κ × α}
    (h : entry ∈ (c.insert key x).entries) : entry = (key, x) ∨ entry ∈ c.entries := by
  unfold insert at h
  split at h
  · exact .inr h
  · have hm := List.mem_of_mem_drop h
    rw [List.mem_append, List.mem_singleton] at hm
    rcases hm with hm | hm
    · exact .inr ((List.mem_filter.1 hm).1)
    · exact .inl hm

end Cache

end Liquid
