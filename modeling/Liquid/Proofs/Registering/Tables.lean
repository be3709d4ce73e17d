import Liquid.Proofs.Caching.Recency
import Liquid.Registry
import Mathlib.Data.List.Sort
import Mathlib.Data.String.Basic

/-!
# What a registry shows

A registry has two tiers and many ways to be read.  Whatever was done to it, all of them show one
map from names to meanings: what the host registered last under a name and did not take away since,
and under it what the language has of itself.

* `Tidy`: no name stands twice in a tier; `Tidy.after` is the step that keeps that.
* `Shows`: all ways to read a registry agree with a map; `Tidy.shows` is why there is one.
* `standing?_eq_some_iff`: what a history tells of a name.
* `lookup_after`, `lookup_run`: what is registered after a change, and after all of a history, is
  what the changes say by themselves.
* `change_isOk`: which changes can be done.
* `shows_run`: the map that is shown after a history.
-/
namespace Liquid.Registry

variable {α β : Type}

/-! ## Tables without duplicates -/

/-- No name stands twice in a table. -/
def Distinct (entries : List (String × α)) : Prop := (entries.map Prod.fst).Nodup

theorem Distinct.nil : Distinct ([] : List (String × α)) := List.nodup_nil

theorem Distinct.mem_iff {entries : List (String × α)} (h : Distinct entries) (name : String)
    (x : α) : (name, x) ∈ entries ↔ entries.lookup name = some x := by
  induction entries with
  | nil => simp
  | cons entry rest ih =>
    obtain ⟨n, y⟩ := entry
    obtain ⟨hn, hrest⟩ := List.nodup_cons.1 h
    by_cases hname : name = n
    · subst hname
      have hnot : (name, x) ∉ rest := fun hm => hn (List.mem_map.2 ⟨(name, x), hm, rfl⟩)
      simp [hnot, eq_comm]
    · have hne : (name == n) = false := by simpa using hname
      simp [List.lookup_cons, hne, hname, ih hrest]

theorem Distinct.lookup_reverse {entries : List (String × α)} (h : Distinct entries)
    (name : String) : entries.reverse.lookup name = entries.lookup name := by
  have hr : Distinct entries.reverse := by
    rw [Distinct, List.map_reverse, List.nodup_reverse]
    exact h
  refine Option.ext fun x => ?_
  rw [← hr.mem_iff, ← h.mem_iff, List.mem_reverse]

theorem Distinct.without {entries : List (String × α)} (h : Distinct entries) (name : String) :
    Distinct (without name entries) :=
  h.sublist (List.filter_sublist.map Prod.fst)

theorem not_mem_without (name : String) (entries : List (String × α)) :
    name ∉ (without name entries).map Prod.fst := by
  rw [← lookup_isSome_iff, lookup_without_self]
  simp

/-- No name stands twice in a tier of a registry. -/
structure Tidy (r : Registry α) : Prop where
  overrides : Distinct r.overrides
  builtins : Distinct r.builtins

namespace Tidy

variable {r s : Registry α}

theorem set (h : r.Tidy) (name : String) (x : α) : (r.set name x).Tidy where
  overrides := List.nodup_cons.2 ⟨not_mem_without name r.overrides, h.overrides.without name⟩
  builtins := h.builtins

theorem setAll (h : r.Tidy) (entries : List (String × α)) : (r.setAll entries).Tidy := by
  induction entries generalizing r with
  | nil => exact h
  | cons entry rest ih => exact ih (h.set entry.1 entry.2)

theorem without (h : r.Tidy) (name : String) :
    Tidy { r with overrides := Registry.without name r.overrides } where
  overrides := h.overrides.without name
  builtins := h.builtins

end Tidy

/-! ## Reading -/

/-- All ways to read a registry agree with a map from names to meanings. -/
structure Shows (r : Registry α) (meaning : String → Option α) : Prop where
  get? : ∀ name, r.get? name = meaning name
  getD : ∀ name other, r.getD name other = (meaning name).getD other
  find : ∀ name, r.find name = (meaning name).elim (.error { kind := .missingKey }) .ok
  contains : ∀ name, r.contains name = (meaning name).isSome
  ordered : r.names.Pairwise (· < ·)
  names : ∀ name, name ∈ r.names ↔ (meaning name).isSome
  size : r.size = r.names.length
  items : ∃ entries, r.items = .ok entries ∧ r.values = .ok (entries.map Prod.snd) ∧
    entries.map Prod.fst = r.names ∧
    ∀ name x, (name, x) ∈ entries ↔ meaning name = some x
  copy : Distinct r.copy ∧ ∀ name x, (name, x) ∈ r.copy ↔ meaning name = some x

theorem find_eq (r : Registry α) (name : String) :
    r.find name = (r.get? name).elim (.error { kind := .missingKey }) .ok := by
  unfold find
  cases r.get? name <;> rfl

theorem names_ordered (r : Registry α) : r.names.Pairwise (· < ·) := by
  have hle : r.names.Pairwise fun a b => decide (a ≤ b) = true := by
    refine List.pairwise_mergeSort (fun a b c hab hbc => ?_) (fun a b => ?_) _
    · simp only [decide_eq_true_eq] at hab hbc ⊢
      exact String.le_trans hab hbc
    · simpa using String.le_total a b
  have hne : r.names.Nodup := (List.mergeSort_perm _ _).nodup_iff.2 (nodup_eraseDups _)
  refine (hle.and hne).imp fun h => ?_
  exact lt_of_le_of_ne (of_decide_eq_true h.1) h.2

/-- Where all of some names mean something, their meanings are found one after the other. -/
theorem items_of_names (r : Registry α) {names : List String}
    (h : ∀ name ∈ names, (r.get? name).isSome) :
    ∃ entries, (names.mapM fun name => do return (name, ← r.find name)) = .ok entries ∧
      names.mapM r.find = .ok (entries.map Prod.snd) ∧ entries.map Prod.fst = names ∧
      ∀ name x, (name, x) ∈ entries ↔ name ∈ names ∧ r.get? name = some x := by
  induction names with
  | nil => exact ⟨[], rfl, rfl, rfl, by simp⟩
  | cons name names ih =>
    rw [List.forall_mem_cons] at h
    obtain ⟨entries, hitems, hvalues, hfst, hmem⟩ := ih h.2
    obtain ⟨x, hx⟩ := Option.isSome_iff_exists.1 h.1
    have hfind : r.find name = .ok x := by rw [find_eq, hx, Option.elim_some]
    refine ⟨(name, x) :: entries, ?_, ?_, ?_, fun other y => ?_⟩
    · rw [List.mapM_cons, hfind, hitems]
      rfl
    · rw [List.mapM_cons, hfind, hvalues]
      rfl
    · rw [List.map_cons, hfst]
    · rw [List.mem_cons, List.mem_cons, hmem]
      by_cases ho : other = name
      · subst ho
        simp only [Prod.mk.injEq, true_and, true_or, hx, Option.some.injEq]
        grind
      · simp [ho]

theorem lookup_set (r : Registry α) (name other : String) (x : α) :
    (r.set name x).overrides.lookup other =
      ([(name, x)].lookup other).or (r.overrides.lookup other) := by
  by_cases h : other = name
  · subst h
    simp [set]
  · have hne : (other == name) = false := by simpa using h
    simp [set, List.lookup_cons, hne, lookup_without_of_ne h]

/-- Of several entries for a name the last one counts, which is the first one from behind. -/
theorem lookup_setAll (r : Registry α) (entries : List (String × α)) (name : String) :
    (r.setAll entries).overrides.lookup name =
      (entries.reverse.lookup name).or (r.overrides.lookup name) := by
  induction entries generalizing r with
  | nil => rfl
  | cons entry rest ih =>
    have hset := ih (r.set entry.1 entry.2)
    rw [lookup_set, ← Option.or_assoc, ← List.lookup_append, ← List.reverse_cons] at hset
    exact hset

theorem Tidy.shows {r : Registry α} (h : r.Tidy) : r.Shows r.get? where
  get? _ := rfl
  getD _ _ := rfl
  find := r.find_eq
  contains _ := rfl
  ordered := r.names_ordered
  names := r.mem_names_iff
  size := rfl
  items := by
    obtain ⟨entries, hitems, hvalues, hfst, hmem⟩ :=
      r.items_of_names fun name => (r.mem_names_iff name).1
    refine ⟨entries, hitems, hvalues, hfst, fun name x => ?_⟩
    rw [hmem, mem_names_iff]
    exact ⟨And.right, fun hx => ⟨Option.isSome_of_eq_some hx, hx⟩⟩
  copy := by
    -- The copy starts with what the language has, and what the host registered is put over it.
    have hstart : Tidy { overrides := r.builtins } := ⟨h.builtins, .nil⟩
    have hcopy : Distinct r.copy := (hstart.setAll r.overrides).overrides
    refine ⟨hcopy, fun name x => ?_⟩
    rw [hcopy.mem_iff, copy, lookup_setAll, h.overrides.lookup_reverse, Registry.get?]

/-! ## What a history tells -/

section

variable (accept : String → β → Except Fault α)

/-- What is registered under a name from a change on: `some none` is nothing any more, and `none` is
what was registered before. -/
def Change.leaves? (name : String) : Change β → Option (Option α)
  | .set n offer => if n = name then (accept n offer).toOption.map some else none
  | .update offers =>
    (acceptAll accept offers).toOption.bind fun entries =>
      (entries.reverse.lookup name).map some
  | .delete n => if n = name then some none else none

/-- What the last change that says something about a name says about it. -/
def lastLeft? (history : List (Change β)) (name : String) : Option (Option α) :=
  history.reverse.findSome? fun c => c.leaves? accept name

/-- What the host registered last under a name and did not take away since. -/
def standing? (history : List (Change β)) (name : String) : Option α :=
  (lastLeft? accept history name).join

/-- What a name means after a history. -/
def meaning (builtins : List (String × α)) (history : List (Change β)) (name : String) : Option α :=
  (standing? accept history name).or (builtins.lookup name)

/-- The registry after a change.  One that cannot be done changes nothing. -/
def after (r : Registry α) (c : Change β) : Registry α := (r.change accept c).toOption.getD r

/-- The registry after all of a history. -/
def run (r : Registry α) (history : List (Change β)) : Registry α :=
  history.foldl (after accept) r

variable {accept}

theorem lastLeft?_cons (c : Change β) (history : List (Change β)) (name : String) :
    lastLeft? accept (c :: history) name =
      (lastLeft? accept history name).or (c.leaves? accept name) := by
  rw [lastLeft?, List.reverse_cons, List.findSome?_append, List.findSome?_singleton, lastLeft?]

/-- A registration stands if no later change says anything about its name. -/
theorem standing?_eq_some_iff {history : List (Change β)} {name : String} {x : α} :
    standing? accept history name = some x ↔
      ∃ before c later, history = before ++ c :: later ∧
        c.leaves? accept name = some (some x) ∧
        ∀ d ∈ later, d.leaves? accept name = none := by
  rw [standing?, Option.join_eq_some_iff, lastLeft?, List.findSome?_eq_some_iff]
  constructor
  · intro h
    obtain ⟨later, c, before, hl, hc, hlater⟩ := h
    refine ⟨before.reverse, c, later.reverse, ?_, hc, fun d hd => hlater d (List.mem_reverse.1 hd)⟩
    rw [← List.reverse_reverse history, hl]
    simp
  · intro h
    obtain ⟨before, c, later, rfl, hc, hlater⟩ := h
    refine ⟨later.reverse, c, before.reverse, by simp, hc, fun d hd => hlater d ?_⟩
    exact List.mem_reverse.1 hd

/-- Taking a name away brings back what the language has under it. -/
theorem meaning_delete (builtins : List (String × α)) (history : List (Change β)) (name : String) :
    meaning accept builtins (history ++ [.delete name]) name = builtins.lookup name := by
  simp [meaning, standing?, lastLeft?, Change.leaves?]

/-! ## One change -/

variable {r s : Registry α} {c : Change β}

theorem change_set_of_ok {name : String} {offer : β} {x : α} (h : accept name offer = .ok x) :
    r.change accept (.set name offer) = .ok (r.set name x) := by
  rw [change, h]
  rfl

theorem change_set_of_error {name : String} {offer : β} {f : Fault}
    (h : accept name offer = .error f) : r.change accept (.set name offer) = .error f := by
  rw [change, h]
  rfl

theorem change_update_of_ok {offers : List (String × β)} {entries : List (String × α)}
    (h : acceptAll accept offers = .ok entries) :
    r.change accept (.update offers) = .ok (r.setAll entries) := by
  rw [change, h]
  rfl

theorem change_update_of_error {offers : List (String × β)} {f : Fault}
    (h : acceptAll accept offers = .error f) :
    r.change accept (.update offers) = .error f := by
  rw [change, h]
  rfl

theorem change_delete_of_some {name : String} {x : α} (h : r.overrides.lookup name = some x) :
    r.change accept (.delete name) = .ok { r with overrides := without name r.overrides } := by
  simp [change, delete, h, pure, Except.pure]

theorem change_delete_of_none {name : String} (h : r.overrides.lookup name = none) :
    r.change accept (.delete name) = .error { kind := .missingKey } := by
  simp [change, delete, h, throw, throwThe, MonadExceptOf.throw]

theorem after_of_ok (h : r.change accept c = .ok s) : r.after accept c = s := by
  rw [after, h, Except.toOption, Option.getD_some]

theorem after_of_error {f : Fault} (h : r.change accept c = .error f) : r.after accept c = r := by
  rw [after, h, Except.toOption, Option.getD_none]

/-- What is registered after a change is what the change says, and what was registered before where
it says nothing. -/
theorem lookup_after (r : Registry α) (c : Change β) (name : String) :
    (r.after accept c).overrides.lookup name =
      (c.leaves? accept name).getD (r.overrides.lookup name) := by
  cases c with
  | set n offer =>
    cases ha : accept n offer with
    | error f =>
      rw [after_of_error (change_set_of_error ha)]
      simp [Change.leaves?, ha, Except.toOption]
    | ok x =>
      rw [after_of_ok (change_set_of_ok ha), lookup_set]
      by_cases h : name = n
      · subst h
        simp [Change.leaves?, ha, Except.toOption]
      · have hne : (name == n) = false := by simpa using h
        simp [Change.leaves?, Ne.symm h, List.lookup_cons, hne]
  | update offers =>
    cases ha : acceptAll accept offers with
    | error f =>
      rw [after_of_error (change_update_of_error ha)]
      simp [Change.leaves?, ha, Except.toOption]
    | ok entries =>
      rw [after_of_ok (change_update_of_ok ha), lookup_setAll]
      cases hl : entries.reverse.lookup name <;>
        simp [Change.leaves?, ha, hl, Except.toOption]
  | delete n =>
    cases hn : r.overrides.lookup n with
    | none =>
      rw [after_of_error (change_delete_of_none hn)]
      by_cases h : name = n
      · subst h
        simp [Change.leaves?, hn]
      · simp [Change.leaves?, Ne.symm h]
    | some x =>
      rw [after_of_ok (change_delete_of_some hn)]
      by_cases h : name = n
      · subst h
        simp [Change.leaves?, lookup_without_self]
      · simp [Change.leaves?, Ne.symm h, lookup_without_of_ne h]

/-- What holds of a registry after a change, if each way to change it keeps that. -/
theorem after_keeps {P : Registry α → Prop} (h : P r) (hset : ∀ name x, P (r.set name x))
    (hsetAll : ∀ entries, P (r.setAll entries))
    (hwithout : ∀ name, P { r with overrides := without name r.overrides }) :
    P (r.after accept c) := by
  cases c with
  | set name offer =>
    cases ha : accept name offer with
    | error f => rwa [after_of_error (change_set_of_error ha)]
    | ok x =>
      rw [after_of_ok (change_set_of_ok ha)]
      exact hset name x
  | update offers =>
    cases ha : acceptAll accept offers with
    | error f => rwa [after_of_error (change_update_of_error ha)]
    | ok entries =>
      rw [after_of_ok (change_update_of_ok ha)]
      exact hsetAll entries
  | delete name =>
    cases hn : r.overrides.lookup name with
    | none => rwa [after_of_error (change_delete_of_none hn)]
    | some x =>
      rw [after_of_ok (change_delete_of_some hn)]
      exact hwithout name

theorem Tidy.after (h : r.Tidy) : (r.after accept c).Tidy :=
  after_keeps h h.set h.setAll h.without

theorem builtins_setAll (r : Registry α) (entries : List (String × α)) :
    (r.setAll entries).builtins = r.builtins := by
  induction entries generalizing r with
  | nil => rfl
  | cons entry rest ih => exact ih (r.set entry.1 entry.2)

theorem builtins_after (r : Registry α) (c : Change β) :
    (r.after accept c).builtins = r.builtins :=
  after_keeps (P := fun s => s.builtins = r.builtins) rfl (fun _ _ => rfl) r.builtins_setAll
    fun _ => rfl

/-! ## Changes that cannot be done -/

/-- Whether a change is refused: something that is offered does not fit, or nothing is registered
under the name that is taken away. -/
def Change.Refused (fits : β → Bool) (registered : String → Option α) : Change β → Prop
  | .set _ offer => fits offer = false
  | .update offers => ∃ offered ∈ offers, fits offered.2 = false
  | .delete name => registered name = none

section

variable {fits : β → Bool} (hfits : ∀ name offer, (accept name offer).isOk = fits offer)

include hfits

theorem acceptAll_isOk (offers : List (String × β)) :
    (acceptAll accept offers).isOk = offers.all fun offered => fits offered.2 := by
  induction offers with
  | nil => rfl
  | cons offered rest ih =>
    obtain ⟨name, offer⟩ := offered
    rw [List.all_cons, ← hfits name offer, ← ih]
    cases ha : accept name offer with
    | error f => simp [acceptAll, ha, bind, Except.bind, Except.isOk, Except.toBool]
    | ok x =>
      cases hr : acceptAll accept rest <;>
        simp [acceptAll, ha, hr, bind, Except.bind, pure, Except.pure, Except.isOk, Except.toBool]

theorem change_isOk (r : Registry α) (c : Change β) :
    (r.change accept c).isOk = false ↔ c.Refused fits fun name => r.overrides.lookup name := by
  cases c with
  | set name offer =>
    rw [Change.Refused, ← hfits name offer]
    cases ha : accept name offer with
    | error f => rw [change_set_of_error ha]; rfl
    | ok x => rw [change_set_of_ok ha]; rfl
  | update offers =>
    have hall : (∃ offered ∈ offers, fits offered.2 = false) ↔
        (acceptAll accept offers).isOk = false := by
      rw [acceptAll_isOk hfits]
      simp
    rw [Change.Refused, hall]
    cases ha : acceptAll accept offers with
    | error f => rw [change_update_of_error ha]; rfl
    | ok entries => rw [change_update_of_ok ha]; rfl
  | delete name =>
    cases hn : r.overrides.lookup name with
    | none => simp [change_delete_of_none hn, Change.Refused, hn, Except.isOk, Except.toBool]
    | some x => simp [change_delete_of_some hn, Change.Refused, hn, Except.isOk, Except.toBool]

end

/-! ## All of a history -/

theorem run_cons (r : Registry α) (c : Change β) (history : List (Change β)) :
    r.run accept (c :: history) = (r.after accept c).run accept history := rfl

theorem lookup_run (r : Registry α) (history : List (Change β)) (name : String) :
    (r.run accept history).overrides.lookup name =
      (lastLeft? accept history name).getD (r.overrides.lookup name) := by
  induction history generalizing r with
  | nil => rfl
  | cons c history ih =>
    rw [run, List.foldl_cons, ← run, ih, lookup_after, lastLeft?_cons]
    cases lastLeft? accept history name <;> rfl

theorem Tidy.run (h : r.Tidy) (history : List (Change β)) : (r.run accept history).Tidy := by
  induction history generalizing r with
  | nil => exact h
  | cons c history ih => exact ih h.after

theorem builtins_run (r : Registry α) (history : List (Change β)) :
    (r.run accept history).builtins = r.builtins := by
  induction history generalizing r with
  | nil => rfl
  | cons c history ih => exact (ih (r.after accept c)).trans (r.builtins_after c)

theorem lookup_run_new (builtins : List (String × α)) (history : List (Change β)) (name : String) :
    (run accept { builtins } history).overrides.lookup name = standing? accept history name := by
  rw [lookup_run, standing?]
  cases lastLeft? accept history name <;> rfl

/-- Whatever was done to a registry, it shows what its history tells. -/
theorem shows_run {builtins : List (String × α)} (h : Distinct builtins)
    (history : List (Change β)) :
    (run accept { builtins } history).Shows (meaning accept builtins history) := by
  have hnew : Tidy { builtins } := ⟨.nil, h⟩
  have hmeaning : (run accept { builtins } history).get? = meaning accept builtins history := by
    funext name
    rw [Registry.get?, lookup_run_new, builtins_run, meaning]
  rw [← hmeaning]
  exact (hnew.run history).shows

end

end Liquid.Registry
