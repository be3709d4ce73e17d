import Liquid.Environment
import Liquid.Proofs.Registering.Tables
import Mathlib.Logic.Function.Basic

/-!
# The filters and tags of hosts

Every host has an environment of its own and changes the filters and tags in it, in any order and
between the changes of others.

* `filters_change`, `tags_change`: what one change does to each of the two tables.
* `change_fails_iff`, `change_of_fails`: which changes fail, and that these change nothing.
* `attended_eq`: a host finds its environment as its own changes have left it.
* `tells_attended`: so its tables show what these changes tell.
* `tables_after_history`: all of this after any history, and what one more change does then.
-/
namespace Liquid

/-- Whether what is offered is a tag or a function. -/
def TagOffer.fits : TagOffer → Bool
  | .tag _ | .function _ => true
  | .other _ => false

theorem TagOffer.asTag_isOk (name : String) (offer : TagOffer) :
    (offer.asTag name).isOk = offer.fits := by
  cases offer <;> rfl

namespace Environment

theorem asFilter_isOk (name : String) (filter : FilterFunction) :
    (asFilter name filter).isOk = true := rfl

/-- Nothing of the host is in the tables of an environment. -/
structure Untouched (env : Environment) (now : DateTime) : Prop where
  filters : env.engine.filters = { builtins := languageFilters now }
  tags : env.engine.tags = {}

theorem untouched_create (now : DateTime) (loader : Option Loader) (cacheSize : Int) :
    (create now loader cacheSize).Untouched now := ⟨rfl, rfl⟩

theorem distinct_languageFilters (now : DateTime) : Registry.Distinct (languageFilters now) := by
  have hnames : (languageFilters now).map Prod.fst =
      (Filter.texts ++ Filter.lists ++ Filter.numbers).map Prod.fst ++ ["date", "default"] := by
    rw [languageFilters, List.map_map, Filter.table, List.map_append]
    rfl
  rw [Registry.Distinct, hnames]
  decide

/-! ## One change -/

/-- What a change is for the filters. -/
def Change.filters? : Change → Option (Registry.Change FilterFunction)
  | .filters c => some c
  | .tags _ => none

/-- What a change is for the tags. -/
def Change.tags? : Change → Option (Registry.Change TagOffer)
  | .filters _ => none
  | .tags c => some c

theorem filters_change (env : Environment) (c : Change) :
    (env.change c).2.engine.filters =
      c.filters?.elim env.engine.filters (env.engine.filters.after asFilter) := by
  cases c with
  | filters c =>
    rw [Change.filters?, Option.elim_some, change]
    cases h : env.engine.filters.change asFilter c with
    | error f => exact (Registry.after_of_error h).symm
    | ok filters => exact (Registry.after_of_ok h).symm
  | tags c =>
    rw [Change.filters?, Option.elim_none, change]
    cases env.engine.tags.change TagOffer.asTag c <;> rfl

theorem tags_change (env : Environment) (c : Change) :
    (env.change c).2.engine.tags =
      c.tags?.elim env.engine.tags (env.engine.tags.after TagOffer.asTag) := by
  cases c with
  | filters c =>
    rw [Change.tags?, Option.elim_none, change]
    cases env.engine.filters.change asFilter c <;> rfl
  | tags c =>
    rw [Change.tags?, Option.elim_some, change]
    cases h : env.engine.tags.change TagOffer.asTag c with
    | error f => exact (Registry.after_of_error h).symm
    | ok tags => exact (Registry.after_of_ok h).symm

/-- A change that fails changes nothing, also not where it got some way before it failed. -/
theorem change_of_fails {env : Environment} {c : Change} (h : (env.change c).1.isOk = false) :
    (env.change c).2 = env := by
  cases c with
  | filters c =>
    rw [change] at h ⊢
    cases hc : env.engine.filters.change asFilter c with
    | error f => rfl
    | ok filters =>
      rw [hc] at h
      cases h
  | tags c =>
    rw [change] at h ⊢
    cases hc : env.engine.tags.change TagOffer.asTag c with
    | error f => rfl
    | ok tags =>
      rw [hc] at h
      cases h

/-- Whether a change is refused where some filters and some tags are registered. -/
def Change.Refused (filters : String → Option FilterFunction) (tags : String → Option HostTag) :
    Change → Prop
  | .filters c => c.Refused (fun _ => true) filters
  | .tags c => c.Refused TagOffer.fits tags

theorem change_fails_iff (env : Environment) (c : Change) :
    (env.change c).1.isOk = false ↔
      c.Refused (fun name => env.engine.filters.overrides.lookup name)
        fun name => env.engine.tags.overrides.lookup name := by
  cases c with
  | filters c =>
    rw [Change.Refused, ← Registry.change_isOk asFilter_isOk, change]
    cases env.engine.filters.change asFilter c <;> rfl
  | tags c =>
    rw [Change.Refused, ← Registry.change_isOk TagOffer.asTag_isOk, change]
    cases env.engine.tags.change TagOffer.asTag c <;> rfl

/-! ## All changes of a host -/

/-- The environment after all of some changes. -/
def changeAll (env : Environment) (changes : List Change) : Environment :=
  changes.foldl (fun env c => (env.change c).2) env

theorem filters_changeAll (env : Environment) (changes : List Change) :
    (env.changeAll changes).engine.filters =
      env.engine.filters.run asFilter (changes.filterMap Change.filters?) := by
  induction changes generalizing env with
  | nil => rfl
  | cons c changes ih =>
    rw [changeAll, List.foldl_cons, ← changeAll, ih, filters_change]
    cases h : c.filters? with
    | none => rw [List.filterMap_cons_none h, Option.elim_none]
    | some d => rw [List.filterMap_cons_some h, Option.elim_some, Registry.run_cons]

theorem tags_changeAll (env : Environment) (changes : List Change) :
    (env.changeAll changes).engine.tags =
      env.engine.tags.run TagOffer.asTag (changes.filterMap Change.tags?) := by
  induction changes generalizing env with
  | nil => rfl
  | cons c changes ih =>
    rw [changeAll, List.foldl_cons, ← changeAll, ih, tags_change]
    cases h : c.tags? with
    | none => rw [List.filterMap_cons_none h, Option.elim_none]
    | some d => rw [List.filterMap_cons_some h, Option.elim_some, Registry.run_cons]

/-! ## All changes of all hosts -/

section

variable {ι : Type} [DecidableEq ι]

/-- The environments of all hosts once one of them asked for a change. -/
def attend (hosts : ι → Environment) (asked : ι × Change) : ι → Environment :=
  Function.update hosts asked.1 ((hosts asked.1).change asked.2).2

/-- The environments of all hosts after a history. -/
def attended (hosts : ι → Environment) (history : List (ι × Change)) : ι → Environment :=
  history.foldl attend hosts

/-- What one of the hosts asked for. -/
def own (i : ι) (history : List (ι × Change)) : List Change :=
  (history.filter fun asked => asked.1 = i).map Prod.snd

/-- What one of the hosts asked of its filters. -/
def ownFilters (i : ι) (history : List (ι × Change)) : List (Registry.Change FilterFunction) :=
  (own i history).filterMap Change.filters?

/-- What one of the hosts asked of its tags. -/
def ownTags (i : ι) (history : List (ι × Change)) : List (Registry.Change TagOffer) :=
  (own i history).filterMap Change.tags?

theorem own_append (i : ι) (history : List (ι × Change)) (c : Change) :
    own i (history ++ [(i, c)]) = own i history ++ [c] := by
  rw [own, List.filter_append, List.map_append, ← own, List.filter_cons_of_pos (by simp)]
  rfl

theorem attend_of_ne {i j : ι} (h : j ≠ i) (hosts : ι → Environment) (c : Change) :
    attend hosts (i, c) j = hosts j :=
  Function.update_of_ne h _ _

theorem attend_self (hosts : ι → Environment) (i : ι) (c : Change) :
    attend hosts (i, c) i = ((hosts i).change c).2 :=
  Function.update_self i _ _

theorem attended_append (hosts : ι → Environment) (history : List (ι × Change))
    (asked : ι × Change) :
    attended hosts (history ++ [asked]) = attend (attended hosts history) asked := List.foldl_append

/-- A host finds its environment as its own changes have left it. -/
theorem attended_eq (hosts : ι → Environment) (history : List (ι × Change)) (i : ι) :
    attended hosts history i = (hosts i).changeAll (own i history) := by
  induction history generalizing hosts with
  | nil => rfl
  | cons asked history ih =>
    obtain ⟨j, c⟩ := asked
    rw [attended, List.foldl_cons, ← attended, ih]
    by_cases h : i = j
    · subst h
      rw [attend_self, own, own, List.filter_cons_of_pos (by simp)]
      rfl
    · rw [attend_of_ne h, own, own, List.filter_cons_of_neg (by simpa using Ne.symm h)]

variable {hosts : ι → Environment} {now : ι → DateTime}

theorem filters_attended (hnew : ∀ i, (hosts i).Untouched (now i)) (history : List (ι × Change))
    (i : ι) :
    (attended hosts history i).engine.filters =
      Registry.run asFilter { builtins := languageFilters (now i) } (ownFilters i history) := by
  rw [attended_eq, filters_changeAll, (hnew i).filters, ownFilters]

theorem tags_attended (hnew : ∀ i, (hosts i).Untouched (now i)) (history : List (ι × Change))
    (i : ι) :
    (attended hosts history i).engine.tags =
      Registry.run TagOffer.asTag {} (ownTags i history) := by
  rw [attended_eq, tags_changeAll, (hnew i).tags, ownTags]

/-- The tables of an environment show what some changes tell, and what the language has is as it
was. -/
structure Tells (env : Environment) (now : DateTime)
    (filters : List (Registry.Change FilterFunction)) (tags : List (Registry.Change TagOffer)) :
    Prop where
  filters : env.engine.filters.Shows (Registry.meaning asFilter (languageFilters now) filters)
  tags : env.engine.tags.Shows (Registry.meaning TagOffer.asTag [] tags)
  languageFilters : env.engine.filters.builtins = languageFilters now
  languageTags : env.engine.tags.builtins = []

theorem tells_attended (hnew : ∀ i, (hosts i).Untouched (now i)) (history : List (ι × Change))
    (i : ι) :
    (attended hosts history i).Tells (now i) (ownFilters i history) (ownTags i history) where
  filters := by
    rw [filters_attended hnew]
    exact Registry.shows_run (distinct_languageFilters (now i)) _
  tags := by
    rw [tags_attended hnew]
    exact Registry.shows_run Registry.Distinct.nil _
  languageFilters := by rw [filters_attended hnew, Registry.builtins_run]
  languageTags := by rw [tags_attended hnew, Registry.builtins_run]

/-- Whatever hosts with new environments ask for and in which order, the tables of each show what it
registered last itself and did not take away since, and under it what the language has.  As for one
more change: it fails if and only if it is refused, and then it changes nothing; it changes nothing
of other hosts; and where it takes a name away, what the language has under the name is back. -/
theorem tables_after_history (hnew : ∀ i, (hosts i).Untouched (now i))
    (history : List (ι × Change)) (i : ι) :
    (attended hosts history i).Tells (now i) (ownFilters i history) (ownTags i history) ∧
    (∀ c, (((attended hosts history i).change c).1.isOk = false ↔
        c.Refused (Registry.standing? asFilter (ownFilters i history))
          (Registry.standing? TagOffer.asTag (ownTags i history))) ∧
      (((attended hosts history i).change c).1.isOk = false →
        attended hosts (history ++ [(i, c)]) = attended hosts history) ∧
      ∀ j, j ≠ i → attended hosts (history ++ [(i, c)]) j = attended hosts history j) ∧
    ∀ name,
      (attended hosts (history ++ [(i, .filters (.delete name))]) i).engine.filters.get? name =
        (languageFilters (now i)).lookup name ∧
      (attended hosts (history ++ [(i, .tags (.delete name))]) i).engine.tags.get? name = none := by
  refine ⟨tells_attended hnew history i, fun c => ⟨?_, fun h => ?_, fun j hj => ?_⟩,
    fun name => ⟨?_, ?_⟩⟩
  · have hfilters : (fun name => (attended hosts history i).engine.filters.overrides.lookup name) =
        Registry.standing? asFilter (ownFilters i history) := by
      funext name
      rw [filters_attended hnew, Registry.lookup_run_new]
    have htags : (fun name => (attended hosts history i).engine.tags.overrides.lookup name) =
        Registry.standing? TagOffer.asTag (ownTags i history) := by
      funext name
      rw [tags_attended hnew, Registry.lookup_run_new]
    rw [change_fails_iff, hfilters, htags]
  · rw [attended_append, attend, change_of_fails h, Function.update_eq_self]
  · rw [attended_append, attend_of_ne hj]
  · have hnext := tells_attended hnew (history ++ [(i, .filters (.delete name))]) i
    rw [hnext.filters.get?, ownFilters, own_append, List.filterMap_append]
    exact Registry.meaning_delete _ _ name
  · have hnext := tells_attended hnew (history ++ [(i, .tags (.delete name))]) i
    rw [hnext.tags.get?, ownTags, own_append, List.filterMap_append]
    exact Registry.meaning_delete _ _ name

end

/-- Two hosts with new environments. -/
def twoHosts (_ : Bool) : Environment := create (Filter.midnight Date.first) none 0

/-- One host replaces a filter and takes it away again, and then offers two tags of which one is
none.  The other registers a tag with a body. -/
def twoHistory : List (Bool × Change) :=
  [ (true, .addFilter "upcase" fun v _ => pure v),
    (false, .addTag "shout" (fun _ => .text "!") true),
    (true, .filters (.delete "upcase")),
    (true, .tags (.update [("shout", .function fun _ => .text "!"), ("size", .other "int")])) ]

theorem tables_after_history_two_hosts :
    let later := attended twoHosts twoHistory
    (∀ i, (twoHosts i).Untouched (Filter.midnight Date.first)) ∧
      (later true).engine.filters.contains "upcase" = true ∧
      (later true).engine.tags.contains "shout" = false ∧
      (later false).engine.tags.contains "shout" = true := by
  have hnew (i : Bool) : (twoHosts i).Untouched (Filter.midnight Date.first) :=
    untouched_create _ _ _
  obtain ⟨htrue, -⟩ := tables_after_history hnew twoHistory true
  obtain ⟨hfalse, -⟩ := tables_after_history hnew twoHistory false
  refine ⟨hnew, ?_, ?_, ?_⟩
  · rw [htrue.filters.contains]
    rfl
  · rw [htrue.tags.contains]
    rfl
  · rw [hfalse.tags.contains]
    rfl

end Environment

end Liquid
