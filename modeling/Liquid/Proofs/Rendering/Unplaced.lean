import Liquid.Environment

/-!
# Errors without a place

An error of rendering says of itself where it happened.  All other errors are given a place at the
end of the template in which they happen.  What the language has of itself reports nothing of the
former kind: neither its filters nor its loaders know where they are called.

* `unplaced_languageFilters`: a filter of the language fails without a place.
* `unplaced_load`, `unplaced_fetch`: so does loading a template.
* `Error.Unplaced.positioned`: at the end of a template an error is given its place.
-/
namespace Liquid

/-- A result that is a value, or such an error. -/
def FailsOnly {α : Type} (P : Error → Prop) (r : Except Error α) : Prop := ∀ e, r = .error e → P e

/-- An error that does not say where it happened. -/
def Error.Unplaced (e : Error) : Prop := ∀ r, e.failure ≠ .render r

/-- A result that is a value, or an error that does not say where it happened. -/
abbrev Unplaced {α : Type} (r : Except Error α) : Prop := FailsOnly Error.Unplaced r

section

variable {α β : Type} {P : Error → Prop}

theorem failsOnly_pure (x : α) : FailsOnly P (pure x) := fun _ h => by cases h

theorem failsOnly_error {e : Error} (h : P e) : FailsOnly P (.error e : Except Error α) := by
  intro e' he
  cases he
  exact h

theorem failsOnly_bind {r : Except Error α} {f : α → Except Error β} (h : FailsOnly P r)
    (hf : ∀ x, FailsOnly P (f x)) : FailsOnly P (r >>= f) := by
  cases r with
  | ok x => exact hf x
  | error e => exact failsOnly_error (h e rfl)

/-- A fault happens somewhere, but does not know it. -/
theorem Error.unplaced_ofFault (f : Fault) : (Error.ofFault f).Unplaced :=
  fun _ => Failure.noConfusion

theorem failsOnly_orFault (h : ∀ f, P (.ofFault f)) (r : Except Fault α) :
    FailsOnly P (orFault r) := by
  cases r with
  | ok x => exact failsOnly_pure x
  | error f => exact failsOnly_error (h f)

theorem unplaced_orFault (r : Except Fault α) : Unplaced (orFault r) :=
  failsOnly_orFault Error.unplaced_ofFault r

end

/-! ## What is said about an error on its way -/

namespace Error

variable {e : Error}

theorem Unplaced.withinTag (h : e.Unplaced) (tag : String) : (e.withinTag tag).Unplaced := by
  obtain ⟨failure, cause⟩ := e
  cases failure with
  | render r => exact absurd rfl (h r)
  | tag text name => cases name <;> exact fun _ => Failure.noConfusion
  | notFound text name found => cases name <;> exact fun _ => Failure.noConfusion
  | _ => exact fun _ => Failure.noConfusion

theorem Unplaced.withinFilter (h : e.Unplaced) (filter : String) :
    (e.withinFilter filter).Unplaced := by
  obtain ⟨failure, cause⟩ := e
  cases failure with
  | render r => exact absurd rfl (h r)
  | filter text name => cases name <;> exact fun _ => Failure.noConfusion
  | _ => exact fun _ => Failure.noConfusion

theorem Unplaced.askedBy (h : e.Unplaced) (tag : String) : (e.askedBy tag).Unplaced := by
  obtain ⟨failure, cause⟩ := e
  cases failure with
  | render r => exact absurd rfl (h r)
  | notFound text name found => cases name <;> exact fun _ => Failure.noConfusion
  | _ => exact fun _ => Failure.noConfusion

theorem Unplaced.positioned (h : e.Unplaced) (place : Option Place) (line : Int) :
    ∃ text code, (e.positioned place line).failure = .render (.at place line text code none) := by
  obtain ⟨failure, cause⟩ := e
  cases failure with
  | render r => exact absurd rfl (h r)
  | _ => exact ⟨_, _, rfl⟩

theorem withinTag_render {r : RenderError} (h : e.failure = .render r) (tag : String) :
    (e.withinTag tag).failure = .render r := by
  unfold Error.withinTag
  rw [h]
  exact h

theorem withinFilter_render {r : RenderError} (h : e.failure = .render r) (filter : String) :
    e.withinFilter filter = e := by
  unfold Error.withinFilter
  rw [h]

theorem positioned_failure {r : RenderError} (h : e.failure = .render r) (place : Option Place)
    (line : Int) : (e.positioned place line).failure = .render r := by
  unfold Error.positioned
  rw [h]
  exact h

theorem unplaced_or_render (e : Error) : e.Unplaced ∨ ∃ r, e.failure = .render r := by
  by_cases h : ∃ r, e.failure = .render r
  · exact .inr h
  · exact .inl fun r hr => h ⟨r, hr⟩

/-- An error that is given a place says where it happened. -/
theorem exists_positioned (e : Error) (place : Option Place) (line : Int) :
    ∃ r, (e.positioned place line).failure = .render r := by
  rcases e.unplaced_or_render with hu | ⟨r, hr⟩
  · obtain ⟨text, code, h⟩ := hu.positioned place line
    exact ⟨_, h⟩
  · exact ⟨r, positioned_failure hr place line⟩

end Error

/-! ## Filters -/

namespace Filter

/-- A filter of the language that fails without a place, whatever it is given. -/
def Modest : Builtin → Prop
  | .plain run => ∀ v, Unplaced (run v)
  | .unary _ run => ∀ v x, Unplaced (run v x)
  | .binary _ _ run => ∀ v x y, Unplaced (run v x y)

theorem Modest.apply {b : Builtin} (h : Modest b) (v : Value) (a : Arguments) :
    Unplaced (b.apply v a) := by
  cases b with
  | plain run => exact failsOnly_bind (unplaced_orFault _) fun _ => h v
  | unary p run =>
    exact failsOnly_bind (unplaced_orFault _) fun x =>
      failsOnly_bind (unplaced_orFault _) fun _ => h v x.1
  | binary p q run =>
    exact failsOnly_bind (unplaced_orFault _) fun x =>
      failsOnly_bind (unplaced_orFault _) fun y =>
        failsOnly_bind (unplaced_orFault _) fun _ => h v x.1 y.1

theorem unplaced_filterError (name text : String) : (filterError name text).Unplaced :=
  fun _ => Failure.noConfusion

theorem unplaced_onText (f : List Char → List Char) (v : Value) : Unplaced (onText f v) :=
  failsOnly_pure _

theorem unplaced_urlDecode (v : Value) : Unplaced (urlDecode v) := by
  unfold urlDecode
  split
  · exact failsOnly_pure _
  · exact failsOnly_error (unplaced_filterError _ _)
  · exact failsOnly_error fun _ => Failure.noConfusion

theorem unplaced_truncate (v length ellipsis : Value) : Unplaced (truncate v length ellipsis) := by
  unfold truncate
  dsimp only
  split <;> exact failsOnly_pure _

theorem unplaced_truncateWords (v words ellipsis : Value) :
    Unplaced (truncateWords v words ellipsis) := by
  unfold truncateWords
  dsimp only
  split <;> exact failsOnly_pure _

theorem unplaced_slice (v offset length : Value) : Unplaced (slice v offset length) := by
  unfold slice
  dsimp only
  split
  · exact failsOnly_bind (unplaced_orFault _) fun _ => failsOnly_pure _
  · exact failsOnly_pure _

theorem unplaced_split (v separator : Value) : Unplaced (split v separator) := by
  unfold split
  split <;> exact failsOnly_pure _

theorem modest_texts : ∀ b ∈ texts.map Prod.snd, Modest b := by
  simp only [texts, List.map_cons, List.map_nil, List.forall_mem_cons]
  have text (f : List Char → List Char) : Modest (.plain (onText f)) := unplaced_onText f
  exact ⟨text _, text _, text _, text _, text _, text _, text _, text _, text _, text _, text _,
    text _, unplaced_urlDecode, unplaced_truncate, unplaced_truncateWords,
    fun _ _ => failsOnly_pure _, fun _ _ => failsOnly_pure _, fun _ _ _ => unplaced_onText _ _,
    fun _ _ _ => unplaced_onText _ _, fun _ _ => unplaced_onText _ _,
    fun _ _ => unplaced_onText _ _, unplaced_slice, unplaced_split, List.forall_mem_nil _⟩

/-- The filters for the first and the last item. -/
theorem unplaced_end (v : Value) (f : List Value → Option Value)
    (g : Int → Int → Option Value) : Unplaced (match v with
      | .list items | .tuple items => pure ((f items).getD .nil)
      | .range start stop => do
        let _ ← orFault v.size?
        return (g start stop).getD .nil
      | _ => pure .nil : FilterResult) := by
  split
  · exact failsOnly_pure _
  · exact failsOnly_pure _
  · exact failsOnly_bind (unplaced_orFault _) fun _ => failsOnly_pure _
  · exact failsOnly_pure _

theorem unplaced_join (v separator : Value) : Unplaced (join v separator) := by
  unfold join
  split
  · exact failsOnly_pure _
  · exact failsOnly_bind (unplaced_orFault _) fun _ => failsOnly_pure _

theorem unplaced_finite (name : String) (n : Option Number) : Unplaced (finite name n) := by
  unfold finite
  split
  · exact failsOnly_error (Error.unplaced_ofFault _)
  · split
    · exact failsOnly_pure _
    · exact failsOnly_error (unplaced_filterError _ _)

theorem modest_lists : ∀ b ∈ lists.map Prod.snd, Modest b := by
  simp only [lists, List.map_cons, List.map_nil, List.forall_mem_cons]
  refine ⟨fun v => unplaced_end v List.head? _, fun v => unplaced_end v List.getLast? _,
    unplaced_join, fun v => ?_, fun _ _ => unplaced_orFault _, fun _ _ => unplaced_orFault _,
    fun v => ?_, fun _ _ => unplaced_orFault _, fun _ _ => unplaced_orFault _,
    fun _ _ _ => unplaced_orFault _, fun _ _ => unplaced_orFault _, fun _ _ => unplaced_orFault _,
    List.forall_mem_nil _⟩
  · exact failsOnly_bind (unplaced_orFault _) fun _ => failsOnly_pure _
  · exact failsOnly_bind (unplaced_orFault _) fun _ => failsOnly_pure _

theorem unplaced_dividedBy (v operand : Value) : Unplaced (dividedBy v operand) := by
  unfold dividedBy
  split
  · exact failsOnly_error (unplaced_filterError _ _)
  · exact unplaced_finite _ _

theorem unplaced_modulo (v operand : Value) : Unplaced (modulo v operand) := by
  unfold modulo
  split
  · exact failsOnly_error (unplaced_filterError _ _)
  · split
    · exact failsOnly_pure _
    · exact failsOnly_error (Error.unplaced_ofFault _)

theorem unplaced_round (v precision : Value) : Unplaced (round v precision) := by
  unfold round
  dsimp only
  split
  · exact failsOnly_error (Error.unplaced_ofFault _)
  · split
    · exact failsOnly_pure _
    · exact unplaced_finite _ _

theorem modest_numbers : ∀ b ∈ numbers.map Prod.snd, Modest b := by
  simp only [numbers, List.map_cons, List.map_nil, List.forall_mem_cons]
  exact ⟨fun _ _ => unplaced_finite _ _, fun _ _ => unplaced_finite _ _,
    fun _ _ => unplaced_finite _ _, unplaced_dividedBy, unplaced_modulo, unplaced_round,
    fun _ => failsOnly_pure _, fun _ => failsOnly_pure _, fun _ => failsOnly_pure _,
    fun _ _ => failsOnly_pure _, fun _ _ => failsOnly_pure _, List.forall_mem_nil _⟩

theorem unplaced_date (now : DateTime) (v fmt : Value) : Unplaced (date now v fmt) := by
  unfold date
  dsimp only
  refine iteInduction (fun _ => failsOnly_pure _) fun _ => ?_
  cases dateOf? now v <;> exact failsOnly_pure _

theorem unplaced_fallback (v other allowFalse : Value) :
    Unplaced (fallback v other allowFalse) := by
  refine failsOnly_bind (unplaced_orFault _) fun empty => ?_
  split
  · exact failsOnly_pure _
  · split <;> exact failsOnly_pure _

theorem modest_table (now : DateTime) : ∀ b ∈ (table now).map Prod.snd, Modest b := by
  simp only [table, List.map_append, List.forall_mem_append]
  refine ⟨⟨⟨modest_texts, modest_lists⟩, modest_numbers⟩, ?_⟩
  simp only [List.map_cons, List.map_nil, List.forall_mem_cons]
  exact ⟨unplaced_date now, unplaced_fallback, List.forall_mem_nil _⟩

end Filter

/-- No filter of the language says where it failed. -/
theorem Environment.unplaced_languageFilters {now : DateTime} {name : String} {f : FilterFunction}
    (h : (name, f) ∈ languageFilters now) (v : Value) (a : Arguments) : Unplaced (f v a) := by
  obtain ⟨⟨n, b⟩, hb, he⟩ := List.mem_map.1 h
  cases he
  exact (Filter.modest_table now b (List.mem_map_of_mem hb)).apply v a

/-! ## Loaders -/

namespace Loader

theorem unplaced_notFound (name more : String) : (notFound name more).Unplaced :=
  fun _ => Failure.noConfusion

theorem unplaced_files (d : Directory) (name : String) : Unplaced (d.load name) := by
  unfold Directory.load
  split
  · exact failsOnly_error (Error.unplaced_ofFault _)
  · exact failsOnly_pure _
  · exact failsOnly_error fun _ => Failure.noConfusion

mutual

theorem unplaced_load (name : String) (loader : Loader) : Unplaced (loader.load name) := by
  cases loader with
  | table templates =>
    rw [load]
    split
    · exact failsOnly_pure _
    · exact failsOnly_error (unplaced_notFound _ _)
  | function find =>
    rw [load]
    split
    · exact failsOnly_pure _
    · exact failsOnly_error (unplaced_notFound _ _)
  | files directory => rw [load]; exact unplaced_files directory name
  | choice loaders =>
    rw [load]
    refine failsOnly_bind (unplaced_loadFirst name loaders) fun found => ?_
    cases found with
    | some source => exact failsOnly_pure _
    | none => exact failsOnly_error (unplaced_notFound _ _)

theorem unplaced_loadFirst (name : String) (loaders : List Loader) :
    Unplaced (loadFirst name loaders) := by
  cases loaders with
  | nil => exact failsOnly_pure _
  | cons loader rest =>
    rw [loadFirst]
    have hl := unplaced_load name loader
    cases hr : loader.load name with
    | ok source => exact failsOnly_pure _
    | error e =>
      dsimp only
      split
      · exact unplaced_loadFirst name rest
      · exact failsOnly_error (hl e hr)

end

end Loader

namespace Engine

theorem unplaced_read (engine : Engine) (source : String) (name filename : Option String) :
    Unplaced (engine.read source name filename) := by
  unfold read
  cases Template.read engine.tagBlocks source name filename with
  | ok t => exact failsOnly_pure t
  | error e => exact failsOnly_error fun _ => Failure.noConfusion

theorem unplaced_load (engine : Engine) (name : String) : Unplaced (engine.load name) := by
  unfold load
  split
  · exact failsOnly_error (Loader.unplaced_notFound _ _)
  · rename_i loader _
    exact failsOnly_bind (loader.unplaced_load name) fun _ => unplaced_read engine _ _ _

/-- A template that cannot be loaded is not found or not read, and neither says where it was asked
for. -/
theorem unplaced_fetch (engine : Engine) (name : String) (shelf : Shelf) :
    Unplaced (engine.fetch name shelf).1 := by
  unfold fetch
  split
  · exact failsOnly_pure _
  · have hl := engine.unplaced_load name
    cases hr : engine.load name with
    | ok t => exact failsOnly_pure _
    | error e => exact failsOnly_error (hl e hr)

end Engine

end Liquid
