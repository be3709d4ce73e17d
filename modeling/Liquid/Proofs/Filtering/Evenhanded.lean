import Liquid.Environment
import Mathlib.Data.List.Forall2

/-!
# Nil and nothing

Nil and the value of a name that means nothing are told apart by hardly anything.  They have the
same text, the same truth, the same items and no parts, they are equal, and filters give the same
for the one as for the other.

**What tells them apart.**  Nil may be a key of a mapping and nothing may not, and three filters
take nil for an argument that is not given, or nothing for one, but not the other.

* `Value.Akin`: two values that are the same but for this difference.
* `Value.akin_segment`, `Value.akin_contains`, `Value.akin_equals`: asking for parts and comparing.
* `Filter.evenhanded_table`: the filters of the language.
* `Builtin.akin_apply`: their calls.
-/
namespace Liquid

namespace Value

/-! ## Values -/

/-- The same value, or nil and nothing. -/
def Akin (v w : Value) : Prop := v.orNil = w.orNil

variable {v w : Value}

theorem Akin.refl (v : Value) : v.Akin v := rfl

theorem akin_nil : Akin .nil .undefined := rfl

/-- Akin values that are not the same are nil and nothing, in either order. -/
theorem Akin.cases (h : v.Akin w) :
    v = w ∨ (v = .nil ∧ w = .undefined) ∨ (v = .undefined ∧ w = .nil) := by
  unfold Akin orNil at h
  split at h <;> split at h
  · exact .inl rfl
  · exact .inr (.inr ⟨rfl, h.symm⟩)
  · exact .inr (.inl ⟨h, rfl⟩)
  · exact .inl h

theorem Akin.eq_of_not_isNil (h : v.Akin w) (hn : v.isNil = false) : v = w := by
  rcases h.cases with rfl | ⟨rfl, -⟩ | ⟨rfl, -⟩
  · rfl
  · cases hn
  · cases hn

/-- What is the same for nil and nothing is the same for akin values. -/
theorem Akin.congr {β : Type} (h : v.Akin w) {f : Value → β} (hf : f .nil = f .undefined) :
    f v = f w := by
  rcases h.cases with rfl | ⟨rfl, rfl⟩ | ⟨rfl, rfl⟩
  · rfl
  · exact hf
  · exact hf.symm

theorem Akin.now (h : v.Akin w) (positions : Positions) :
    (v.now positions).Akin (w.now positions) := by
  rcases h.cases with rfl | ⟨rfl, rfl⟩ | ⟨rfl, rfl⟩
  · exact .refl _
  · exact akin_nil
  · exact akin_nil.symm

/-! ## Results -/

/-- Two results that are the same error, or akin values. -/
def AkinResults {ε : Type} (r r' : Except ε Value) : Prop := r.map orNil = r'.map orNil

theorem AkinResults.refl {ε : Type} (r : Except ε Value) : AkinResults r r := rfl

theorem AkinResults.of_eq {ε : Type} {r r' : Except ε Value} (h : r = r') : AkinResults r r' :=
  congrArg _ h

theorem akinResults_pure {ε : Type} (h : v.Akin w) :
    AkinResults (pure v : Except ε Value) (pure w) := congrArg Except.ok h

theorem AkinResults.cases {ε : Type} {r r' : Except ε Value} (h : AkinResults r r') :
    (∃ e, r = .error e ∧ r' = .error e) ∨ ∃ v w, r = .ok v ∧ r' = .ok w ∧ v.Akin w := by
  unfold AkinResults at h
  cases r with
  | error e =>
    cases r' with
    | error e' => cases h; exact .inl ⟨e, rfl, rfl⟩
    | ok w => cases h
  | ok v =>
    cases r' with
    | error e' => cases h
    | ok w => exact .inr ⟨v, w, rfl, rfl, Except.ok.inj h⟩

theorem AkinResults.bind {ε : Type} {r r' : Except ε Value} {f f' : Value → Except ε Value}
    (h : AkinResults r r') (hf : ∀ v w, r = .ok v → v.Akin w → AkinResults (f v) (f' w)) :
    AkinResults (r >>= f) (r' >>= f') := by
  rcases h.cases with ⟨e, rfl, rfl⟩ | ⟨v, w, rfl, rfl, hv⟩
  · exact .refl _
  · exact hf v w rfl hv

theorem AkinResults.orFault {r r' : Except Fault Value} (h : AkinResults r r') :
    AkinResults (orFault r) (orFault r') := by
  rcases h.cases with ⟨f, rfl, rfl⟩ | ⟨v, w, rfl, rfl, hv⟩
  · exact .refl _
  · exact akinResults_pure hv

/-! ## Parts and comparison -/

/-- The container is a mapping with nil among its keys, and is asked for nil or for nothing. -/
def TellsApart (container key : Value) : Prop :=
  key.isNil = true ∧ ∃ entries, container = .mapping entries ∧ (find? .nil entries).isSome

theorem find?_nil_of_not_tellsApart {entries : List (Key × Value)}
    (h : ¬ (mapping entries).TellsApart .nil) : find? .nil entries = none := by
  cases hf : find? .nil entries with
  | none => rfl
  | some found => exact absurd ⟨rfl, entries, rfl, by rw [hf]; rfl⟩ h

theorem segment_nil_eq (h : ¬ v.TellsApart .nil) : v.segment .nil = v.segment .undefined := by
  cases v with
  | mapping entries =>
    have hf := find?_nil_of_not_tellsApart h
    simp [segment, key?, hf]
  | _ => rfl

theorem fits_nil_eq (word : Literal) : word.fits .nil = word.fits .undefined := by
  cases word <;> rfl

theorem equals_nil_eq (v : Value) : v.equals .nil = v.equals .undefined := by
  cases v with
  | literal word => exact fits_nil_eq word
  | _ => rfl

theorem nil_equals_eq (v : Value) : Value.nil.equals v = Value.undefined.equals v := by
  cases v with
  | literal word => exact fits_nil_eq word
  | _ => rfl

theorem contains_nil_eq (h : ¬ v.TellsApart .nil) : v.contains .nil = v.contains .undefined := by
  have items (items : List Value) : anyEquals .nil items = anyEquals .undefined items := by
    induction items with
    | nil => rfl
    | cons v rest ih => simp only [anyEquals, equals_nil_eq, ih]
  cases v with
  | mapping entries =>
    have hf := find?_nil_of_not_tellsApart h
    simp [contains, key?, hf]
  | list xs => exact items xs
  | tuple xs => exact items xs
  | set xs => exact items xs
  | range start stop => exact items _
  | _ => rfl

theorem tellsApart_of_akin {key key' : Value} (h : ¬ v.TellsApart key) (hk : key.Akin key') :
    key = key' ∨ ¬ v.TellsApart .nil := by
  rcases hk.cases with rfl | ⟨rfl, -⟩ | ⟨rfl, -⟩
  · exact .inl rfl
  · exact .inr h
  · exact .inr fun hn => h ⟨rfl, hn.2⟩

/-- Akin values have the same parts, by akin keys. -/
theorem akin_segment {key key' : Value} (hv : v.Akin w) (hk : key.Akin key')
    (h : ¬ v.TellsApart key) : v.segment key = w.segment key' := by
  have hkey : v.segment key = v.segment key' := by
    rcases tellsApart_of_akin h hk with rfl | hn
    · rfl
    · exact hk.congr (segment_nil_eq hn)
  rw [hkey]
  exact hv.congr (f := fun v => v.segment key') rfl

theorem akin_contains {item item' : Value} (hv : v.Akin w) (hi : item.Akin item')
    (h : ¬ v.TellsApart item) : v.contains item = w.contains item' := by
  have hitem : v.contains item = v.contains item' := by
    rcases tellsApart_of_akin h hi with rfl | hn
    · rfl
    · exact hi.congr (contains_nil_eq hn)
  rw [hitem]
  exact hv.congr (f := fun v => v.contains item') rfl

theorem akin_equals {left right : Value} (hl : v.Akin w) (hr : left.Akin right) :
    v.equals left = w.equals right := by
  have hleft : v.equals left = w.equals left :=
    hl.congr (f := fun v => v.equals left) (nil_equals_eq left)
  have hright : w.equals left = w.equals right :=
    hr.congr (f := fun v => w.equals v) (equals_nil_eq w)
  exact hleft.trans hright

end Value

/-! ## Filters -/

namespace Filter

open Value

/-- The parameter of a filter whose default is nil or nothing and is told from the other: its place
and its name. -/
def tellingParameter? : String → Option (Nat × String)
  | "uniq" | "compact" => some (0, "prop")
  | "where" => some (1, "target")
  | _ => none

/-- A filter that does the same with nil and with nothing, and for any parameter but that one. -/
def Evenhanded (name : String) : Builtin → Prop
  | .plain run => AkinResults (run .nil) (run .undefined)
  | .unary p run =>
    (∀ x, AkinResults (run .nil x) (run .undefined x)) ∧
      (tellingParameter? name ≠ some (0, p.name) →
        ∀ v, AkinResults (run v .nil) (run v .undefined))
  | .binary p q run =>
    q.name ≠ p.name ∧ (∀ x y, AkinResults (run .nil x y) (run .undefined x y)) ∧
      (tellingParameter? name ≠ some (0, p.name) →
        ∀ v y, AkinResults (run v .nil y) (run v .undefined y)) ∧
      (tellingParameter? name ≠ some (1, q.name) →
        ∀ v x, AkinResults (run v x .nil) (run v x .undefined))

section

variable {name : String}

theorem evenhanded_plain {run : Value → FilterResult} (h : run .nil = run .undefined) :
    Evenhanded name (.plain run) := .of_eq h

theorem evenhanded_unary {p : Parameter} {run : Value → Value → FilterResult}
    (h : ∀ x, run .nil x = run .undefined x) (hx : ∀ v, run v .nil = run v .undefined) :
    Evenhanded name (.unary p run) := ⟨fun x => .of_eq (h x), fun _ v => .of_eq (hx v)⟩

theorem evenhanded_binary {p q : Parameter} {run : Value → Value → Value → FilterResult}
    (hn : q.name ≠ p.name) (h : ∀ x y, run .nil x y = run .undefined x y)
    (hx : ∀ v y, run v .nil y = run v .undefined y)
    (hy : ∀ v x, run v x .nil = run v x .undefined) : Evenhanded name (.binary p q run) :=
  ⟨hn, fun x y => .of_eq (h x y), fun _ v y => .of_eq (hx v y), fun _ v x => .of_eq (hy v x)⟩

theorem evenhanded_texts : ∀ p ∈ texts, Evenhanded p.1 p.2 := by
  have text {name : String} (f : List Char → List Char) : Evenhanded name (.plain (onText f)) :=
    evenhanded_plain rfl
  simp only [texts, List.forall_mem_cons]
  exact ⟨text _, text _, text _, text _, text _, text _, text _, text _, text _, text _, text _,
    text _, evenhanded_plain rfl,
    evenhanded_binary (by decide) (fun _ _ => rfl) (fun _ _ => rfl) (fun _ _ => rfl),
    evenhanded_binary (by decide) (fun _ _ => rfl) (fun _ _ => rfl) (fun _ _ => rfl),
    evenhanded_unary (fun _ => rfl) (fun _ => rfl), evenhanded_unary (fun _ => rfl) (fun _ => rfl),
    evenhanded_binary (by decide) (fun _ _ => rfl) (fun _ _ => rfl) (fun _ _ => rfl),
    evenhanded_binary (by decide) (fun _ _ => rfl) (fun _ _ => rfl) (fun _ _ => rfl),
    evenhanded_unary (fun _ => rfl) (fun _ => rfl), evenhanded_unary (fun _ => rfl) (fun _ => rfl),
    evenhanded_binary (by decide) (fun _ _ => rfl) (fun _ _ => rfl) (fun _ _ => rfl),
    evenhanded_unary (fun _ => rfl) (fun _ => rfl), List.forall_mem_nil _⟩

/-- A filter whose only parameter is the telling one. -/
theorem evenhanded_telling {p : Parameter} {run : Value → Value → FilterResult}
    (hn : tellingParameter? name = some (0, p.name)) (h : ∀ x, run .nil x = run .undefined x) :
    Evenhanded name (.unary p run) := ⟨fun x => .of_eq (h x), fun hne => absurd hn hne⟩

theorem evenhanded_lists : ∀ p ∈ lists, Evenhanded p.1 p.2 := by
  simp only [lists, List.forall_mem_cons]
  exact ⟨evenhanded_plain rfl, evenhanded_plain rfl,
    evenhanded_unary (fun _ => rfl) (fun _ => rfl), evenhanded_plain rfl,
    evenhanded_unary (fun _ => rfl) (fun _ => rfl), evenhanded_unary (fun _ => rfl) (fun _ => rfl),
    evenhanded_plain rfl, evenhanded_telling rfl fun _ => rfl,
    evenhanded_unary (fun _ => rfl) (fun _ => rfl),
    ⟨by decide, fun _ _ => .refl _, fun _ _ _ => .refl _, fun hne => absurd rfl hne⟩,
    evenhanded_telling rfl fun _ => rfl, evenhanded_unary (fun _ => rfl) (fun _ => rfl),
    List.forall_mem_nil _⟩

theorem evenhanded_numbers : ∀ p ∈ numbers, Evenhanded p.1 p.2 := by
  simp only [numbers, List.forall_mem_cons]
  exact ⟨evenhanded_unary (fun _ => rfl) (fun _ => rfl),
    evenhanded_unary (fun _ => rfl) (fun _ => rfl), evenhanded_unary (fun _ => rfl) (fun _ => rfl),
    evenhanded_unary (fun _ => rfl) (fun _ => rfl), evenhanded_unary (fun _ => rfl) (fun _ => rfl),
    evenhanded_unary (fun _ => rfl) (fun _ => rfl), evenhanded_plain rfl, evenhanded_plain rfl,
    evenhanded_plain rfl, evenhanded_unary (fun _ => rfl) (fun _ => rfl),
    evenhanded_unary (fun _ => rfl) (fun _ => rfl), List.forall_mem_nil _⟩

/-- The fallback may be the result, which is why results are akin and not the same. -/
theorem evenhanded_fallback : Evenhanded "default"
    (.binary (.or "fallback" (.text "")) (.or "allow_false" (.bool false)) fallback) := by
  refine ⟨by decide, fun _ _ => .refl _, fun _ v y => ?_, fun _ _ _ => .refl _⟩
  unfold fallback
  cases orFault v.isEmpty with
  | error e => exact .refl _
  | ok empty =>
    cases empty with
    | true => exact akinResults_pure akin_nil
    | false =>
      cases v with
      | bool b =>
        cases b with
        | true => exact .refl _
        | false =>
          change AkinResults (pure (if y.isTruthy then _ else _))
            (pure (if y.isTruthy then _ else _))
          cases y.isTruthy with
          | true => exact .refl _
          | false => exact akinResults_pure akin_nil
      | _ => exact .refl _

theorem evenhanded_date (now : DateTime) :
    Evenhanded name (.unary (.or "fmt" (.text "%Y-%m-%d")) (date now)) :=
  evenhanded_unary (fun _ => rfl) (fun _ => rfl)

/-- The filters of the language do not tell nil from nothing, but for three arguments. -/
theorem evenhanded_table (now : DateTime) : ∀ p ∈ table now, Evenhanded p.1 p.2 := by
  simp only [table, List.forall_mem_append, List.forall_mem_cons]
  exact ⟨⟨⟨evenhanded_texts, evenhanded_lists⟩, evenhanded_numbers⟩, evenhanded_date now,
    evenhanded_fallback, List.forall_mem_nil _⟩

end

end Filter

/-! ## Calls -/

namespace Bindings

/-- The same names in the same order, with akin values. -/
def Akin (b b' : Bindings) : Prop := List.Forall₂ (fun p q => p.1 = q.1 ∧ p.2.Akin q.2) b b'

variable {b b' : Bindings} {v w : Value}

theorem Akin.refl (b : Bindings) : b.Akin b := by
  induction b with
  | nil => exact .nil
  | cons p rest ih => exact .cons ⟨rfl, .refl _⟩ ih

/-- A name is bound in both or in neither. -/
theorem Akin.get? (h : b.Akin b') (name : String) :
    (b.get? name = none ∧ b'.get? name = none) ∨
      ∃ v w, b.get? name = some v ∧ b'.get? name = some w ∧ v.Akin w := by
  induction h with
  | nil => exact .inl ⟨rfl, rfl⟩
  | @cons p q rest rest' hpq _ ih =>
    obtain ⟨n, v⟩ := p
    obtain ⟨n', w⟩ := q
    obtain ⟨hn, hv⟩ := hpq
    cases (show n = n' from hn)
    rw [Bindings.get?, Bindings.get?]
    split
    · exact .inr ⟨v, w, rfl, rfl, hv⟩
    · exact ih

theorem Akin.set (h : b.Akin b') (name : String) (hv : v.Akin w) :
    (b.set name v).Akin (b'.set name w) := by
  induction h with
  | nil => exact .cons ⟨rfl, hv⟩ .nil
  | @cons p q rest rest' hpq hrest ih =>
    obtain ⟨n, x⟩ := p
    obtain ⟨n', y⟩ := q
    obtain ⟨hn, hx⟩ := hpq
    cases (show n = n' from hn)
    rw [Bindings.set, Bindings.set]
    split
    · exact .cons ⟨rfl, hv⟩ hrest
    · exact .cons ⟨rfl, hx⟩ ih

theorem Akin.filter (h : b.Akin b') {keep : String × Value → Bool}
    (hk : ∀ p q, p.1 = q.1 → keep p = keep q) :
    Bindings.Akin (List.filter keep b) (List.filter keep b') := by
  induction h with
  | nil => exact .nil
  | @cons p q rest rest' hpq hrest ih =>
    rw [List.filter_cons, List.filter_cons, hk p q hpq.1]
    split
    · exact .cons hpq ih
    · exact ih

theorem get?_filter {name : String} {keep : String × Value → Bool}
    (hk : ∀ v, keep (name, v) = true) : Bindings.get? name (List.filter keep b) = b.get? name := by
  induction b with
  | nil => rfl
  | cons entry rest ih =>
    rw [List.filter_cons, Bindings.get?]
    by_cases he : entry.1 = name
    · obtain ⟨n, v⟩ := entry
      cases (show n = name from he)
      have hkeep : keep (name, v) = true := hk v
      rw [if_pos hkeep, if_pos he, Bindings.get?, if_pos he]
    · rw [if_neg he]
      split
      · rw [Bindings.get?, if_neg he, ih]
      · exact ih

end Bindings

namespace Arguments

/-- The same arguments, but for nil and nothing. -/
structure Akin (a a' : Arguments) : Prop where
  byPosition : List.Forall₂ Value.Akin a.byPosition a'.byPosition
  byName : a.byName.Akin a'.byName

/-- What is given for a parameter, if anything is. -/
def given? (a : Arguments) (i : Nat) (name : String) : Option Value :=
  a.byPosition[i]?.or (a.byName.get? name)

/-- Nil or nothing is given for the one parameter of a filter for which that makes a difference. -/
def TellApart (filter : String) (a : Arguments) : Prop :=
  ∃ i name v, Filter.tellingParameter? filter = some (i, name) ∧ a.given? i name = some v ∧
    v.isNil = true

variable {a a' : Arguments} {p : Parameter}

/-- What two calls with akin arguments take for a parameter is akin, and it is the same unless nil
or nothing is given for it.  The arguments of the parameters behind it are left. -/
theorem Akin.take (h : a.Akin a') (p : Parameter) :
    (∃ f, a.take p = .error f ∧ a'.take p = .error f) ∨
      ∃ v w r r', a.take p = .ok (v, r) ∧ a'.take p = .ok (w, r') ∧ r.Akin r' ∧ v.Akin w ∧
        ((∀ x, a.given? 0 p.name = some x → x.isNil = false) → v = w) ∧
        ∀ i name, name ≠ p.name → r.given? i name = a.given? (i + 1) name := by
  obtain ⟨byPosition, byName⟩ := a
  obtain ⟨byPosition', byName'⟩ := a'
  obtain ⟨hp, hn⟩ := h
  cases hp with
  | @cons v w rest rest' hv hrest =>
    exact .inr ⟨v, w, ⟨rest, byName⟩, ⟨rest', byName'⟩, rfl, rfl, ⟨hrest, hn⟩, hv,
      fun hx => hv.eq_of_not_isNil (hx v rfl), fun _ _ _ => rfl⟩
  | nil =>
    unfold Arguments.take
    rcases hn.get? p.name with ⟨hg, hg'⟩ | ⟨v, w, hg, hg', hv⟩
    · dsimp only
      rw [hg, hg']
      cases hd : p.default with
      | none => exact .inl ⟨_, rfl, rfl⟩
      | some d =>
        exact .inr ⟨d, d, ⟨[], byName⟩, ⟨[], byName'⟩, rfl, rfl, ⟨.nil, hn⟩, .refl d, fun _ => rfl,
          fun _ _ _ => rfl⟩
    · dsimp only
      rw [hg, hg']
      refine .inr ⟨v, w, _, _, rfl, rfl, ⟨.nil, hn.filter ?_⟩, hv, fun hx => ?_, fun i name hne => ?_⟩
      · intro q q' hq
        rw [hq]
      · exact hv.eq_of_not_isNil (hx v (by simp [given?, hg]))
      · have hk (v : Value) : ((name, v).1 != p.name) = true := by simpa using hne
        simp only [given?, List.getElem?_nil, Option.none_or]
        exact Bindings.get?_filter hk

theorem Akin.done (h : a.Akin a') : a.done = a'.done := by
  obtain ⟨byPosition, byName⟩ := a
  obtain ⟨byPosition', byName'⟩ := a'
  obtain ⟨hp, hn⟩ := h
  cases hp <;> cases hn <;> rfl

end Arguments

namespace Filter

open Value

variable {name : String} {v w x x' y y' : Value}

/-- A result that is akin for nil and nothing is akin for akin values, or the value is the same. -/
theorem akinResults_congr {f : Value → FilterResult} (hv : v.Akin w)
    (h : v = w ∨ AkinResults (f .nil) (f .undefined)) : AkinResults (f v) (f w) := by
  rcases h with rfl | h
  · exact .refl _
  · exact hv.congr (f := fun v => (f v).map orNil) h

theorem Evenhanded.unary {p : Parameter} {run : Value → Value → FilterResult}
    (h : Evenhanded name (.unary p run)) (hv : v.Akin w) (hx : x.Akin x')
    (heq : tellingParameter? name = some (0, p.name) → x = x') :
    AkinResults (run v x) (run w x') := by
  obtain ⟨h, h₁⟩ := h
  have hw : AkinResults (run w x) (run w x') := by
    refine akinResults_congr (f := run w) hx ?_
    by_cases ht : tellingParameter? name = some (0, p.name)
    · exact .inl (heq ht)
    · exact .inr (h₁ ht w)
  exact (akinResults_congr (f := fun v => run v x) hv (.inr (h x))).trans hw

theorem Evenhanded.binary {p q : Parameter} {run : Value → Value → Value → FilterResult}
    (h : Evenhanded name (.binary p q run)) (hv : v.Akin w) (hx : x.Akin x') (hy : y.Akin y')
    (heq : tellingParameter? name = some (0, p.name) → x = x')
    (heq' : tellingParameter? name = some (1, q.name) → y = y') :
    AkinResults (run v x y) (run w x' y') := by
  obtain ⟨-, h, h₁, h₂⟩ := h
  have hw : AkinResults (run w x y) (run w x' y) := by
    refine akinResults_congr (f := fun x => run w x y) hx ?_
    by_cases ht : tellingParameter? name = some (0, p.name)
    · exact .inl (heq ht)
    · exact .inr (h₁ ht w y)
  have hw' : AkinResults (run w x' y) (run w x' y') := by
    refine akinResults_congr (f := run w x') hy ?_
    by_cases ht : tellingParameter? name = some (1, q.name)
    · exact .inl (heq' ht)
    · exact .inr (h₂ ht w x')
  exact (akinResults_congr (f := fun v => run v x y) hv (.inr (h x y))).trans (hw.trans hw')

end Filter

/-- Calls of a filter of the language with akin values and arguments give akin results, unless nil
or nothing is given for the one argument for which it makes a difference. -/
theorem Builtin.akin_apply {name : String} {b : Builtin} (hb : Filter.Evenhanded name b)
    {v w : Value} (hv : v.Akin w) {a a' : Arguments} (ha : a.Akin a') (h : ¬ a.TellApart name) :
    Value.AkinResults (b.apply v a) (b.apply w a') := by
  have given {i : Nat} {param : String} (ht : Filter.tellingParameter? name = some (i, param))
      (x : Value) (hx : a.given? i param = some x) : x.isNil = false :=
    Bool.eq_false_iff.2 fun hnil => h ⟨i, param, x, ht, hx, hnil⟩
  cases b with
  | plain run =>
    rw [apply, apply, ha.done]
    cases orFault a'.done with
    | error e => exact .refl _
    | ok u => exact Filter.akinResults_congr (f := run) hv (.inr hb)
  | unary p run =>
    rw [apply, apply]
    rcases ha.take p with ⟨f, hf, hf'⟩ | ⟨x, x', r, r', hx, hx', hr, hxx, heq, -⟩
    · rw [hf, hf']
      exact .refl _
    rw [hx, hx']
    change Value.AkinResults (orFault r.done >>= fun _ => run v x)
      (orFault r'.done >>= fun _ => run w x')
    rw [hr.done]
    cases orFault r'.done with
    | error e => exact .refl _
    | ok u => exact hb.unary hv hxx fun ht => heq (given ht)
  | binary p q run =>
    rw [apply, apply]
    rcases ha.take p with ⟨f, hf, hf'⟩ | ⟨x, x', r, r', hx, hx', hr, hxx, heq, hleft⟩
    · rw [hf, hf']
      exact .refl _
    rw [hx, hx']
    change Value.AkinResults
      (orFault (r.take q) >>= fun y => orFault y.2.done >>= fun _ => run v x y.1)
      (orFault (r'.take q) >>= fun y => orFault y.2.done >>= fun _ => run w x' y.1)
    rcases hr.take q with ⟨f, hf, hf'⟩ | ⟨y, y', u, u', hy, hy', hu, hyy, heq', -⟩
    · rw [hf, hf']
      exact .refl _
    rw [hy, hy']
    change Value.AkinResults (orFault u.done >>= fun _ => run v x y)
      (orFault u'.done >>= fun _ => run w x' y')
    rw [hu.done]
    cases orFault u'.done with
    | error e => exact .refl _
    | ok z =>
      refine hb.binary hv hxx hyy (fun ht => heq (given ht)) fun ht => heq' fun y hy => ?_
      exact given ht y (hleft 0 q.name hb.1 ▸ hy)

/-- So it is for any filter that an environment has of itself. -/
theorem Environment.akin_languageFilters {now : DateTime} {name : String} {f : FilterFunction}
    (hf : (name, f) ∈ languageFilters now) {v w : Value} (hv : v.Akin w) {a a' : Arguments}
    (ha : a.Akin a') (h : ¬ a.TellApart name) : Value.AkinResults (f v a) (f w a') := by
  obtain ⟨⟨n, b⟩, hb, he⟩ := List.mem_map.1 hf
  cases he
  exact Builtin.akin_apply (Filter.evenhanded_table now _ hb) hv ha h

end Liquid
