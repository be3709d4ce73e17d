import Liquid.Proofs.Comparing.Equality

/-!
# Order of values

Two values that both stand for numbers are in the order of these numbers, and any other two in the
order of their texts.  Equality looks at neither: it compares what the values are.  So equal values
need not be level, and one of them is then before the other.

**Levels.** Two values are level if they stand for the same number or, where one of them stands for
none, if they have the same text.  Of any two values exactly one is before the other, or they are
level.

* `before_cases`: one before, level, or one after, and never two of these.
* `level_iff_of_equals`: equal values are level but for those that are no numbers and differ in
  their texts.
* `toText_eq_of_same`: a class of values, closed under nesting, in which the same values have the
  same text.
* `order_coherent`: what order and equality have to do with each other.
* `equal_and_before`: one of two equal mappings may be before the other.
-/
namespace Liquid

/-! ## Numbers -/

theorem Binary.isSome_parts? (x : Float) : (parts? x).isSome = x.isFinite := by
  change _ = x.toModel.unpack.isFinite
  unfold parts?
  cases x.toModel.unpack <;> rfl

namespace Number

theorem exists_at {n : Number} (h : n.isFinite = true) : ∃ q, n.point? = some (.at q) := by
  cases n with
  | int n => exact ⟨n, rfl⟩
  | float x =>
    have hx : (Binary.toRat? x).isSome = true := by
      rw [Binary.toRat?_isSome, Binary.isSome_parts?]
      exact h
    obtain ⟨q, hq⟩ := Option.isSome_iff_exists.mp hx
    exact ⟨q, by simp [point?, hq]⟩

/-- A number that is not finite stands nowhere or at one of the infinities, and is written so. -/
theorem infinite_of_isFinite_eq_false {n : Number} (h : n.isFinite = false) :
    n.point? = none ∨ n.point? = some .bottom ∧ n.text = "-inf" ∨
      n.point? = some .top ∧ n.text = "inf" := by
  cases n with
  | int n => cases h
  | float x =>
    have hparts : Binary.parts? x = none := by
      rw [← Option.not_isSome_iff_eq_none, Binary.isSome_parts?]
      exact Bool.eq_false_iff.mp h
    simp only [point?, Binary.toRat?, text, floatText, hparts, Option.map_none]
    cases x.isNaN <;> cases Binary.isNegative x <;> simp

theorem text_eq {m n : Number} (h : m.eq n = true) (hm : m.isFinite = false) :
    m.text = n.text := by
  obtain ⟨p, hpm, hpn⟩ := eq_iff.mp h
  have hn : n.isFinite = false := by
    cases hn : n.isFinite with
    | false => rfl
    | true =>
      obtain ⟨q, hq⟩ := exists_at hn
      rw [hq] at hpn
      have := infinite_of_isFinite_eq_false hm
      simp [hpm, ← hpn] at this
  have htexts := And.intro (infinite_of_isFinite_eq_false hm) (infinite_of_isFinite_eq_false hn)
  rw [hpm, hpn] at htexts
  grind

end Number

namespace Value

theorem finite_of_number? {v : Value} {n : Number} (h : v.number? = some n) :
    n.isFinite = true := by
  unfold number? at h
  split at h
  · rw [← Option.some.inj h]
    rfl
  · split at h
    · rwa [← Option.some.inj h]
    · cases h
  · unfold Number.read? at h
    split at h
    · rw [← Option.some.inj h]
      rfl
    · obtain ⟨x, -, hx⟩ := Option.bind_eq_some_iff.mp h
      split at hx
      · rwa [← Option.some.inj hx]
      · cases hx
  · cases h

/-- The point of the number that a value stands for. -/
theorem exists_at_of_number? {v : Value} {n : Number} (h : v.number? = some n) :
    ∃ q, n.point? = some (.at q) :=
  Number.exists_at (finite_of_number? h)

/-! ## Levels -/

/-- Whether two values stand for the same number or, where one stands for none, have the same
text. -/
def Level (v w : Value) : Prop :=
  match v.number?, w.number? with
  | some m, some n => m.eq n = true
  | _, _ => v.toText = w.toText

/-- How two values stand to each other. -/
inductive Standing (v w : Value) : Prop where
  | before (hb : v.before w = true) (hl : ¬Level v w) (ha : w.before v = false)
  | level (hb : v.before w = false) (hl : Level v w) (ha : w.before v = false)
  | after (hb : v.before w = false) (hl : ¬Level v w) (ha : w.before v = true)

theorem Standing.of_lt {α : Type} [LT α] [DecidableLT α] [Std.Trichotomous fun x y : α => x < y]
    [Std.Asymm fun x y : α => x < y] {v w : Value} {x y : α} (hb : v.before w = decide (x < y))
    (hl : Level v w ↔ x = y) (ha : w.before v = decide (y < x)) : Standing v w := by
  have hirrefl : ∀ x : α, ¬x < x := fun x h => Std.Asymm.asymm (r := fun x y : α => x < y) x x h h
  obtain h | rfl | h := Std.lt_trichotomy x y
  · have hne : ¬y < x := Std.Asymm.asymm (r := fun x y : α => x < y) x y h
    exact .before (by simp [hb, h]) (fun hxy => hirrefl y (hl.mp hxy ▸ h)) (by simp [ha, hne])
  · exact .level (by simp [hb, hirrefl]) (hl.mpr rfl) (by simp [ha, hirrefl])
  · have hne : ¬x < y := Std.Asymm.asymm (r := fun x y : α => x < y) y x h
    exact .after (by simp [hb, hne]) (fun hxy => hirrefl y (hl.mp hxy ▸ h)) (by simp [ha, h])

/-- One value is before the other, or they are level, and of these exactly one. -/
theorem before_cases (v w : Value) : Standing v w := by
  cases hv : v.number? with
  | none =>
    exact Standing.of_lt (x := v.toText) (y := w.toText) (by simp [before, hv])
      (by simp [Level, hv]) (by simp [before, hv])
  | some m =>
    cases hw : w.number? with
    | none =>
      exact Standing.of_lt (x := v.toText) (y := w.toText) (by simp [before, hw])
        (by simp [Level, hw]) (by simp [before, hw])
    | some n =>
      obtain ⟨p, hp⟩ := exists_at_of_number? hv
      obtain ⟨q, hq⟩ := exists_at_of_number? hw
      exact Standing.of_lt (x := p) (y := q) (by simp [before, hv, hw, Number.lt, hp, hq, Point.lt])
        (by simp [Level, hv, hw, Number.eq, hp, hq])
        (by simp [before, hv, hw, Number.lt, hp, hq, Point.lt])

/-! ## Equal values -/

theorem same_of_equals {v w : Value} (hv : ∀ x, v ≠ .literal x) (hw : ∀ x, w ≠ .literal x)
    (h : v.equals w = .ok true) : v.isBool = w.isBool ∧ same v.orNil w.orNil = true := by
  rw [equals_of_ordinary hv hw] at h
  simpa using h

/-- Equal values that both stand for numbers stand for the same. -/
theorem eq_of_equals {v w : Value} {m n : Number} (h : v.equals w = .ok true)
    (hv : v.number? = some m) (hw : w.number? = some n) : m.eq n = true := by
  obtain ⟨hbool, hsame⟩ :=
    same_of_equals (by rintro _ rfl; cases hv) (by rintro _ rfl; cases hw) h
  have hself : n.eq n = true := by
    obtain ⟨p, hp⟩ := exists_at_of_number? hw
    exact Number.eq_iff.mpr ⟨_, hp, hp⟩
  cases v <;> simp only [number?, reduceCtorEq] at hv
  all_goals cases w <;> simp [isBool, orNil, same] at hbool hsame
  case bool.bool =>
    subst hsame
    rw [number?, hv, Option.some.injEq] at hw
    rwa [hw]
  case number.number =>
    simp only [number?] at hw
    split at hv <;> cases hv
    split at hw <;> cases hw
    exact hsame
  case text.text =>
    subst hsame
    rw [number?, hv, Option.some.injEq] at hw
    rwa [hw]

theorem level_iff_of_equals {v w : Value} (h : v.equals w = .ok true) :
    ¬Level v w ↔ (v.number? = none ∨ w.number? = none) ∧ v.toText ≠ w.toText := by
  unfold Level
  split
  · simp [eq_of_equals h ‹_› ‹_›, *]
  · rename_i hnone
    have : v.number? = none ∨ w.number? = none := by
      cases hv : v.number? with
      | none => exact .inl rfl
      | some m => exact .inr (Option.eq_none_iff_forall_ne_some.mpr fun n hw => hnone m n hv hw)
    simp [this]

/-! ## Values with one text -/

mutual

/-- Whether a value has the text of every such value that is the same. -/
def isUniformItem : Value → Bool
  | .nil | .undefined | .literal _ | .text _ | .number (.int _) | .range _ _ | .date _ => true
  | .list items | .tuple items => areUniform items
  | _ => false
termination_by structural v => v

/-- Whether all of the values have the text of every such value that is the same. -/
def areUniform : List Value → Bool
  | [] => true
  | v :: rest => v.isUniformItem && areUniform rest
termination_by structural items => items

end

theorem itemsText_eq {xs : List Value}
    (h : ∀ x ∈ xs, ∀ y, x.isUniformItem = true → y.isUniformItem = true → same x y = true →
      x.toText = y.toText) :
    ∀ {ys : List Value}, areUniform xs = true → areUniform ys = true → sameItems xs ys = true →
      itemsText xs = itemsText ys := by
  induction xs with
  | nil =>
    intro ys _ _ hxy
    cases ys with
    | nil => rfl
    | cons => cases hxy
  | cons x xs ih =>
    intro ys hxs hys hxy
    cases ys with
    | nil => cases hxy
    | cons y ys =>
      simp only [areUniform, sameItems, Bool.and_eq_true] at hxs hys hxy
      simp only [itemsText, h x (by simp) y hxs.1 hys.1 hxy.1,
        ih (fun x hx => h x (by simp [hx])) hxs.2 hys.2 hxy.2]

theorem toText_eq_of_same {v : Value} : ∀ {w : Value}, v.isUniformItem = true →
    w.isUniformItem = true → same v w = true → v.toText = w.toText := by
  induction v using induction_parts with
  | h v ih =>
    intro w hv hw h
    cases v with
    | list xs =>
      cases w <;> simp only [same, Bool.false_eq_true] at h
      simp only [toText]
      exact itemsText_eq (fun x hx y => ih x hx) hv hw h
    | tuple xs =>
      cases w <;> simp only [same, Bool.false_eq_true] at h
      simp only [toText]
      exact itemsText_eq (fun x hx y => ih x hx) hv hw h
    | number m =>
      -- The other one is a whole number too, and stands at the same point.
      cases m with
      | float => cases hv
      | int m =>
        cases w with
        | number n =>
          cases n with
          | float => cases hw
          | int n =>
            simp only [same, Number.eq_iff, Number.point?_int, Option.some.injEq] at h
            obtain ⟨p, rfl, hp⟩ := h
            rw [Point.at.injEq, Rat.intCast_inj] at hp
            rw [hp]
        | bool => cases hw
        | _ => simp [same] at h
    | range a b =>
      cases w <;> simp [same] at h
      obtain ⟨hlength, hempty | rfl⟩ := h
      · simp [toText, ← hlength, hempty]
      · simp [toText, hlength]
    | nil | undefined | literal | text | date =>
      cases w <;> simp [same] at h
      all_goals simp [toText, h]
    | _ => cases hv

/-- Whether a value has the text of every such value that it is equal to. -/
def isUniform : Value → Bool
  | .bool _ | .number _ => true
  | .literal _ => false
  | v => v.isUniformItem

theorem toText_eq_of_equals {v w : Value} (hv : v.isUniform = true) (hw : w.isUniform = true)
    (hnil : v.isNil = false) (hnil' : w.isNil = false) (h : v.equals w = .ok true)
    (hnone : v.number? = none ∨ w.number? = none) : v.toText = w.toText := by
  obtain ⟨hbool, hsame⟩ :=
    same_of_equals (by rintro _ rfl; cases hv) (by rintro _ rfl; cases hw) h
  cases v with
  | nil | undefined => cases hnil
  | literal | object | loop | set | mapping | datetime => cases hv
  | bool =>
    cases w <;> simp [isBool, orNil, same] at hbool hsame
    rw [hsame]
  | number m =>
    -- One of the two is infinite, and then so is the other.
    cases w <;> simp [isBool, orNil, same] at hbool hsame
    obtain hm | hn := hnone
    · exact Number.text_eq hsame (by simpa [number?] using hm)
    · exact (Number.text_eq (by rw [Number.eq_comm, hsame]) (by simpa [number?] using hn)).symm
  | text | list | tuple | range | date =>
    cases w with
    | nil | undefined => cases hnil'
    | bool => cases hbool
    | literal | object | loop | set | mapping | datetime => cases hw
    | number => simp [orNil, same] at hsame
    | text | list | tuple | range | date => exact toText_eq_of_same hv hw hsame

/-! ## Order and equality -/

/-- How order and equality hang together.  One of two values is before the other or they are level,
and the four relations say the same from either side.  Equality excludes the strict relations unless
one of the values stands for no number and their texts differ, which cannot be for truth values,
numbers, texts, days, ranges and sequences of such that have no truth value or float in them. -/
theorem order_coherent {v w : Value} (hv : v.isNil = false) (hw : w.isNil = false) :
    v.compare .less w = w.compare .greater v ∧
      v.compare .lessOrEqual w = !v.compare .greater w ∧
      v.compare .greaterOrEqual w = !v.compare .less w ∧
      ¬(v.compare .less w = true ∧ v.compare .greater w = true) ∧
      (v.compare .less w = false ∧ v.compare .greater w = false ↔ Level v w) ∧
      (v.equals w = .ok true →
        ((v.compare .less w = true ∨ v.compare .greater w = true) ↔
          (v.number? = none ∨ w.number? = none) ∧ v.toText ≠ w.toText)) ∧
      (v.isUniform = true → w.isUniform = true → v.equals w = .ok true →
        v.compare .less w = false ∧ v.compare .greater w = false) := by
  have hless : v.compare .less w = v.before w := by simp [compare, hv, hw, Relation.holds]
  have hgreater : v.compare .greater w = w.before v := by simp [compare, hv, hw, Relation.holds]
  have hlevel : v.before w = false ∧ w.before v = false ↔ Level v w := by
    cases before_cases v w with
    | before hb hl ha | level hb hl ha | after hb hl ha => simp [hb, hl, ha]
  have hexcludes : v.equals w = .ok true →
      ((v.before w = true ∨ w.before v = true) ↔
        (v.number? = none ∨ w.number? = none) ∧ v.toText ≠ w.toText) := by
    intro h
    rw [← level_iff_of_equals h, ← hlevel]
    cases v.before w <;> cases w.before v <;> simp
  refine ⟨?_, ?_, ?_, ?_, by rwa [hless, hgreater], by rwa [hless, hgreater], ?_⟩
  · simp [compare, hv, hw, Relation.holds]
  · simp [compare, hv, hw, Relation.holds]
  · simp [compare, hv, hw, Relation.holds]
  · rw [hless, hgreater]
    cases before_cases v w with
    | before hb hl ha | level hb hl ha | after hb hl ha => simp [hb, ha]
  · intro hu hu' h
    rw [hless, hgreater, hlevel]
    refine Classical.byContradiction fun hl => ?_
    obtain ⟨hnone, htexts⟩ := (level_iff_of_equals h).mp hl
    exact htexts (toText_eq_of_equals hu hu' hv hw h hnone)

/-- A list beside itself. -/
theorem order_coherent_list :
    (Value.list [.int 1, .text "a"]).compare .less (.list [.int 1, .text "a"]) = false ∧
      (Value.list [.int 1, .text "a"]).compare .greater (.list [.int 1, .text "a"]) = false :=
  (order_coherent (v := .list [.int 1, .text "a"]) (w := .list [.int 1, .text "a"]) rfl
    rfl).2.2.2.2.2.2 rfl rfl rfl

/-- Mappings with the same entries in another order are equal, and one is before the other. -/
theorem equal_and_before :
    ¬∀ v w : Value, v.isNil = false → w.isNil = false →
      ¬(v.compare .less w = true ∧ v.equals w = .ok true) := by
  intro h
  refine h (.mapping [(.text "x", .int 1), (.text "y", .int 2)])
    (.mapping [(.text "y", .int 2), (.text "x", .int 1)]) rfl rfl ⟨?_, ?_⟩
  · decide
  · rfl

end Value

end Liquid
