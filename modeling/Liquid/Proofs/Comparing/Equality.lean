import Liquid.Value.Order

/-!
# Equality of values

Equality puts values of different kinds side by side: whole numbers, floats and truth values,
mappings and sets in any order, ranges by their members.  It is an equivalence all the same, but for
not-a-number, which is equal to nothing, and for the words `empty` and `blank`, which ask for
something else.

**Atoms.** A value without parts is compared by one thing, its atom: a number by the point at which
it stands, a date and time by the moment.  Two such values are the same if their atoms are equal.
Collections are the same if their parts match.

**Steady values.** A value is steady if whatever is the same as it can stand for it: it is the same
as all that the value is the same as.  This says at once that sameness is symmetric and that it is
transitive, and it passes from the parts to the whole with nothing known of the other side.

* `same_of_atom`: the values without parts.
* `steady_items`, `steady_members`, `steady_entries`: collections of steady parts.
* `steady`: every value, by induction on its parts.
* `same_self`: a value without not-a-number is the same as itself.
* `equals_equivalence`: equality is symmetric, and an equivalence where it should be one.
-/
namespace Liquid

/-- Whether a number is not-a-number. -/
def Number.isNaN : Number → Bool
  | .int _ => false
  | .float x => x.isNaN

theorem Number.eq_iff {m n : Number} :
    m.eq n = true ↔ ∃ p, m.point? = some p ∧ n.point? = some p := by
  unfold Number.eq
  cases m.point? <;> cases n.point? <;> simp
  exact eq_comm

theorem Number.eq_comm (m n : Number) : m.eq n = n.eq m := by
  rw [Bool.eq_iff_iff, eq_iff, eq_iff]
  exact exists_congr fun p => and_comm

theorem Number.point?_int (n : Int) : (Number.int n).point? = some (.at n) := rfl

theorem Number.exists_point {n : Number} (h : n.isNaN = false) : ∃ p, n.point? = some p := by
  cases n with
  | int n => exact ⟨_, rfl⟩
  | float x =>
    have hx : x.isNaN = false := h
    cases hq : Binary.toRat? x with
    | some q => exact ⟨.at q, by simp only [Number.point?, hq]⟩
    | none =>
      exact ⟨if Binary.isNegative x then .bottom else .top,
        by simp only [Number.point?, hq, hx, Bool.false_eq_true, if_false]⟩

theorem DateTime.same_iff {t u : DateTime} :
    t.same u = true ↔ t.offset.isSome = u.offset.isSome ∧
      t.reading - t.offset.getD 0 = u.reading - u.offset.getD 0 := by
  unfold DateTime.same
  cases t.offset <;> cases u.offset <;> simp

/-- What a value without parts is compared by. -/
inductive Atom where
  | nil
  | undefined
  | literal (word : Literal)
  | number (p : Point)
  | text (s : String)
  | range (length : Nat) (first : Int)
  | date (d : Date)
  | moment (hasOffset : Bool) (microseconds : Int)
  | object (id : Nat) (shown : String)
  | loop (id : Nat)
  deriving DecidableEq

namespace Value

/-- The atom of a value without parts.  Not-a-number has none. -/
def atom? : Value → Option Atom
  | .nil => some .nil
  | .undefined => some .undefined
  | .literal w => some (.literal w)
  | .bool b => (Number.int (if b then 1 else 0)).point?.map .number
  | .number n => n.point?.map .number
  | .text s => some (.text s)
  | .range a b => some (.range (rangeLength a b) (if rangeLength a b = 0 then 0 else a))
  | .date d => some (.date d)
  | .datetime t => some (.moment t.offset.isSome (t.reading - t.offset.getD 0))
  | .object id shown _ => some (.object id (if id = 0 then shown else ""))
  | .loop l => some (.loop l.id)
  | .list _ | .tuple _ | .set _ | .mapping _ => none

/-- A number is the same as the numbers and truth values that stand where it stands. -/
theorem same_number_iff {m : Number} {p : Point} (hp : m.point? = some p) (b : Value) :
    same (.number m) b = true ↔ b.atom? = some (.number p) := by
  have heq (n : Number) : m.eq n = true ↔ n.point?.map Atom.number = some (.number p) := by
    simp only [Number.eq_iff, hp]
    cases n.point? <;> simp [eq_comm]
  cases b with
  | bool y => exact heq _
  | number n => exact heq n
  | _ => grind [same, atom?]

/-- A truth value is the same as all that its number is the same as. -/
theorem same_bool (x : Bool) (b : Value) :
    same (.bool x) b = same (.number (.int (if x then 1 else 0))) b := by
  cases b with
  | bool y => cases x <;> cases y <;> rfl
  | _ => rfl

/-- A value with an atom is the same as exactly the values with that atom. -/
theorem same_of_atom {a : Value} {c : Atom} (h : a.atom? = some c) (b : Value) :
    same a b = true ↔ b.atom? = some c := by
  cases a with
  | list | tuple | set | mapping => cases h
  | number m =>
    obtain ⟨p, hp, rfl⟩ := Option.map_eq_some_iff.mp h
    exact same_number_iff hp b
  | bool x =>
    simp only [atom?] at h
    obtain ⟨p, hp, rfl⟩ := Option.map_eq_some_iff.mp h
    rw [same_bool]
    exact same_number_iff hp b
  | nil | undefined | literal | text | range | date | datetime | object | loop =>
    cases h
    cases b <;> grind [same, atom?, DateTime.same_iff, Option.map_eq_some_iff]

/-! ## Values that others can stand for -/

/-- Whatever is related to `x` can stand for it: it is related to the same.  And `x` is then related
to itself. -/
def Steady {α : Type} (r : α → α → Bool) (x : α) : Prop :=
  ∀ y, r x y = true → r x x = true ∧ ∀ z, r y z = r x z

theorem Steady.symm {α : Type} {r : α → α → Bool} {x y : α} (h : Steady r x)
    (hxy : r x y = true) : r y x = true := by
  obtain ⟨hxx, hy⟩ := h y hxy
  rw [hy, hxx]

theorem Steady.trans {α : Type} {r : α → α → Bool} {x y z : α} (h : Steady r x)
    (hxy : r x y = true) (hyz : r y z = true) : r x z = true := by
  rw [← (h y hxy).2, hyz]

theorem Steady.comm {α : Type} {r : α → α → Bool} {x y : α} (hx : Steady r x)
    (hy : Steady r y) : r x y = r y x := by
  rw [Bool.eq_iff_iff]
  exact ⟨hx.symm, hy.symm⟩

/-- What is related to a steady value is steady. -/
theorem Steady.of {α : Type} {r : α → α → Bool} {x y : α} (h : Steady r x)
    (hxy : r x y = true) : Steady r y := by
  intro z hyz
  obtain ⟨-, hy⟩ := h y hxy
  obtain ⟨-, hz⟩ := h z (h.trans hxy hyz)
  exact ⟨by rw [hy, hxy], fun w => by rw [hz, hy]⟩

theorem steady_of_atom {a : Value} {c : Atom} (h : a.atom? = some c) : Steady same a := by
  intro b hab
  have hb : b.atom? = some c := (same_of_atom h b).mp hab
  refine ⟨(same_of_atom h a).mpr h, fun z => ?_⟩
  rw [Bool.eq_iff_iff, same_of_atom hb, same_of_atom h]

theorem steady_number (n : Number) : Steady same (.number n) := by
  cases hn : n.point? with
  | some p => exact steady_of_atom (c := .number p) (by simp [atom?, hn])
  | none =>
    -- Not-a-number is the same as nothing.
    intro b hb
    have hnone : ∀ m, n.eq m = false := fun m => by simp [Number.eq, hn]
    cases b <;> simp [same, hnone] at hb

theorem steady_items {xs : List Value} (h : ∀ x ∈ xs, Steady same x) :
    Steady sameItems xs := by
  induction xs with
  | nil =>
    intro ys hys
    cases ys with
    | nil => exact ⟨rfl, fun _ => rfl⟩
    | cons y ys => simp [sameItems] at hys
  | cons x xs ih =>
    intro ys hys
    cases ys with
    | nil => simp [sameItems] at hys
    | cons y ys =>
      simp only [sameItems, Bool.and_eq_true] at hys
      obtain ⟨hxx, hy⟩ := h x (by simp) y hys.1
      obtain ⟨hself, hrest⟩ := ih (fun x hx => h x (by simp [hx])) ys hys.2
      refine ⟨by simp [sameItems, hxx, hself], fun zs => ?_⟩
      cases zs with
      | nil => rfl
      | cons z zs => simp only [sameItems, hy, hrest]

/-! ## Sets -/

/-- The first item that fits `p` and the first that fits `q` can be taken out in either order, if both
fit the same or nothing fits both. -/
theorem any_eraseP_swap {α : Type} {p q : α → Bool} (h : p = q ∨ ∀ z, p z = true → q z = false)
    (zs : List α) :
    (zs.any p && (zs.eraseP p).any q) = (zs.any q && (zs.eraseP q).any p) ∧
      (zs.eraseP p).eraseP q = (zs.eraseP q).eraseP p := by
  obtain rfl | h := h
  · exact ⟨rfl, rfl⟩
  have hpq : ∀ z, q z = true → ¬p z = true := fun z hq hp => by simp [h z hp] at hq
  have hany : ∀ {p q : α → Bool}, (∀ z, q z = true → ¬p z = true) →
      (zs.eraseP p).any q = zs.any q := by
    intro p q hpq
    rw [Bool.eq_iff_iff, List.any_eq_true, List.any_eq_true]
    exact exists_congr fun z => and_congr_left fun hq => List.mem_eraseP_of_neg (hpq z hq)
  refine ⟨?_, List.eraseP_comm fun z _ => ?_⟩
  · rw [hany hpq, hany fun z hp => by simp [h z hp], Bool.and_comm]
  · cases hp : p z <;> simp [h, hp]

/-- Two steady values are the same as the same, or nothing is the same as both. -/
theorem Steady.alike_or_apart {x y : Value} (hx : Steady same x) (hy : Steady same y) :
    (fun z => same x z) = (fun z => same y z) ∨ ∀ z, same x z = true → same y z = false := by
  by_cases h : ∃ z, same x z = true ∧ same y z = true
  · obtain ⟨z, hxz, hyz⟩ := h
    exact .inl (funext fun w => by rw [← (hx z hxz).2, (hy z hyz).2])
  · exact .inr fun z hxz => by simpa using fun hyz => h ⟨z, hxz, hyz⟩

/-- A member of a set may be looked for first. -/
theorem sameMembers_middle {y : Value} (hy : Steady same y) (ys₂ : List Value) :
    ∀ {ys₁ : List Value}, (∀ x ∈ ys₁, Steady same x) → ∀ zs,
      sameMembers (ys₁ ++ y :: ys₂) zs =
        (zs.any (fun z => same y z) && sameMembers (ys₁ ++ ys₂) (zs.eraseP fun z => same y z)) := by
  intro ys₁
  induction ys₁ with
  | nil => intro _ zs; rfl
  | cons x ys₁ ih =>
    intro h zs
    obtain ⟨hany, herase⟩ := any_eraseP_swap ((h x (by simp)).alike_or_apart hy) zs
    simp only [List.cons_append, sameMembers, ih fun x hx => h x (by simp [hx]), ← Bool.and_assoc,
      hany, herase]

theorem exists_same_of_sameMembers {xs : List Value} :
    ∀ {ys : List Value}, sameMembers xs ys = true → ∀ y ∈ ys, ∃ x ∈ xs, same x y = true := by
  induction xs with
  | nil =>
    intro ys h y hy
    obtain rfl : ys = [] := by simpa [sameMembers] using h
    simp at hy
  | cons x xs ih =>
    intro ys h y hy
    simp only [sameMembers, Bool.and_eq_true] at h
    cases hxy : same x y with
    | true => exact ⟨x, by simp, hxy⟩
    | false =>
      obtain ⟨w, hw, hwy⟩ := ih h.2 y ((List.mem_eraseP_of_neg (by simp [hxy])).mpr hy)
      exact ⟨w, by simp [hw], hwy⟩

theorem steady_members {xs : List Value} (h : ∀ x ∈ xs, Steady same x) :
    Steady sameMembers xs := by
  induction xs with
  | nil =>
    intro ys hys
    obtain rfl : ys = [] := by simpa [sameMembers] using hys
    exact ⟨rfl, fun _ => rfl⟩
  | cons x xs ih =>
    intro ys hys
    have hsteady : ∀ y ∈ ys, Steady same y := fun y hy => by
      obtain ⟨w, hw, hwy⟩ := exists_same_of_sameMembers hys y hy
      exact (h w hw).of hwy
    simp only [sameMembers, Bool.and_eq_true, List.any_eq_true] at hys
    obtain ⟨⟨y₀, hy₀, hxy₀⟩, hrest⟩ := hys
    obtain ⟨y, ys₁, ys₂, -, hxy, rfl, herase⟩ := List.exists_of_eraseP hy₀ hxy₀
    rw [herase] at hrest
    obtain ⟨hxx, hy⟩ := h x (by simp) y hxy
    obtain ⟨hself, hothers⟩ := ih (fun w hw => h w (by simp [hw])) _ hrest
    refine ⟨by simp [sameMembers, hxx, hself], fun zs => ?_⟩
    rw [sameMembers_middle (hsteady y (by simp)) ys₂ fun w hw => hsteady w (by simp [hw])]
    simp only [sameMembers, hy, hothers]

end Value

/-! ## Mappings -/

namespace Key

open Value (Steady)

/-- Keys are compared like the values that they are. -/
theorem same_toValue (k l : Key) : Value.same k.toValue l.toValue = k.same l := by
  cases k with
  | bool b =>
    cases l with
    | bool c => cases b <;> cases c <;> rfl
    | _ => rfl
  | _ => cases l <;> rfl

theorem steady (k : Key) : Steady same k := by
  have hk : Steady Value.same k.toValue := by
    cases k with
    | number n => exact Value.steady_number n
    | _ => exact Value.steady_of_atom rfl
  intro l hkl
  obtain ⟨hself, hl⟩ := hk l.toValue (by rw [same_toValue, hkl])
  exact ⟨by rw [← same_toValue, hself], fun m => by rw [← same_toValue, hl, same_toValue]⟩

theorem same_comm (k l : Key) : k.same l = l.same k := (steady k).comm (steady l)

theorem same_congr {k l : Key} (h : k.same l = true) (m : Key) : m.same k = m.same l := by
  rw [same_comm m k, same_comm m l, (steady k l h).2]

end Key

namespace Value

theorem remove?_congr {k l : Key} (h : k.same l = true) (es : List (Key × Value)) :
    remove? k es = remove? l es := by
  induction es with
  | nil => rfl
  | cons e es ih => simp only [remove?, Key.same_congr h, ih]

/-- The value that was found stood under a key that is the same, behind keys that are not. -/
theorem split_of_remove? {k : Key} {v : Value} : ∀ {es others : List (Key × Value)},
    remove? k es = some (v, others) →
      ∃ es₁ l es₂, es = es₁ ++ (l, v) :: es₂ ∧ others = es₁ ++ es₂ ∧ l.same k = true ∧
        ∀ e ∈ es₁, e.1.same k = false := by
  intro es
  induction es with
  | nil => intro others h; simp [remove?] at h
  | cons e es ih =>
    obtain ⟨m, u⟩ := e
    intro others h
    cases hm : m.same k with
    | true =>
      simp only [remove?, hm, if_true, Option.some.injEq, Prod.mk.injEq] at h
      obtain ⟨rfl, rfl⟩ := h
      exact ⟨[], m, es, rfl, rfl, hm, by simp⟩
    | false =>
      simp only [remove?, hm, Bool.false_eq_true, if_false, Option.map_eq_some_iff,
        Prod.exists, Prod.mk.injEq] at h
      obtain ⟨_, rest, hrest, rfl, rfl⟩ := h
      obtain ⟨es₁, l, es₂, rfl, rfl, hl, hes₁⟩ := ih hrest
      exact ⟨(m, u) :: es₁, l, es₂, rfl, rfl, hl, by simpa [hm] using hes₁⟩

/-- What stands under two keys that differ can be taken out in either order. -/
theorem remove?_swap {k l : Key} (hkl : k.same l = false) {v w : Value} :
    ∀ {es es₁ es₂ : List (Key × Value)}, remove? k es = some (v, es₁) →
      remove? l es₁ = some (w, es₂) →
        ∃ es₃, remove? l es = some (w, es₃) ∧ remove? k es₃ = some (v, es₂) := by
  intro es
  induction es with
  | nil => intro es₁ es₂ h; simp [remove?] at h
  | cons e es ih =>
    obtain ⟨m, u⟩ := e
    intro es₁ es₂ hk hl
    cases hmk : m.same k with
    | true =>
      have hml : m.same l = false := by rw [Key.same_comm, Key.same_congr hmk, Key.same_comm, hkl]
      simp only [remove?, hmk, if_true, Option.some.injEq, Prod.mk.injEq] at hk
      obtain ⟨rfl, rfl⟩ := hk
      exact ⟨(m, u) :: es₂, by simp [remove?, hml, hl], by simp [remove?, hmk]⟩
    | false =>
      simp only [remove?, hmk, Bool.false_eq_true, if_false, Option.map_eq_some_iff,
        Prod.exists, Prod.mk.injEq] at hk
      obtain ⟨_, rest, hrest, rfl, rfl⟩ := hk
      cases hml : m.same l with
      | true =>
        simp only [remove?, hml, if_true, Option.some.injEq, Prod.mk.injEq] at hl
        obtain ⟨rfl, rfl⟩ := hl
        exact ⟨es, by simp [remove?, hml], hrest⟩
      | false =>
        simp only [remove?, hml, Bool.false_eq_true, if_false, Option.map_eq_some_iff,
          Prod.exists, Prod.mk.injEq] at hl
        obtain ⟨_, rest₂, hrest₂, rfl, rfl⟩ := hl
        obtain ⟨es₃, h₁, h₂⟩ := ih hrest hrest₂
        exact ⟨(m, u) :: es₃, by simp [remove?, hml, h₁], by simp [remove?, hmk, h₂]⟩

theorem sameEntries_cons {k : Key} {v : Value} {es fs : List (Key × Value)} :
    sameEntries ((k, v) :: es) fs = true ↔
      ∃ w others, remove? k fs = some (w, others) ∧ same v w = true ∧
        sameEntries es others = true := by
  simp only [sameEntries]
  cases h : remove? k fs with
  | none => simp
  | some found =>
    obtain ⟨w, others⟩ := found
    simp only [Bool.and_eq_true, Option.some.injEq, Prod.mk.injEq]
    constructor
    · exact fun hsame => ⟨w, others, ⟨rfl, rfl⟩, hsame⟩
    · rintro ⟨_, _, ⟨rfl, rfl⟩, hsame⟩
      exact hsame

/-- An entry behind entries with other keys may be looked for first. -/
theorem sameEntries_middle {l : Key} {w : Value} (es₂ : List (Key × Value)) :
    ∀ {es₁ : List (Key × Value)}, (∀ e ∈ es₁, e.1.same l = false) → ∀ fs,
      sameEntries (es₁ ++ (l, w) :: es₂) fs = true ↔
        sameEntries ((l, w) :: (es₁ ++ es₂)) fs = true := by
  intro es₁
  induction es₁ with
  | nil => intro _ fs; rfl
  | cons e es₁ ih =>
    obtain ⟨k, v⟩ := e
    intro h fs
    have hkl : k.same l = false := h (k, v) (by simp)
    have hlk : l.same k = false := by rw [Key.same_comm, hkl]
    simp only [List.cons_append, sameEntries_cons, ih fun e he => h e (by simp [he])]
    constructor
    · rintro ⟨u, rest, hu, hvu, t, rest₂, ht, hwt, hsame⟩
      obtain ⟨rest₃, ht', hu'⟩ := remove?_swap hkl hu ht
      exact ⟨t, rest₃, ht', hwt, u, rest₂, hu', hvu, hsame⟩
    · rintro ⟨t, rest, ht, hwt, u, rest₂, hu, hvu, hsame⟩
      obtain ⟨rest₃, hu', ht'⟩ := remove?_swap hlk ht hu
      exact ⟨u, rest₃, hu', hvu, t, rest₂, ht', hwt, hsame⟩

theorem steady_entries {es : List (Key × Value)} (h : ∀ e ∈ es, Steady same e.2) :
    Steady sameEntries es := by
  induction es with
  | nil =>
    intro fs hfs
    obtain rfl : fs = [] := by simpa [sameEntries] using hfs
    exact ⟨rfl, fun _ => rfl⟩
  | cons e es ih =>
    obtain ⟨k, v⟩ := e
    intro fs hfs
    obtain ⟨w, others, hfound, hvw, hrest⟩ := sameEntries_cons.mp hfs
    obtain ⟨fs₁, l, fs₂, rfl, rfl, hlk, hfs₁⟩ := split_of_remove? hfound
    obtain ⟨hvv, hw⟩ := h (k, v) (by simp) w hvw
    obtain ⟨hself, hothers⟩ := ih (fun e he => h e (by simp [he])) _ hrest
    have hkk : k.same k = true := by rw [Key.same_comm, ← Key.same_congr hlk, Key.same_comm, hlk]
    refine ⟨sameEntries_cons.mpr ⟨v, es, by simp [remove?, hkk], hvv, hself⟩, fun gs => ?_⟩
    have hmiddle := sameEntries_middle (w := w) fs₂
      (fun e he => by rw [Key.same_congr hlk, hfs₁ e he]) gs
    rw [Bool.eq_iff_iff, hmiddle]
    simp only [sameEntries_cons, remove?_congr hlk, hw, hothers]

/-! ## Every value -/

/-- The values a value is compared by: its items, its members or what stands under its keys. -/
def parts : Value → List Value
  | .list items | .tuple items | .set items => items
  | .mapping entries => entries.map Prod.snd
  | _ => []

/-- What passes from the parts of a value to the value holds of every value. -/
theorem induction_parts {p : Value → Prop} (h : ∀ v, (∀ w ∈ v.parts, p w) → p v) (v : Value) :
    p v := by
  refine h v fun w hw => ?_
  have hsize : sizeOf w < sizeOf v := by
    cases v with
    | list | tuple | set =>
      have := List.sizeOf_lt_of_mem hw
      simp +arith only [list.sizeOf_spec, tuple.sizeOf_spec, set.sizeOf_spec]
      simp only [parts] at this
      omega
    | mapping entries =>
      obtain ⟨e, he, rfl⟩ := List.mem_map.mp hw
      have := List.sizeOf_lt_of_mem he
      cases e
      simp only [mapping.sizeOf_spec, Prod.mk.sizeOf_spec] at this ⊢
      omega
    | _ => simp [parts] at hw
  exact induction_parts h w
termination_by sizeOf v

/-- A kind of collection that is the same as no other kind, and is compared by its parts. -/
theorem steady_collection {α : Type} {r : α → α → Bool} {f : α → Value}
    (hsame : ∀ x y, same (f x) (f y) = r x y)
    (hother : ∀ x v, same (f x) v = true → ∃ y, v = f y) {x : α} (h : Steady r x) :
    Steady same (f x) := by
  intro v hv
  obtain ⟨y, rfl⟩ := hother x v hv
  obtain ⟨hxx, hy⟩ := h y (by rw [← hsame, hv])
  refine ⟨by rw [hsame, hxx], fun w => ?_⟩
  by_cases hw : ∃ z, w = f z
  · obtain ⟨z, rfl⟩ := hw
    rw [hsame, hsame, hy]
  · have hfalse : ∀ x, same (f x) w = false := fun x => by
      simpa using fun hxw => hw (hother x w hxw)
    rw [hfalse, hfalse]

theorem steady (v : Value) : Steady same v := by
  induction v using induction_parts with
  | h v ih =>
    cases v with
    | number n => exact steady_number n
    | list xs =>
      exact steady_collection (fun _ _ => by rw [same]) (fun _ w => by cases w <;> simp [same])
        (steady_items ih)
    | tuple xs =>
      exact steady_collection (fun _ _ => by rw [same]) (fun _ w => by cases w <;> simp [same])
        (steady_items ih)
    | set xs =>
      exact steady_collection (fun _ _ => by rw [same]) (fun _ w => by cases w <;> simp [same])
        (steady_members ih)
    | mapping es =>
      exact steady_collection (fun _ _ => by rw [same]) (fun _ w => by cases w <;> simp [same])
        (steady_entries fun e he => ih e.2 (List.mem_map_of_mem he))
    | _ => exact steady_of_atom rfl

theorem same_comm (v w : Value) : same v w = same w v := (steady v).comm (steady w)

end Value

/-! ## Values without not-a-number -/

theorem Value.same_self_number {n : Number} (h : n.isNaN = false) :
    same (.number n) (.number n) = true := by
  obtain ⟨p, hp⟩ := Number.exists_point h
  exact (same_number_iff hp _).mpr (congrArg (Option.map Atom.number) hp)

/-- Whether a key is not-a-number. -/
def Key.hasNaN : Key → Bool
  | .number n => n.isNaN
  | _ => false

theorem Key.same_self {k : Key} (h : k.hasNaN = false) : k.same k = true := by
  rw [← same_toValue]
  cases k with
  | number n => exact Value.same_self_number h
  | _ => exact (Value.same_of_atom rfl _).mpr rfl

namespace Value

mutual

/-- Whether a value is not-a-number or a collection that contains it. -/
def hasNaN : Value → Bool
  | .number n => n.isNaN
  | .list items | .tuple items | .set items => anyNaN items
  | .mapping entries => entriesNaN entries
  | _ => false
termination_by structural v => v

/-- Whether one of the values is or contains not-a-number. -/
def anyNaN : List Value → Bool
  | [] => false
  | v :: rest => v.hasNaN || anyNaN rest
termination_by structural items => items

/-- Whether one of the keys is not-a-number or one of the values is or contains it. -/
def entriesNaN : List (Key × Value) → Bool
  | [] => false
  | (k, v) :: rest => k.hasNaN || v.hasNaN || entriesNaN rest
termination_by structural entries => entries

end

theorem sameItems_self {xs : List Value} (h : ∀ x ∈ xs, x.hasNaN = false → same x x = true)
    (hxs : anyNaN xs = false) : sameItems xs xs = true ∧ sameMembers xs xs = true := by
  induction xs with
  | nil => exact ⟨rfl, rfl⟩
  | cons x xs ih =>
    simp only [anyNaN, Bool.or_eq_false_iff] at hxs
    obtain ⟨hitems, hmembers⟩ := ih (fun x hx => h x (by simp [hx])) hxs.2
    have hx : same x x = true := h x (by simp) hxs.1
    exact ⟨by simp [sameItems, hx, hitems], by simp [sameMembers, hx, hmembers]⟩

theorem sameEntries_self {es : List (Key × Value)}
    (h : ∀ e ∈ es, e.2.hasNaN = false → same e.2 e.2 = true) (hes : entriesNaN es = false) :
    sameEntries es es = true := by
  induction es with
  | nil => rfl
  | cons e es ih =>
    obtain ⟨k, v⟩ := e
    simp only [entriesNaN, Bool.or_eq_false_iff] at hes
    have hv : same v v = true := h (k, v) (by simp) hes.1.2
    refine sameEntries_cons.mpr ⟨v, es, ?_, hv, ih (fun e he => h e (by simp [he])) hes.2⟩
    simp [remove?, Key.same_self hes.1.1]

theorem same_self {v : Value} (h : v.hasNaN = false) : same v v = true := by
  induction v using induction_parts with
  | h v ih =>
    cases v with
    | number n => exact same_self_number h
    | list xs =>
      rw [same]
      exact (sameItems_self ih h).1
    | tuple xs =>
      rw [same]
      exact (sameItems_self ih h).1
    | set xs =>
      rw [same]
      exact (sameItems_self ih h).2
    | mapping es =>
      rw [same]
      exact sameEntries_self (fun e he => ih e.2 (List.mem_map_of_mem he)) h
    | _ => exact (same_of_atom rfl _).mpr rfl

/-! ## Equality in templates -/

/-- A value that equality compares as such: it does not contain not-a-number, and it is neither of
the words `empty` and `blank`. -/
structure Plain where
  value : Value
  numbers : value.hasNaN = false
  word : ∀ w, value ≠ .literal w

theorem equals_of_ordinary {v w : Value} (hv : ∀ x, v ≠ .literal x) (hw : ∀ x, w ≠ .literal x) :
    v.equals w = .ok (v.isBool == w.isBool && same v.orNil w.orNil) := by
  unfold equals
  split
  · exact absurd rfl (hw _)
  · exact absurd rfl (hv _)
  · rfl

theorem equals_comm (v w : Value) : v.equals w = w.equals v := by
  by_cases hv : ∃ x, v = .literal x
  · obtain ⟨x, rfl⟩ := hv
    cases w with
    | literal y => cases x <;> cases y <;> rfl
    | _ => rfl
  · by_cases hw : ∃ y, w = .literal y
    · obtain ⟨y, rfl⟩ := hw
      cases v with
      | literal x => exact absurd ⟨x, rfl⟩ hv
      | _ => rfl
    · have hv : ∀ x, v ≠ .literal x := fun x h => hv ⟨x, h⟩
      have hw : ∀ y, w ≠ .literal y := fun y h => hw ⟨y, h⟩
      rw [equals_of_ordinary hv hw, equals_of_ordinary hw hv, same_comm w.orNil]
      cases v.isBool <;> cases w.isBool <;> rfl

namespace Plain

theorem equals_iff (v w : Plain) :
    v.value.equals w.value = .ok true ↔
      v.value.isBool = w.value.isBool ∧ same v.value.orNil w.value.orNil = true := by
  rw [equals_of_ordinary v.word w.word]
  simp

theorem equals_self (v : Plain) : v.value.equals v.value = .ok true := by
  refine (v.equals_iff v).mpr ⟨rfl, same_self ?_⟩
  obtain ⟨v, numbers, word⟩ := v
  cases v with
  | undefined => rfl
  | _ => exact numbers

theorem equals_trans {u v w : Plain} (huv : u.value.equals v.value = .ok true)
    (hvw : v.value.equals w.value = .ok true) : u.value.equals w.value = .ok true := by
  rw [equals_iff] at *
  exact ⟨huv.1.trans hvw.1, (steady _).trans huv.2 hvw.2⟩

/-- Nil and undefined are equal to nil and undefined only. -/
theorem equals_isNil {v w : Plain} (hv : v.value.isNil = true) :
    v.value.equals w.value = .ok true ↔ w.value.isNil = true := by
  rw [equals_iff]
  cases hvalue : v.value <;> simp [hvalue, isNil] at hv
  all_goals cases hother : w.value <;> simp [isBool, orNil, same, isNil]

end Plain

/-- Equality is symmetric.  On plain values it always has an answer and is an equivalence, in which
nil and undefined are one class and no truth value is equal to anything else. -/
theorem equals_equivalence :
    (∀ v w : Value, v.equals w = w.equals v) ∧
      (∀ v w : Plain, ∃ b, v.value.equals w.value = .ok b) ∧
      Equivalence (fun v w : Plain => v.value.equals w.value = .ok true) ∧
      (∀ v w : Plain, v.value.isNil = true →
        (v.value.equals w.value = .ok true ↔ w.value.isNil = true)) ∧
      ∀ v w : Plain, v.value.equals w.value = .ok true → v.value.isBool = w.value.isBool :=
  ⟨equals_comm,
    fun v w => ⟨_, equals_of_ordinary v.word w.word⟩,
    ⟨Plain.equals_self, fun {v w} hvw => by rw [equals_comm, hvw], Plain.equals_trans⟩,
    fun _ _ => Plain.equals_isNil,
    fun v w hvw => ((v.equals_iff w).mp hvw).1⟩

end Value

end Liquid
