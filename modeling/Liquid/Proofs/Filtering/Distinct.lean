import Liquid.Proofs.Filtering.JsonText

/-!
# Items without duplicates

Duplicates are found by marks and not by equality.  An item that has a hash is its own mark, with
truth values apart from numbers, as equality has them.  The mark of any other item is its text in
JSON, with the keys of mappings sorted.

**Data.** Between items with a hash and data, the same mark means equal.  For other items it need
not: a list of a day and a list of its text have one mark.

**Equal and looking it.** Equal items may have different marks.  Nil and undefined have, and so have
collections in which equal numbers are written in two ways, as `1` and `1.0` are.

* `sortKeys_ok`: the keys in data can be sorted, and this leaves it the same.
* `IsItem.agree`: marks and equality agree on items with a hash and data.
* `Firsts`: the first of related items is kept and the others are dropped.
* `uniq_keeps_first`: what is kept, and what is dropped.
* `not_always_distinct`: what is dropped need not be equal to anything kept.
-/
namespace Liquid

open Value

/-! ## Entries in any order -/

namespace Value

theorem sameEntries_self_of {es : List (Key × Value)}
    (h : ∀ e ∈ es, e.1.same e.1 = true ∧ same e.2 e.2 = true) : sameEntries es es = true := by
  refine sameEntries_of ?_
  rw [List.forall₂_same]
  exact h

/-- The order of entries with different keys does not count. -/
theorem sameEntries_of_perm {es fs : List (Key × Value)} (h : es.Perm fs)
    (hself : ∀ e ∈ es, e.1.same e.1 = true ∧ same e.2 e.2 = true)
    (hkeys : es.Pairwise fun e f => e.1.same f.1 = false) : sameEntries es fs = true := by
  induction h with
  | nil => rfl
  | cons e _ ih =>
    obtain ⟨he, htail⟩ := List.forall_mem_cons.1 hself
    exact sameEntries_cons.2 ⟨e.2, _, by simp [remove?, he.1], he.2,
      ih htail (List.pairwise_cons.1 hkeys).2⟩
  | swap e f l =>
    have hfe : ∀ d ∈ [f], d.1.same e.1 = false := fun d hd => by
      rw [List.mem_singleton.1 hd]
      exact (List.pairwise_cons.1 hkeys).1 e (.head _)
    refine (sameEntries_middle l hfe (e :: f :: l)).2 (sameEntries_self_of fun d hd => ?_)
    exact hself d ((List.Perm.swap e f l).mem_iff.2 hd)
  | trans h₁ h₂ ih₁ ih₂ =>
    have hswap {e f : Key × Value} (h : e.1.same f.1 = false) : f.1.same e.1 = false := by
      rwa [Key.same_comm]
    exact (steady_entries fun e _ => steady e.2).trans (ih₁ hself hkeys)
      (ih₂ (fun e he => hself e (h₁.mem_iff.2 he)) ((h₁.pairwise_iff hswap).1 hkeys))

end Value

namespace Filter

/-! ## Sorted keys -/

theorem insertEntry_ok {entry : Key × Value} {sorted : List (Key × Value)}
    (hentry : ∃ s, entry.1 = .text s) (htexts : ∀ e ∈ sorted, ∃ s, e.1 = .text s)
    (hsorted : (sorted.map Prod.fst).Pairwise Key.Before)
    (hnew : ∀ e ∈ sorted, entry.1 ≠ e.1) :
    ∃ s, insertEntry entry sorted = .ok s ∧ s.Perm (entry :: sorted) ∧
      (s.map Prod.fst).Pairwise Key.Before := by
  induction sorted with
  | nil => exact ⟨_, rfl, .refl _, List.pairwise_singleton ..⟩
  | cons other rest ih =>
    obtain ⟨s, hs⟩ := hentry
    obtain ⟨t, ht⟩ := htexts other (.head _)
    obtain ⟨hbefore, hrest⟩ := List.pairwise_cons.1 hsorted
    have hcompare : keyBefore? entry.1 other.1 = .ok (decide (s < t)) := by rw [hs, ht]; rfl
    rw [insertEntry, hcompare]
    by_cases hlt : s < t
    · refine ⟨entry :: other :: rest, by rw [decide_eq_true hlt]; rfl, .refl _,
        List.pairwise_cons.2 ⟨?_, hsorted⟩⟩
      have hfirst : entry.1.Before other.1 := by rw [hs, ht]; exact hlt
      intro k hk
      obtain rfl | hk := List.mem_cons.1 hk
      · exact hfirst
      · exact hfirst.trans (hbefore k hk)
    · obtain ⟨s', hs', hperm, hpairwise⟩ := ih (fun e he => htexts e (.tail _ he)) hrest
        fun e he => hnew e (.tail _ he)
      refine ⟨other :: s', by rw [decide_eq_false hlt, hs']; rfl,
        (hperm.cons other).trans (.swap entry other rest),
        List.pairwise_cons.2 ⟨fun k hk => ?_, hpairwise⟩⟩
      obtain rfl | hk := List.mem_cons.1 ((hperm.map Prod.fst).mem_iff.1 hk)
      · rw [hs, ht]
        have hne : s ≠ t := fun h => hnew other (.head _) (by rw [hs, ht, h])
        exact Std.lt_of_le_of_ne (String.not_lt.1 hlt) hne.symm
      · exact hbefore k hk

theorem foldlM_insertEntry_ok {sorted rest : List (Key × Value)}
    (htexts : ∀ e ∈ sorted ++ rest, ∃ s, e.1 = .text s)
    (hsorted : (sorted.map Prod.fst).Pairwise Key.Before)
    (hkeys : (sorted ++ rest).Pairwise fun e f => e.1 ≠ f.1) :
    ∃ s, rest.foldlM (fun sorted entry => insertEntry entry sorted) sorted = .ok s ∧
      s.Perm (sorted ++ rest) ∧ (s.map Prod.fst).Pairwise Key.Before := by
  induction rest generalizing sorted with
  | nil => exact ⟨sorted, rfl, by simp, hsorted⟩
  | cons entry rest ih =>
    obtain ⟨s, hs, hperm, hpairwise⟩ := insertEntry_ok (htexts entry (by simp))
      (fun e he => htexts e (by simp [he])) hsorted
      fun e he => ((List.pairwise_append.1 hkeys).2.2 e he entry (.head _)).symm
    have hall : (s ++ rest).Perm (sorted ++ entry :: rest) :=
      (hperm.append_right rest).trans List.perm_middle.symm
    obtain ⟨t, ht, hperm', hpairwise'⟩ := ih (fun e he => htexts e (hall.mem_iff.1 he)) hpairwise
      ((hall.pairwise_iff Ne.symm).2 hkeys)
    exact ⟨t, by rw [List.foldlM_cons, hs]; exact ht, hperm'.trans hall, hpairwise'⟩

theorem sortEntries_ok {entries : List (Key × Value)} (htexts : ∀ e ∈ entries, ∃ s, e.1 = .text s)
    (hkeys : (entries.map Prod.fst).Pairwise (· ≠ ·)) :
    ∃ s, sortEntries entries = .ok s ∧ s.Perm entries ∧ (s.map Prod.fst).Pairwise Key.Before :=
  foldlM_insertEntry_ok htexts .nil (List.pairwise_map.1 hkeys)

/-- What comes of sorting the keys in a value: the same value in order, with the same numbers and
truth values in it. -/
structure KeysSorted (v w : Value) : Prop where
  data : IsData Key.Before w
  same : Value.same v w = true
  leaves : ∀ P : Value → Prop, (∀ u, P u → u.IsLeaf) → Has P w → Has P v

theorem sortKeysOfItems_ok {items : List Value}
    (h : ∀ v ∈ items, ∃ w, sortKeys v = .ok w ∧ KeysSorted v w) :
    ∃ s, sortKeysOfItems items = .ok s ∧ List.Forall₂ KeysSorted items s := by
  induction items with
  | nil => exact ⟨[], rfl, .nil⟩
  | cons v items ih =>
    obtain ⟨⟨w, hw, hvw⟩, hitems⟩ := List.forall_mem_cons.1 h
    obtain ⟨s, hs, hall⟩ := ih hitems
    exact ⟨w :: s, by rw [sortKeysOfItems, hw, hs]; rfl, .cons hvw hall⟩

/-- The same for what stands under a key, which is a text. -/
structure EntrySorted (e f : Key × Value) : Prop where
  text : ∃ s, e.1 = .text s
  key : f.1 = e.1
  value : KeysSorted e.2 f.2

theorem sortKeysOfEntries_ok {entries : List (Key × Value)}
    (htexts : ∀ e ∈ entries, ∃ s, e.1 = .text s)
    (h : ∀ e ∈ entries, ∃ w, sortKeys e.2 = .ok w ∧ KeysSorted e.2 w) :
    ∃ s, sortKeysOfEntries entries = .ok s ∧ List.Forall₂ EntrySorted entries s := by
  induction entries with
  | nil => exact ⟨[], rfl, .nil⟩
  | cons e entries ih =>
    obtain ⟨htext, htexts⟩ := List.forall_mem_cons.1 htexts
    obtain ⟨⟨w, hw, hvw⟩, hentries⟩ := List.forall_mem_cons.1 h
    obtain ⟨s, hs, hall⟩ := ih htexts hentries
    exact ⟨(e.1, w) :: s, by rw [sortKeysOfEntries, hw, hs]; rfl, .cons ⟨htext, rfl, hvw⟩ hall⟩

theorem EntrySorted.same {e f : Key × Value} (h : EntrySorted e f) :
    f.1.same e.1 = true ∧ Value.same e.2 f.2 = true := by
  obtain ⟨s, hs⟩ := h.text
  exact ⟨by simp [h.key, hs, Key.same], h.value.same⟩

theorem EntrySorted.self {e f : Key × Value} (h : EntrySorted e f) :
    f.1.same f.1 = true ∧ Value.same f.2 f.2 = true := by
  obtain ⟨s, hs⟩ := h.text
  exact ⟨by simp [h.key, hs, Key.same],
    (steady f.2).trans (by rw [same_comm]; exact h.value.same) h.value.same⟩

theorem exists_of_forall₂ {α β : Type} {r : α → β → Prop} {xs : List α} {ys : List β}
    (h : List.Forall₂ r xs ys) : ∀ y ∈ ys, ∃ x ∈ xs, r x y := by
  induction h with
  | nil => exact List.forall_mem_nil _
  | cons hxy _ ih =>
    refine List.forall_mem_cons.2 ⟨⟨_, .head _, hxy⟩, fun y hy => ?_⟩
    obtain ⟨x, hx, hr⟩ := ih y hy
    exact ⟨x, .tail _ hx, hr⟩

theorem keysSorted_list {items s : List Value} (h : List.Forall₂ KeysSorted items s) :
    KeysSorted (.list items) (.list s) := by
  refine ⟨.list fun w hw => ?_, ?_, fun P hP hs => ?_⟩
  · obtain ⟨v, -, hvw⟩ := exists_of_forall₂ h w hw
    exact hvw.data
  · rw [same, sameItems_iff]
    exact h.imp fun _ _ hvw => hvw.same
  · cases hs with
    | self hself => exact (hP _ hself).elim
    | item hm hw =>
      obtain ⟨v, hv, hvw⟩ := exists_of_forall₂ h _ hm
      exact .item hv (hvw.leaves P hP hw)

theorem keysSorted_mapping {entries s t : List (Key × Value)}
    (h : List.Forall₂ EntrySorted entries s) (hkeys : (s.map Prod.fst).Pairwise (· ≠ ·))
    (hperm : t.Perm s) (hsorted : (t.map Prod.fst).Pairwise Key.Before) :
    KeysSorted (.mapping entries) (.mapping t) := by
  have hfound : ∀ f ∈ t, ∃ e ∈ entries, EntrySorted e f := fun f hf =>
    exists_of_forall₂ h f (hperm.mem_iff.1 hf)
  have htexts : ∀ f ∈ t, ∃ u, f.1 = .text u := fun f hf => by
    obtain ⟨e, -, hef⟩ := hfound f hf
    exact hef.key ▸ hef.text
  refine ⟨.mapping htexts hsorted fun f hf => ?_, ?_, fun P hP ht => ?_⟩
  · obtain ⟨e, -, hef⟩ := hfound f hf
    exact hef.value.data
  · have hes : sameEntries entries s = true := sameEntries_of (h.imp fun _ _ hef => hef.same)
    have hst : sameEntries s t = true := by
      refine sameEntries_of_perm hperm.symm (fun f hf => ?_) ?_
      · obtain ⟨e, -, hef⟩ := exists_of_forall₂ h f hf
        exact hef.self
      · refine (List.pairwise_map.1 hkeys).imp_of_mem fun {f g} hf _ hne => ?_
        obtain ⟨u, hu⟩ := htexts f (hperm.mem_iff.2 hf)
        exact Bool.eq_false_iff.2 fun hsame => hne (Key.eq_of_same hu hsame)
    rw [same]
    exact (steady_entries fun e _ => steady e.2).trans hes hst
  · cases ht with
    | self hself => exact (hP _ hself).elim
    | entry hm hw =>
      obtain ⟨e, he, hef⟩ := hfound _ hm
      exact .entry he (hef.value.leaves P hP hw)

/-- The keys in data can be sorted. -/
theorem sortKeys_ok {v : Value} (hv : IsData (· ≠ ·) v) :
    ∃ w, sortKeys v = .ok w ∧ KeysSorted v w := by
  induction hv with
  | nil => exact ⟨.nil, rfl, .nil, rfl, fun _ _ => id⟩
  | bool b => exact ⟨.bool b, rfl, .bool b, by simp [same], fun _ _ => id⟩
  | number hn => exact ⟨_, rfl, .number hn, same_self_number hn, fun _ _ => id⟩
  | text s => exact ⟨.text s, rfl, .text s, by simp [same], fun _ _ => id⟩
  | @list items _ ih =>
    obtain ⟨s, hs, hall⟩ := sortKeysOfItems_ok ih
    exact ⟨.list s, by rw [sortKeys, hs]; rfl, keysSorted_list hall⟩
  | @mapping entries htexts hkeys _ ih =>
    obtain ⟨s, hs, hall⟩ := sortKeysOfEntries_ok htexts ih
    have hsame : entries.map Prod.fst = s.map Prod.fst :=
      map_eq_of_forall₂ hall fun _ _ _ _ hef => hef.key.symm
    rw [hsame] at hkeys
    have htexts' : ∀ f ∈ s, ∃ u, f.1 = .text u := fun f hf => by
      obtain ⟨e, -, hef⟩ := exists_of_forall₂ hall f hf
      exact hef.key ▸ hef.text
    obtain ⟨t, ht, hperm, hsorted⟩ := sortEntries_ok htexts' hkeys
    refine ⟨.mapping t, ?_, keysSorted_mapping hall hkeys hperm hsorted⟩
    rw [sortKeys, hs]
    change (sortEntries s >>= fun e => pure (Value.mapping e)) = _
    rw [ht]
    rfl

/-! ## Marks -/

/-- Data that is written alike, with its keys sorted, is the same. -/
theorem KeysSorted.same_of_json {v w v' w' : Value} (hv : KeysSorted v v') (hw : KeysSorted w w')
    (h : v'.json .spaced = w'.json .spaced) : Value.same v w = true := by
  have hclosed : Json.Closed [] := nofun
  have hsame := (Value.same_of_json hv.data hw.data hclosed hclosed
    (congrArg (String.toList · ++ []) h)).1
  exact (steady v).trans hv.same ((steady v').trans hsame (by rw [same_comm]; exact hw.same))

/-- The same data is written alike, with its keys sorted, if the numbers in it are. -/
theorem KeysSorted.json_of_same {v w v' w' : Value} (hv : KeysSorted v v') (hw : KeysSorted w w')
    (hleaves : LeavesAgree v w) (h : Value.same v w = true) :
    v'.json .spaced = w'.json .spaced := by
  have hleaves' : LeavesAgree v' w' := fun a b ha hb hav hbw =>
    hleaves a b ha hb (hv.leaves _ (fun u hu => hu ▸ ha) hav)
      (hw.leaves _ (fun u hu => hu ▸ hb) hbw)
  refine Value.json_of_same hv.data hw.data hleaves' ?_
  exact (steady v').trans (by rw [same_comm]; exact hv.same) ((steady v).trans h hw.same)

/-- An item that is told apart by what it is: not a word, and if it is a collection that cannot be
told apart by itself, data. -/
inductive IsItem : Value → Prop
  | simple {v : Value} (hv : isSimple v = true) (hword : ∀ x, v ≠ .literal x) : IsItem v
  | data {v : Value} (hv : IsData (· ≠ ·) v) (hsimple : isSimple v = false) : IsItem v

theorem not_word_of_collection {v : Value} (h : isSimple v = false) : ∀ x, v ≠ .literal x := by
  rintro x rfl
  cases h

theorem IsItem.not_word {v : Value} (h : IsItem v) : ∀ x, v ≠ .literal x := by
  cases h with
  | simple _ hword => exact hword
  | data _ hsimple => exact not_word_of_collection hsimple

/-- Two items have the same mark. -/
def Alike (v w : Value) : Prop := ∃ m n, Mark.of v = .ok m ∧ Mark.of w = .ok n ∧ m.same n = true

/-- Two items have marks and can be compared.  With the same mark they are equal, and if they are
equal they have the same mark under a condition. -/
def Agree (p : Prop) (v w : Value) : Prop :=
  ∃ m n b, Mark.of v = .ok m ∧ Mark.of w = .ok n ∧ v.equals w = .ok b ∧
    (m.same n = true → b = true) ∧ (p → b = true → m.same n = true)

theorem mark_simple {v : Value} (hv : isSimple v = true) (hbool : v.isBool = false) :
    Mark.of v = .ok (.value v) := by
  unfold Mark.of
  rw [if_pos hv]
  cases v <;> first | rfl | cases hbool

theorem mark_collection {v w : Value} (hv : isSimple v = false) (hw : sortKeys v = .ok w) :
    Mark.of v = .ok (.json (w.json .spaced)) := by
  unfold Mark.of
  rw [hv, if_neg Bool.false_ne_true, hw]
  rfl

/-- Nil and undefined are told apart by marks, and by equality they are not. -/
theorem same_orNil {v w : Value} (h : v.isNil = true → w.isNil = true → v = w) :
    same v.orNil w.orNil = same v w := by
  have hundefined {w : Value} (h : w.isNil = true → .undefined = w) :
      same .nil w.orNil = same .undefined w := by
    cases w with
    | nil => cases h rfl
    | _ => rfl
  have horNil {v : Value} (hv : v ≠ .undefined) : v.orNil = v := by
    cases v <;> first | rfl | exact absurd rfl hv
  by_cases hv : v = .undefined
  · subst hv
    exact hundefined (h rfl)
  by_cases hw : w = .undefined
  · subst hw
    rw [same_comm, same_comm v]
    exact hundefined fun hnil => (h hnil rfl).symm
  rw [horNil hv, horNil hw]

theorem nils_eq {v w : Value} (h : same v w = true) (hv : v.isNil = true) (hw : w.isNil = true) :
    v = w := by
  have hnil {v : Value} (hv : v.isNil = true) : v = .nil ∨ v = .undefined := by
    cases v <;> first | exact .inl rfl | exact .inr rfl | cases hv
  obtain rfl | rfl := hnil hv <;> obtain rfl | rfl := hnil hw <;> first | rfl | cases h

theorem exists_bool {v : Value} (h : v.isBool = true) : ∃ b, v = .bool b := by
  cases v <;> first | exact ⟨_, rfl⟩ | cases h

theorem agree_simple {v w : Value} (hv : isSimple v = true) (hw : isSimple w = true)
    (hword : ∀ x, v ≠ .literal x) (hword' : ∀ x, w ≠ .literal x) :
    Agree (v.isNil = true → w.isNil = true → v = w) v w := by
  have hequals := equals_of_ordinary hword hword'
  cases hvb : v.isBool with
  | true =>
    obtain ⟨b, rfl⟩ := exists_bool hvb
    cases hwb : w.isBool with
    | true =>
      obtain ⟨c, rfl⟩ := exists_bool hwb
      exact ⟨_, _, _, rfl, rfl, hequals, id, fun _ => id⟩
    | false =>
      rw [hwb] at hequals
      exact ⟨_, _, _, rfl, mark_simple hw hwb, hequals, id, fun _ => id⟩
  | false =>
    cases hwb : w.isBool with
    | true =>
      obtain ⟨c, rfl⟩ := exists_bool hwb
      rw [hvb] at hequals
      exact ⟨_, _, _, mark_simple hv hvb, rfl, hequals, id, fun _ => id⟩
    | false =>
      rw [hvb, hwb] at hequals
      refine ⟨_, _, _, mark_simple hv hvb, mark_simple hw hwb, hequals, fun hsame => ?_,
        fun hnils heq => ?_⟩
      · exact (same_orNil (nils_eq hsame)).trans hsame
      · exact (same_orNil hnils).symm.trans heq

theorem agree_data {v w : Value} (hv : IsData (· ≠ ·) v) (hw : IsData (· ≠ ·) w)
    (hsimple : isSimple v = false) (hsimple' : isSimple w = false) :
    Agree (LeavesAgree v w) v w := by
  obtain ⟨v', hv', hsorted⟩ := sortKeys_ok hv
  obtain ⟨w', hw', hsorted'⟩ := sortKeys_ok hw
  have hcollection {v : Value} (hv : IsData (· ≠ ·) v) (h : isSimple v = false) :
      v.isBool = false ∧ v.orNil = v := by
    cases hv <;> first | exact ⟨rfl, rfl⟩ | cases h
  have hequals : v.equals w = .ok (same v w) := by
    rw [equals_of_ordinary (not_word_of_collection hsimple) (not_word_of_collection hsimple'),
      (hcollection hv hsimple).1, (hcollection hw hsimple').1, (hcollection hv hsimple).2,
      (hcollection hw hsimple').2]
    rfl
  refine ⟨_, _, _, mark_collection hsimple hv', mark_collection hsimple' hw', hequals,
    fun h => hsorted.same_of_json hsorted' (beq_iff_eq.1 h),
    fun hleaves h => beq_iff_eq.2 (hsorted.json_of_same hsorted' hleaves h)⟩

theorem Mark.same_comm (m n : Mark) : m.same n = n.same m := by
  cases m <;> cases n <;> first | rfl | exact BEq.comm | exact Value.same_comm _ _

theorem Agree.symm {p : Prop} {v w : Value} (h : Agree p v w) : Agree p w v := by
  obtain ⟨m, n, b, hm, hn, hvw, hequal, halike⟩ := h
  rw [equals_comm] at hvw
  rw [Mark.same_comm] at hequal halike
  exact ⟨n, m, b, hn, hm, hvw, hequal, halike⟩

theorem Agree.mono {p q : Prop} {v w : Value} (h : Agree p v w) (hqp : q → p) : Agree q v w := by
  obtain ⟨m, n, b, hm, hn, hvw, hequal, halike⟩ := h
  exact ⟨m, n, b, hm, hn, hvw, hequal, fun hq => halike (hqp hq)⟩

/-- An item that can be told apart by itself, and a collection that cannot. -/
theorem agree_mixed {v w : Value} (hv : isSimple v = true) (hword : ∀ x, v ≠ .literal x)
    (hw : IsData (· ≠ ·) w) (hsimple : isSimple w = false) : Agree True v w := by
  obtain ⟨w', hw', -⟩ := sortKeys_ok hw
  obtain ⟨m, hm, hjson⟩ : ∃ m, Mark.of v = .ok m ∧ ∀ s, m.same (.json s) = false := by
    cases hbool : v.isBool with
    | true =>
      obtain ⟨b, rfl⟩ := exists_bool hbool
      exact ⟨_, rfl, fun _ => rfl⟩
    | false => exact ⟨_, mark_simple hv hbool, fun _ => rfl⟩
  have hsame : same v.orNil w.orNil = false := by
    cases hw with
    | list | mapping => cases v <;> first | rfl | cases hv
    | _ => cases hsimple
  have hequals := equals_of_ordinary hword (not_word_of_collection hsimple)
  rw [hsame, Bool.and_false] at hequals
  refine ⟨_, _, _, hm, mark_collection hsimple hw', hequals, fun h => ?_, nofun⟩
  rw [hjson] at h
  cases h

/-- If two items are equal they look it: they are not nil and undefined, and the numbers and truth
values that are the same inside two collections are written alike. -/
structure LookEqual (v w : Value) : Prop where
  nils : v.isNil = true → w.isNil = true → v = w
  leaves : isSimple v = false → isSimple w = false → LeavesAgree v w

theorem IsItem.agree {v w : Value} (hv : IsItem v) (hw : IsItem w) : Agree (LookEqual v w) v w := by
  cases hv with
  | simple hsimple hword =>
    cases hw with
    | simple hsimple' hword' =>
      exact (agree_simple hsimple hsimple' hword hword').mono LookEqual.nils
    | data hdata hsimple' => exact (agree_mixed hsimple hword hdata hsimple').mono fun _ => trivial
  | data hdata hsimple =>
    cases hw with
    | simple hsimple' hword' =>
      exact (agree_mixed hsimple' hword' hdata hsimple).symm.mono fun _ => trivial
    | data hdata' hsimple' =>
      exact (agree_data hdata hdata' hsimple hsimple').mono fun h => h.leaves hsimple hsimple'

theorem Agree.equals_of_alike {p : Prop} {v w : Value} (h : Agree p v w) (halike : Alike v w) :
    v.equals w = .ok true := by
  obtain ⟨m, n, b, hm, hn, hequals, hequal, -⟩ := h
  obtain ⟨m', n', hm', hn', hsame⟩ := halike
  rw [hm] at hm'
  rw [hn] at hn'
  cases hm'
  cases hn'
  rw [hequals, hequal hsame]

theorem Agree.alike_iff {p : Prop} {v w : Value} (h : Agree p v w) (hp : p) :
    Alike v w ↔ v.equals w = .ok true := by
  refine ⟨h.equals_of_alike, fun heq => ?_⟩
  obtain ⟨m, n, b, hm, hn, hequals, -, halike⟩ := h
  rw [hequals] at heq
  exact ⟨m, n, hm, hn, halike hp (Except.ok.inj heq)⟩

/-- What is not equal is different: there is always an answer. -/
theorem Agree.different {p : Prop} {v w : Value} (h : Agree p v w)
    (hne : ¬v.equals w = .ok true) : v.equals w = .ok false := by
  obtain ⟨m, n, b, -, -, hequals, -⟩ := h
  rw [hequals] at hne ⊢
  exact congrArg _ (Bool.eq_false_iff.2 fun hb => hne (congrArg _ hb))

/-! ## First occurrences -/

/-- The items are gone through one by one.  One is kept if it is related to none that was kept
before, and dropped otherwise. -/
inductive Firsts (r : Value → Value → Prop) : List Value → List Value → List Value → Prop
  | nil {seen : List Value} : Firsts r seen [] []
  | keep {seen items kept : List Value} {v : Value} (h : ∀ w ∈ seen, ¬r v w)
      (hrest : Firsts r (v :: seen) items kept) : Firsts r seen (v :: items) (v :: kept)
  | drop {seen items kept : List Value} {v : Value} (h : ∃ w ∈ seen, r v w)
      (hrest : Firsts r seen items kept) : Firsts r seen (v :: items) kept

namespace Firsts

variable {r : Value → Value → Prop} {seen items kept : List Value}

theorem sublist (h : Firsts r seen items kept) : kept.Sublist items := by
  induction h with
  | nil => exact .slnil
  | keep _ _ ih => exact ih.cons_cons _
  | drop _ _ ih => exact ih.cons _

theorem head_eq (h : Firsts r [] items kept) : kept.head? = items.head? := by
  cases h with
  | nil | keep => rfl
  | drop h =>
    obtain ⟨w, hw, -⟩ := h
    cases hw

/-- No kept item is related to one that was kept before. -/
theorem pairwise (h : Firsts r seen items kept) :
    (∀ v ∈ kept, ∀ w ∈ seen, ¬r v w) ∧ kept.Pairwise fun v w => ¬r w v := by
  induction h with
  | nil => exact ⟨List.forall_mem_nil _, .nil⟩
  | keep hnew _ ih =>
    obtain ⟨hseen, hpairwise⟩ := ih
    refine ⟨List.forall_mem_cons.2 ⟨hnew, fun v hv w hw => hseen v hv w (.tail _ hw)⟩,
      List.pairwise_cons.2 ⟨fun w hw => hseen w hw _ (.head _), hpairwise⟩⟩
  | drop _ _ ih => exact ih

/-- Every item is kept or related to one that is. -/
theorem covers (h : Firsts r seen items kept) :
    ∀ v ∈ items, v ∈ kept ∨ ∃ w, (w ∈ seen ∨ w ∈ kept) ∧ r v w := by
  induction h with
  | nil => exact List.forall_mem_nil _
  | keep _ _ ih =>
    refine List.forall_mem_cons.2 ⟨.inl (.head _), fun v hv => ?_⟩
    obtain hv | ⟨w, hw | hw, hr⟩ := ih v hv
    · exact .inl (.tail _ hv)
    · obtain rfl | hw := List.mem_cons.1 hw
      · exact .inr ⟨_, .inr (.head _), hr⟩
      · exact .inr ⟨w, .inl hw, hr⟩
    · exact .inr ⟨w, .inr (.tail _ hw), hr⟩
  | drop hold _ ih =>
    obtain ⟨w, hw, hr⟩ := hold
    exact List.forall_mem_cons.2 ⟨.inr ⟨w, .inl hw, hr⟩, ih⟩

/-- Relations that agree on the items have the same first occurrences. -/
theorem congr {r' : Value → Value → Prop} (h : Firsts r seen items kept)
    (hr : ∀ v ∈ items, ∀ w, w ∈ seen ∨ w ∈ items → (r v w ↔ r' v w)) :
    Firsts r' seen items kept := by
  induction h with
  | nil => exact .nil
  | keep hnew _ ih =>
    refine .keep (fun w hw hvw => hnew w hw ((hr _ (.head _) w (.inl hw)).2 hvw))
      (ih fun v hv w hw => hr v (.tail _ hv) w ?_)
    obtain hw | hw := hw
    · obtain rfl | hw := List.mem_cons.1 hw
      · exact .inr (.head _)
      · exact .inl hw
    · exact .inr (.tail _ hw)
  | drop hold _ ih =>
    obtain ⟨w, hw, hvw⟩ := hold
    exact .drop ⟨w, hw, (hr _ (.head _) w (.inl hw)).1 hvw⟩
      (ih fun v hv w hw => hr v (.tail _ hv) w (hw.imp_right (.tail _)))

end Firsts

/-- A mark was seen exactly if an item with this mark was. -/
theorem any_same_iff {v : Value} {m : Mark} (hm : Mark.of v = .ok m) {seen : List Value}
    {marks : List Mark} (hseen : List.Forall₂ (fun w n => Mark.of w = .ok n) seen marks) :
    marks.any m.same = true ↔ ∃ w ∈ seen, Alike v w := by
  induction hseen with
  | nil => simp
  | @cons w n seen marks hn _ ih =>
    have halike : Alike v w ↔ m.same n = true := by
      constructor
      · rintro ⟨m', n', hm', hn', hsame⟩
        rw [hm] at hm'
        rw [hn] at hn'
        cases hm'
        cases hn'
        exact hsame
      · exact fun hsame => ⟨m, n, hm, hn, hsame⟩
    rw [List.any_cons, Bool.or_eq_true, ih, ← halike]
    simp only [List.mem_cons, exists_eq_or_imp]

theorem uniqFrom_ok {items seen : List Value} {marks : List Mark}
    (h : ∀ v ∈ items, ∃ m, Mark.of v = .ok m)
    (hseen : List.Forall₂ (fun w n => Mark.of w = .ok n) seen marks) :
    ∃ kept, uniqFrom Mark.of marks items = .ok kept ∧ Firsts Alike seen items kept := by
  induction items generalizing seen marks with
  | nil => exact ⟨[], rfl, .nil⟩
  | cons v items ih =>
    obtain ⟨⟨m, hm⟩, hitems⟩ := List.forall_mem_cons.1 h
    have hany := any_same_iff hm hseen
    cases hold : marks.any m.same with
    | true =>
      obtain ⟨kept, hkept, hfirsts⟩ := ih hitems hseen
      refine ⟨kept, ?_, .drop (hany.1 hold) hfirsts⟩
      rw [uniqFrom, hm]
      change (if marks.any m.same = true then _ else _) = _
      rw [if_pos hold, hkept]
    | false =>
      obtain ⟨kept, hkept, hfirsts⟩ := ih hitems (.cons hm hseen)
      refine ⟨v :: kept, ?_, .keep (fun w hw hvw => ?_) hfirsts⟩
      · rw [uniqFrom, hm]
        change (if marks.any m.same = true then _ else _) = _
        rw [hold, if_neg Bool.false_ne_true, hkept]
        rfl
      · rw [hany.2 ⟨w, hw, hvw⟩] at hold
        cases hold

theorem mark_cases (v : Value) :
    (∃ m, Mark.of v = .ok m) ∨ Mark.of v = .error .wrongType ∧ Has Unsortable v := by
  have hends := faultsOnly_mark v
  cases hm : Mark.of v with
  | ok m => exact .inl ⟨m, rfl⟩
  | error f =>
    rw [hm] at hends
    obtain ⟨rfl, hunsortable⟩ := hends
    exact .inr ⟨rfl, hunsortable⟩

theorem uniqFrom_error {items : List Value} (marks : List Mark)
    (h : ∃ v ∈ items, Mark.of v = .error .wrongType) :
    uniqFrom Mark.of marks items = .error .wrongType := by
  induction items generalizing marks with
  | nil => simp at h
  | cons v items ih =>
    rw [uniqFrom]
    obtain ⟨m, hm⟩ | ⟨hm, -⟩ := mark_cases v
    · simp only [List.mem_cons, exists_eq_or_imp] at h
      obtain hv | hitems := h
      · rw [hm] at hv
        cases hv
      · rw [hm]
        change (if marks.any m.same = true then _ else _) = _
        split
        · exact ih marks hitems
        · rw [ih _ hitems]
          rfl
    · rw [hm]
      rfl

theorem uniq_run (items : List Value) :
    uniq (.list items) .nil =
      orFault (uniqFrom Mark.of [] items >>= fun kept => pure (.list kept)) := rfl

theorem uniq_ok {items : List Value} (h : ∀ v ∈ items, ∃ m, Mark.of v = .ok m) :
    ∃ kept, uniq (.list items) .nil = .ok (.list kept) ∧ Firsts Alike [] items kept := by
  obtain ⟨kept, hkept, hfirsts⟩ := uniqFrom_ok h .nil
  exact ⟨kept, by rw [uniq_run, hkept]; rfl, hfirsts⟩

/-- Items are told apart by their marks, or one of them has none. -/
theorem uniq_cases (items : List Value) :
    (∃ kept, uniq (.list items) .nil = .ok (.list kept) ∧ Firsts Alike [] items kept) ∨
      uniq (.list items) .nil = .error (.ofFault .wrongType) ∧ ∃ v ∈ items, Has Unsortable v := by
  by_cases h : ∃ v ∈ items, Mark.of v = .error .wrongType
  · refine .inr ⟨by rw [uniq_run, uniqFrom_error [] h]; rfl, ?_⟩
    obtain ⟨v, hv, herror⟩ := h
    obtain ⟨m, hm⟩ | ⟨-, hunsortable⟩ := mark_cases v
    · rw [hm] at herror
      cases herror
    · exact ⟨v, hv, hunsortable⟩
  · exact .inl (uniq_ok fun v hv => (mark_cases v).resolve_right fun hm => h ⟨v, hv, hm.1⟩)

/-- Duplicates are dropped: an item is kept if it has the mark of none that was kept before.  Of
items that are told apart by what they are, the first one is kept and what is dropped is equal to
one that is kept.  If equal items look it, no two kept ones are equal: the first of equal items is
kept and the others are dropped. -/
theorem uniq_keeps_first (items : List Value) :
    ((∃ kept, uniq (.list items) .nil = .ok (.list kept) ∧ Firsts Alike [] items kept) ∨
      uniq (.list items) .nil = .error (.ofFault .wrongType) ∧
        ∃ v ∈ items, Has Unsortable v) ∧
    ((∀ v ∈ items, v.hasNaN = false) → (∀ v ∈ items, IsItem v) →
      ∃ kept, uniq (.list items) .nil = .ok (.list kept) ∧
        kept.Sublist items ∧ kept.head? = items.head? ∧
        (∀ v ∈ items, ∃ w ∈ kept, v.equals w = .ok true) ∧
        ((∀ v ∈ items, ∀ w ∈ items, LookEqual v w) →
          Firsts (fun v w => v.equals w = .ok true) [] items kept ∧
          kept.Pairwise fun v w => w.equals v = .ok false)) := by
  refine ⟨uniq_cases items, fun hnumbers hitems => ?_⟩
  have hagree : ∀ v ∈ items, ∀ w ∈ items, Agree (LookEqual v w) v w := fun v hv w hw =>
    (hitems v hv).agree (hitems w hw)
  obtain ⟨kept, hkept, halike⟩ := uniq_ok fun v hv =>
    have ⟨m, _, _, hm, _⟩ := hagree v hv v hv
    ⟨m, hm⟩
  have hsub := halike.sublist.subset
  refine ⟨kept, hkept, halike.sublist, halike.head_eq, fun v hv => ?_, fun hlook => ?_⟩
  · obtain hmem | ⟨w, hw, hvw⟩ := halike.covers v hv
    · exact ⟨v, hmem, Plain.equals_self ⟨v, hnumbers v hv, (hitems v hv).not_word⟩⟩
    · have hw' := hw.resolve_left nofun
      exact ⟨w, hw', (hagree v hv w (hsub hw')).equals_of_alike hvw⟩
  · have hfirsts := halike.congr fun v hv w hw =>
      have hw' := hw.resolve_left nofun
      (hagree v hv w hw').alike_iff (hlook v hv w hw')
    refine ⟨hfirsts, hfirsts.pairwise.2.imp_of_mem fun {v w} hv hw hne => ?_⟩
    exact (hagree w (hsub hw) v (hsub hv)).different hne

/-- The second list and the second mapping are dropped, the number behind the truth value is not. -/
theorem uniq_keeps_first_nested :
    let items : List Value := [.list [.int 1, .text "a"], .mapping [(.text "k", .int 2)],
      .list [.int 1, .text "a"], .bool true, .mapping [(.text "k", .int 2)], .int 1]
    (∀ v ∈ items, v.hasNaN = false) ∧ (∀ v ∈ items, IsItem v) ∧
      (∀ v ∈ items, ∀ w ∈ items, LookEqual v w) ∧
      ∃ kept, uniq (.list items) .nil = .ok (.list kept) ∧
        kept.Sublist items ∧ kept.head? = items.head? ∧
        (∀ v ∈ items, ∃ w ∈ kept, v.equals w = .ok true) ∧
        Firsts (fun v w => v.equals w = .ok true) [] items kept ∧
        kept.Pairwise fun v w => w.equals v = .ok false := by
  intro items
  have hnumbers : ∀ v ∈ items, v.hasNaN = false := by decide
  have hint (n : Int) : IsData (· ≠ ·) (.int n) := .number rfl
  have hlist : IsItem (.list [.int 1, .text "a"]) :=
    .data (.list (by simpa using ⟨hint 1, .text "a"⟩)) rfl
  have hmapping : IsItem (.mapping [(.text "k", .int 2)]) :=
    .data (.mapping (by simp) (by simp) (by simpa using hint 2)) rfl
  have hitems : ∀ v ∈ items, IsItem v := by
    simp only [items, List.forall_mem_cons]
    exact ⟨hlist, hmapping, hlist, .simple rfl nofun, hmapping, .simple rfl nofun, nofun⟩
  have hcollection {v : Value} (hv : v ∈ items) (hsimple : isSimple v = false) :
      v = .list [.int 1, .text "a"] ∨ v = .mapping [(.text "k", .int 2)] := by
    simp only [items, List.mem_cons, List.not_mem_nil, or_false] at hv
    obtain rfl | rfl | rfl | rfl | rfl | rfl := hv
    · exact .inl rfl
    · exact .inr rfl
    · exact .inl rfl
    · cases hsimple
    · exact .inr rfl
    · cases hsimple
  have hleaf {v a : Value} (hv : v ∈ items) (hsimple : isSimple v = false) (ha : a.IsLeaf)
      (h : Has (· = a) v) : a = .int 1 ∨ a = .int 2 := by
    obtain rfl | rfl := hcollection hv hsimple
    · cases h with
      | self h => exact ((h : _ = a) ▸ ha).elim
      | item hm h =>
        simp only [List.mem_cons, List.not_mem_nil, or_false] at hm
        obtain rfl | rfl := hm
        · cases h with | self h => exact .inl h.symm
        · cases h with | self h => exact ((h : _ = a) ▸ ha).elim
    · cases h with
      | self h => exact ((h : _ = a) ▸ ha).elim
      | entry hm h =>
        obtain ⟨-, rfl⟩ := Prod.mk.inj (List.mem_singleton.1 hm)
        cases h with | self h => exact .inr h.symm
  have hlook : ∀ v ∈ items, ∀ w ∈ items, LookEqual v w := by
    refine fun v hv w hw => ⟨?_, fun hsimple hsimple' a b ha hb hav hbw hsame => ?_⟩
    · have hnone : ∀ v ∈ items, v.isNil = false := by decide
      rw [hnone v hv]
      exact nofun
    · obtain rfl | rfl := hleaf hv hsimple ha hav <;>
        obtain rfl | rfl := hleaf hw hsimple' hb hbw <;>
        first | rfl | exact absurd hsame (by decide)
  obtain ⟨kept, hkept, hsub, hhead, hcovers, hfirsts⟩ := (uniq_keeps_first items).2 hnumbers hitems
  exact ⟨hnumbers, hitems, hlook, kept, hkept, hsub, hhead, hcovers, hfirsts hlook⟩

/-- Behind the list of a day the list of its text is dropped, which is not equal to it. -/
theorem not_always_distinct :
    ¬∀ items kept : List Value, (∀ v ∈ items, v.hasNaN = false) →
      uniq (.list items) .nil = .ok (.list kept) →
        ∀ v ∈ items, ∃ w ∈ kept, v.equals w = .ok true := by
  intro h
  obtain ⟨w, hw, hequals⟩ := h [.list [.date ⟨2024, 1, 1⟩], .list [.text "2024-01-01"]]
    [.list [.date ⟨2024, 1, 1⟩]] (by decide) rfl (.list [.text "2024-01-01"]) (.tail _ (.head _))
  rw [List.mem_singleton.1 hw] at hequals
  cases hequals

end Filter

end Liquid
