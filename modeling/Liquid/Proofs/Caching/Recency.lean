import Liquid.Cache

/-!
# What a cache holds

What a cache holds after any requests is what these requests tell by themselves: the keys that were
touched last, as many as fit, each with the value that was stored last under it.  A key is touched
when a value is stored under it, and when a value is found under it.

* `filter_take_filter`: putting a key in front and cutting to the size may be done in either order.
* `Shows`: what a cache holds is what its history tells; `shows_touched` is the step in which a key
  is touched.
* `shows_observe`, `shows_after`: one request keeps that, and so do all.
* `holds_recent`: the keys, the values, the size and the counts after any requests.
-/
namespace Liquid

/-! ## Lists without duplicates -/

section

variable {κ : Type} [DecidableEq κ]

theorem filter_eraseDups (p : κ → Bool) (l : List κ) :
    l.eraseDups.filter p = (l.filter p).eraseDups := by
  generalize hn : l.length = n
  induction n using Nat.strongRecOn generalizing l with
  | ind n ih =>
    cases l with
    | nil => rfl
    | cons a l =>
      have hlt : (l.filter fun b => !b == a).length < n := by
        have hle := List.length_filter_le (fun b => !b == a) l
        rw [List.length_cons] at hn
        omega
      rw [List.eraseDups_cons]
      by_cases ha : p a
      · rw [List.filter_cons_of_pos ha, List.filter_cons_of_pos ha, List.eraseDups_cons,
          ih _ hlt _ rfl, List.filter_filter, List.filter_filter]
        simp only [Bool.and_comm]
      · rw [List.filter_cons_of_neg ha, List.filter_cons_of_neg ha, ih _ hlt _ rfl,
          List.filter_filter]
        congr 1
        refine List.filter_congr fun b _ => ?_
        by_cases hb : b = a
        · simp [hb, ha]
        · simp [hb]

theorem nodup_eraseDups (l : List κ) : l.eraseDups.Nodup := by
  generalize hn : l.length = n
  induction n using Nat.strongRecOn generalizing l with
  | ind n ih =>
    cases l with
    | nil => exact List.nodup_nil
    | cons a l =>
      have hle := List.length_filter_le (fun b => !b == a) l
      rw [List.length_cons] at hn
      rw [List.eraseDups_cons, List.nodup_cons, List.mem_eraseDups]
      exact ⟨by simp, ih _ (by omega) _ rfl⟩

/-- Among the first `n + 1` keys without one of them are the first `n` keys without it. -/
theorem filter_take_filter (key : κ) {l : List κ} (h : l.Nodup) (n : Nat) :
    ((l.take (n + 1)).filter (· != key)).take n = (l.filter (· != key)).take n := by
  induction l generalizing n with
  | nil => simp
  | cons a l ih =>
    obtain ⟨ha, hl⟩ := List.nodup_cons.1 h
    rw [List.take_succ_cons]
    by_cases hk : a = key
    · subst hk
      have hall : l.filter (· != a) = l :=
        List.filter_eq_self.2 fun b hb => bne_iff_ne.2 fun he => ha (he ▸ hb)
      have htake : (l.take n).filter (· != a) = l.take n :=
        List.filter_eq_self.2 fun b hb =>
          bne_iff_ne.2 fun he => ha (he ▸ List.mem_of_mem_take hb)
      simp [hall, htake, List.take_take]
    · rw [List.filter_cons_of_pos (by simpa using hk), List.filter_cons_of_pos (by simpa using hk)]
      cases n with
      | zero => rfl
      | succ n => rw [List.take_succ_cons, List.take_succ_cons, ih hl]

end

namespace Cache

/-! ## Requests and what they tell -/

/-- What may be asked of a cache.  A value that is got or set comes with what making it would
give. -/
inductive Request (κ α ε : Type) where
  | get (key : κ)
  | set (key : κ) (value : α)
  | getOrSet (key : κ) (made : Except ε α)
  | contains (key : κ)
  | clear

/-- A request, and whether there was a value under its key. -/
structure Event (κ α ε : Type) where
  request : Request κ α ε
  found : Bool

namespace Event

variable {κ α ε : Type}

/-- The key that is touched: one that is set, one that is found, or one whose value is made. -/
def touched? (e : Event κ α ε) : Option κ :=
  match e.request with
  | .set key _ => some key
  | .get key => if e.found then some key else none
  | .getOrSet key made => if e.found || made.isOk then some key else none
  | .contains _ | .clear => none

/-- What is stored. -/
def stored? (e : Event κ α ε) : Option (κ × α) :=
  match e.request with
  | .set key v => some (key, v)
  | .getOrSet key made => if e.found then none else made.toOption.map fun v => (key, v)
  | .get _ | .contains _ | .clear => none

/-- Whether a value is looked for. -/
def looks (e : Event κ α ε) : Bool :=
  match e.request with
  | .get _ | .getOrSet _ _ => true
  | _ => false

/-- Whether the cache is cleared. -/
def clears (e : Event κ α ε) : Bool :=
  match e.request with
  | .clear => true
  | _ => false

end Event

variable {κ α ε : Type}

/-- What happened since the cache was cleared.  A history has the latest event in front. -/
def sinceClear (history : List (Event κ α ε)) : List (Event κ α ε) :=
  history.takeWhile fun e => !e.clears

/-- How often a value was looked for. -/
def asked (history : List (Event κ α ε)) : Nat := (sinceClear history).countP Event.looks

theorem sinceClear_cons {history : List (Event κ α ε)} {e : Event κ α ε} (he : e.clears = false) :
    sinceClear (e :: history) = e :: sinceClear history :=
  List.takeWhile_cons_of_pos (by simp [he])

theorem asked_cons {history : List (Event κ α ε)} {e : Event κ α ε} (he : e.clears = false) :
    asked (e :: history) = asked history + if e.looks then 1 else 0 := by
  rw [asked, sinceClear_cons he, List.countP_cons]
  rfl

variable [DecidableEq κ]

/-- The keys that were touched, each once, the one touched last in front. -/
def recent (history : List (Event κ α ε)) : List κ :=
  ((sinceClear history).filterMap Event.touched?).eraseDups

/-- The value that was stored last under a key. -/
def lastStored? (key : κ) (history : List (Event κ α ε)) : Option α :=
  ((sinceClear history).filterMap Event.stored?).lookup key

/-- What a request makes of a cache. -/
def serve (c : Cache α κ) : Request κ α ε → Cache α κ
  | .get key => (c.find? key).2
  | .set key v => c.insert key v
  | .getOrSet key made => (c.findOrMake key fun _ => made).2
  | .contains _ => c
  | .clear => c.clear

/-- Whether there is a value under the key of a request. -/
def finds (c : Cache α κ) : Request κ α ε → Bool
  | .get key | .set key _ | .getOrSet key _ | .contains key => c.contains key
  | .clear => false

/-- A cache and what was asked of it, the latest event in front. -/
structure Observed (κ α ε : Type) where
  cache : Cache α κ
  history : List (Event κ α ε)

/-- Serves a request and puts it in front of the history. -/
def observe (o : Observed κ α ε) (r : Request κ α ε) : Observed κ α ε where
  cache := o.cache.serve r
  history := ⟨r, o.cache.finds r⟩ :: o.history

/-- A new cache, of which nothing was asked. -/
def new (maxSize : Int) (label : String) : Observed κ α ε where
  cache := { maxSize, label }
  history := []

/-- A new cache after some requests. -/
def after (maxSize : Int) (label : String) (requests : List (Request κ α ε)) : Observed κ α ε :=
  requests.foldl observe (new maxSize label)

/-! ## One request -/

section

variable {c : Cache α κ} {history : List (Event κ α ε)} {e : Event κ α ε}

theorem nodup_recent (history : List (Event κ α ε)) : (recent history).Nodup :=
  nodup_eraseDups _

theorem recent_touched (he : e.clears = false) {key : κ} (ht : e.touched? = some key) :
    recent (e :: history) = key :: (recent history).filter (· != key) := by
  rw [recent, sinceClear_cons he, List.filterMap_cons_some ht, List.eraseDups_cons, recent,
    filter_eraseDups]
  rfl

theorem recent_untouched (he : e.clears = false) (ht : e.touched? = none) :
    recent (e :: history) = recent history := by
  rw [recent, sinceClear_cons he, List.filterMap_cons_none ht, recent]

theorem lastStored?_of_ne (he : e.clears = false) {key : κ}
    (hs : ∀ stored ∈ e.stored?, stored.1 ≠ key) :
    lastStored? key (e :: history) = lastStored? key history := by
  rw [lastStored?, sinceClear_cons he]
  cases hv : e.stored? with
  | none => rw [List.filterMap_cons_none hv, lastStored?]
  | some stored =>
    have hne : (key == stored.1) = false := beq_eq_false_iff_ne.2 (Ne.symm (hs stored hv))
    rw [List.filterMap_cons_some hv, List.lookup_cons, hne, lastStored?]

theorem lastStored?_stored (he : e.clears = false) {key : κ} {v : α}
    (hs : e.stored? = some (key, v)) : lastStored? key (e :: history) = some v := by
  rw [lastStored?, sinceClear_cons he, List.filterMap_cons_some hs, List.lookup_cons, beq_self_eq_true]

/-- What a cache holds and counts is what its history tells. -/
structure Shows (c : Cache α κ) (history : List (Event κ α ε)) : Prop where
  keys : c.entries.map Prod.fst = ((recent history).take c.capacity).reverse
  values : ∀ key v, (key, v) ∈ c.entries → lastStored? key history = some v
  counts : c.hits + c.misses = asked history

namespace Shows

/-- Nothing happened since the cache was cleared. -/
theorem of_nothing (hc : c.entries = []) (hn : c.hits + c.misses = 0)
    (hh : sinceClear history = []) : Shows c history := by
  refine ⟨?_, fun key v hm => ?_, ?_⟩
  · rw [hc, recent, hh, List.filterMap_nil, List.eraseDups_nil, List.take_nil]
    rfl
  · rw [hc] at hm
    cases hm
  · rw [hn, asked, hh, List.countP_nil]

theorem length_le (h : Shows c history) : c.entries.length ≤ c.capacity := by
  have hl := congrArg List.length h.keys
  rw [List.length_map, List.length_reverse, List.length_take] at hl
  omega

end Shows

/-- Storing puts the key last and cuts to the size, also where nothing fits. -/
theorem entries_insert (h : c.entries.length ≤ c.capacity) (key : κ) (v : α) :
    (c.insert key v).entries =
      (c.without key ++ [(key, v)]).drop ((c.without key ++ [(key, v)]).length - c.capacity) := by
  unfold insert
  by_cases hm : c.maxSize ≤ 0
  · have h0 : c.capacity = 0 := Int.toNat_of_nonpos hm
    have hn : c.entries = [] := List.eq_nil_of_length_eq_zero (by omega)
    simp [if_pos hm, h0, hn]
  · rw [if_neg hm]

/-- A value that was found stays as it would be if it were stored again. -/
theorem entries_find? (h : c.entries.length ≤ c.capacity) {key : κ} {v : α}
    (hv : c.peek? key = some v) : (c.find? key).2.entries = (c.insert key v).entries := by
  have hlt : (c.without key).length < c.entries.length :=
    List.length_filter_lt_length_iff_exists.2 ⟨(key, v), mem_of_peek? hv, by simp⟩
  rw [entries_insert h, find?, hv, List.length_append, List.length_singleton,
    Nat.sub_eq_zero_of_le (by omega), List.drop_zero]

theorem map_fst_without (c : Cache α κ) (key : κ) :
    (c.without key).map Prod.fst = (c.entries.map Prod.fst).filter (· != key) := by
  rw [List.filter_map]
  rfl

namespace Shows

/-- The step in which a key is touched: it becomes the last used, and its value is the one that was
stored last. -/
theorem touched (h : Shows c history) (he : e.clears = false) {key : κ} {v : α}
    (ht : e.touched? = some key) (hs : ∀ stored ∈ e.stored?, stored.1 = key)
    (hv : lastStored? key (e :: history) = some v) {c' : Cache α κ} (hm : c'.maxSize = c.maxSize)
    (hc : c'.entries = (c.insert key v).entries)
    (hn : c'.hits + c'.misses = c.hits + c.misses + if e.looks then 1 else 0) :
    Shows c' (e :: history) := by
  have hcap : c'.capacity = c.capacity := congrArg Int.toNat hm
  refine ⟨?_, fun k w hw => ?_, ?_⟩
  · have hkeys : (c.without key ++ [(key, v)]).map Prod.fst =
        (key :: ((recent history).take c.capacity).filter (· != key)).reverse := by
      rw [List.map_append, map_fst_without, h.keys, List.filter_reverse, List.reverse_cons]
      rfl
    rw [hc, entries_insert h.length_le, List.map_drop, ← List.length_map Prod.fst, hkeys,
      List.length_reverse, ← List.reverse_take, recent_touched he ht, hcap]
    cases c.capacity with
    | zero => rfl
    | succ n => rw [List.take_succ_cons, List.take_succ_cons, filter_take_filter key (nodup_recent _)]
  · rw [hc, entries_insert h.length_le] at hw
    rcases List.mem_append.1 (List.mem_of_mem_drop hw) with hw | hw
    · obtain ⟨hw, hne⟩ := List.mem_filter.1 hw
      have hne : k ≠ key := by simpa using hne
      rw [lastStored?_of_ne he fun stored hst hk => hne (hk.symm.trans (hs stored hst))]
      exact h.values k w hw
    · cases List.mem_singleton.1 hw
      exact hv
  · rw [hn, h.counts, asked_cons he]

/-- The step in which no key is touched. -/
theorem untouched (h : Shows c history) (he : e.clears = false) (ht : e.touched? = none)
    (hs : e.stored? = none) {c' : Cache α κ} (hm : c'.maxSize = c.maxSize)
    (hc : c'.entries = c.entries)
    (hn : c'.hits + c'.misses = c.hits + c.misses + if e.looks then 1 else 0) :
    Shows c' (e :: history) := by
  have hcap : c'.capacity = c.capacity := congrArg Int.toNat hm
  refine ⟨?_, fun k w hw => ?_, ?_⟩
  · rw [hc, hcap, h.keys, recent_untouched he ht]
  · rw [hc] at hw
    rw [lastStored?_of_ne he fun stored hst => by rw [hs] at hst; cases hst]
    exact h.values k w hw
  · rw [hn, h.counts, asked_cons he]

/-- The step in which a value is looked for and found. -/
theorem found (h : Shows c history) (he : e.clears = false) {key : κ} {v : α}
    (hv : c.peek? key = some v) (ht : e.touched? = some key) (hs : e.stored? = none)
    (hl : e.looks = true) : Shows (c.find? key).2 (e :: history) := by
  have hq : (c.find? key).2.hits + (c.find? key).2.misses = c.hits + c.misses + 1 := by
    simp only [find?, hv]
    omega
  refine h.touched he ht ?_ ?_ ?_ (entries_find? h.length_le hv) ?_
  · intro stored hst
    rw [hs] at hst
    cases hst
  · rw [lastStored?_of_ne he fun stored hst => by rw [hs] at hst; cases hst]
    exact h.values key v (mem_of_peek? hv)
  · simp only [find?, hv]
  · rw [hq, hl]
    rfl

/-- A value is stored. -/
theorem stored (h : Shows c history) (he : e.clears = false) {key : κ} {v : α}
    (ht : e.touched? = some key) (hs : e.stored? = some (key, v)) {c' : Cache α κ}
    (hm : c'.maxSize = c.maxSize) (hc : c'.entries = (c.insert key v).entries)
    (hn : c'.hits + c'.misses = c.hits + c.misses + if e.looks then 1 else 0) :
    Shows c' (e :: history) := by
  refine h.touched he ht (fun stored hst => ?_) (lastStored?_stored he hs) hm hc hn
  rw [hs] at hst
  cases hst
  rfl

end Shows

theorem maxSize_insert (c : Cache α κ) (key : κ) (v : α) :
    (c.insert key v).maxSize = c.maxSize := by
  unfold insert
  split <;> rfl

theorem counts_insert (c : Cache α κ) (key : κ) (v : α) :
    (c.insert key v).hits + (c.insert key v).misses = c.hits + c.misses := by
  unfold insert
  split <;> rfl

theorem entries_insert_miss (c : Cache α κ) (key : κ) (v : α) :
    ({ c with misses := c.misses + 1 }.insert key v).entries = (c.insert key v).entries := by
  unfold insert
  split <;> rfl

theorem maxSize_find? (c : Cache α κ) (key : κ) : (c.find? key).2.maxSize = c.maxSize := by
  unfold find?
  split <;> rfl

theorem maxSize_findOrMake (c : Cache α κ) (key : κ) (made : Except ε α) :
    (c.findOrMake key fun _ => made).2.maxSize = c.maxSize := by
  cases hv : c.peek? key with
  | some v =>
    rw [findOrMake_found hv]
    exact maxSize_find? c key
  | none =>
    cases made with
    | error e => rw [findOrMake_error hv e]
    | ok v =>
      rw [findOrMake_ok hv v]
      exact maxSize_insert _ key v

theorem maxSize_serve (c : Cache α κ) (r : Request κ α ε) : (c.serve r).maxSize = c.maxSize := by
  cases r with
  | get key => exact maxSize_find? c key
  | set key v => exact maxSize_insert c key v
  | getOrSet key made => exact maxSize_findOrMake c key made
  | contains key => rfl
  | clear => rfl

namespace Shows

theorem get (h : Shows c history) (key : κ) :
    Shows (c.find? key).2 ((⟨.get key, c.contains key⟩ : Event κ α ε) :: history) := by
  unfold contains
  cases hv : c.peek? key with
  | some v => exact h.found rfl hv rfl rfl rfl
  | none =>
    rw [find?_miss hv]
    exact h.untouched rfl rfl rfl rfl rfl rfl

theorem getOrSet (h : Shows c history) (key : κ) (made : Except ε α) :
    Shows (c.findOrMake key fun _ => made).2 (⟨.getOrSet key made, c.contains key⟩ :: history) := by
  unfold contains
  cases hv : c.peek? key with
  | some v =>
    rw [findOrMake_found hv]
    exact h.found rfl hv rfl rfl rfl
  | none =>
    cases made with
    | error e =>
      rw [findOrMake_error hv e]
      exact h.untouched rfl rfl rfl rfl rfl rfl
    | ok v =>
      rw [findOrMake_ok hv v]
      refine h.stored rfl rfl rfl (maxSize_insert _ key v) (entries_insert_miss c key v) ?_
      rw [counts_insert]
      rfl

end Shows

theorem shows_observe {o : Observed κ α ε} (h : Shows o.cache o.history) (r : Request κ α ε) :
    Shows (observe o r).cache (observe o r).history := by
  cases r with
  | get key => exact h.get key
  | set key v => exact h.stored rfl rfl rfl (maxSize_insert _ key v) rfl (counts_insert _ key v)
  | getOrSet key made => exact h.getOrSet key made
  | contains key => exact h.untouched rfl rfl rfl rfl rfl rfl
  | clear => exact Shows.of_nothing rfl rfl rfl

end

/-! ## All requests -/

theorem shows_new (maxSize : Int) (label : String) :
    Shows (new maxSize label : Observed κ α ε).cache (new maxSize label : Observed κ α ε).history :=
  Shows.of_nothing rfl rfl rfl

theorem shows_foldl {o : Observed κ α ε} (h : Shows o.cache o.history)
    (requests : List (Request κ α ε)) :
    Shows (requests.foldl observe o).cache (requests.foldl observe o).history ∧
      (requests.foldl observe o).cache.maxSize = o.cache.maxSize := by
  induction requests generalizing o with
  | nil => exact ⟨h, rfl⟩
  | cons r rest ih =>
    obtain ⟨hs, hm⟩ := ih (shows_observe h r)
    exact ⟨hs, hm.trans (maxSize_serve o.cache r)⟩

namespace Shows

variable {c : Cache α κ} {history : List (Event κ α ε)}

theorem contains_eq (h : Shows c history) (key : κ) :
    c.contains key = decide (key ∈ (recent history).take c.capacity) := by
  have hk : key ∈ (recent history).take c.capacity ↔ key ∈ c.entries.map Prod.fst := by
    rw [h.keys, List.mem_reverse]
  rw [decide_eq_decide.2 hk, contains, peek?, Option.isSome_map, Bool.eq_iff_iff,
    List.find?_isSome, decide_eq_true_iff, List.mem_map]
  refine exists_congr fun entry => and_congr_right fun _ => ?_
  exact beq_iff_eq

theorem peek?_eq (h : Shows c history) (key : κ) :
    c.peek? key =
      if key ∈ (recent history).take c.capacity then lastStored? key history else none := by
  have hc := h.contains_eq key
  cases hp : c.peek? key with
  | some v =>
    rw [contains, hp, Option.isSome_some, eq_comm, decide_eq_true_iff] at hc
    rw [if_pos hc, h.values key v (mem_of_peek? hp)]
  | none =>
    rw [contains, hp, Option.isSome_none, eq_comm, decide_eq_false_iff_not] at hc
    rw [if_neg hc]

end Shows

/-- After any requests a cache holds the keys that were touched last since it was cleared, as many
as its size, in the order in which they were touched; each has the value that was stored last under
it.  What was found and what was not are together what was looked for.  A value that cannot be made
changes the count of misses only. -/
theorem holds_recent (maxSize : Int) (label : String) (requests : List (Request κ α ε)) :
    let o := after maxSize label requests
    let kept := (recent o.history).take maxSize.toNat
    o.cache.entries.map Prod.fst = kept.reverse ∧
      (∀ key v, (key, v) ∈ o.cache.entries → lastStored? key o.history = some v) ∧
      (∀ key, o.cache.contains key = decide (key ∈ kept)) ∧
      (∀ key, (o.cache.find? key).1 = if key ∈ kept then lastStored? key o.history else none) ∧
      o.cache.entries.length ≤ maxSize.toNat ∧
      o.cache.hits + o.cache.misses = asked o.history ∧
      ∀ key (e : ε), o.cache.contains key = false →
        o.cache.findOrMake key (fun _ => .error e) =
          (.error e, { o.cache with misses := o.cache.misses + 1 }) := by
  intro o kept
  obtain ⟨hs, hm⟩ := shows_foldl (shows_new maxSize label) requests
  have hcap : o.cache.capacity = maxSize.toNat := congrArg Int.toNat hm
  have hk : kept = (recent o.history).take o.cache.capacity := by rw [hcap]
  refine ⟨?_, hs.values, fun key => ?_, fun key => ?_, ?_, hs.counts, fun key e hc => ?_⟩
  · rw [hk]
    exact hs.keys
  · rw [hk]
    exact hs.contains_eq key
  · rw [find?_fst, hk]
    exact hs.peek?_eq key
  · rw [← hcap]
    exact hs.length_le
  · exact findOrMake_error (Option.isNone_iff_eq_none.1 (Option.isSome_eq_false_iff.1 hc)) e

end Cache

end Liquid
