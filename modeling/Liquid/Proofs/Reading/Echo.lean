import Liquid.Proofs.Reading.Phrases
import Liquid.Proofs.Reading.Tags

/-!
# The same words read at another place

What a reader makes of words depends on their kinds and texts and not on their places, and a reader
of expressions never looks beyond the delimiter behind them.  So words that stand once more in
another source, in front of whatever else, are read as the same expressions there.

**Side by side.**  Two readers go through two lists of tokens that are alike up to a closing
delimiter (`Beside`).  What the first one returns the second one returns too, apart from places, and
what they leave is alike again.

* `Beside.next`, `Beside.uncons`: what the next tokens are, and what is behind them.
* `Expr.echo_expression`: expressions.
* `Reading.echo_hostArguments`: the arguments of a tag of the host, with its closing delimiter.
* `Reading.words_of_hostArguments`: which tokens these are.
-/
namespace Liquid

/-- Two lists of tokens that are alike up to the closing delimiters with which `r` and `r'`
begin. -/
inductive Beside (r r' : List Token) : List Token → List Token → Prop where
  | stop : Beside r r' r r'
  | step {t t' : Token} {s s' : List Token} :
    t.kind.inner = true → t'.kind = t.kind → t'.text = t.text → Beside r r' s s' →
    Beside r r' (t :: s) (t' :: s')

/-- What is left begins with the closing delimiter of a tag. -/
def Closes (r : List Token) : Prop := (nextToken r).kind = .blockEnd

section

variable {r r' s s' u : List Token} {t : Token}

/-- The next tokens are alike. -/
theorem Beside.next (hr : Closes r) (hr' : Closes r') (h : Beside r r' s s') :
    (nextToken s').kind = (nextToken s).kind ∧
      ((nextToken s).kind.inner = true → (nextToken s').text = (nextToken s).text) := by
  cases h with
  | stop =>
    rw [show (nextToken r).kind = _ from hr, show (nextToken r').kind = _ from hr']
    exact ⟨rfl, fun h => by cases h⟩
  | step _ hk ht _ => exact ⟨hk, fun _ => ht⟩

theorem Beside.isName_next (hr : Closes r) (hr' : Closes r') (h : Beside r r' s s')
    (name : String) : (nextToken s').isName name = (nextToken s).isName name := by
  obtain ⟨hk, ht⟩ := h.next hr hr'
  unfold Token.isName
  by_cases hn : (nextToken s).kind = .name
  · rw [hk, ht (by rw [hn]; rfl)]
  · have hne : ((nextToken s).kind == Token.Kind.name) = false := beq_false_of_ne hn
    rw [hk, hne, Bool.false_and, Bool.false_and]

theorem Beside.continuesPath (hr : Closes r) (hr' : Closes r') (h : Beside r r' s s') :
    Expr.continuesPath s' = Expr.continuesPath s := by
  unfold Expr.continuesPath
  rw [(h.next hr hr').1]

/-- Words of the same kinds and texts in front of what is alike. -/
theorem beside_words {words words' : List Token} (hi : Inner words)
    (h : words'.map (fun t => (t.kind, t.text)) = words.map fun t => (t.kind, t.text)) :
    Beside r r' (words ++ r) (words' ++ r') := by
  induction words generalizing words' with
  | nil =>
    obtain rfl := List.map_eq_nil_iff.1 h
    exact .stop
  | cons t words ih =>
    obtain ⟨ht, hi⟩ := List.forall_mem_cons.1 hi
    obtain ⟨t', words', rfl, he, h⟩ := List.map_eq_cons_iff.1 h
    simp only [Prod.mk.injEq] at he
    exact .step ht he.1 he.2 (ih hi h)

/-- A token that stands between delimiters stands on both sides. -/
theorem Beside.uncons (hr : Closes r) (h : Beside r r' (t :: s) u) (ht : t.kind.inner = true) :
    ∃ t' s', u = t' :: s' ∧ t'.kind = t.kind ∧ t'.text = t.text ∧ Beside r r' s s' := by
  cases h with
  | stop =>
    have hk : t.kind = .blockEnd := hr
    rw [hk] at ht
    cases ht
  | step _ hk htext h => exact ⟨_, _, rfl, hk, htext, h⟩

end

namespace Reading

variable {α β : Type} {n k : Nat} {v : α} {u : β} {s rest next : List Token}

/-- A reader that goes on with what another has left. -/
theorem exists_of_returns_bind {r : Reading α n} {f : Parsed α n → Reading β k}
    (h : Returns (r >>= f) u next) : ∃ p, r = .ok p ∧ Returns (f p) u next := by
  cases r with
  | error e =>
    obtain ⟨p, hp, -⟩ := h
    cases hp
  | ok p => exact ⟨p, rfl, h⟩

theorem not_returns_error {e : Misplaced} : ¬ Returns (.error e : Reading α n) v rest := by
  intro h
  obtain ⟨p, hp, -⟩ := h
  cases hp

theorem eq_of_returns {p : Parsed α n} (h : Returns (.ok p : Reading α n) v rest) :
    v = p.value ∧ rest = p.rest := by
  obtain ⟨q, hq, rfl, rfl⟩ := h
  cases hq
  exact ⟨rfl, rfl⟩

theorem eq_of_returns_expect {kind : Token.Kind} {mistake : Token → Mistake}
    {p : Parsed Token s.length} (h : expect kind mistake s = .ok p) :
    s = p.value :: p.rest ∧ p.value.kind = kind := by
  cases s with
  | nil => cases h
  | cons t s =>
    rw [expect] at h
    split at h
    · rename_i ht
      cases h
      exact ⟨rfl, ht⟩
    · cases h

end Reading

/-! ## Expressions -/

namespace Expr

open Reading

section

variable {r r' : List Token}

/-- A reader of expressions gives on the other side what it gives on this one. -/
def Echoes (r r' : List Token) (e : Expr) (next : List Token) {n : Nat} (reading : Reading Expr n) :
    Prop :=
  ∃ e' next', Returns reading e' next' ∧ e'.unplaced = e.unplaced ∧ Beside r r' next next'

mutual

theorem echo_expression (hr : Closes r) (hr' : Closes r') {s s' next : List Token} {e : Expr}
    (hs : Beside r r' s s') (h : Returns (expression s) e next) :
    Echoes r r' e next (expression s') := by
  rw [expression] at h
  obtain ⟨left, hleft, h⟩ := exists_of_returns_bind h
  obtain ⟨v, more, hv, hu, hb⟩ := echo_comparison hr hr' hs ⟨left, hleft, rfl, rfl⟩
  have hsame : connective? (nextToken more) = connective? (nextToken left.rest) := by
    unfold connective?
    rw [hb.isName_next hr hr', hb.isName_next hr hr']
  split at h
  · rename_i hrest
    obtain ⟨rfl, rfl⟩ := eq_of_returns h
    rw [hrest] at hsame
    exact ⟨v, more, returns_expression hv hsame, hu, hb⟩
  · rename_i t rest hrest
    have hl := length_lt_of_rest left hrest
    rw [hrest] at hsame
    split at h
    · rename_i hc
      obtain ⟨rfl, rfl⟩ := eq_of_returns h
      exact ⟨v, more, returns_expression hv (hsame.trans hc), hu, hb⟩
    · rename_i word hc
      obtain ⟨right, hright, h⟩ := exists_of_returns_bind h
      obtain ⟨rfl, rfl⟩ := eq_of_returns h
      rw [hrest] at hb
      obtain ⟨t', rest', rfl, -, -, hb⟩ := hb.uncons hr (inner_of_connective hc)
      obtain ⟨w, next', hw, huw, hb⟩ := echo_expression hr hr' hb ⟨right, hright, rfl, rfl⟩
      exact ⟨_, next', returns_connect hv (hsame.trans hc) hw, by simp [unplaced, hu, huw], hb⟩
termination_by 4 * s.length + 3

theorem echo_comparison (hr : Closes r) (hr' : Closes r') {s s' next : List Token} {e : Expr}
    (hs : Beside r r' s s') (h : Returns (comparison s) e next) :
    Echoes r r' e next (comparison s') := by
  rw [comparison] at h
  obtain ⟨left, hleft, h⟩ := exists_of_returns_bind h
  obtain ⟨v, more, hv, hu, hb⟩ := echo_primary hr hr' hs ⟨left, hleft, rfl, rfl⟩
  have hkind := (hb.next hr hr').1
  have hword := hb.isName_next hr hr' "contains"
  split at h
  · rename_i hrest
    obtain ⟨rfl, rfl⟩ := eq_of_returns h
    rw [hrest] at hkind hword
    exact ⟨v, more, returns_comparison hv (by rw [hkind]; rfl) hword, hu, hb⟩
  · rename_i t rest hrest
    have hl := length_lt_of_rest left hrest
    rw [hrest] at hkind hword
    split at h
    · rename_i sign hc
      obtain ⟨right, hright, h⟩ := exists_of_returns_bind h
      obtain ⟨rfl, rfl⟩ := eq_of_returns h
      rw [hrest] at hb
      obtain ⟨t', rest', rfl, hk, -, hb⟩ := hb.uncons hr (inner_of_sign hc)
      obtain ⟨w, next', hw, huw, hb⟩ := echo_primary hr hr' hb ⟨right, hright, rfl, rfl⟩
      exact ⟨_, next', returns_compare hv (hk ▸ hc) hw, by simp [unplaced, hu, huw], hb⟩
    · rename_i hc
      have hsign : sign? (nextToken more).kind = none := by
        rw [hkind]
        exact hc
      split at h
      · rename_i hn
        obtain ⟨right, hright, h⟩ := exists_of_returns_bind h
        obtain ⟨rfl, rfl⟩ := eq_of_returns h
        rw [hrest] at hb
        obtain ⟨t', rest', rfl, -, -, hb⟩ := hb.uncons hr (Token.inner_of_isName hn)
        obtain ⟨w, next', hw, huw, hb⟩ := echo_primary hr hr' hb ⟨right, hright, rfl, rfl⟩
        exact ⟨_, next', returns_contains hv hsign (hword.trans hn) hw,
          by simp [unplaced, hu, huw], hb⟩
      · rename_i hn
        obtain ⟨rfl, rfl⟩ := eq_of_returns h
        have hn : t.isName "contains" = false := by simpa using hn
        exact ⟨v, more, returns_comparison hv hsign (hword.trans hn), hu, hb⟩
termination_by 4 * s.length + 2

theorem echo_primary (hr : Closes r) (hr' : Closes r') {s s' next : List Token} {e : Expr}
    (hs : Beside r r' s s') (h : Returns (primary s) e next) :
    Echoes r r' e next (primary s') := by
  cases s with
  | nil =>
    rw [primary] at h
    exact absurd h not_returns_error
  | cons t rest =>
    rw [primary] at h
    split at h
    case h_1 hk =>
      obtain ⟨rfl, rfl⟩ := eq_of_returns h
      obtain ⟨t', rest', rfl, hk', ht, hb⟩ := hs.uncons hr (Token.inner_of_kind hk rfl)
      exact ⟨_, rest', returns_text (hk'.trans hk), by simp [unplaced, ht, Parsed.taken], hb⟩
    case h_2 hk =>
      obtain ⟨rfl, rfl⟩ := eq_of_returns h
      obtain ⟨t', rest', rfl, hk', ht, hb⟩ := hs.uncons hr (Token.inner_of_kind hk rfl)
      exact ⟨_, rest', returns_integer (hk'.trans hk), by simp [unplaced, ht, Parsed.taken], hb⟩
    case h_3 hk =>
      obtain ⟨rfl, rfl⟩ := eq_of_returns h
      obtain ⟨t', rest', rfl, hk', ht, hb⟩ := hs.uncons hr (Token.inner_of_kind hk rfl)
      exact ⟨_, rest', returns_float (hk'.trans hk), by simp [unplaced, ht, Parsed.taken], hb⟩
    case h_4 hk =>
      obtain ⟨t', rest', rfl, hk', -, hb⟩ := hs.uncons hr (Token.inner_of_kind hk rfl)
      obtain ⟨first, hfirst, h⟩ := exists_of_returns_bind h
      obtain ⟨dots, hdots, h⟩ := exists_of_returns_bind h
      obtain ⟨last, hlast, h⟩ := exists_of_returns_bind h
      obtain ⟨close, hclose, h⟩ := exists_of_returns_bind h
      obtain ⟨rfl, rfl⟩ := eq_of_returns h
      have h₁ := first.within
      have h₂ := dots.within
      obtain ⟨hd, hdk⟩ := eq_of_returns_expect hdots
      obtain ⟨hc, hck⟩ := eq_of_returns_expect hclose
      obtain ⟨v, more, hv, hu, hb⟩ := echo_primary hr hr' hb ⟨first, hfirst, rfl, rfl⟩
      rw [hd] at hb
      obtain ⟨d', more', rfl, hdk', -, hb⟩ := hb.uncons hr (Token.inner_of_kind hdk rfl)
      obtain ⟨w, more'', hw, huw, hb⟩ := echo_primary hr hr' hb ⟨last, hlast, rfl, rfl⟩
      rw [hc] at hb
      obtain ⟨c', next', rfl, hck', -, hb⟩ := hb.uncons hr (Token.inner_of_kind hck rfl)
      exact ⟨_, next', returns_range (hk'.trans hk) hv (hdk'.trans hdk) hw (hck'.trans hck),
        by simp [unplaced, hu, huw, Parsed.giving, Parsed.map, Parsed.followedBy, Parsed.behind,
          Parsed.widen], hb⟩
    case h_5 hk =>
      obtain ⟨t', rest', rfl, hk', ht, hb⟩ := hs.uncons hr (Token.inner_of_kind hk rfl)
      have hpath := hb.continuesPath hr hr'
      split at h
      · rename_i c hl hc
        obtain ⟨rfl, rfl⟩ := eq_of_returns h
        exact ⟨_, rest', returns_literal (hk'.trans hk) (ht ▸ hl) (hpath.trans hc),
          by simp [unplaced, Parsed.taken], hb⟩
      · rename_i hn
        have hbase : (Expr.name t'.position t'.text).unplaced =
            (Expr.name t.position t.text).unplaced := by simp [unplaced, ht]
        obtain ⟨v, next', hv, hu, hb'⟩ := echo_path hr hr' hbase hb h
        refine ⟨v, next', returns_named (hk'.trans hk) ?_ hv, hu, hb'⟩
        by_cases hl : literal? t'.text = none
        · exact .inl hl
        · obtain ⟨c, hc⟩ := Option.ne_none_iff_exists'.1 hl
          refine .inr fun hstop => hn c (ht ▸ hc) ?_
          exact hpath.symm.trans hstop
    · exact absurd h not_returns_error
termination_by 4 * s.length + 1
decreasing_by all_goals (subst_vars; simp only [List.length_cons]; omega)

theorem echo_path (hr : Closes r) (hr' : Closes r') {s s' next : List Token} {base base' e : Expr}
    (hbase : base'.unplaced = base.unplaced) (hs : Beside r r' s s')
    (h : Returns (path base s) e next) : Echoes r r' e next (path base' s') := by
  cases s with
  | nil =>
    rw [path.eq_def] at h
    obtain ⟨rfl, rfl⟩ := eq_of_returns h
    exact ⟨_, s', returns_path base' (hs.continuesPath hr hr'), hbase, hs⟩
  | cons t rest =>
    have hstop := hs.continuesPath hr hr'
    rw [path.eq_def] at h
    dsimp only at h
    split at h
    case h_1 hk =>
      obtain ⟨d', s', rfl, hk', -, hb⟩ := hs.uncons hr (Token.inner_of_kind hk rfl)
      cases rest with
      | nil => exact absurd h not_returns_error
      | cons u rest =>
        dsimp only at h
        split at h
        case h_1 hu =>
          obtain ⟨u', s', rfl, hu', ht, hb⟩ := hb.uncons hr (Token.inner_of_kind hu rfl)
          obtain ⟨p, hp, h⟩ := exists_of_returns_bind h
          obtain ⟨rfl, rfl⟩ := eq_of_returns h
          have hbase : (Expr.property d'.position base' u'.text).unplaced =
              (Expr.property t.position base u.text).unplaced := by simp [unplaced, hbase, ht]
          obtain ⟨v, next', hv, huv, hb⟩ := echo_path hr hr' hbase hb ⟨p, hp, rfl, rfl⟩
          exact ⟨v, next', returns_property (hk'.trans hk) (hu'.trans hu) hv, huv, hb⟩
        case h_2 hu =>
          obtain ⟨u', s', rfl, hu', ht, hb⟩ := hb.uncons hr (Token.inner_of_kind hu rfl)
          obtain ⟨p, hp, h⟩ := exists_of_returns_bind h
          obtain ⟨rfl, rfl⟩ := eq_of_returns h
          have hbase : (Expr.index d'.position base'
                (.const u'.position (.number (integerValue u'.text)))).unplaced =
              (Expr.index t.position base
                (.const u.position (.number (integerValue u.text)))).unplaced := by
            simp [unplaced, hbase, ht]
          obtain ⟨v, next', hv, huv, hb⟩ := echo_path hr hr' hbase hb ⟨p, hp, rfl, rfl⟩
          exact ⟨v, next', returns_position (hk'.trans hk) (hu'.trans hu) hv, huv, hb⟩
        · exact absurd h not_returns_error
    case h_2 hk =>
      obtain ⟨t', s', rfl, hk', -, hb⟩ := hs.uncons hr (Token.inner_of_kind hk rfl)
      obtain ⟨key, hkey, h⟩ := exists_of_returns_bind h
      obtain ⟨close, hclose, h⟩ := exists_of_returns_bind h
      obtain ⟨p, hp, h⟩ := exists_of_returns_bind h
      obtain ⟨rfl, rfl⟩ := eq_of_returns h
      have h₁ := key.within
      have h₂ := close.within
      obtain ⟨hc, hck⟩ := eq_of_returns_expect hclose
      obtain ⟨v, more, hv, hu, hb⟩ := echo_expression hr hr' hb ⟨key, hkey, rfl, rfl⟩
      rw [hc] at hb
      obtain ⟨c', more', rfl, hck', -, hb⟩ := hb.uncons hr (Token.inner_of_kind hck rfl)
      have hbase : (Expr.index t'.position base' v).unplaced =
          (Expr.index t.position base key.value).unplaced := by simp [unplaced, hbase, hu]
      obtain ⟨w, next', hw, huw, hb⟩ := echo_path hr hr' hbase hb ⟨p, hp, rfl, rfl⟩
      exact ⟨w, next', returns_index (hk'.trans hk) hv (hck'.trans hck) hw, huw, hb⟩
    case h_3 hd hl =>
      obtain ⟨rfl, rfl⟩ := eq_of_returns h
      refine ⟨_, s', returns_path base' (hstop.trans ?_), hbase, hs⟩
      simpa [continuesPath, nextToken] using ⟨hd, hl⟩
termination_by 4 * s.length
decreasing_by all_goals (subst_vars; simp only [List.length_cons] at *; omega)

end

end

end Expr

/-! ## The arguments of a tag -/

namespace Reading

section

variable {tag : String} {close t : Token} {known values : List Expr} {e : Expr}
  {s rest more next after : List Token} {last : Token}

theorem returns_noArgument (hc : close.kind = .blockEnd) :
    Returns (hostArguments tag known (close :: after)) (known, close) after := by
  rw [hostArguments, if_pos hc]
  exact returns_ok _

theorem returns_firstArgument (ht : t.kind ≠ .blockEnd)
    (he : Returns (Expr.expression (t :: rest)) e more)
    (h : Returns (hostArguments tag [e] more) (values, last) next) :
    Returns (hostArguments tag [] (t :: rest)) (values, last) next := by
  rw [hostArguments, if_neg ht, if_pos List.isEmpty_nil]
  exact returns_bind he fun _ => returns_bind h fun _ => returns_ok _

theorem returns_furtherArgument (ht : t.kind = .comma) (hk : known.isEmpty = false)
    (he : Returns (Expr.expression rest) e more)
    (h : Returns (hostArguments tag (known ++ [e]) more) (values, last) next) :
    Returns (hostArguments tag known (t :: rest)) (values, last) next := by
  rw [hostArguments, if_neg (by rw [ht]; decide), if_neg (by simp [hk]), if_pos ht]
  exact returns_bind he fun _ => returns_bind h fun _ => returns_ok _

/-- The arguments of a tag are read again from the same words, up to the closing delimiter. -/
theorem echo_hostArguments {close' : Token} {after' : List Token} (hc : close.kind = .blockEnd)
    (hc' : close'.kind = .blockEnd) {known known' : List Expr}
    (hknown : known'.map Expr.unplaced = known.map Expr.unplaced) {s s' : List Token}
    (hs : Beside (close :: after) (close' :: after') s s') {values : List Expr} {last : Token}
    {rest : List Token} (h : Returns (hostArguments tag known s) (values, last) rest) :
    (last = close ∧ rest = after) ∧
      ∃ values', Returns (hostArguments tag known' s') (values', close') after' ∧
        values'.map Expr.unplaced = values.map Expr.unplaced := by
  have hr : Closes (close :: after) := hc
  have hr' : Closes (close' :: after') := hc'
  have hempty : known'.isEmpty = known.isEmpty := by
    have := congrArg List.length hknown
    cases known <;> cases known' <;> simp at this ⊢
  rw [hostArguments.eq_def] at h
  cases hs with
  | stop =>
    dsimp only at h
    rw [if_pos hc] at h
    obtain ⟨he, rfl⟩ := eq_of_returns h
    cases he
    exact ⟨⟨rfl, rfl⟩, known', returns_noArgument hc', hknown⟩
  | @step t t' u u' ht hk htext hb =>
    dsimp only at h
    have hne : t.kind ≠ .blockEnd := Token.ne_of_inner ht rfl
    rw [if_neg hne] at h
    split at h
    · rename_i hnil
      obtain ⟨value, hvalue, h⟩ := exists_of_returns_bind h
      obtain ⟨p, hp, h⟩ := exists_of_returns_bind h
      have hv := value.within
      obtain ⟨e', more', he, hu, hb⟩ := Expr.echo_expression hr hr' (.step ht hk htext hb)
        ⟨value, hvalue, rfl, rfl⟩
      obtain ⟨hpv, rfl⟩ := eq_of_returns h
      have hfirst : [e'].map Expr.unplaced = [value.value].map Expr.unplaced := by simp [hu]
      obtain ⟨hlast, values', hvalues, huv⟩ :=
        echo_hostArguments hc hc' hfirst hb ⟨p, hp, hpv.symm, rfl⟩
      obtain rfl : known' = [] := List.isEmpty_iff.1 (hempty.trans hnil)
      exact ⟨hlast, values', returns_firstArgument (by rw [hk]; exact hne) he hvalues, huv⟩
    · rename_i hfull
      split at h
      · rename_i hcomma
        obtain ⟨value, hvalue, h⟩ := exists_of_returns_bind h
        obtain ⟨p, hp, h⟩ := exists_of_returns_bind h
        have hv := value.within
        obtain ⟨e', more', he, hu, hb⟩ := Expr.echo_expression hr hr' hb ⟨value, hvalue, rfl, rfl⟩
        obtain ⟨hpv, rfl⟩ := eq_of_returns h
        have hmore : (known' ++ [e']).map Expr.unplaced =
            (known ++ [value.value]).map Expr.unplaced := by simp [hu, hknown]
        obtain ⟨hlast, values', hvalues, huv⟩ :=
          echo_hostArguments hc hc' hmore hb ⟨p, hp, hpv.symm, rfl⟩
        have hfull : known'.isEmpty = false := by simpa [hempty] using hfull
        exact ⟨hlast, values', returns_furtherArgument (hk.trans hcomma) hfull he hvalues, huv⟩
      · exact absurd h not_returns_error
termination_by s.length
decreasing_by all_goals (subst_vars; simp only [List.length_cons] at *; omega)

/-- The arguments of a tag are words up to the closing delimiter that is read behind them. -/
theorem words_of_hostArguments (h : Returns (hostArguments tag known s) (values, last) rest) :
    ∃ words, s = words ++ last :: rest ∧ Inner words ∧ last.kind = .blockEnd := by
  obtain ⟨p, hp, hv, hrest⟩ := h
  have htakes := takes_hostArguments tag known s
  rw [hp] at htakes
  obtain ⟨words, closing, hs, hi, hl⟩ := htakes
  obtain ⟨close, rfl, hc⟩ := List.map_eq_singleton_iff.1 hl
  rw [hrest] at hs
  have hsame : Beside (close :: rest) (close :: rest) s s := by
    rw [hs]
    exact beside_words hi rfl
  obtain ⟨⟨rfl, -⟩, -⟩ := echo_hostArguments hc hc rfl hsame ⟨p, hp, hv, hrest⟩
  exact ⟨words, hs, hi, hc⟩

end

end Reading

end Liquid
