import Liquid.Proofs.Reading.Within

/-!
# What a reader takes

Some kinds of token stand only between the delimiters of an output or a tag: names, literals and
signs.  A reader of expressions takes tokens of these kinds alone, and a reader of a whole region
takes the closing delimiter behind them as well.  Either fails at the first token that it does not
take.  So no reader goes beyond its region, neither by what it takes nor by where it fails.

* `Takes`: what a reader takes, or where it fails.
* `Takes.within`: such a reader stays among its tokens.
* `Takes.region`: behind a region the tokens go on as they stand; a failure is at a token of it.
* `takes_expression`, `takes_filters`: the readers of expressions and of filters.
-/
namespace Liquid

/-- Whether a token of this kind stands between the delimiters of an output or a tag. -/
def Token.Kind.inner : Token.Kind → Bool
  | .data | .raw | .variableBegin | .variableEnd | .blockBegin | .blockEnd | .eof => false
  | _ => true

/-- Tokens that stand between delimiters. -/
def Inner (s : List Token) : Prop := ∀ t ∈ s, t.kind.inner = true

/-- A reader takes tokens that stand between delimiters, and behind them one of the kind `close` if
there is one; or it fails at the token behind those that it takes. -/
def Takes {α : Type} {n : Nat} (close : Option Token.Kind) (s : List Token) : Reading α n → Prop
  | .ok p => ∃ inner last, s = inner ++ (last ++ p.rest) ∧ Inner inner ∧
      last.map Token.kind = close.toList
  | .error e => ∃ inner rest, s = inner ++ rest ∧ Inner inner ∧
      e.position = (nextToken rest).position

namespace Token

variable {t : Token}

theorem inner_of_kind {kind : Token.Kind} (h : t.kind = kind) (hk : kind.inner = true) :
    t.kind.inner = true := h ▸ hk

theorem inner_of_isName {name : String} (h : t.isName name = true) : t.kind.inner = true := by
  have hk : t.kind = .name := by
    simp only [isName, Bool.and_eq_true, beq_iff_eq] at h
    exact h.1
  exact inner_of_kind hk rfl

theorem ne_of_inner {kind : Token.Kind} (h : t.kind.inner = true) (hk : kind.inner = false) :
    t.kind ≠ kind := by
  intro he
  rw [he, hk] at h
  cases h

end Token

section

variable {t close : Token} {s inner rest : List Token}

theorem inner_nil : Inner [] := fun _ h => absurd h List.not_mem_nil

theorem inner_cons (ht : t.kind.inner = true) (hs : Inner s) : Inner (t :: s) :=
  List.forall_mem_cons.2 ⟨ht, hs⟩

theorem inner_append (hs : Inner s) (hr : Inner rest) : Inner (s ++ rest) :=
  List.forall_mem_append.2 ⟨hs, hr⟩

/-- Two ways to find the first token that stands not between delimiters find the same one. -/
theorem Inner.unique {inner' rest' : List Token} {close' : Token} (hi : Inner inner)
    (hi' : Inner inner') (hc : close.kind.inner = false) (hc' : close'.kind.inner = false)
    (h : inner ++ close :: rest = inner' ++ close' :: rest') :
    inner = inner' ∧ close = close' ∧ rest = rest' := by
  induction inner generalizing inner' with
  | nil =>
    cases inner' with
    | nil =>
      injection h with h₁ h₂
      exact ⟨rfl, h₁, h₂⟩
    | cons u inner' =>
      injection h with h₁ h₂
      rw [h₁, hi' u (.head inner')] at hc
      cases hc
  | cons t inner ih =>
    cases inner' with
    | nil =>
      injection h with h₁ h₂
      rw [← h₁, hi t (.head inner)] at hc'
      cases hc'
    | cons u inner' =>
      injection h with h₁ h₂
      have hi := (List.forall_mem_cons.1 hi).2
      have hi' := (List.forall_mem_cons.1 hi').2
      obtain ⟨he, hr⟩ := ih hi hi' h₂
      exact ⟨by rw [h₁, he], hr⟩

/-- The token behind some that stand between delimiters is one of them, or the first that stands
not between delimiters. -/
theorem Inner.nextToken_mem {inner' rest' : List Token} (hi' : Inner inner')
    (hc : close.kind.inner = false) (h : inner ++ close :: rest = inner' ++ rest') :
    nextToken rest' ∈ inner ++ [close] := by
  induction inner generalizing inner' with
  | nil =>
    cases inner' with
    | nil =>
      obtain rfl : close :: rest = rest' := h
      exact .head []
    | cons u inner' =>
      injection h with h₁ _
      rw [h₁, hi' u (.head inner')] at hc
      cases hc
  | cons t inner ih =>
    cases inner' with
    | nil =>
      obtain rfl : t :: (inner ++ close :: rest) = rest' := h
      exact .head _
    | cons u inner' =>
      injection h with _ h₂
      exact .tail t (ih (List.forall_mem_cons.1 hi').2 h₂)

theorem Ending.of_inner (h : Ending (inner ++ s)) (hi : Inner inner) : Ending s := by
  induction inner with
  | nil => exact h
  | cons t inner ih =>
    have hi := List.forall_mem_cons.1 hi
    exact ih (h.tail (Token.ne_of_inner hi.1 rfl)) hi.2

end

/-! ## Readers one behind another -/

section

variable {α β : Type} {n k : Nat} {close : Option Token.Kind} {t : Token} {s : List Token}

/-- A reader goes on with what another has left. -/
theorem takes_bind {r : Reading α n} {f : Parsed α n → Reading β k} (h : Takes none s r)
    (hf : ∀ p, Takes close p.rest (f p)) : Takes close s (r >>= f) := by
  cases r with
  | error e => exact h
  | ok p =>
    obtain ⟨inner, last, rfl, hi, hl⟩ := h
    obtain rfl := List.map_eq_nil_iff.1 hl
    have hp := hf p
    change Takes close (inner ++ p.rest) (f p)
    cases hr : f p with
    | error e =>
      rw [hr] at hp
      obtain ⟨more, rest, hs, hm, he⟩ := hp
      exact ⟨inner ++ more, rest, by rw [hs, List.append_assoc], inner_append hi hm, he⟩
    | ok q =>
      rw [hr] at hp
      obtain ⟨more, last, hs, hm, hl⟩ := hp
      exact ⟨inner ++ more, last, by rw [hs, List.append_assoc], inner_append hi hm, hl⟩

/-- The same tokens are taken for another result. -/
theorem takes_return {r : Reading α n} {f : Parsed α n → Parsed β k} (h : Takes close s r)
    (hf : ∀ p, (f p).rest = p.rest) : Takes close s (r >>= fun p => pure (f p)) := by
  cases r with
  | error e => exact h
  | ok p =>
    obtain ⟨inner, last, hs, hi, hl⟩ := h
    exact ⟨inner, last, by rw [hf]; exact hs, hi, hl⟩

theorem takes_behind {r : Reading α n} (ht : t.kind.inner = true) (h : Takes close s r) :
    Takes close (t :: s) r := by
  cases r with
  | error e =>
    obtain ⟨inner, rest, rfl, hi, he⟩ := h
    exact ⟨t :: inner, rest, rfl, inner_cons ht hi, he⟩
  | ok p =>
    obtain ⟨inner, last, hs, hi, hl⟩ := h
    exact ⟨t :: inner, last, by rw [hs]; rfl, inner_cons ht hi, hl⟩

/-- A reader goes on behind the first of the tokens that another has left. -/
theorem takes_next {u : List Token} {r : Reading α n} (hu : u = t :: s)
    (ht : t.kind.inner = true) (h : Takes close s r) : Takes close u r :=
  hu ▸ takes_behind ht h

theorem takes_none {p : Parsed α n} (h : p.rest = s) : Takes none s (.ok p : Reading α n) :=
  ⟨[], [], h.symm, inner_nil, rfl⟩

theorem takes_one {p : Parsed α n} (ht : t.kind.inner = true) (h : p.rest = s) :
    Takes none (t :: s) (.ok p : Reading α n) :=
  takes_behind ht (takes_none h)

theorem takes_last {kind : Token.Kind} {p : Parsed α n} (ht : t.kind = kind) (h : p.rest = s) :
    Takes (some kind) (t :: s) (.ok p : Reading α n) :=
  ⟨[], [t], by rw [h]; rfl, inner_nil, by rw [← ht]; rfl⟩

theorem takes_fail (s : List Token) (m : Mistake) :
    Takes close s (throw (m.at (nextToken s)) : Reading α n) :=
  ⟨[], s, rfl, inner_nil, rfl⟩

/-- A reader behind a check that fails at the next token, if it fails. -/
theorem takes_check {c : Except Misplaced Unit} {r : Reading α n}
    (hc : ∀ e, c = .error e → e.position = (nextToken s).position) (h : Takes close s r) :
    Takes close s (c >>= fun _ => r) := by
  cases c with
  | ok _ => exact h
  | error e => exact ⟨[], s, rfl, inner_nil, hc e rfl⟩

theorem takes_expect {kind : Token.Kind} (hk : kind.inner = true) (mistake : Token → Mistake)
    (s : List Token) : Takes none s (expect kind mistake s) := by
  cases s with
  | nil => exact takes_fail [] _
  | cons t s =>
    rw [expect]
    split
    · rename_i ht
      exact takes_one (Token.inner_of_kind ht hk) rfl
    · exact takes_fail (t :: s) _

theorem takes_expectClose (kind : Token.Kind) (mistake : Token → Mistake) (s : List Token) :
    Takes (some kind) s (expect kind mistake s) := by
  cases s with
  | nil => exact takes_fail [] _
  | cons t s =>
    rw [expect]
    split
    · rename_i ht
      exact takes_last ht rfl
    · exact takes_fail (t :: s) _

theorem takes_expectKind (kind : Token.Kind) (s : List Token) :
    Takes (some kind) s (expectKind kind s) := takes_expectClose kind _ s

theorem takes_expectName (what : String) (s : List Token) : Takes none s (expectName what s) :=
  takes_return (takes_expect rfl _ s) fun _ => rfl

theorem takes_expectWord (word : String) (mistake : Mistake) (s : List Token) :
    Takes none s (expectWord word mistake s) := by
  cases s with
  | nil => exact takes_fail [] _
  | cons t s =>
    rw [expectWord]
    split
    · rename_i ht
      exact takes_one (Token.inner_of_isName ht) rfl
    · exact takes_fail (t :: s) _

theorem takes_toEnd (p : Parsed α n) : Takes (some .blockEnd) p.rest p.toEnd :=
  takes_return (takes_expectKind .blockEnd p.rest) fun _ => rfl

/-! ## What follows -/

/-- A reader that takes no mark of the end stays among its tokens. -/
theorem Takes.within {r : Reading α n} (h : Takes close s r) (hc : close ≠ some .eof)
    (hs : Ending s) : Within s r := by
  cases r with
  | error e =>
    obtain ⟨inner, rest, rfl, hi, he⟩ := h
    have hr : Ending rest := hs.of_inner hi
    exact ⟨nextToken rest, List.mem_append_right inner hr.nextToken_mem, he⟩
  | ok p =>
    obtain ⟨inner, last, rfl, hi, hl⟩ := h
    refine ⟨⟨inner ++ last, List.append_assoc ..⟩, ?_⟩
    have hr : Ending (last ++ p.rest) := hs.of_inner hi
    cases close with
    | none =>
      obtain rfl := List.map_eq_nil_iff.1 hl
      exact hr
    | some kind =>
      obtain ⟨u, rfl, hu⟩ := List.map_eq_singleton_iff.1 hl
      exact hr.tail fun he => hc (congrArg some (hu.symm.trans he))

/-- A reader of a region that begins at `s` takes the closing delimiter that stands there, or it
fails at a token of the region. -/
theorem Takes.region {kind : Token.Kind} {r : Reading α n} {inner rest : List Token} {last : Token}
    (h : Takes (some kind) s r) (hk : kind.inner = false) (hs : s = inner ++ last :: rest)
    (hi : Inner inner) (hl : last.kind.inner = false) :
    (∀ p, r = .ok p → last.kind = kind ∧ p.rest = rest) ∧
      ∀ e, r = .error e → ∃ u ∈ inner ++ [last], e.position = u.position := by
  subst hs
  constructor
  · rintro p rfl
    obtain ⟨inner', last', hs, hi', hl'⟩ := h
    obtain ⟨u, rfl, hu⟩ := List.map_eq_singleton_iff.1 hl'
    obtain ⟨-, rfl, hr⟩ := hi.unique hi' hl (hu ▸ hk) hs
    exact ⟨hu, hr.symm⟩
  · rintro e rfl
    obtain ⟨inner', rest', hs, hi', he⟩ := h
    exact ⟨nextToken rest', hi'.nextToken_mem hl hs, he⟩

end

/-! ## Expressions -/

namespace Expr

theorem inner_of_connective {t : Token} {word : Connective} (h : connective? t = some word) :
    t.kind.inner = true := by
  unfold connective? at h
  split at h
  · rename_i hn
    exact Token.inner_of_isName hn
  · split at h
    · rename_i hn
      exact Token.inner_of_isName hn
    · cases h

theorem inner_of_sign {kind : Token.Kind} {sign : Sign} (h : sign? kind = some sign) :
    kind.inner = true := by
  cases kind <;> first | rfl | cases h

/-- What is left behind an operator, behind what was read before it. -/
theorem length_lt_of_rest {α : Type} {s rest : List Token} {t : Token} (p : Parsed α s.length)
    (h : p.rest = t :: rest) : rest.length < s.length := by
  have := p.within
  rw [h, List.length_cons] at this
  omega

mutual

theorem takes_expression (s : List Token) : Takes none s (expression s) := by
  rw [expression]
  refine takes_bind (takes_comparison s) fun left => ?_
  split
  · exact takes_none rfl
  · rename_i t rest hr
    split
    · exact takes_none rfl
    · rename_i hc
      have hl := length_lt_of_rest left hr
      refine takes_next hr (inner_of_connective hc) ?_
      exact takes_return (takes_expression rest) fun _ => rfl
termination_by 4 * s.length + 3

theorem takes_comparison (s : List Token) : Takes none s (comparison s) := by
  rw [comparison]
  refine takes_bind (takes_primary s) fun left => ?_
  split
  · exact takes_none rfl
  · rename_i t rest hr
    have hl := length_lt_of_rest left hr
    split
    · rename_i hc
      refine takes_next hr (inner_of_sign hc) ?_
      exact takes_return (takes_primary rest) fun _ => rfl
    · split
      · rename_i hc
        refine takes_next hr (Token.inner_of_isName hc) ?_
        exact takes_return (takes_primary rest) fun _ => rfl
      · exact takes_none rfl
termination_by 4 * s.length + 2

theorem takes_primary (s : List Token) : Takes none s (primary s) := by
  cases s with
  | nil =>
    rw [primary]
    exact takes_fail [] _
  | cons t rest =>
    rw [primary]
    split
    case h_1 hk | h_2 hk | h_3 hk =>
      exact takes_one (Token.inner_of_kind hk rfl) rfl
    case h_4 hk =>
      refine takes_behind (Token.inner_of_kind hk rfl) ?_
      refine takes_bind (takes_primary rest) fun first => ?_
      refine takes_bind (takes_expect rfl _ first.rest) fun dots => ?_
      have h₁ := first.within
      have h₂ := dots.within
      refine takes_bind (takes_primary dots.rest) fun last => ?_
      exact takes_return (takes_expect rfl _ last.rest) fun _ => rfl
    case h_5 hk =>
      have ht := Token.inner_of_kind hk rfl
      split
      · exact takes_one ht rfl
      · exact takes_behind ht (takes_path _ rest)
    · exact takes_fail (t :: rest) _
termination_by 4 * s.length + 1
decreasing_by all_goals (subst_vars; simp only [List.length_cons]; omega)

theorem takes_path (base : Expr) (s : List Token) : Takes none s (path base s) := by
  cases s with
  | nil =>
    rw [path.eq_def]
    exact takes_none rfl
  | cons t rest =>
    rw [path.eq_def]
    dsimp only
    split
    case h_1 hk =>
      refine takes_behind (Token.inner_of_kind hk rfl) ?_
      cases rest with
      | nil => exact takes_fail [] _
      | cons u rest =>
        dsimp only
        split
        case h_1 hu =>
          refine takes_behind (Token.inner_of_kind hu rfl) ?_
          exact takes_return (takes_path _ rest) fun _ => rfl
        case h_2 hu =>
          refine takes_behind (Token.inner_of_kind hu rfl) ?_
          exact takes_return (takes_path _ rest) fun _ => rfl
        · exact takes_fail (u :: rest) _
    case h_2 hk =>
      refine takes_behind (Token.inner_of_kind hk rfl) ?_
      refine takes_bind (takes_expression rest) fun key => ?_
      refine takes_bind (takes_expect rfl _ key.rest) fun close => ?_
      have h₁ := key.within
      have h₂ := close.within
      exact takes_return (takes_path _ close.rest) fun _ => rfl
    · exact takes_none rfl
termination_by 4 * s.length
decreasing_by all_goals (subst_vars; simp only [List.length_cons]; omega)

end

end Expr

/-! ## Filters -/

namespace FilterCall

theorem takes_argument (filter : String) (s : List Token) : Takes none s (argument filter s) := by
  unfold argument
  split
  · exact takes_fail s _
  · exact takes_fail s _
  · exact takes_fail s _
  · exact takes_fail s _
  · exact Expr.takes_primary s

theorem takes_positionalArgument (filter : String) (byPosition : List Expr)
    (byName : List (String × Expr)) (s : List Token) :
    Takes none s (positionalArgument filter byPosition byName s) := by
  unfold positionalArgument
  split
  · exact takes_return (takes_argument filter s) fun _ => rfl
  · exact takes_fail s _

theorem takes_nextArgument (filter : String) (byPosition : List Expr)
    (byName : List (String × Expr)) (s : List Token) :
    Takes none s (nextArgument filter byPosition byName s) := by
  unfold nextArgument
  split
  · rename_i t u rest
    split
    · rename_i hk
      refine takes_behind (Token.inner_of_kind hk.1 rfl) ?_
      refine takes_behind (Token.inner_of_kind hk.2 rfl) ?_
      exact takes_return (takes_argument filter rest) fun _ => rfl
    · exact takes_positionalArgument filter byPosition byName _
  · exact takes_positionalArgument filter byPosition byName _

theorem takes_argumentsFrom (filter : String) (byPosition : List Expr)
    (byName : List (String × Expr)) (s : List Token) :
    Takes none s (argumentsFrom filter byPosition byName s) := by
  rw [argumentsFrom]
  refine takes_bind (takes_nextArgument filter byPosition byName s) fun next => ?_
  split
  · rename_i t rest hr
    have hl := Expr.length_lt_of_rest next hr
    split
    · rename_i hk
      refine takes_next hr (Token.inner_of_kind hk rfl) ?_
      exact takes_return (takes_argumentsFrom filter _ _ rest) fun _ => rfl
    · exact takes_none rfl
  · exact takes_none rfl
termination_by s.length

theorem takes_arguments (filter : String) (s : List Token) :
    Takes none s (arguments? filter s) := by
  unfold arguments?
  split
  · rename_i t rest
    split
    · rename_i hk
      refine takes_behind (Token.inner_of_kind hk rfl) ?_
      exact takes_return (takes_argumentsFrom filter [] [] rest) fun _ => rfl
    · exact takes_none rfl
  · exact takes_none rfl

theorem takes_filters (ending : Token.Kind) (s : List Token) :
    Takes none s (filters ending s) := by
  rw [filters.eq_def]
  split
  · exact takes_none rfl
  · rename_i t rest
    split
    · rename_i hk
      refine takes_behind (Token.inner_of_kind hk rfl) ?_
      split
      · exact takes_fail [] _
      · rename_i name rest
        by_cases hn : name.kind = .name
        · rw [if_neg (not_not_intro hn)]
          refine takes_behind (Token.inner_of_kind hn rfl) ?_
          refine takes_bind (takes_arguments name.text rest) fun args => ?_
          have ha := args.within
          dsimp only
          split
          · exact takes_fail args.rest _
          · exact takes_return (takes_filters ending args.rest) fun _ => rfl
        · rw [if_pos hn]
          exact takes_fail (name :: rest) _
    · exact takes_none rfl
termination_by s.length
decreasing_by all_goals (subst_vars; simp only [List.length_cons]; omega)

end FilterCall

end Liquid
