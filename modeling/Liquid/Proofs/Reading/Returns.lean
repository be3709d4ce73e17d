import Liquid.Expr.Parser

/-!
# What the readers of expressions return

Each reader is given a rule for each form it reads: what it returns for the parts, and what it
returns then for the whole.  What follows decides only where a form ends.

* `Reading.Returns`: a reader gives a value and leaves some tokens.
* `StopsPath`, `StopsComparison`, `StopsExpression`: tokens that do not go on with a form.
-/
namespace Liquid

/-- A reader gives a value and leaves some tokens. -/
def Reading.Returns {α : Type} {n : Nat} (r : Reading α n) (value : α) (rest : List Token) : Prop :=
  ∃ p, r = .ok p ∧ p.value = value ∧ p.rest = rest

/-- Tokens that do not go on with a path. -/
def StopsPath (s : List Token) : Prop := Expr.continuesPath s = false

/-- Tokens that do not go on with a comparison. -/
def StopsComparison (s : List Token) : Prop :=
  StopsPath s ∧ Expr.sign? (nextToken s).kind = none ∧ (nextToken s).isName "contains" = false

/-- Tokens that do not go on with an expression. -/
def StopsExpression (s : List Token) : Prop :=
  StopsComparison s ∧ Expr.connective? (nextToken s) = none

namespace Reading

variable {α β : Type} {n k : Nat} {v : α} {u : β} {s rest next : List Token} {t : Token}

theorem returns_ok (hw : rest.length < n) : Returns (.ok ⟨v, rest, hw⟩ : Reading α n) v rest :=
  ⟨_, rfl, rfl, rfl⟩

/-- What a reader returns can be computed without the proof that it leaves less than there was. -/
theorem returns_of_map {r : Reading α n} (h : r.map (fun p => (p.value, p.rest)) = .ok (v, rest)) :
    Returns r v rest := by
  cases r with
  | error e => cases h
  | ok p => cases h; exact ⟨p, rfl, rfl, rfl⟩

theorem returns_bind {r : Reading α n} {f : Parsed α n → Reading β k} (h : Returns r v rest)
    (hf : ∀ hw, Returns (f ⟨v, rest, hw⟩) u next) : Returns (r >>= f) u next := by
  obtain ⟨⟨_, _, hw⟩, rfl, rfl, rfl⟩ := h
  exact hf hw

theorem returns_expect {kind : Token.Kind} (h : t.kind = kind) (mistake : Token → Mistake) :
    Returns (expect kind mistake (t :: rest)) t rest := by
  rw [expect, if_pos h]
  exact returns_ok _

end Reading

namespace Expr

open Reading

variable {v u : Expr} {s rest next : List Token} {t d : Token}

theorem returns_expression (h : Returns (comparison s) v next)
    (hn : connective? (nextToken next) = none) : Returns (expression s) v next := by
  rw [expression]
  refine returns_bind h fun hw => ?_
  cases next with
  | nil => exact returns_ok hw
  | cons t rest =>
    dsimp only
    rw [show connective? t = none from hn]
    exact returns_ok hw

theorem returns_connect (h : Returns (comparison s) v (t :: rest)) {word : Connective}
    (hc : connective? t = some word) (hu : Returns (expression rest) u next) :
    Returns (expression s) (.connect t.position v word u) next := by
  rw [expression]
  refine returns_bind h fun _ => ?_
  dsimp only
  rw [hc]
  exact returns_bind hu fun _ => returns_ok _

theorem returns_comparison (h : Returns (primary s) v next) (hs : sign? (nextToken next).kind = none)
    (hc : (nextToken next).isName "contains" = false) : Returns (comparison s) v next := by
  rw [comparison]
  refine returns_bind h fun hw => ?_
  cases next with
  | nil => exact returns_ok hw
  | cons t rest =>
    dsimp only
    rw [show sign? t.kind = none from hs, show t.isName "contains" = false from hc]
    exact returns_ok hw

theorem returns_compare (h : Returns (primary s) v (t :: rest)) {sign : Sign}
    (hs : sign? t.kind = some sign) (hu : Returns (primary rest) u next) :
    Returns (comparison s) (.compare t.position v sign u) next := by
  rw [comparison]
  refine returns_bind h fun _ => ?_
  dsimp only
  rw [hs]
  exact returns_bind hu fun _ => returns_ok _

theorem returns_contains (h : Returns (primary s) v (t :: rest)) (hs : sign? t.kind = none)
    (hc : t.isName "contains" = true) (hu : Returns (primary rest) u next) :
    Returns (comparison s) (.contains t.position v u) next := by
  rw [comparison]
  refine returns_bind h fun _ => ?_
  dsimp only
  rw [hs, hc]
  exact returns_bind hu fun _ => returns_ok _

theorem returns_text (h : t.kind = .string) :
    Returns (primary (t :: rest)) (.const t.position (.text t.text)) rest := by
  rw [primary]
  simp only [h]
  exact returns_ok _

theorem returns_integer (h : t.kind = .integer) :
    Returns (primary (t :: rest)) (.const t.position (.number (integerValue t.text))) rest := by
  rw [primary]
  simp only [h]
  exact returns_ok _

theorem returns_float (h : t.kind = .float) :
    Returns (primary (t :: rest)) (.const t.position (.number (floatValue t.text))) rest := by
  rw [primary]
  simp only [h]
  exact returns_ok _

theorem returns_literal (h : t.kind = .name) {c : Constant} (hc : literal? t.text = some c)
    (hs : StopsPath rest) : Returns (primary (t :: rest)) (.const t.position c) rest := by
  rw [primary]
  simp only [h, hc, show continuesPath rest = false from hs]
  exact returns_ok _

theorem returns_named (h : t.kind = .name) (hc : literal? t.text = none ∨ ¬ StopsPath rest)
    (hp : Returns (path (.name t.position t.text) rest) v next) :
    Returns (primary (t :: rest)) v next := by
  rw [primary]
  simp only [h]
  split
  · rename_i hl hs
    rcases hc with hc | hc
    · rw [hc] at hl
      cases hl
    · exact absurd hs hc
  · exact hp

theorem returns_range (h : t.kind = .leftParen) {first last : Expr} {dots close : Token}
    {after behind : List Token} (hf : Returns (primary rest) first (dots :: after))
    (hd : dots.kind = .range) (hl : Returns (primary after) last (close :: behind))
    (hc : close.kind = .rightParen) :
    Returns (primary (t :: rest)) (.range t.position first last) behind := by
  rw [primary]
  simp only [h]
  refine returns_bind hf fun _ => ?_
  refine returns_bind (returns_expect hd _) fun _ => ?_
  refine returns_bind hl fun _ => ?_
  exact returns_bind (returns_expect hc _) fun _ => returns_ok _

theorem returns_path (base : Expr) (hs : StopsPath s) : Returns (path base s) base s := by
  cases s with
  | nil =>
    rw [path]
    exact returns_ok _
  | cons t rest =>
    unfold StopsPath continuesPath nextToken at hs
    simp only [List.head?_cons, Option.getD_some, Bool.or_eq_false_iff, beq_eq_false_iff_ne] at hs
    rw [path.eq_def]
    dsimp only
    split
    · rename_i hk
      exact absurd hk hs.1
    · rename_i hk
      exact absurd hk hs.2
    · exact returns_ok _

variable {base : Expr}

theorem returns_property (h : d.kind = .dot) (ht : t.kind = .name)
    (hp : Returns (path (.property d.position base t.text) rest) v next) :
    Returns (path base (d :: t :: rest)) v next := by
  rw [path.eq_def]
  simp only [h, ht]
  exact returns_bind hp fun _ => returns_ok _

theorem returns_position (h : d.kind = .dot) (ht : t.kind = .integer)
    (hp : Returns (path (.index d.position base
      (.const t.position (.number (integerValue t.text)))) rest) v next) :
    Returns (path base (d :: t :: rest)) v next := by
  rw [path.eq_def]
  simp only [h, ht]
  exact returns_bind hp fun _ => returns_ok _

theorem returns_index (h : t.kind = .leftBracket) {key : Expr} {close : Token}
    {after : List Token} (hk : Returns (expression rest) key (close :: after))
    (hc : close.kind = .rightBracket) (hp : Returns (path (.index t.position base key) after) v next) :
    Returns (path base (t :: rest)) v next := by
  rw [path.eq_def]
  simp only [h]
  refine returns_bind hk fun _ => ?_
  refine returns_bind (returns_expect hc _) fun _ => ?_
  exact returns_bind hp fun _ => returns_ok _

end Expr

namespace FilterCall

open Reading

variable {filter : String} {byPosition as : List Expr} {byName named : List (String × Expr)}
  {v : Expr} {s rest next : List Token} {t d : Token}

theorem returns_noFilters {ending : Token.Kind} (hn : (nextToken s).kind ≠ .pipe) :
    Returns (filters ending s) [] s := by
  rw [filters.eq_def]
  cases s with
  | nil => exact returns_ok _
  | cons t rest =>
    dsimp only
    rw [if_neg (show t.kind ≠ .pipe from hn)]
    exact returns_ok _

end FilterCall

end Liquid
