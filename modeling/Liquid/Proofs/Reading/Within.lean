import Liquid.Expr.Parser

/-!
# Readers stay among their tokens

The tokens of a template end with the mark of its end, and that mark stands nowhere else.  A reader
that succeeds stops at the mark or before it, so that no reader comes to stand behind it; a reader
that fails fails at one of the tokens that it was given.

* `Within`: what a reader leaves, or where it fails.
* `within_bind`: one reader behind another.
-/
namespace Liquid

/-- Tokens of which the last one marks the end, and no other. -/
inductive Ending : List Token → Prop where
  | last {t : Token} : t.kind = .eof → Ending [t]
  | cons {t : Token} {s : List Token} : t.kind ≠ .eof → Ending s → Ending (t :: s)

namespace Ending

variable {t : Token} {s : List Token}

theorem ne_nil (h : Ending s) : s ≠ [] := by
  cases h <;> exact List.cons_ne_nil _ _

theorem tail (h : Ending (t :: s)) (ht : t.kind ≠ .eof) : Ending s := by
  cases h with
  | last he => exact absurd he ht
  | cons _ h => exact h

theorem eq_nil (h : Ending (t :: s)) (ht : t.kind = .eof) : s = [] := by
  cases h with
  | last _ => rfl
  | cons hn _ => exact absurd ht hn

theorem kind_last {before : List Token} (h : Ending (before ++ [t])) : t.kind = .eof := by
  generalize hs : before ++ [t] = u at h
  induction h generalizing before with
  | last ht =>
    have hlast := congrArg List.getLast? hs
    rw [List.getLast?_concat] at hlast
    cases hlast
    exact ht
  | cons ht h ih =>
    cases before with
    | nil =>
      cases hs
      exact absurd rfl h.ne_nil
    | cons u before =>
      injection hs with _ hs
      exact ih hs

theorem nextToken_mem (h : Ending s) : nextToken s ∈ s := by
  cases s with
  | nil => exact absurd rfl h.ne_nil
  | cons t s => exact .head s

end Ending

/-- A place at which one of the tokens begins. -/
def Position.OfTokens (s : List Token) (p : Position) : Prop := ∃ t ∈ s, p = t.position

/-- A reader of some tokens leaves the last of them, with the mark of the end, or fails at one of
them. -/
def Within {α : Type} {n : Nat} (s : List Token) : Reading α n → Prop
  | .ok p => p.rest <:+ s ∧ Ending p.rest
  | .error e => e.position.OfTokens s

section

variable {α β : Type} {n k : Nat} {s u : List Token}

theorem within_ok {p : Parsed α n} (hs : p.rest <:+ s) (he : Ending p.rest) :
    Within s (.ok p : Reading α n) := ⟨hs, he⟩

theorem within_at {t : Token} (ht : t ∈ s) (m : Mistake) :
    Within s (throw (m.at t) : Reading α n) := ⟨t, ht, rfl⟩

theorem within_suffix {r : Reading α n} (h : Within u r) (hs : u <:+ s) : Within s r := by
  cases r with
  | ok p => exact ⟨h.1.trans hs, h.2⟩
  | error e =>
    obtain ⟨t, ht, he⟩ := h
    exact ⟨t, hs.subset ht, he⟩

/-- One reader behind another. -/
theorem within_bind {r : Reading α n} {f : Parsed α n → Reading β k} (h : Within s r)
    (hf : ∀ p, p.rest <:+ s → Ending p.rest → Within s (f p)) : Within s (r >>= f) := by
  cases r with
  | ok p => exact hf p h.1 h.2
  | error e => exact h

/-- A reader that goes on with what another has left. -/
theorem within_next {r : Reading α n} {f : Parsed α n → Reading β k} (h : Within s r)
    (hf : ∀ p, Ending p.rest → Within p.rest (f p)) : Within s (r >>= f) :=
  within_bind h fun p hs he => within_suffix (hf p he) hs

theorem within_expect {kind : Token.Kind} (hk : kind ≠ .eof) (mistake : Token → Mistake)
    (h : Ending s) : Within s (expect kind mistake s) := by
  cases s with
  | nil => exact absurd rfl h.ne_nil
  | cons t s =>
    rw [expect]
    split
    · rename_i ht
      exact within_ok (List.suffix_cons t s) (h.tail (ht ▸ hk))
    · exact within_at (.head s) _

theorem within_expectKind {kind : Token.Kind} (hk : kind ≠ .eof) (h : Ending s) :
    Within s (expectKind kind s) :=
  within_expect hk _ h

theorem within_toEnd (p : Parsed α n) (h : Ending p.rest) : Within p.rest p.toEnd :=
  within_bind (within_expectKind (by decide) h) fun _ hs he => within_ok hs he

end

theorem Token.ne_of_kind {t : Token} {kind kind' : Token.Kind} (h : t.kind = kind)
    (hk : kind ≠ kind') : t.kind ≠ kind' := h ▸ hk

end Liquid
