import Liquid.Node.Parser
import Liquid.Proofs.Reading.Taken

/-!
# Readers of tags stay among their tokens

A tag takes the tokens up to its closing delimiter and fails, if it is written wrongly, at one of
them.  Only the tags whose content is not read go further, to their end tag.  A block without an
end is a mistake at the keyword that opened it.

* `takes_output`, `takes_endTag`, `takes_tag`, `takes_branch`: what outputs and tags take.
* `within_endTag`, `within_tag`: every tag stays among its tokens, those without a content that is
  read among them.
-/
namespace Liquid

/-- Whether the content of a tag is not read as tokens. -/
def Grammar.skips (g : Grammar) (name : String) : Bool :=
  (g.tag? name).isNone && ["comment", "raw", "#"].contains name

/-- A tag that belongs to the block around it has a content that is read. -/
theorem Grammar.skips_of_endsBody {g : Grammar} {name : String} (h : g.endsBody name = true) : g.skips name = false := by
  have hb : ["comment", "raw", "#"].contains name = false := by
    cases hc : ["comment", "raw", "#"].contains name with
    | false => rfl
    | true =>
      simp only [List.contains_iff_mem, List.mem_cons, List.not_mem_nil, or_false] at hc
      obtain rfl | rfl | rfl := hc
      · cases h
      · cases h
      · cases h
  rw [skips, hb, Bool.and_false]

namespace Reading

variable {s u : List Token}

/-! ## Outputs and options -/

theorem takes_output (begin : Token) (s : List Token) :
    Takes (some .variableEnd) s (output begin s) := by
  unfold output
  split
  · exact takes_return (takes_expectKind _ s) fun _ => rfl
  · refine takes_bind (Expr.takes_primary s) fun value => ?_
    refine takes_bind (FilterCall.takes_filters _ value.rest) fun filters => ?_
    exact takes_return (takes_expectKind _ filters.rest) fun _ => rfl

theorem takes_condition (s : List Token) : Takes (some .blockEnd) s (condition s) :=
  takes_bind (Expr.takes_expression s) fun p => takes_toEnd p

theorem takes_loopOptions (head : LoopHead) (s : List Token) :
    Takes (some .blockEnd) s (loopOptions head s) := by
  rw [loopOptions.eq_def]
  split
  · exact takes_fail [] _
  · rename_i t rest
    split
    · rename_i hk
      exact takes_last hk rfl
    · split
      · rename_i hk
        refine takes_behind (Token.inner_of_kind hk rfl) ?_
        exact takes_return (takes_loopOptions _ rest) fun _ => rfl
      · split
        · rename_i hk
          refine takes_behind (Token.inner_of_isName hk) ?_
          exact takes_return (takes_loopOptions _ rest) fun _ => rfl
        · split
          · rename_i colon rest
            split
            · rename_i hk
              refine takes_behind (hk.1.elim Token.inner_of_isName Token.inner_of_isName) ?_
              refine takes_behind (Token.inner_of_kind hk.2 rfl) ?_
              refine takes_bind (Expr.takes_primary rest) fun value => ?_
              have hv := value.within
              exact takes_return (takes_loopOptions _ value.rest) fun _ => rfl
            · exact takes_fail (t :: colon :: rest) _
          · exact takes_fail [t] _
termination_by s.length
decreasing_by all_goals (subst_vars; simp only [List.length_cons]; omega)

theorem takes_loopHead (s : List Token) : Takes (some .blockEnd) s (loopHead s) := by
  refine takes_bind (takes_expectName _ s) fun target => ?_
  refine takes_bind (takes_expectWord _ _ target.rest) fun word => ?_
  refine takes_bind (Expr.takes_primary word.rest) fun items => ?_
  exact takes_return (takes_loopOptions _ items.rest) fun _ => rfl

theorem takes_moreValues (s : List Token) : Takes none s (moreValues s) := by
  rw [moreValues.eq_def]
  split
  · exact takes_none rfl
  · rename_i t rest
    split
    · rename_i hk
      refine takes_behind (hk.elim (fun hk => Token.inner_of_kind hk rfl) Token.inner_of_isName) ?_
      refine takes_bind (Expr.takes_primary rest) fun value => ?_
      have hv := value.within
      exact takes_return (takes_moreValues value.rest) fun _ => rfl
    · exact takes_none rfl
termination_by s.length
decreasing_by all_goals (subst_vars; simp only [List.length_cons]; omega)

theorem takes_whenValues (s : List Token) : Takes (some .blockEnd) s (whenValues s) := by
  refine takes_bind (Expr.takes_primary s) fun first => ?_
  refine takes_bind (takes_moreValues first.rest) fun more => ?_
  exact takes_return (takes_expectKind _ more.rest) fun _ => rfl

theorem takes_assign (pos : Position) (s : List Token) :
    Takes (some .blockEnd) s (assign pos s) := by
  refine takes_bind (takes_expectName _ s) fun name => ?_
  refine takes_bind (takes_expect rfl _ name.rest) fun sign => ?_
  refine takes_bind (Expr.takes_primary sign.rest) fun value => ?_
  refine takes_bind (FilterCall.takes_filters _ value.rest) fun filters => ?_
  exact takes_return (takes_expectKind _ filters.rest) fun _ => rfl

theorem takes_captureName (s : List Token) : Takes (some .blockEnd) s (captureName s) := by
  unfold captureName
  split
  · refine takes_bind (takes_expect rfl _ s) fun name => ?_
    exact takes_toEnd (name.map Token.text)
  · exact takes_bind (takes_expectName _ s) fun name => takes_toEnd name

theorem takes_calledAs (known : Option String) (s : List Token) :
    Takes none s (calledAs? known s) := by
  unfold calledAs?
  split
  · exact takes_none rfl
  · rename_i t rest
    split
    · rename_i hk
      refine takes_behind (Token.inner_of_isName hk) ?_
      exact takes_return (takes_expectName _ rest) fun _ => rfl
    · exact takes_none rfl

theorem position_of_allow_error {o : Options} {allowEach : Bool} {t : Token} {e : Misplaced}
    (h : o.allow allowEach t = .error e) : e.position = t.position := by
  unfold Options.allow at h
  split at h
  · cases h
    rfl
  · split at h
    · cases h
      rfl
    · cases h

/-- A token that is at hand is the first of the tokens. -/
theorem eq_cons_of_nextToken (h : (nextToken s).kind ≠ .eof) : s = nextToken s :: s.tail := by
  cases s with
  | nil => exact absurd rfl h
  | cons t s => rfl

theorem takes_options (keyword : String) (allowEach : Bool) (o : Options) (s : List Token) :
    Takes (some .blockEnd) s (options keyword allowEach o s) := by
  rw [options.eq_def]
  split
  · exact takes_fail [] _
  · rename_i t rest
    split
    · rename_i hk
      exact takes_last hk rfl
    · split
      · rename_i hk
        refine takes_behind (Token.inner_of_kind hk rfl) ?_
        exact takes_return (takes_options _ _ _ rest) fun _ => rfl
      · split
        · rename_i hk
          have hc : (nextToken rest).kind.inner = true := Token.inner_of_kind hk.2 rfl
          refine takes_behind (Token.inner_of_kind hk.1 rfl) ?_
          refine takes_next (eq_cons_of_nextToken (Token.ne_of_inner hc rfl)) hc ?_
          refine takes_bind (Expr.takes_primary rest.tail) fun value => ?_
          have hv := value.within
          exact takes_return (takes_options _ _ _ value.rest) fun _ => rfl
        · split
          · rename_i hk
            refine takes_check (fun _ he => position_of_allow_error he) ?_
            refine takes_behind (hk.elim Token.inner_of_isName Token.inner_of_isName) ?_
            refine takes_bind (Expr.takes_primary rest) fun value => ?_
            refine takes_bind (takes_calledAs _ value.rest) fun called => ?_
            have h₁ := value.within
            have h₂ := called.within
            exact takes_return (takes_options _ _ _ called.rest) fun _ => rfl
          · exact takes_fail (t :: rest) _
termination_by s.length
decreasing_by all_goals
  subst_vars
  simp only [List.length_tail, List.length_cons] at *
  omega

theorem takes_includeTag (pos : Position) (s : List Token) :
    Takes (some .blockEnd) s (includeTag pos s) := by
  refine takes_bind (Expr.takes_primary s) fun template => ?_
  exact takes_return (takes_options _ _ _ template.rest) fun _ => rfl

theorem takes_renderTag (pos : Position) (s : List Token) :
    Takes (some .blockEnd) s (renderTag pos s) := by
  unfold renderTag
  split
  · exact takes_fail s _
  · refine takes_bind (Expr.takes_primary s) fun template => ?_
    exact takes_return (takes_options _ _ _ template.rest) fun _ => rfl

theorem takes_hostArguments (tag : String) (known : List Expr) (s : List Token) :
    Takes (some .blockEnd) s (hostArguments tag known s) := by
  rw [hostArguments.eq_def]
  split
  · exact takes_fail [] _
  · rename_i t rest
    split
    · rename_i hk
      exact takes_last hk rfl
    · split
      · refine takes_bind (Expr.takes_expression (t :: rest)) fun value => ?_
        have hv := value.within
        exact takes_return (takes_hostArguments _ _ value.rest) fun _ => rfl
      · split
        · rename_i hk
          refine takes_behind (Token.inner_of_kind hk rfl) ?_
          refine takes_bind (Expr.takes_expression rest) fun value => ?_
          have hv := value.within
          exact takes_return (takes_hostArguments _ _ value.rest) fun _ => rfl
        · exact takes_fail (t :: rest) _
termination_by s.length
decreasing_by all_goals (subst_vars; simp only [List.length_cons] at *; omega)

/-! ## End tags and verbatim content -/

/-- An end tag that stands where it has to takes the tokens behind its opening delimiter. -/
theorem takes_endTag (g : Grammar) (name : String) (opened : Position) {t keyword : Token}
    (ht : t.kind = .blockBegin) (hk : keyword.kind = .name) (s : List Token) :
    Takes (some .blockEnd) (keyword :: s) (endTag g name opened (t :: keyword :: s)) := by
  have hne : t.kind ≠ .eof := Token.ne_of_kind ht (by decide)
  unfold endTag
  dsimp only
  rw [if_neg hne, if_neg (by simp [ht, hk])]
  split
  · split
    · exact takes_fail (keyword :: s) _
    · exact takes_fail (keyword :: s) _
  · refine takes_behind (Token.inner_of_kind hk rfl) ?_
    exact takes_return (takes_expectClose _ _ s) fun _ => rfl

theorem within_endTag (g : Grammar) (name : String) {opened : Position} (h : Ending s)
    (hs : s <:+ u) (ho : opened.OfTokens u) : Within u (endTag g name opened s) := by
  cases s with
  | nil => exact absurd rfl h.ne_nil
  | cons t rest =>
    by_cases ht : t.kind = .eof
    · unfold endTag
      dsimp only
      rw [if_pos ht]
      exact ho
    · have hr := h.tail ht
      cases rest with
      | nil => exact absurd rfl hr.ne_nil
      | cons keyword rest =>
        by_cases hk : t.kind ≠ .blockBegin ∨ keyword.kind ≠ .name
        · unfold endTag
          dsimp only
          rw [if_neg ht, if_pos hk]
          exact within_at (hs.subset (.head _)) _
        · rw [not_or, Decidable.not_not, Decidable.not_not] at hk
          have htakes := takes_endTag g name opened hk.1 hk.2 rest
          exact within_suffix (htakes.within (by decide) hr) ((List.suffix_cons t _).trans hs)

theorem ending_skipToEnd (h : Ending s) : Ending (skipToEnd s) := by
  unfold skipToEnd
  induction h with
  | last ht => simpa [ht] using Ending.last ht
  | @cons t rest ht h ih =>
    rw [List.dropWhile_cons]
    split
    · exact ih
    · exact .cons ht h

theorem within_verbatim (g : Grammar) (name : String) {pos : Position} (h : Ending s)
    (hs : s <:+ u) (ho : pos.OfTokens u) : Within u (verbatim g name pos s) := by
  refine within_bind (within_suffix (within_expectKind (by decide) h) hs) fun close hs he => ?_
  refine within_bind (within_suffix (within_expectKind (by decide) he) hs) fun content hs he => ?_
  exact within_bind (within_endTag g name he hs ho) fun _ hs he => within_ok hs he

theorem within_note (pos : Position) (h : Ending s) : Within s (note pos s) := by
  refine within_next (within_expectKind (by decide) h) fun content he => ?_
  exact within_bind (within_toEnd content he) fun _ hs he => within_ok hs he

/-! ## Tags -/

theorem takes_signal (inLoop : Bool) (what : Signal) {keyword : Token}
    (hk : keyword.kind.inner = true) (s : List Token) :
    Takes (some .blockEnd) (keyword :: s) (do
      if !inLoop then throw ((Mistake.outsideLoop keyword.text).at keyword)
      let close ← expectKind .blockEnd s
      return (close.map fun _ => TagEffect.add (.signal keyword.position what)).optional) := by
  split
  · exact takes_fail (keyword :: s) _
  · exact takes_behind hk (takes_return (takes_expectKind _ s) fun _ => rfl)

theorem takes_tag {g : Grammar} (inLoop : Bool) {keyword : Token} (hk : keyword.kind = .name)
    (hg : g.skips keyword.text = false) (s : List Token) :
    Takes (some .blockEnd) (keyword :: s) (tag g inLoop keyword s) := by
  have hk : keyword.kind.inner = true := Token.inner_of_kind hk rfl
  have conditional (negated : Bool) : Takes (some .blockEnd) s (do
      let test ← condition s
      return (test.map fun test =>
        TagEffect.begin (.conditional negated test [] [] .body)).optional) :=
    takes_return (takes_condition s) fun _ => rfl
  unfold tag
  dsimp only
  split
  · exact takes_behind hk (takes_return (takes_hostArguments _ _ s) fun _ => rfl)
  · rename_i hnone
    have skipped {name : String} (h : keyword.text = name)
        (hn : ["comment", "raw", "#"].contains name = true) : False := by
      rw [Grammar.skips, hnone, h, hn] at hg
      cases hg
    split
    · exact takes_behind hk (conditional false)
    · exact takes_behind hk (conditional true)
    · exact takes_behind hk (takes_return (takes_loopHead s) fun _ => rfl)
    · refine takes_behind hk (takes_bind (Expr.takes_primary s) fun subject => ?_)
      exact takes_return (takes_toEnd subject) fun _ => rfl
    · exact takes_signal inLoop .leave hk s
    · exact takes_signal inLoop .next hk s
    · exact takes_behind hk (takes_return (takes_assign _ s) fun _ => rfl)
    · exact takes_behind hk (takes_return (takes_captureName s) fun _ => rfl)
    · rename_i h
      exact (skipped h rfl).elim
    · rename_i h
      exact (skipped h rfl).elim
    · rename_i h
      exact (skipped h rfl).elim
    · exact takes_behind hk (takes_return (takes_includeTag _ s) fun _ => rfl)
    · exact takes_behind hk (takes_return (takes_renderTag _ s) fun _ => rfl)
    · exact takes_fail (keyword :: s) _

theorem within_tag (g : Grammar) (inLoop : Bool) {keyword : Token} (hk : keyword.kind = .name)
    (h : Ending (keyword :: s)) (hu : keyword :: s <:+ u) :
    Within u (tag g inLoop keyword s) := by
  have hs : s <:+ u := (List.suffix_cons keyword s).trans hu
  have he : Ending s := h.tail (Token.ne_of_kind hk (by decide))
  have ho : keyword.position.OfTokens u := ⟨keyword, hu.subset (.head s), rfl⟩
  by_cases hg : g.skips keyword.text = false
  · exact within_suffix ((takes_tag inLoop hk hg s).within (by decide) h) hu
  · rw [Bool.not_eq_false, Grammar.skips, Bool.and_eq_true, Option.isNone_iff_eq_none,
      List.contains_iff_mem] at hg
    unfold tag
    rw [hg.1]
    dsimp only
    simp only [List.mem_cons, List.not_mem_nil, or_false] at hg
    obtain ⟨-, hc | hr | hn⟩ := hg
    · have hd : skipToEnd s <:+ u := (List.dropWhile_suffix _).trans hs
      rw [hc]
      exact within_bind (within_verbatim g _ (ending_skipToEnd he) hd ho) fun _ hs he =>
        within_ok hs he
    · rw [hr]
      exact within_bind (within_verbatim g _ he hs ho) fun _ hs he => within_ok hs he
    · rw [hn]
      exact within_suffix (within_bind (within_note _ he) fun _ hs he => within_ok hs he) hs

theorem takes_branch (b : OpenBlock) (nodes : List Node) (keyword : Token) (s : List Token) :
    Takes (some .blockEnd) s (branch b nodes keyword s) := by
  unfold branch
  split
  · exact takes_return (takes_condition s) fun _ => rfl
  · exact takes_return (takes_whenValues s) fun _ => rfl
  · exact takes_return (takes_expectKind _ s) fun _ => rfl

end Reading

end Liquid
