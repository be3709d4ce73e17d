import Liquid.Proofs.Reading.Cutting
import Mathlib

/-!
# Comments within comments

What a comment holds is not read, but the tags in it that open and close comments are counted, so a
comment may hold comments.  Such a tag goes up to the first closing delimiter behind its name, and
what it holds itself is no tag: a text in which the tags count up to nothing as they stand, one
inside the other, need not be a comment.

**Names.**  A tag is counted for its keyword, and its name is what is read behind the opening
delimiter.  Both are the same unless the name goes on behind the keyword with a character that is no
word character (`goesOn`).

* `Lexer.commentTag?_of_tagName`, `Lexer.commentTag?_append_eq_none`: a tag that is counted is one
  whose name is a keyword of comments.
* `Lexer.commented_of_namesApart`: a text whose comments are balanced is the content of a comment.
* `comments_nest`: what is commented out is one token, and what follows is read as if it stood alone.
* `not_always_commented`: a comment tag that holds another one.
-/
namespace Liquid

open Liquid.Text

namespace Lexer

/-! ## The names of tags -/

/-- The name of the tag that begins a source, and what follows the name. -/
def tagName? (s : List Char) : Option (String × List Char) := do
  let m ← tagWord? s
  let w ← name? m.rest
  return (String.ofList w.lexeme.text, w.rest)

/-- The names of the tags that begin anywhere in a text. -/
def tagNames (s : List Char) : List String := s.tails.filterMap fun t => (tagName? t).map Prod.fst

theorem length_tagName {s behind : List Char} {name : String}
    (h : tagName? s = some (name, behind)) : behind.length < s.length := by
  simp only [tagName?, Option.bind_eq_bind, Option.bind_eq_some_iff, Option.pure_def,
    Option.some.injEq, Prod.mk.injEq] at h
  obtain ⟨m, hm, w, -, -, rfl⟩ := h
  have := length_tagWord hm
  have := w.shorter
  omega

/-- The names of the tags of a text, where a tag that opens or closes a comment goes up to its
closing delimiter and holds no other tag; none if such a tag is not closed. -/
def namesApart? (s : List Char) : Option (List String) :=
  match s with
  | [] => some []
  | c :: rest =>
    match _ : tagName? (c :: rest) with
    | none => namesApart? rest
    | some (name, behind) =>
      if name = commentKeyword true ∨ name = commentKeyword false then
        match _ : splitFirst? Region.tag.closer behind with
        | none => none
        | some (_, more) => (namesApart? more).map (name :: ·)
      else (namesApart? rest).map (name :: ·)
termination_by s.length
decreasing_by
  · simp
  · have := length_tagName ‹_›
    have := length_splitFirst (p := Region.tag.closer) (by decide) ‹_›
    omega
  · simp

/-- Comments are balanced behind `depth` that are open: never more of them end than have begun, and
all of them have ended. -/
structure Balanced (depth : Nat) (names : List String) : Prop where
  never : ∀ before ∈ names.inits,
    before.count (commentKeyword true) ≤ depth + before.count (commentKeyword false)
  settled : names.count (commentKeyword true) = depth + names.count (commentKeyword false)

/-- Whether a name goes on behind a keyword of comments with a character that is no word
character. -/
def goesOn (name : String) : Bool :=
  [true, false].any fun closes =>
    (dropPrefix? (commentKeyword closes).toList name.toList).any fun more =>
      !more.isEmpty && endsWord more

section

variable {depth : Nat} {name : String} {names : List String}

theorem balanced_nil (h : Balanced depth []) : depth = 0 := by
  have := h.settled
  simp at this
  omega

theorem balanced_begins (h : Balanced depth (commentKeyword false :: names)) :
    Balanced (depth + 1) names := by
  have hne : commentKeyword false ≠ commentKeyword true := by decide
  constructor
  · intro before hb
    have := h.never (commentKeyword false :: before) (by simpa using hb)
    rw [List.count_cons_of_ne hne, List.count_cons_self] at this
    omega
  · have := h.settled
    rw [List.count_cons_of_ne hne, List.count_cons_self] at this
    omega

theorem balanced_ends (h : Balanced depth (commentKeyword true :: names)) :
    ∃ outer, depth = outer + 1 ∧ Balanced outer names := by
  have hne : commentKeyword true ≠ commentKeyword false := by decide
  have hfirst := h.never [commentKeyword true] (by simp)
  rw [List.count_cons_self, List.count_cons_of_ne hne] at hfirst
  obtain ⟨outer, rfl⟩ : ∃ outer, depth = outer + 1 := by
    refine ⟨depth - 1, ?_⟩
    simp at hfirst
    omega
  refine ⟨outer, rfl, ?_, ?_⟩
  · intro before hb
    have := h.never (commentKeyword true :: before) (by simpa using hb)
    rw [List.count_cons_of_ne hne, List.count_cons_self] at this
    omega
  · have := h.settled
    rw [List.count_cons_of_ne hne, List.count_cons_self] at this
    omega

theorem balanced_other (ht : name ≠ commentKeyword true) (hf : name ≠ commentKeyword false)
    (h : Balanced depth (name :: names)) : Balanced depth names := by
  constructor
  · intro before hb
    have := h.never (name :: before) (by simpa using hb)
    rwa [List.count_cons_of_ne ht, List.count_cons_of_ne hf] at this
  · have := h.settled
    rwa [List.count_cons_of_ne ht, List.count_cons_of_ne hf] at this

end

/-! ## Keywords and names -/

section

variable {s t v behind more : List Char} {w : Word s} {closes : Bool}

theorem commentKeyword_eq_cons (closes : Bool) :
    ∃ c kept, (commentKeyword closes).toList = c :: kept ∧ beginsName c = true ∧
      (∀ d ∈ kept, isWord d = true) ∧ kept.getLast? ≠ some '-' := by
  cases closes
  · exact ⟨'c', "omment".toList, rfl, by decide, List.all_eq_true.1 rfl, by decide⟩
  · exact ⟨'e', "ndcomment".toList, rfl, by decide, List.all_eq_true.1 rfl, by decide⟩

/-- A name is at least as long as a keyword that begins it. -/
theorem name?_keyword (closes : Bool) (v : List Char) :
    ∃ w, name? ((commentKeyword closes).toList ++ v) = some w ∧
      ∃ x, w.lexeme.text = (commentKeyword closes).toList ++ x ∧ v = x ++ w.rest := by
  obtain ⟨c, kept, hk, hb, hw, hl⟩ := commentKeyword_eq_cons closes
  obtain ⟨-, -, -, -, -, -, hsplit⟩ := nameTail_spelled (kept ++ v)
  have hle := length_nameTail_le (fun d hd => .inl (hw d hd)) hl (.inl rfl)
    (by simp : kept ++ [] <+: kept ++ v)
  have hlen := congrArg List.length hsplit
  simp only [List.length_append] at hle hlen
  obtain ⟨x, hx⟩ : kept <+: (nameTail (kept ++ v)).1 :=
    List.prefix_of_prefix_length_le (List.prefix_append kept v) ⟨_, hsplit.symm⟩
      (by simp at hle; omega)
  rw [hk]
  refine ⟨_, if_pos hb, x, by simp [hx], ?_⟩
  rw [← hx, List.append_assoc] at hsplit
  exact List.append_cancel_left hsplit

/-- Behind a name of word characters no word character follows: the name would have gone on with
it. -/
theorem not_isWord_behind {rest kept more : List Char} {c : Char}
    (h : nameTail rest = (kept, c :: more)) (hw : ∀ d ∈ kept, isWord d = true) :
    isWord c = false := by
  obtain ⟨-, -, -, -, -, -, hsplit⟩ := nameTail_spelled rest
  rw [h] at hsplit
  by_contra hc
  have hc : isWord c = true := by simpa using hc
  have hwords : ∀ d ∈ kept ++ [c], isWord d = true ∨ d = '-' := by
    intro d hd
    rcases List.mem_append.1 hd with hd | hd
    · exact .inl (hw d hd)
    · rw [List.mem_singleton.1 hd]
      exact .inl hc
  have hlast : (kept ++ [c]).getLast? ≠ some '-' := by
    have : c ≠ '-' := by
      intro hm
      subst hm
      exact absurd hc (by decide)
    simpa using this
  have hprefix : (kept ++ [c]) ++ [] <+: rest := ⟨more, by simp [hsplit]⟩
  have hle := length_nameTail_le hwords hlast (.inl rfl) hprefix
  have hlen := congrArg List.length hsplit
  rw [h] at hle
  simp at hle hlen
  omega

/-- Behind a name that is a keyword no word character follows. -/
theorem endsWord_of_name? (h : name? s = some w)
    (ht : w.lexeme.text = (commentKeyword closes).toList) :
    s = (commentKeyword closes).toList ++ w.rest ∧ endsWord w.rest = true := by
  obtain ⟨c, kept, hk, -, hw, -⟩ := commentKeyword_eq_cons closes
  rw [hk] at ht ⊢
  unfold name? at h
  split at h
  · cases h
  · rename_i d rest
    split at h
    · cases h
      obtain ⟨rfl, htail⟩ := List.cons.inj ht
      obtain ⟨-, -, -, -, -, -, hsplit⟩ := nameTail_spelled rest
      rw [htail] at hsplit
      refine ⟨congrArg (d :: ·) hsplit, ?_⟩
      dsimp only
      cases hrest : (nameTail rest).2 with
      | nil => rfl
      | cons e more => simp [endsWord, not_isWord_behind (Prod.ext htail hrest) hw]
    · cases h

theorem trimStart_append_brace (s more : List Char) :
    trimStart (s ++ '\x7b' :: more) = trimStart s ++ '\x7b' :: more := by
  have hb : isBlank '\x7b' = false := by decide
  induction s with
  | nil => simp [trimStart, hb]
  | cons c s ih =>
    simp only [trimStart, List.cons_append, List.dropWhile_cons] at ih ⊢
    split
    · exact ih
    · rfl

/-- An opening delimiter behind a text is part of no tag that begins in the text. -/
theorem tagWord?_append_brace (hs : s ≠ []) (more : List Char) :
    tagWord? (s ++ '\x7b' :: more) =
      (tagWord? s).map fun m => ⟨m.trim, m.rest ++ '\x7b' :: more⟩ := by
  cases s with
  | nil => exact absurd rfl hs
  | cons c s =>
    by_cases hc : '\x7b' = c
    · subst hc
      cases s with
      | nil => simp [tagWord?, dropPrefix?, Region.opener]
      | cons d s =>
        by_cases hd : '%' = d
        · subst hd
          by_cases he : s.head? = some '-'
          · obtain ⟨u, rfl⟩ := List.head?_eq_some_iff.1 he
            simp [tagWord?, dropPrefix?, Region.opener, trimStart_append_brace]
          · have hplain : tagWord? ('\x7b' :: '%' :: s) = some ⟨false, trimStart s⟩ :=
              tagWord?_eq_some.2 ⟨s, rfl, fun _ => he, rfl⟩
            have happend : tagWord? ('\x7b' :: '%' :: (s ++ '\x7b' :: more)) =
                some ⟨false, trimStart (s ++ '\x7b' :: more)⟩ := by
              refine tagWord?_eq_some.2 ⟨_, rfl, fun _ => ?_, rfl⟩
              cases s with
              | nil => simp
              | cons e s => simpa using he
            rw [List.cons_append, List.cons_append, happend, hplain, trimStart_append_brace]
            rfl
        · simp [tagWord?, dropPrefix?, Region.opener, hd]
    · simp [tagWord?, dropPrefix?, Region.opener, hc]

theorem findClosing?_of_splitFirst (h : splitFirst? Region.tag.closer s = some (t, more)) :
    ∃ closer m, findClosing? .tag s = some (closer, m) ∧ m.rest = more := by
  induction s generalizing t with
  | nil => cases h
  | cons c s ih =>
    rw [splitFirst?] at h
    rw [findClosing?]
    split at h
    · rename_i rest hd
      cases h
      have hclose : closing? .tag (c :: s) = some ⟨false, more⟩ := by
        refine closing?_eq_some.2 ?_
        simpa [markOf] using dropPrefix?_eq_some.1 hd
      exact ⟨c :: s, ⟨false, more⟩, by rw [hclose], rfl⟩
    · rename_i hd
      obtain ⟨⟨a, b⟩, hsplit, he⟩ := Option.map_eq_some_iff.1 h
      cases he
      split
      · rename_i m hm
        -- A mark in front of the delimiter: it is the first one behind the mark, too.
        refine ⟨_, m, rfl, ?_⟩
        have hs := closing?_eq_some.1 hm
        cases ht : m.trim with
        | false =>
          rw [ht] at hs
          have hs : c :: s = Region.tag.closer ++ m.rest := by simpa [markOf] using hs
          rw [dropPrefix?_eq_some.2 hs] at hd
          cases hd
        | true =>
          rw [ht] at hs
          obtain ⟨-, rfl⟩ := List.cons.inj hs
          have hsnd := congrArg (Option.map Prod.snd) hsplit
          simpa [splitFirst?, dropPrefix?, Region.closer] using hsnd
      · exact ih hsplit

/-- A tag whose name is a keyword of comments is counted, and goes up to the first closing delimiter
behind the name. -/
theorem commentTag?_of_tagName (h : tagName? s = some (commentKeyword closes, behind))
    (hs : splitFirst? Region.tag.closer behind = some (t, more)) :
    ∃ d word, Tagged (CommentWord (commentKeyword closes)) d word ∧ s = d.source ++ more := by
  simp only [tagName?, Option.bind_eq_bind, Option.bind_eq_some_iff, Option.pure_def,
    Option.some.injEq, Prod.mk.injEq] at h
  obtain ⟨m, hm, w, hw, hname, rfl⟩ := h
  obtain ⟨hrest, hends⟩ := endsWord_of_name? hw
    (by rw [← hname, String.toList_ofList])
  obtain ⟨closer, c, hc, rfl⟩ := findClosing?_of_splitFirst hs
  have hword : tagWord? s = some ⟨m.trim, (commentKeyword closes).toList ++ w.rest⟩ := by
    rw [← hrest]
    exact hm
  obtain ⟨d, word, rest, hd, he, htags⟩ :=
    commentTag?_found (commentTag?_keyword hword hends hc)
  have hmore : c.rest = rest := congrArg VerbatimTag.rest htags
  exact ⟨d, word, hd, hmore ▸ he⟩

/-- A tag is counted for nothing else than its name. -/
theorem commentTag?_append_eq_none (hs : s ≠ [])
    (h : ∀ name behind, tagName? s = some (name, behind) →
      name ≠ commentKeyword true ∧ name ≠ commentKeyword false ∧ goesOn name = false)
    (more : List Char) : commentTag? (s ++ '\x7b' :: more) = none := by
  refine Option.eq_none_iff_forall_not_mem.2 fun found hfound => ?_
  obtain ⟨closes, t⟩ := found
  obtain ⟨d, word, rest, hd, he, -⟩ := commentTag?_found hfound
  obtain ⟨tail, rfl, hw, -⟩ := hd.holds
  have hword := tagWord?_source hd (by cases closes <;> simp [commentKeyword] <;> decide)
    (List.append_ne_nil_of_left_ne_nil (commentKeyword_ne_nil closes) tail) rest
  rw [← he, tagWord?_append_brace hs] at hword
  obtain ⟨⟨trim, word⟩, hm, hrest⟩ := Option.map_eq_some_iff.1 hword
  have hrest : word ++ '\x7b' :: more =
      (commentKeyword closes).toList ++ (tail ++ (d.closing ++ rest)) := by
    simpa using congrArg Mark.rest hrest
  -- The keyword holds no brace, so it ends before the text does.
  obtain ⟨v, rfl, hv⟩ : ∃ v, word = (commentKeyword closes).toList ++ v ∧
      tail ++ (d.closing ++ rest) = v ++ '\x7b' :: more := by
    have hbrace : '\x7b' ∉ (commentKeyword closes).toList := by cases closes <;> decide
    rcases List.append_eq_append_iff.1 hrest with ⟨v, hk, hv⟩ | ⟨v, hk, hv⟩
    · cases v with
      | nil => exact ⟨[], by simpa using hk.symm, by simpa using hv.symm⟩
      | cons c v =>
        obtain rfl := (List.cons.inj hv).1
        exact absurd (hk ▸ by simp) hbrace
    · exact ⟨v, hk, hv⟩
  have hends : endsWord v = true := by
    have hends := endsWord_closing hw d rest
    rw [hv] at hends
    cases v with
    | nil => rfl
    | cons c v => exact hends
  obtain ⟨w, hname, x, hx, hsplit⟩ := name?_keyword closes v
  rw [hsplit] at hends
  obtain ⟨ht, hf, hgo⟩ := h (String.ofList w.lexeme.text) w.rest (by simp [tagName?, hm, hname])
  rw [hx] at ht hf hgo
  cases x with
  | nil =>
    cases closes with
    | true => exact ht (by simp)
    | false => exact hf (by simp)
  | cons c x =>
    have hgoes : goesOn (String.ofList ((commentKeyword closes).toList ++ c :: x)) = true := by
      refine List.any_eq_true.2 ⟨closes, by cases closes <;> simp, ?_⟩
      rw [String.toList_ofList, dropPrefix?_eq_some.2 rfl]
      exact hends
    rw [hgoes] at hgo
    cases hgo

end

/-! ## What a comment holds -/

/-- A text whose comments are balanced is what a comment holds, up to the opening delimiter that
follows. -/
theorem commented_of_namesApart {s : List Char} {names : List String} {depth : Nat}
    (h : namesApart? s = some names) (hb : Balanced depth names)
    (hg : ∀ name ∈ names, goesOn name = false) (more : List Char) :
    Commented ('\x7b' :: more) depth s := by
  fun_induction namesApart? s generalizing names depth with
  | case1 =>
    cases h
    obtain rfl := balanced_nil hb
    exact .nil
  | case2 c rest hname ih =>
    refine .char (commentTag?_eq_none.1 ?_) (ih h hb hg)
    exact commentTag?_append_eq_none (s := c :: rest) (by simp) (by simp [hname]) more
  | case3 c rest name behind hname hkey hsplit => cases h
  | case4 c rest name behind hname hkey t behind' hsplit ih =>
    obtain ⟨inner, hinner, rfl⟩ := Option.map_eq_some_iff.1 h
    replace hg := (List.forall_mem_cons.1 hg).2
    rcases hkey with rfl | rfl
    · obtain ⟨d, word, hd, he⟩ := commentTag?_of_tagName hname hsplit
      obtain ⟨outer, rfl, hout⟩ := balanced_ends hb
      rw [he]
      exact .closes hd (ih hinner hout hg)
    · obtain ⟨d, word, hd, he⟩ := commentTag?_of_tagName hname hsplit
      rw [he]
      exact .opens hd (ih hinner (balanced_begins hb) hg)
  | case5 c rest name behind hname hkey ih =>
    obtain ⟨inner, hinner, rfl⟩ := Option.map_eq_some_iff.1 h
    obtain ⟨hgo, hg⟩ := List.forall_mem_cons.1 hg
    obtain ⟨ht, hf⟩ := not_or.1 hkey
    refine .char (commentTag?_eq_none.1 ?_) (ih hinner (balanced_other ht hf hb) hg)
    refine commentTag?_append_eq_none (s := c :: rest) (by simp) (fun name' behind' hn => ?_) more
    rw [hname] at hn
    cases hn
    exact ⟨ht, hf, hgo⟩

/-! ## Commenting out -/

theorem findEndComment?_nil (depth : Nat) : findEndComment? depth [] = none := by
  unfold findEndComment?
  rfl

/-- The name of the tag that opens a comment. -/
def comment : Spelling := .ofName 'c' "omment".toList rfl

/-- The tag that closes a comment. -/
def commentEnd : Delimited := ⟨.tag, false, " endcomment ".toList, false⟩

theorem tagged_commentEnd : Tagged (CommentWord "endcomment") commentEnd "endcomment ".toList where
  region := rfl
  marked := ⟨fun _ => by decide, fun _ => by decide⟩
  inside := ⟨[' '], by simp [Blank]; decide, rfl⟩
  holds := ⟨[' '], rfl, by simp; decide, by decide⟩

section

variable {s : List Char} {t : VerbatimTag}

/-- The lexemes of the tag that opens a comment. -/
def opening (s : List Char) : List Lexeme :=
  [⟨.blockBegin, Region.tag.opener, Spelling.written .tag [comment] ++ s, false⟩,
    ⟨.name, "comment".toList, "comment ".toList ++ (Region.tag.closer ++ s), false⟩,
    ⟨.blockEnd, Region.tag.closer, Region.tag.closer ++ s, false⟩]

theorem scans_comment (begin s : List Char) :
    Scans (inside .tag begin false (" comment ".toList ++ (Region.tag.closer ++ s)))
      (opening s).tail false s := by
  have h : Spelling.Flows false [comment] false := Spelling.flows_singleton (by decide)
  exact scans_inside h .tag begin s

theorem openedBy_comment (here : List Char) :
    Verbatim.comment.OpenedBy [⟨.name, "comment".toList, here, false⟩] :=
  ⟨_, [], rfl, rfl, rfl, fun _ => rfl⟩

theorem findOpening?_comment (s : List Char) :
    findOpening? (Spelling.written .tag [comment] ++ s) =
      some ⟨[], .tag, Spelling.written .tag [comment] ++ s,
        ⟨false, " comment ".toList ++ (Region.tag.closer ++ s)⟩⟩ :=
  findOpening?_opener .tag _

/-- A comment is its opening tag, its content and its end tag, and then what follows is read. -/
theorem lexemes_comment_some (h : findEndComment? 0 s = some t) :
    lexemes false (Spelling.written .tag [comment] ++ s) =
      (lexemes t.trimRight t.rest).map fun ls =>
        opening s ++ (verbatimLexemes .comment false s t ++ ls) := by
  have hscans := scans_found (scans_comment (Spelling.written .tag [comment] ++ s) s)
    Token.Kind.noConfusion (openedBy_comment _) h
  rw [lexemes_of_scans (findOpening?_comment s) hscans, data_nil]
  simp [opening, Region.openKind]

/-- A comment without end. -/
theorem lexemes_comment_none (h : findEndComment? 0 s = none) :
    lexemes false (Spelling.written .tag [comment] ++ s) =
      .error ⟨Verbatim.unclosed .comment, Spelling.written .tag [comment] ++ s⟩ := by
  have hregion := tagRegion_unclosed (scans_comment (Spelling.written .tag [comment] ++ s) s)
    Token.Kind.noConfusion (openedBy_comment _) h
  have hread : Lexer.region .tag (Spelling.written .tag [comment] ++ s)
      (" comment ".toList ++ (Region.tag.closer ++ s)) =
        .error ⟨Verbatim.unclosed .comment, Spelling.written .tag [comment] ++ s⟩ := hregion
  rw [lexemes_of_findOpening (findOpening?_comment s)]
  dsimp only
  rw [hread]
  rfl

end

end Lexer

/-! ## Tokens apart from their places -/

/-- A token without its place. -/
def Token.unplaced (t : Token) : Token := { t with position := .start }

/-- The tokens that are read, or the mistake that is found, without their places. -/
def unplacedTokens (r : Except Misplaced (List Token)) : Except Mistake (List Token) :=
  (r.map (List.map Token.unplaced)).mapError Misplaced.mistake

/-- A lexeme as a token without its place. -/
def Lexeme.unplaced (l : Lexeme) : Token := ⟨l.kind, String.ofList l.text, .start, l.trim⟩

theorem unplacedTokens_tokenize (source : String) : unplacedTokens (tokenize source) =
    ((Lexer.lexemes false source.toList).map (List.map Lexeme.unplaced)).mapError Slip.mistake := by
  unfold tokenize
  dsimp only
  cases Lexer.lexemes false source.toList with
  | error slip => rfl
  | ok ls => simp [unplacedTokens, Except.map, Except.mapError, Token.unplaced, Lexeme.toToken,
      Lexeme.unplaced]

/-- The tokens of a comment that holds a text. -/
def commentTokens (text : String) : List Token :=
  [⟨.blockBegin, "\x7b%", .start, false⟩, ⟨.name, "comment", .start, false⟩,
    ⟨.blockEnd, "%\x7d", .start, false⟩, ⟨.raw, text, .start, false⟩,
    ⟨.blockBegin, "\x7b%", .start, false⟩, ⟨.name, "endcomment", .start, false⟩,
    ⟨.blockEnd, "%\x7d", .start, false⟩]

/-- A text between the tags of a comment, and what follows the comment. -/
def commentedOut (text after : String) : String :=
  "{% comment %}" ++ text ++ "{% endcomment %}" ++ after

theorem toList_commentedOut (text after : String) :
    (commentedOut text after).toList = Spelling.written .tag [Lexer.comment] ++
      (text.toList ++ (Lexer.commentEnd.source ++ after.toList)) := by
  have hopen : "{% comment %}".toList = Spelling.written .tag [Lexer.comment] := by rfl
  have hend : "{% endcomment %}".toList = Lexer.commentEnd.source := by rfl
  simp only [commentedOut, String.toList_append, hopen, hend, List.append_assoc]

theorem unplaced_comment (text : String) (s rest : List Char) :
    (Lexer.opening s ++ Lexer.Verbatim.comment.lexemes text.toList text.toList Lexer.commentEnd
      "endcomment ".toList rest).map Lexeme.unplaced = commentTokens text := by
  obtain ⟨content, rfl⟩ : ∃ content, text = String.ofList content :=
    ⟨text.toList, String.ofList_toList.symm⟩
  rw [String.toList_ofList]
  rfl

/-- **Comments nest.**  A text whose comments are balanced, and none of whose tags goes on behind a
keyword of comments, is commented out as it is: between the tags of a comment it is one token, and
what follows is read, or fails to be read, as if it stood alone. -/
theorem comments_nest {text : String} {names : List String}
    (hn : Lexer.namesApart? text.toList = some names) (hb : Lexer.Balanced 0 names)
    (hg : ∀ name ∈ names, Lexer.goesOn name = false) (after : String) :
    unplacedTokens (tokenize (commentedOut text after)) =
      (unplacedTokens (tokenize after)).map (commentTokens text ++ ·) := by
  have hcommented : Lexer.Commented (Lexer.commentEnd.source ++ after.toList) 0 text.toList :=
    Lexer.commented_of_namesApart hn hb hg _
  have hend := Lexer.findEndComment?_commented hcommented Lexer.tagged_commentEnd
  have htokens := unplaced_comment text
    (text.toList ++ (Lexer.commentEnd.source ++ after.toList)) after.toList
  rw [unplacedTokens_tokenize, unplacedTokens_tokenize, toList_commentedOut,
    Lexer.lexemes_comment_some hend, Lexer.verbatimLexemes_eq, ← htokens]
  change ((Lexer.lexemes false after.toList).map _ |>.map _ |>.mapError _) = _
  cases Lexer.lexemes false after.toList with
  | error slip => rfl
  | ok ls => simp [Except.map, Except.mapError, Lexer.commentEnd, Lexer.trimmed]

/-- A text with an output that is not closed, a tag of another kind, and a comment whose end tag has
more in it than its name. -/
def brokenText : String := "\x7b\x7b {%comment%}{% if %}{%- endcomment x %}"

theorem comments_nest_broken :
    Lexer.namesApart? brokenText.toList = some ["comment", "if", "endcomment"] ∧
      unplacedTokens (tokenize (commentedOut brokenText "a")) =
        (unplacedTokens (tokenize "a")).map (commentTokens brokenText ++ ·) := by
  have hn : Lexer.namesApart? brokenText.toList = some ["comment", "if", "endcomment"] := by cbv
  exact ⟨hn, comments_nest hn ⟨by decide, by decide⟩ (by decide) "a"⟩

/-- A comment tag that holds another one. -/
def Lexer.holding : Delimited := ⟨.tag, false, "comment\x7b%endcomment".toList, false⟩

theorem Lexer.tagged_holding :
    Tagged (CommentWord "comment") holding "comment\x7b%endcomment".toList where
  region := rfl
  marked := ⟨fun _ => by decide, fun _ => by decide⟩
  inside := ⟨[], blank_nil, rfl⟩
  holds := ⟨"\x7b%endcomment".toList, rfl, by simp; decide, by decide⟩

/-- A text that is a comment tag with another one in it. -/
def holdingText : String := "\x7b%comment{%endcomment%}"

/-- A comment tag that holds another one is one tag: counted as they stand both are balanced, but
the comment around them does not end. -/
theorem not_always_commented : ¬ ∀ text after : String,
    Lexer.Balanced 0 (Lexer.tagNames text.toList) →
      unplacedTokens (tokenize (commentedOut text after)) =
        (unplacedTokens (tokenize after)).map (commentTokens text ++ ·) := by
  intro h
  have hn : Lexer.tagNames holdingText.toList = ["comment", "endcomment"] := by cbv
  have he := h holdingText "" (by rw [hn]; exact ⟨by decide, by decide⟩)
  have hsource : holdingText.toList = Lexer.holding.source := by rfl
  have hend : Lexer.findEndComment? 0 (Lexer.holding.source ++ (Lexer.commentEnd.source ++ [])) =
      none := by
    have hcloses := Lexer.findEndComment?_closes
      (Lexer.commentTag?_source true Lexer.tagged_commentEnd [])
    rw [Lexer.findEndComment?_opens (Lexer.commentTag?_source false Lexer.tagged_holding _)]
    exact (hcloses.2 0).trans (Lexer.findEndComment?_nil 0)
  have hlexed := Lexer.lexemes_comment_none hend
  have hafter : "".toList = [] := by simp
  rw [unplacedTokens_tokenize, unplacedTokens_tokenize, toList_commentedOut, hsource, hafter,
    hlexed, Lexer.lexemes_nil] at he
  cases he

end Liquid
