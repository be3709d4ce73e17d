import Liquid.Proofs.Reading.Offsets
import Liquid.Proofs.Reading.Origins
import Liquid.Proofs.Reading.Respaced
import Mathlib

/-!
# The markup of a tag is the tag once more

A tag of the host keeps the text of its arguments.  Wherever the tag stands and however it is laid
out, that text between the delimiters of a tag of its own is read as the same arguments, and they
have the same text again.

**From tokens back to characters.**  The reader sees tokens only.  Behind every opening delimiter of
a tag among the lexemes of a source there are words, which are written into the tag, unless it is a
note or the end of a verbatim block, whose second token is none that stands between delimiters
(`TagsKnown`).  So a tag with arguments is one with words, and its markup is what they are written
with, from the first to the last.

* `tagsKnown_cut`: what is behind the opening delimiters of tags.
* `Grammar.markup_words`: the markup between two places is the words written there.
* `written_of_parse`: how a tag of the host with arguments is written.
* `cut_retold`, `parseTokens_hostTag`: a tag that is retold, as lexemes and as a node.
* `parse_retold`: what is retold is read as the same tag.
-/
namespace Liquid

open Liquid.Text Spelling

/-! ## Tags among lexemes -/

/-- Words up to a closing delimiter.  If they open a verbatim block, its content is behind that. -/
def WordsAhead (ls : List Lexeme) : Prop :=
  ∃ inside words close more, Lexer.IntoWords close.here false inside words ∧
    close.kind = .blockEnd ∧ ls = words ++ close :: more ∧
    ((∀ v : Lexer.Verbatim, ¬ v.OpenedBy words) ∨ ∃ raw rest, more = raw :: rest ∧ raw.kind = .raw)

/-- One word of a note or of the end of a verbatim block. -/
def AsideAhead (ls : List Lexeme) : Prop :=
  ∃ first second more, ls = first :: second :: more ∧ second.kind.inner = false

/-- What is behind the opening delimiters of the tags. -/
def TagsKnown : List Lexeme → Prop
  | [] => True
  | l :: rest => (l.kind = .blockBegin → WordsAhead rest ∨ AsideAhead rest) ∧ TagsKnown rest

section

variable {ls more words : List Lexeme} {begin : Lexeme} {s rest : List Char}

theorem tagsKnown_append (h : ∀ l ∈ ls, l.kind ≠ .blockBegin) (hm : TagsKnown more) :
    TagsKnown (ls ++ more) := by
  induction ls with
  | nil => exact hm
  | cons l ls ih =>
    obtain ⟨hl, h⟩ := List.forall_mem_cons.1 h
    exact ⟨fun hb => absurd hb hl, ih h⟩

theorem TagsKnown.behind (h : TagsKnown ls) (hs : begin :: more <:+ ls)
    (hb : begin.kind = .blockBegin) : WordsAhead more ∨ AsideAhead more := by
  obtain ⟨before, rfl⟩ := hs
  induction before with
  | nil => exact h.1 hb
  | cons l before ih => exact ih h.2

/-- Words with the closing delimiter of a region. -/
theorem tagsKnown_closing {point : Bool} {inside : List Char} {region : Region}
    (hw : Lexer.IntoWords s point inside words) {here : List Char} {trim : Bool}
    (hm : TagsKnown more) :
    TagsKnown (words ++ ⟨region.closeKind, region.closer, here, trim⟩ :: more) := by
  have hclose : region.closeKind ≠ .blockBegin := by cases region <;> decide
  refine tagsKnown_append (fun l hl he => ?_) ⟨fun hb => absurd hb hclose, hm⟩
  have hi := Lexer.inner_intoWords hw l hl
  rw [he] at hi
  cases hi

theorem tagsKnown_area {left right : Bool} {source : List Char}
    (h : Area rest left source right ls) (hm : TagsKnown more) : TagsKnown (ls ++ more) := by
  cases h with
  | @words d words _ hw hv =>
    simp only [Delimited.lexemes, List.cons_append, List.append_assoc, List.nil_append]
    refine ⟨fun hb => ?_, tagsKnown_closing hw hm⟩
    have hr : d.region = .tag := by
      cases hr : d.region with
      | tag => rfl
      | output =>
        rw [hr] at hb
        cases hb
    exact .inl ⟨d.inside, words, _, more, hw, by rw [hr]; rfl, rfl, .inl (hv hr)⟩
  | note hr _ _ _ _ =>
    simp only [Delimited.lexemes, hr]
    exact ⟨fun _ => .inr ⟨_, _, _, rfl, rfl⟩, by simp [TagsKnown, hm, Region.closeKind]⟩
  | @verbatim v d e words body word kept hr _ hw ho _ _ _ =>
    simp only [Delimited.lexemes, List.cons_append, List.append_assoc, List.nil_append]
    refine ⟨fun _ => .inl ⟨d.inside, words, _, _, hw, by rw [hr]; rfl, rfl, .inr ⟨_, _, rfl, rfl⟩⟩,
      tagsKnown_closing hw ?_⟩
    -- The content of the block, and its end tag with one word.
    have haside : AsideAhead ((v.lexemes kept body e word rest ++ more).drop 2) :=
      ⟨_, _, _, rfl, rfl⟩
    exact ⟨by simp, fun _ => .inr haside, by simp, by simp, hm⟩

/-- Behind every opening delimiter of a tag there are words, or the tag is a note or the end of a
verbatim block. -/
theorem tagsKnown_cut {trim : Bool} (h : Cut trim s ls) : TagsKnown ls := by
  have hdata (kept here : List Char) : ∀ l ∈ dataOf kept here, l.kind ≠ .blockBegin := by
    unfold dataOf
    split
    · simp
    · simp
  induction h with
  | last _ _ => exact tagsKnown_append (hdata _ _) ⟨by simp, trivial⟩
  | region _ _ harea _ ih => exact tagsKnown_append (hdata _ _) (tagsKnown_area harea ih)

end

/-! ## The markup -/

/-- The markup between the first of some words and what is behind the last is what they are written
with. -/
theorem Grammar.markup_words {g : Grammar} {source inner after : List Char} {point : Bool}
    {ls : List Lexeme} (hg : g.source = some source) (h : Lexer.IntoWords after point inner ls)
    (hs : inner ++ after <:+ source) (hfirst : ∀ c ∈ inner.head?, isBlank c = false) :
    g.markup (Position.of source (inner ++ after)) (Position.of source after) =
      String.ofList (trimEnd inner) := by
  obtain ⟨-, hdrop, hlen⟩ := Position.offset?_of hs
  obtain ⟨-, -, hlen'⟩ := Position.offset?_of ((List.suffix_append inner after).trans hs)
  have hinner : (Position.of source after).offset - (Position.of source (inner ++ after)).offset =
      inner.length := by
    simp at hlen
    omega
  have htrim : trim inner = trimEnd inner := by
    rw [trim]
    exact congrArg trimEnd (by simpa using trimStart_append blank_nil hfirst)
  have hend : trimEnd (trimEnd inner) = trimEnd inner := by
    simpa using trimEnd_of_blank (getLast?_trimEnd inner) blank_nil
  unfold Grammar.markup
  rw [hg]
  dsimp only
  rw [hdrop, hinner, List.take_left, htrim, if_neg h.getLast?_trimEnd_ne, hend]

/-! ## Where a tag is written -/

section

variable {g : Grammar} {u : HostUse} {ls : List Lexeme} {s rest words : List Token}
  {begin keyword close : Token} {places : Array Position}

/-- A tag with arguments is one with words. -/
theorem HostUse.ReadFrom.words_ne_nil (h : u.ReadFrom g begin keyword words close rest)
    (ha : u.arguments ≠ []) : words ≠ [] := by
  intro hn
  subst hn
  obtain ⟨p, hp, hv, -⟩ : Reading.Returns (Reading.hostArguments u.name [] (close :: rest))
    (u.arguments, close) rest := h.arguments
  obtain ⟨q, hq, hqv, -⟩ : Reading.Returns (Reading.hostArguments u.name [] (close :: rest))
    ([], close) rest := Reading.returns_noArgument h.closes
  rw [hq] at hp
  cases hp
  rw [hqv] at hv
  exact ha (congrArg Prod.fst hv).symm

/-- The words of a tag with arguments are written into the tag. -/
theorem HostUse.Begins.written (hls : TagsKnown ls)
    (hs : s <:+ ls.map (Lexeme.toToken places)) (hrest : (nextToken rest).kind ≠ .raw)
    (h : u.Begins g s rest) (ha : u.arguments ≠ []) :
    ∃ inside keyword words close, Lexer.IntoWords close.here false inside (keyword :: words) ∧
      (∀ v : Lexer.Verbatim, ¬ v.OpenedBy (keyword :: words)) ∧ words ≠ [] ∧
      (∀ l ∈ words ++ [close], l ∈ ls) ∧
      u.ReadFrom g (nextToken s) (keyword.toToken places) (words.map (Lexeme.toToken places))
        (close.toToken places) rest := by
  obtain ⟨begin, keyword, words, close, rfl, hread⟩ := h
  have hne := hread.words_ne_nil ha
  obtain ⟨before, hbefore⟩ := hs
  obtain ⟨ls₁, ls₂, rfl, -, h₂⟩ := List.map_eq_append_iff.1 hbefore.symm
  obtain ⟨b, tail, rfl, hb, htail⟩ := List.map_eq_cons_iff.1 h₂
  have hbegin : b.kind = .blockBegin := by
    rw [← hread.begins, ← hb]
    rfl
  obtain ⟨inside, ws, c, more, hw, hc, rfl, hopen⟩ | ⟨first, second, more, rfl, hsecond⟩ :=
    hls.behind (List.suffix_append ls₁ _) hbegin
  · have hwords : Inner (ws.map (Lexeme.toToken places)) :=
      List.forall_mem_map.2 (Lexer.inner_intoWords hw)
    have hkeyword : Inner (keyword :: words) :=
      inner_cons (Token.inner_of_kind hread.named rfl) hread.inner
    rw [List.map_append, List.map_cons] at htail
    obtain ⟨hws, hclose, rfl⟩ := hwords.unique hkeyword
      (show c.kind.inner = false by rw [hc]; rfl) (by rw [hread.closes]; rfl) htail
    obtain ⟨k, ws, rfl, rfl, rfl⟩ := List.map_eq_cons_iff.1 hws
    subst hclose
    refine ⟨inside, k, ws, c, hw, ?_, by simpa using hne, ?_, hb ▸ hread⟩
    · refine hopen.resolve_right ?_
      intro hraw
      obtain ⟨raw, after, rfl, hkind⟩ := hraw
      exact hrest hkind
    · intro l hl
      simp at hl ⊢
      tauto
  · -- Behind the keyword of such a tag no argument can stand.
    obtain ⟨w, words, rfl⟩ := List.exists_cons_of_ne_nil hne
    simp only [List.map_cons, List.cons_append, List.cons.injEq] at htail
    have hinner := hread.inner w (.head _)
    rw [← htail.2.1] at hinner
    exact absurd (hsecond.symm.trans hinner) Bool.false_ne_true

end

/-- How a tag of the host with arguments is written: its keyword, and the characters from its first
word behind that up to `after`. -/
structure HostUse.Written (u : HostUse) (w : Spelling) (inner after : List Char)
    (words : List Lexeme) : Prop where
  named : w.kind = .name
  name : w.text = u.name
  keyword : ∃ more, Lexer.Takes false w more
  spelled : Lexer.IntoWords after false inner words
  first : ∀ c ∈ inner.head?, isBlank c = false
  given : u.arguments ≠ []
  ne_nil : words ≠ []
  plain : ∀ here, ∀ v : Lexer.Verbatim,
    ¬ v.OpenedBy (⟨w.kind, w.text.toList, here, false⟩ :: words)
  markup : u.markup = String.ofList (trimEnd inner)
  free : ∃ g : Grammar, g.endsBody u.name = false
  arguments : ∃ places close rest, close.kind = .blockEnd ∧
    Reading.Returns (Reading.hostArguments u.name []
      (words.map (Lexeme.toToken places) ++ close :: rest)) (u.arguments, close) rest

/-- Every tag of the host with arguments is written so. -/
theorem written_of_parse {tags : List (String × Bool)} {source : String} {nodes : List Node}
    (h : parse tags source = .ok nodes) {n : Node} {u : HostUse} (hn : n.Amid nodes)
    (hu : n.use? = some u) (ha : u.arguments ≠ []) :
    ∃ w inner after words, u.Written w inner after words := by
  obtain ⟨tokens, s, rest, htokens, hs, hrest, hb⟩ := origin_of_parse h hn hu
  obtain ⟨ls, hls, rfl⟩ := lexemes_of_tokenize htokens
  have hcut := Lexer.cut_lexemes hls
  obtain ⟨inside, keyword, words, close, hwords, hopen, hne, hmem, hread⟩ :=
    hb.written (tagsKnown_cut hcut) hs hrest ha
  obtain ⟨first, words, rfl⟩ := List.exists_cons_of_ne_nil hne
  cases hwords with
  | @cons _ _ s w _ _ htakes hwords =>
    have hk : w.kind = .name := hread.named
    have hpoint : (w.kind == .dot) = false := by rw [hk]; rfl
    rw [hpoint] at hwords
    obtain ⟨blank, inner, rfl, hinner, hfirst⟩ := hwords.from_first
    obtain ⟨hhere, -⟩ := hinner.begins hfirst
    have hsuffix : inner ++ close.here <:+ source.toList := by
      rw [← hhere]
      exact ((standing_cut hcut).pairwise.1 first (hmem first (by simp))).1
    refine ⟨w, inner, close.here, first :: words, hk, ?_, ⟨_, htakes⟩, hinner, hfirst, ha, hne,
      ?_, ?_, ⟨_, hread.free⟩, ⟨_, _, _, hread.closes, hread.arguments⟩⟩
    · simpa [Lexeme.toToken] using hread.name
    · exact fun here v ho => hopen v (ho.of_bare (by simp [Lexeme.bare]))
    · have hmarkup := hread.markup
      rw [if_neg (by simpa using ha)] at hmarkup
      change u.markup = Grammar.markup _ (first.toToken _).position (close.toToken _).position
        at hmarkup
      rw [hmarkup, Lexeme.position_toToken, Lexeme.position_toToken, hhere]
      exact Grammar.markup_words rfl hinner hsuffix hfirst

/-! ## What is retold -/

/-- A tag with nothing but a keyword and a markup, with a space around each. -/
def retold (name markup : String) : String := "\x7b% " ++ name ++ " " ++ markup ++ " %\x7d"

/-- What is retold, as a region. -/
def retelling (name markup : List Char) : Delimited :=
  ⟨.tag, false, ' ' :: (name ++ ' ' :: (markup ++ [' '])), false⟩

/-- The closing delimiter of what is retold. -/
def retoldEnd : Lexeme := ⟨.blockEnd, "%\x7d".toList, "%\x7d".toList, false⟩

theorem toList_retold (name : String) (inner : List Char) :
    (retold name (String.ofList inner)).toList = (retelling name.toList inner).source := by
  simp [retold, retelling, Delimited.source, Delimited.closing, markOf, Region.opener,
    Region.closer]

section

variable {w : Spelling} {inner more : List Char} {words : List Lexeme}

/-- What is retold holds the keyword and the words of the markup. -/
theorem intoWords_retelling (hk : w.kind = .name) (hw : Lexer.Takes false w more)
    (h : Lexer.IntoWords retoldEnd.here false (inner ++ [' ']) words) :
    ∃ here, Lexer.IntoWords retoldEnd.here false (retelling w.text.toList inner).inside
      (⟨w.kind, w.text.toList, here, false⟩ :: words) := by
  have hspace : Blank [' '] := by simp [Blank, isBlank]
  have hw : Lexer.Takes false w (' ' :: (inner ++ [' ']) ++ retoldEnd.here) :=
    Lexer.Takes.before_space (x := []) hw _
  have hmore : Lexer.IntoWords retoldEnd.here (w.kind == .dot) (' ' :: (inner ++ [' '])) words := by
    rw [hk]
    exact h.behind_blank hspace
  have hinside : (retelling w.text.toList inner).inside =
      [' '] ++ (w.chars ++ (' ' :: (inner ++ [' ']))) := by
    rw [Lexer.chars_of_name hk]
    rfl
  rw [hinside]
  exact ⟨_, .cons hspace hw hmore⟩

/-- What is retold is one tag. -/
theorem cut_retold (hk : w.kind = .name) (hw : Lexer.Takes false w more)
    (h : Lexer.IntoWords retoldEnd.here false (inner ++ [' ']) words)
    (hv : ∀ here, ∀ v : Lexer.Verbatim,
      ¬ v.OpenedBy (⟨w.kind, w.text.toList, here, false⟩ :: words)) :
    ∃ begin here, begin.kind = .blockBegin ∧
      Cut false (retold w.text (String.ofList inner)).toList
        (begin :: ⟨w.kind, w.text.toList, here, false⟩ ::
          (words ++ [retoldEnd, ⟨.eof, [], [], false⟩])) := by
  obtain ⟨here, hinto⟩ := intoWords_retelling hk hw h
  have hm : (retelling w.text.toList inner).Marked :=
    ⟨by simp [retelling], by simp [retelling, List.getLast?_cons]⟩
  have harea : Area [] false (retelling w.text.toList inner).source false _ :=
    .words hm hinto fun _ => hv here
  have hend : Cut false [] (dataOf [] [] ++ [⟨.eof, [], [], false⟩]) :=
    .last nowhere_nil (trims_trimmed false false [])
  have hcut := Cut.region nowhere_nil (trims_trimmed false false []) harea hend
  refine ⟨⟨.blockBegin, Region.tag.opener, (retelling w.text.toList inner).source ++ [], false⟩,
    here, rfl, ?_⟩
  rw [toList_retold]
  simpa [dataOf, Lexer.trimmed, Delimited.lexemes, retelling, retoldEnd, Region.openKind,
    Region.closeKind, Region.closer, Delimited.closing, markOf] using hcut

end

/-! ## Reading what is retold -/

section

variable {g : Grammar} {begin keyword close mark : Token} {s : List Token} {values : List Expr}
  {name : String}

open Reading

/-- What is read of lexemes apart from their places. -/
theorem map_toToken (places : Array Position) (ls : List Lexeme) :
    (ls.map (Lexeme.toToken places)).map (fun t => (t.kind, t.text)) =
      (ls.map Lexeme.bare).map fun b => (b.1, String.ofList b.2) := by
  simp [Lexeme.toToken, Lexeme.bare, Function.comp_def]

/-- A tag of the host. -/
theorem returns_hostTag {next : List Token} {hasBody : Bool} (hn : keyword.text = name)
    (hg : g.tag? name = some hasBody)
    (h : Returns (hostArguments name [] s) (values, close) next) (hv : values.isEmpty = false)
    (inLoop : Bool) :
    Returns (tag g inLoop keyword s)
      (if hasBody then
        .begin (.host name values (g.markup (nextToken s).position close.position))
      else
        .add (.tag keyword.position name values []
          (g.markup (nextToken s).position close.position))) next := by
  obtain ⟨⟨value, rest, hw⟩, hp, he, rfl⟩ := h
  dsimp only at he
  subst he hn
  unfold tag
  rw [hg]
  dsimp only
  rw [hp]
  dsimp only [bind, Except.bind]
  rw [hv]
  exact ⟨_, rfl, rfl, rfl⟩

theorem parseTokens_hostTag (hb : begin.kind = .blockBegin) (hk : keyword.kind = .name)
    (hm : mark.kind = .eof) (hn : keyword.text = name) (he : g.endsBody name = false)
    (hg : g.tag? name = some false)
    (h : Returns (hostArguments name [] s) (values, close) [mark]) (hv : values.isEmpty = false) :
    parseTokens g (begin :: keyword :: s) = .ok [.tag keyword.position name values []
      (g.markup (nextToken s).position close.position)] := by
  rw [parseTokens, readNodes_adds hb hk (hn ▸ he) (returns_hostTag hn hg h hv _), readNodes_eof hm]
  rfl

/-- A name that belongs to no block around it is the keyword of a tag of the host wherever the host
has one. -/
theorem endsBody_of_tag {g' : Grammar} (h : g.endsBody name = false)
    (hg : g'.tag? name ≠ none) : g'.endsBody name = false := by
  simp only [Grammar.endsBody, Grammar.isEnd, Bool.or_eq_false_iff] at h ⊢
  refine ⟨h.1, h.2.1, ?_⟩
  simp [hg]

end

/-- What is retold of a tag holds the same words, and the characters they are written with have not
changed. -/
theorem HostUse.Written.exists_cut {u : HostUse} {w : Spelling} {inner after : List Char}
    {words : List Lexeme} (h : u.Written w inner after words) :
    ∃ begin here first more, begin.kind = .blockBegin ∧
      (first :: more).map Lexeme.bare = words.map Lexeme.bare ∧
      Cut false (retold u.name u.markup).toList
        (begin :: ⟨w.kind, u.name.toList, here, false⟩ ::
          (first :: more ++ [retoldEnd, ⟨.eof, [], [], false⟩])) ∧
      ∀ g : Grammar, g.source = some (retold u.name u.markup).toList →
        g.markup (Position.of (retold u.name u.markup).toList first.here)
          (Position.of (retold u.name u.markup).toList retoldEnd.here) = u.markup := by
  obtain ⟨more, hkeyword⟩ := h.keyword
  obtain ⟨words', hwords, hbare⟩ := h.spelled.respaced retoldEnd.here
  obtain ⟨begin, here, hbegin, hcut⟩ := cut_retold h.named hkeyword hwords fun here v ho =>
    h.plain here v (ho.of_bare (by simpa [Lexeme.bare] using hbare))
  rw [h.name, ← h.markup] at hcut
  obtain ⟨first, words, rfl⟩ := List.exists_cons_of_ne_nil h.ne_nil
  obtain ⟨first', more', rfl, -, -⟩ := List.map_eq_cons_iff.1 hbare
  have hhead := h.spelled.head?_trimEnd h.first
  obtain ⟨hhere, -⟩ := hwords.begins hhead
  have hsuffix := ((standing_cut hcut).pairwise.1 first' (by simp)).1
  rw [hhere] at hsuffix
  refine ⟨begin, here, first', more', hbegin, hbare, hcut, fun g hg => ?_⟩
  have hspace : Blank [' '] := by simp [Blank, isBlank]
  rw [hhere, Grammar.markup_words hg hwords hsuffix hhead,
    trimEnd_of_blank (getLast?_trimEnd inner) hspace, h.markup]

/-- A tag of the host is read again from what is retold of it. -/
theorem HostUse.Written.read_again {u : HostUse} {w : Spelling} {inner after : List Char}
    {words : List Lexeme} (h : u.Written w inner after words) {tags : List (String × Bool)}
    (ht : Grammar.tag? ⟨tags, none⟩ u.name = some false) :
    ∃ pos args, parse tags (retold u.name u.markup) = .ok [.tag pos u.name args [] u.markup] ∧
      args.map Expr.unplaced = u.arguments.map Expr.unplaced := by
  obtain ⟨begin, here, first, more, hbegin, hbare, hcut, hmarkup⟩ := h.exists_cut
  obtain ⟨g, hfree⟩ := h.free
  obtain ⟨places, close, rest, hclose, hargs⟩ := h.arguments
  have htag : Grammar.tag? ⟨tags, some (retold u.name u.markup).toList⟩ u.name = some false := ht
  have hfree := endsBody_of_tag hfree (htag ▸ Option.some_ne_none false)
  have hmarkup := hmarkup ⟨tags, some (retold u.name u.markup).toList⟩ rfl
  rw [parse_of_tokenize (tokenize_of_cut hcut)]
  rw [← Lexeme.position_toToken, ← Lexeme.position_toToken] at hmarkup
  generalize Position.places (retold u.name u.markup).toList = places' at hmarkup
  -- The same words are the same arguments.
  have hinner : Inner (words.map (Lexeme.toToken places)) :=
    List.forall_mem_map.2 (Lexer.inner_intoWords h.spelled)
  have hsame : ((first :: more).map (Lexeme.toToken places')).map (fun t => (t.kind, t.text)) =
      (words.map (Lexeme.toToken places)).map fun t => (t.kind, t.text) := by
    rw [map_toToken, map_toToken, hbare]
  have hbeside : Beside (close :: rest)
      [retoldEnd.toToken places', Lexeme.toToken places' ⟨.eof, [], [], false⟩] _ _ :=
    beside_words hinner hsame
  obtain ⟨-, args, hread, hu⟩ := Reading.echo_hostArguments hclose rfl rfl hbeside hargs
  have hne : args.isEmpty = false := by
    cases args with
    | nil => exact absurd (List.map_eq_nil_iff.1 hu.symm) h.given
    | cons => rfl
  have hname : (Lexeme.toToken places' ⟨w.kind, u.name.toList, here, false⟩).text = u.name := by
    simp [Lexeme.toToken]
  have hparse := parseTokens_hostTag (show (begin.toToken places').kind = .blockBegin from hbegin)
    h.named rfl hname hfree htag hread hne
  change _ = Except.ok [Node.tag _ _ _ _ (Grammar.markup _ (first.toToken places').position _)]
    at hparse
  rw [hmarkup] at hparse
  exact ⟨_, args, by simpa using hparse, hu⟩

/-- **The markup is the tag once more.**  Whatever a source looks like and wherever in it a tag of
the host with arguments stands, the keyword and the markup of the tag between the delimiters of a
tag of their own are read, under any tags that have the keyword as one without a body, as a tag with
the same arguments, apart from their places, and with the same markup. -/
theorem parse_retold {tags tags' : List (String × Bool)} {source : String} {nodes : List Node}
    {pos : Position} {name : String} {args : List Expr} {body : List Node} {markup : String}
    (h : parse tags source = .ok nodes) (hn : (Node.tag pos name args body markup).Amid nodes)
    (ha : args ≠ []) (ht : Grammar.tag? ⟨tags', none⟩ name = some false) :
    ∃ pos' args', parse tags' (retold name markup) = .ok [.tag pos' name args' [] markup] ∧
      args'.map Expr.unplaced = args.map Expr.unplaced := by
  obtain ⟨w, inner, after, words, hw⟩ := written_of_parse h hn rfl ha
  exact hw.read_again ht

/-- The keyword of a tag of the host with a body. -/
def ofBox : Spelling := ofName 'b' "ox".toList rfl

/-- The keyword of the end tag. -/
def ofEndbox : Spelling := ofName 'e' "ndbox".toList rfl

/-- A string that holds a closing delimiter with its mark. -/
def ofDelimiter : Spelling := ofString ['-', '%', '\x7d'] rfl

/-- A tag with a body, whose argument holds a closing delimiter. -/
def boxSource : String := "\x7b% box \"-%\x7d\" %\x7d\x7b% endbox %\x7d"

/-- The tokens of that source. -/
def boxTokens : List Token :=
  [⟨.blockBegin, "\x7b%", ⟨0, 1, 0⟩, false⟩, ⟨.name, "box", ⟨3, 1, 3⟩, false⟩,
    ⟨.string, "-%\x7d", ⟨7, 1, 7⟩, false⟩, ⟨.blockEnd, "%\x7d", ⟨13, 1, 13⟩, false⟩,
    ⟨.blockBegin, "\x7b%", ⟨15, 1, 15⟩, false⟩, ⟨.name, "endbox", ⟨18, 1, 18⟩, false⟩,
    ⟨.blockEnd, "%\x7d", ⟨25, 1, 25⟩, false⟩, ⟨.eof, "", ⟨27, 1, 27⟩, false⟩]

theorem tokenize_boxSource : tokenize boxSource = .ok boxTokens := by
  have hsource : boxSource =
      String.ofList (written .tag [ofBox, ofDelimiter] ++ (written .tag [ofEndbox] ++ [])) := by
    decide
  have hendbox : Flows false [ofEndbox] false := flows_singleton (by decide)
  have hbox : Flows false [ofBox, ofDelimiter] false :=
    flows_cons (by decide) (flows_singleton (by decide))
  have hend := Lexer.lexemes_written hendbox
    (fun _ : Region.tag = Region.tag => ⟨ofEndbox, _, rfl, by decide, by decide⟩)
    (Lexer.lexemes_nil false) false
  have hl := Lexer.lexemes_written hbox
    (fun _ : Region.tag = Region.tag => ⟨ofBox, _, rfl, by decide, by decide⟩) hend false
  have ht := tokenize_of_lexemes hl
  rw [← hsource] at ht
  rw [ht]
  rfl

/-- A string may hold a closing delimiter with its mark, and the tag may have a body. -/
theorem parse_retold_box :
    ∃ nodes, parse [("box", true)] boxSource = .ok nodes ∧
      (Node.tag ⟨3, 1, 3⟩ "box" [.const ⟨7, 1, 7⟩ (.text "-%\x7d")] [] "\"-%\x7d\"").Amid nodes ∧
      ∃ pos args, parse [("box", false)] (retold "box" "\"-%\x7d\"") =
          .ok [.tag pos "box" args [] "\"-%\x7d\""] ∧
        args.map Expr.unplaced = [.const .start (.text "-%\x7d")] := by
  have hparse : parseTokens ⟨[("box", true)], some boxSource.toList⟩ boxTokens =
      .ok [.tag ⟨3, 1, 3⟩ "box" [.const ⟨7, 1, 7⟩ (.text "-%\x7d")] [] "\"-%\x7d\""] := by
    cbv
  rw [← parse_of_tokenize tokenize_boxSource] at hparse
  have hamid : (Node.tag ⟨3, 1, 3⟩ "box" [.const ⟨7, 1, 7⟩ (.text "-%\x7d")] []
      "\"-%\x7d\"").Amid _ := .here (.head [])
  exact ⟨_, hparse, hamid, parse_retold hparse hamid (by simp) rfl⟩

end Liquid
