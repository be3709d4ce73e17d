import Liquid.Environment
import Liquid.Proofs.Reading.Blocks
import Liquid.Proofs.Reading.Cutting

/-!
# What is written as it stands

Inside a raw block a text is emitted as it stands, whatever delimiters, quotes and tags it holds, as
long as it holds no end tag.  A text without opening delimiters needs no raw block.

**Straddling.** An end tag that began in the text and ended behind it would hold the brace that the
block's own end tag begins with; after its first character an end tag has no such brace.

* `Lexer.cut_rawSource`: how a raw block around a text is cut.
* `parse_rawSource`, `parse_plain`: the nodes of a raw block and of a plain text.
* `Environment.emits_verbatim`: both are rendered as the text.
-/
namespace Liquid

open Liquid.Text Reading

/-- An end tag of a raw block: with or without marks to trim, and with blanks around the keyword. -/
def endRawTag (left right : Bool) (before after : List Char) : List Char :=
  Region.tag.opener ++ (markOf left ++ (before ++ ("endraw".toList ++
    (after ++ (markOf right ++ Region.tag.closer)))))

/-- A text between the tags of a raw block. -/
def rawSource (s : String) : String := "\x7b% raw %\x7d" ++ s ++ "\x7b% endraw %\x7d"

namespace Lexer

/-- The opening tag of a raw block. -/
def rawTag : Delimited := ⟨.tag, false, " raw ".toList, false⟩

/-- The end tag of a raw block. -/
def endTag : Delimited := ⟨.tag, false, " endraw ".toList, false⟩

variable {s : List Char}

theorem toList_rawSource (text : String) :
    (rawSource text).toList = rawTag.source ++ (text.toList ++ endTag.source) := by
  rw [rawSource, String.toList_append, String.toList_append, List.append_assoc]
  rfl

theorem source_of_rawEnd {d : Delimited} {word : List Char} (h : Tagged RawEnd d word) :
    ∃ before after, Blank before ∧ Blank after ∧
      d.source = endRawTag d.left d.right before after := by
  obtain ⟨before, hb, hi⟩ := h.inside
  obtain ⟨after, ha, rfl⟩ := h.holds
  refine ⟨before, after, hb, ha, ?_⟩
  rw [Delimited.source, Delimited.closing, h.region, hi, endRawTag]
  simp only [List.append_assoc]

/-- Behind its first character an end tag has no brace that opens. -/
theorem endRawTag_eq_cons (left right : Bool) {before after : List Char} (hb : Blank before)
    (ha : Blank after) :
    ∃ tail, endRawTag left right before after = '\x7b' :: tail ∧ '\x7b' ∉ tail := by
  have hblank {t : List Char} (ht : Blank t) : '\x7b' ∉ t :=
    fun hm => absurd (ht _ hm) (by decide)
  have hmark (trim : Bool) : '\x7b' ∉ markOf trim := by cases trim <;> decide
  refine ⟨'%' :: (markOf left ++ (before ++ ("endraw".toList ++ (after ++ (markOf right ++
    Region.tag.closer))))), rfl, ?_⟩
  simp [hblank hb, hblank ha, hmark, Region.closer]

/-- A text that holds no end tag of a raw block goes up to the end tag behind it. -/
theorem holds_raw (h : ∀ left right before after, Blank before → Blank after →
    ¬ endRawTag left right before after <:+: s) : Verbatim.Holds .raw s endTag.source := by
  intro b hb hs htag
  obtain ⟨d, word, rest, hd, he⟩ := htag
  obtain ⟨before, after, hbefore, hafter, hsource⟩ := source_of_rawEnd hd
  rw [hsource] at he
  -- Within the text there is no such tag.
  have within (u : List Char) (hu : b = endRawTag d.left d.right before after ++ u) : False :=
    h d.left d.right before after hbefore hafter
      ((List.IsPrefix.isInfix ⟨u, hu.symm⟩).trans hs.isInfix)
  rcases List.append_eq_append_iff.1 he.symm with ⟨u, hu, -⟩ | ⟨u, hu, hend⟩
  · exact within u hu
  · cases u with
    | nil => exact within [] (by simpa using hu.symm)
    | cons c u =>
      -- It would go on with the brace that begins the end tag of the block.
      obtain rfl : '\x7b' = c := (List.cons.inj hend).1
      obtain ⟨tail, htail, hnot⟩ := endRawTag_eq_cons d.left d.right hbefore hafter
      obtain ⟨e, es, rfl⟩ := List.exists_cons_of_ne_nil hb
      rw [htail] at hu
      refine hnot ?_
      rw [(List.cons.inj hu).2]
      simp

/-- A word in front of a space is the longest that is written there. -/
theorem takes_space {point : Bool} {w : Spelling} (hp : point = true → w.FollowsPoint)
    (more : List Char) : Takes point w (' ' :: more) := by
  obtain ⟨c, cs, hc⟩ := w.chars_eq_cons
  obtain ⟨r, hr, -, hrest⟩ := gets_spelling w hp hc more
  refine ⟨hp, fun v hv hpre => ?_⟩
  rw [hc] at hpre
  have hlen := longest_word hr v hv hpre
  rw [hrest] at hlen
  rw [hc]
  simp at hlen ⊢
  omega

/-- The lexemes of a raw block around a text and of nothing else. -/
def rawLexemes (s : List Char) : List Lexeme :=
  rawTag.lexemes [⟨.name, "raw".toList, "raw ".toList ++ (rawTag.closing ++ (s ++ endTag.source)),
      false⟩] (s ++ endTag.source) ++
    (Verbatim.raw.lexemes s s endTag "endraw ".toList [] ++ [⟨.eof, [], [], false⟩])

theorem trims_none (s : List Char) : Trims false false s s :=
  trims_trimmed false false s

theorem cut_rawSource (h : ∀ left right before after, Blank before → Blank after →
    ¬ endRawTag left right before after <:+: s) :
    Cut false (rawTag.source ++ (s ++ endTag.source)) (rawLexemes s) := by
  have hspace : Blank [' '] := by simp [Blank]; decide
  have hwords : IntoWords (rawTag.closing ++ (s ++ endTag.source)) false rawTag.inside
      [⟨.name, "raw".toList, "raw ".toList ++ (rawTag.closing ++ (s ++ endTag.source)), false⟩] :=
    .cons (w := Spelling.ofName 'r' ['a', 'w'] rfl) hspace (takes_space (by simp) _) (.nil hspace)
  have hopen : rawTag.Marked := ⟨by decide, by decide⟩
  have hend : Tagged RawEnd endTag "endraw ".toList :=
    ⟨rfl, ⟨by decide, by decide⟩, ⟨[' '], hspace, rfl⟩, ⟨[' '], hspace, rfl⟩⟩
  have hnothing : Cut false [] [⟨.eof, [], [], false⟩] :=
    .last nowhere_nil (trims_none [])
  have harea := @Area.verbatim [] .raw rawTag endTag _ _ _ _ rfl hopen
    (by simpa using hwords) ⟨_, _, rfl, rfl, rfl, fun _ => rfl⟩ (by simpa using holds_raw h) hend
    (trims_none s)
  have hcut := Cut.region nowhere_nil (trims_none []) harea hnothing
  simpa [rawLexemes, dataOf] using hcut

/-- A text without opening delimiters is a text and nothing else. -/
theorem cut_plain (h : ∀ region : Region, ¬ region.opener <:+: s) :
    Cut false s (dataOf s s ++ [⟨.eof, [], [], false⟩]) := by
  refine .last ?_ (trims_none s)
  intro b _ hs hb
  obtain ⟨region, hregion⟩ := hb
  rw [List.append_nil] at hregion
  exact h region (hregion.isInfix.trans hs.isInfix)

end Lexer

/-! ## Nodes -/

section

variable {g : Grammar} {t keyword close content t' word close' mark : Token}

theorem parseTokens_raw {text : String}
    (hb : Whole .raw t keyword [] close content t' word close') (hg : g.tag? "raw" = none)
    (hm : mark.kind = .eof) (hs : content.text = text) :
    parseTokens g [t, keyword, close, content, t', word, close', mark] =
      .ok [.raw keyword.position text] := by
  subst hs
  have hk : keyword.text = "raw" := hb.text
  have he : g.endsBody keyword.text = false := by
    have hbranch : Grammar.branchKeywords.contains "raw" = false := by decide
    have hend : Grammar.endKeywords.contains "raw" = false := by decide
    have hprefix : "end".toList.isPrefixOf "raw".toList = false := by decide
    rw [hk, Grammar.endsBody, Grammar.isEnd, hbranch, hend, hprefix]
    rfl
  have htag := returns_tag_verbatim hb (List.any [] OpenBlock.isLoopBody) (by rw [hk, hg]) [mark]
  have hadds : ∃ p, anyTag g [] [] t [keyword, close, content, t', word, close', mark] = .ok p ∧
      p.nodes = [.raw keyword.position content.text] ∧ p.blocks = [] ∧ p.rest = [mark] :=
    anyTag_adds hb.isName he htag
  obtain ⟨p, hp, hnodes, hblocks, hrest⟩ := hadds
  have hitem : item g [] [] t [keyword, close, content, t', word, close', mark] = .ok p := by
    unfold item
    rw [hb.opens.begins]
    exact hp
  have hne : t.kind ≠ .eof := by
    rw [hb.opens.begins]
    decide
  rw [parseTokens, readNodes_item hne hitem, hnodes, hblocks, hrest, readNodes_eof hm]
  rfl

theorem parseTokens_text {text : String} (ht : t.kind = .data) (hm : mark.kind = .eof)
    (hs : t.text = text) : parseTokens g [t, mark] = .ok [.text t.position text] := by
  subst hs
  rw [parseTokens, readNodes_text ht, readNodes_eof hm]
  rfl

end

variable {tags : List (String × Bool)} {s : String}

/-- A raw block is read as one node with the text between its tags. -/
theorem parse_rawSource (hg : "raw" ∉ tags.map Prod.fst)
    (h : ∀ left right before after, Blank before → Blank after →
      ¬ endRawTag left right before after <:+: s.toList) :
    ∃ pos, parse tags (rawSource s) = .ok [.raw pos s] := by
  have hcut := Lexer.cut_rawSource h
  rw [← Lexer.toList_rawSource] at hcut
  have ht := tokenize_of_cut hcut
  refine ⟨_, (parse_of_tokenize ht tags).trans
    (parseTokens_raw ?_ (Grammar.tag?_eq_none hg) rfl String.ofList_toList)⟩
  exact ⟨⟨rfl, inner_cons rfl inner_nil, rfl⟩, rfl, rfl, fun _ => rfl, rfl,
    ⟨rfl, inner_cons rfl inner_nil, rfl⟩, rfl, rfl⟩

/-- A text without opening delimiters is read as one node, unless it is empty. -/
theorem parse_plain (tags : List (String × Bool))
    (h : ∀ region : Region, ¬ region.opener <:+: s.toList) :
    s = "" ∧ parse tags s = .ok [] ∨ ∃ pos, parse tags s = .ok [.text pos s] := by
  have ht := tokenize_of_cut (Lexer.cut_plain h)
  by_cases hn : s.toList = []
  · refine .inl ⟨String.toList_eq_nil_iff.1 hn, (parse_of_tokenize ht tags).trans ?_⟩
    rw [hn]
    exact readNodes_eof rfl
  · rw [dataOf, if_neg hn] at ht
    have hp := parse_of_tokenize ht tags
    exact .inr ⟨_, hp.trans (parseTokens_text rfl rfl String.ofList_toList)⟩

/-! ## Renderings -/

theorem Template.read_of_parse {name filename : Option String} {nodes : List Node}
    (h : parse tags s = .ok nodes) :
    Template.read tags s name filename = .ok ⟨s, name, filename, nodes⟩ := by
  unfold parse at h
  cases ht : tokenize s with
  | error e => rw [ht] at h; cases h
  | ok tokens =>
    rw [ht] at h
    change parseTokens ⟨tags, some s.toList⟩ tokens = .ok nodes at h
    unfold Template.read
    rw [ht]
    dsimp only
    rw [h]
    rfl

namespace Environment

variable {env : Environment}

theorem read_of_parse (name : Option String) {nodes : List Node}
    (h : parse env.engine.tagBlocks s = .ok nodes) :
    env.read s name = .ok ⟨s, name, none, nodes⟩ := by
  rw [read, Engine.read, Template.read_of_parse h]
  rfl

/-- A template of one node that writes a text is rendered as the text. -/
theorem render_write {t : Template} {n : Node} {text : String} (ht : t.nodes = [n])
    (hn : ∀ deeper s, renderNode deeper s n = Run.write text) (data : Bindings) :
    (env.render t data).1 = .ok text := by
  unfold render
  dsimp only
  rw [ht, renderNodes_cons, hn, renderNodes_nil]
  change Except.ok ("" ++ text) = Except.ok text
  rw [String.empty_append]

/-- A text is rendered as it stands between the tags of a raw block, unless it holds an end tag or
the host has a tag of that name, and by itself, unless it holds an opening delimiter. -/
theorem emits_verbatim (env : Environment) (name : Option String) (data : Bindings) (s : String) :
    ("raw" ∉ env.engine.tags.overrides.map Prod.fst →
      (∀ left right before after, Blank before → Blank after →
        ¬ endRawTag left right before after <:+: s.toList) →
      ∃ t, env.read (rawSource s) name = .ok t ∧ (env.render t data).1 = .ok s) ∧
    ((∀ region : Region, ¬ region.opener <:+: s.toList) →
      ∃ t, env.read s name = .ok t ∧ (env.render t data).1 = .ok s) := by
  constructor
  · intro hraw hs
    have hg : "raw" ∉ env.engine.tagBlocks.map Prod.fst := by
      intro hm
      refine hraw ?_
      simpa [Engine.tagBlocks] using hm
    obtain ⟨pos, hp⟩ := parse_rawSource hg hs
    exact ⟨_, read_of_parse name hp, render_write rfl (fun deeper st => by rw [renderNode]) data⟩
  · intro hs
    rcases parse_plain env.engine.tagBlocks hs with ⟨rfl, hp⟩ | ⟨pos, hp⟩
    · refine ⟨_, read_of_parse name hp, ?_⟩
      unfold render
      dsimp only
      rw [renderNodes_nil]
      rfl
    · exact ⟨_, read_of_parse name hp, render_write rfl (fun deeper st => by rw [renderNode]) data⟩

/-- An environment without filters and tags of the host, in which no template can be entered. -/
def bare : Environment where
  engine := { loader := none, filters := {}, tags := {} }
  globals := []
  strict := true
  maxDepth := 0
  shelf := { cache := { maxSize := 0, label := "templates" } }

/-- Delimiters without an end between the tags of a raw block, and a brace by itself. -/
theorem emits_verbatim_braces :
    "raw" ∉ bare.engine.tags.overrides.map Prod.fst ∧
      (∃ t, bare.read (rawSource "\x7b% if \x7b\x7b endraw") none = .ok t ∧
        (bare.render t []).1 = .ok "\x7b% if \x7b\x7b endraw") ∧
      ∃ t, bare.read "a \x7b b" none = .ok t ∧ (bare.render t []).1 = .ok "a \x7b b" := by
  have hraw : "raw" ∉ bare.engine.tags.overrides.map Prod.fst := by decide
  refine ⟨hraw, ?_, ?_⟩
  · refine (emits_verbatim bare none [] _).1 hraw fun left right before after _ _ hi => ?_
    -- Every end tag ends in a brace, and the text holds none of that kind.
    have hmem : '\x7d' ∈ endRawTag left right before after := by simp [endRawTag, Region.closer]
    exact absurd (hi.subset hmem) (by decide)
  · refine (emits_verbatim bare none [] _).2 fun region hi => ?_
    cases region with
    | output => exact absurd hi (by decide)
    | tag => exact absurd hi (by decide)

end Environment

end Liquid
