import Liquid.Proofs.Rendering.Emitted

/-!
# Tags of the host go first

A tag that the host has registered is read as the host's tag, whatever the language itself has under
its name, and is rendered by running what is registered there.

**One name, asked three times.** The keyword decides whether a tag belongs to the body it stands in,
what it is read as, and which tag is run.  A name that is registered never ends a body: the end of a
block closes it only as long as nothing is registered under the name of the end.

* `parse_tagSource`, `parse_blockSource`: a tag without a body and one around a plain text are read
  as one node.
* `parse_blockSource_of_registered`: a block whose end is a tag of the host is never closed.
* `Run.program_answers`: around a text that is rendered, a tag comes to what it answers.
* `Environment.runs_host_tag`: the source of a tag is rendered by what is registered.
-/
namespace Liquid

open Liquid.Text Reading Spelling

/-! ## Keywords -/

/-- A name that a tag of the host can go by: it is written as a word, it neither begins a branch nor
closes a block of the language, and it opens no verbatim block. -/
structure HostKeyword (n : String) : Prop where
  spells : Spells .name n n.toList
  branch : n ∉ Grammar.branchKeywords
  ends : n ∉ Grammar.endKeywords
  verbatim : n ≠ "comment" ∧ n ≠ "raw"

theorem isWord_of_beginsName {c : Char} (h : Lexer.beginsName c = true) : isWord c = true := by
  have hn := Lexer.toNat_of_beginsName h
  rw [Lexer.beginsName, Bool.or_eq_true, beq_iff_eq] at h
  rcases h with h | rfl
  · refine isWord_of_isAlphanum c (by omega) ?_
    change (c.isAlpha || c.isDigit) = true
    rw [h, Bool.true_or]
  · decide

/-- How the characters of a name go on. -/
theorem Spells.name_eq {text : String} {chars : List Char} (h : Spells .name text chars) :
    ∃ c kept mark, chars = c :: (kept ++ mark) ∧ Lexer.beginsName c = true ∧
      (∀ d ∈ kept, isWord d = true ∨ d = '-') ∧ kept.getLast? ≠ some '-' ∧
        (mark = [] ∨ mark = ['?']) := by
  cases h with
  | name hc hk hl hm => exact ⟨_, _, _, rfl, hc, hk, hl, hm⟩
  | operator ho => simp [Lexer.operators] at ho

/-- What closes a block with a name is a name. -/
theorem Spells.ending {n : String} (h : Spells .name n n.toList) :
    Spells .name ("end" ++ n) ("end" ++ n).toList := by
  obtain ⟨c, kept, mark, hn, hc, hk, hl, hm⟩ := h.name_eq
  have hkept : ∀ d ∈ 'n' :: 'd' :: c :: kept, isWord d = true ∨ d = '-' := by
    refine List.forall_mem_cons.2 ⟨.inl (by decide), List.forall_mem_cons.2 ⟨.inl (by decide), ?_⟩⟩
    exact List.forall_mem_cons.2 ⟨.inl (isWord_of_beginsName hc), hk⟩
  have hlast : ('n' :: 'd' :: c :: kept).getLast? ≠ some '-' := by
    cases kept with
    | nil =>
      have hd : c ≠ '-' := by
        rintro rfl
        exact absurd hc (by decide)
      simpa using hd
    | cons d kept => simpa using hl
  have hs := Spells.name (show Lexer.beginsName 'e' = true by decide) hkept hlast hm
  have he : ("end" ++ n).toList = 'e' :: ('n' :: 'd' :: c :: kept ++ mark) := by
    rw [String.toList_append, hn]
    rfl
  rw [← he, String.ofList_toList] at hs
  exact hs

/-- A name has no line break. -/
theorem Spells.newline_notMem {text : String} {chars : List Char} (h : Spells .name text chars) :
    '\n' ∉ chars := by
  obtain ⟨c, kept, mark, rfl, hc, hk, -, hm⟩ := h.name_eq
  intro hmem
  rcases List.mem_cons.1 hmem with rfl | hmem
  · exact absurd hc (by decide)
  · rcases List.mem_append.1 hmem with hmem | hmem
    · exact absurd (hk _ hmem) (by decide)
    · rcases hm with rfl | rfl
      · cases hmem
      · exact absurd hmem (by decide)

namespace Grammar

variable {g : Grammar} {n : String} {block : Bool}

/-- The tags that a reader knows are those that are registered. -/
theorem tag?_tagBlocks (engine : Engine) (source : Option (List Char)) (n : String) :
    tag? ⟨engine.tagBlocks, source⟩ n = (engine.tags.overrides.lookup n).map HostTag.block := by
  unfold Engine.tagBlocks
  induction engine.tags.overrides with
  | nil => rfl
  | cons entry entries ih =>
    obtain ⟨name, tag⟩ := entry
    by_cases h : name = n
    · subst h
      simp [tag?]
    · have hn : (n == name) = false := beq_false_of_ne (Ne.symm h)
      rw [List.lookup_cons, hn, ← ih]
      simp [tag?, h]

/-- A tag of the host does not end a body. -/
theorem endsBody_eq_false (hn : HostKeyword n) (h : g.tag? n = some block) :
    g.endsBody n = false := by
  have hb : branchKeywords.contains n = false := by simpa using hn.branch
  have he : endKeywords.contains n = false := by simpa using hn.ends
  rw [endsBody, hb, isEnd, he, h]
  simp

/-- The end of a block ends a body, unless it is a tag of the host. -/
theorem endsBody_ending (h : "end" ++ n ∈ endKeywords ∨ g.tag? ("end" ++ n) = none) :
    g.endsBody ("end" ++ n) = true := by
  rw [endsBody, Bool.or_eq_true]
  refine .inr ?_
  rcases h with h | h
  · exact g.isEnd_of_known h
  · have hend : "end".toList.isPrefixOf ("end" ++ n).toList = true := by
      rw [String.toList_append]
      simp
    have hall : ∀ k ∈ keywords, "end".toList.isPrefixOf k.toList = false := by decide
    have hk : keywords.contains ("end" ++ n) = false := by
      simp only [List.contains_eq_mem, decide_eq_false_iff_not]
      intro hm
      exact Bool.false_ne_true ((hall _ hm).symm.trans hend)
    rw [isEnd, hend, h, hk]
    simp

end Grammar

/-! ## Their tags -/

namespace Reading

variable {g : Grammar} {next : List Token} {close keyword : Token} {block : Bool}

/-- A tag of the host that is nothing but its keyword. -/
theorem returns_host (hg : g.tag? keyword.text = some block) (hc : close.kind = .blockEnd)
    (inLoop : Bool) :
    Returns (tag g inLoop keyword (close :: next))
      (if block then .begin (.host keyword.text [] "")
        else .add (.tag keyword.position keyword.text [] [] "")) next := by
  have hargs : Returns (hostArguments keyword.text [] (close :: next)) ([], close) next := by
    rw [hostArguments, if_pos hc]
    exact returns_ok _
  unfold tag
  dsimp only
  rw [hg]
  exact returns_bind hargs fun _ => returns_ok _

end Reading

/-! ## Sources -/

/-- A tag that is nothing but a keyword. -/
def tagSource (n : String) : String := "\x7b% " ++ n ++ " %\x7d"

/-- A text between a tag and the end of its block. -/
def blockSource (n b : String) : String := tagSource n ++ b ++ tagSource ("end" ++ n)

/-- A plain text: no region is opened in it, and none with the brace of a tag behind it. -/
def PlainText (b : String) : Prop := ∀ region : Region, ¬ region.opener <:+: b.toList ++ ['\x7b']

/-- The place so many characters behind the beginning of a source, on its first line. -/
def Position.inline (k : Nat) : Position := ⟨k, 1, k⟩

/-- The nodes of a plain text between the tags of a block: one text, unless it is empty. -/
def plainBody (n b : String) : List Node :=
  if b = "" then [] else [.text (.inline (n.length + 6)) b]

theorem Position.after_eq_inline {text : List Char} (h : '\n' ∉ text) :
    Position.after text = .inline text.length := by
  have hfold (k : Nat) : text.foldl Position.step (.inline k) = .inline (k + text.length) := by
    induction text generalizing k with
    | nil => rfl
    | cons c text ih =>
      obtain ⟨hc, ht⟩ := List.ne_and_not_mem_of_not_mem_cons h
      have hstep : (Position.inline k).step c = .inline (k + 1) := if_neg (Ne.symm hc)
      rw [List.foldl_cons, hstep, ih ht, List.length_cons, Nat.add_right_comm, Nat.add_assoc]
  have := hfold 0
  rwa [Nat.zero_add] at this

/-- Where something stands behind a text without a line break. -/
theorem Position.among_eq_inline {before here : List Char} (h : '\n' ∉ before) :
    Position.among (Position.places (before ++ here)) here = .inline before.length := by
  rw [among_places, Position.of, List.length_append, Nat.add_sub_cancel, List.take_left,
    after_eq_inline h]

namespace Spelling

/-- A name as a word. -/
def ofKeyword (n : String) (h : Spells .name n n.toList) : Spelling := ⟨.name, n, n.toList, h⟩

end Spelling

variable {n b : String}

theorem toList_tagSource (h : Spells .name n n.toList) :
    (tagSource n).toList = written .tag [ofKeyword n h] := by
  simp [tagSource, written, spaced, ofKeyword, Region.opener, Region.closer]

/-- The lexemes of a tag that is nothing but a keyword, with `more` behind it. -/
def tagLexemes (n : String) (more : List Char) : List Lexeme :=
  [⟨.blockBegin, Region.tag.opener, (tagSource n).toList ++ more, false⟩,
    ⟨.name, n.toList, n.toList ++ (' ' :: (Region.tag.closer ++ more)), false⟩,
    ⟨.blockEnd, Region.tag.closer, Region.tag.closer ++ more, false⟩]

/-- A tag that is nothing but a keyword, and then what follows it. -/
theorem lexemes_tagSource (h : Spells .name n n.toList) (hv : n ≠ "comment" ∧ n ≠ "raw")
    {more : List Char} {ls : List Lexeme} (hm : Lexer.lexemes false more = .ok ls) :
    Lexer.lexemes false ((tagSource n).toList ++ more) = .ok (tagLexemes n more ++ ls) := by
  have hl := Lexer.lexemes_written (flows_singleton (w := ofKeyword n h) Token.Kind.noConfusion)
    (fun _ : Region.tag = Region.tag => ⟨_, _, rfl, hv⟩) hm false
  rw [toList_tagSource h, hl, tagLexemes, toList_tagSource h]
  rfl

/-- No tag that ends a block opens a verbatim one. -/
theorem ending_ne (n : String) : "end" ++ n ≠ "comment" ∧ "end" ++ n ≠ "raw" := by
  constructor
  all_goals
    intro h
    have hl := congrArg String.toList h
    rw [String.toList_append] at hl
    cases hl

/-- A plain text goes up to the tag behind it. -/
theorem PlainText.findOpening? (hb : PlainText b) (t : List Char) :
    Lexer.findOpening? (b.toList ++ (Region.tag.opener ++ ' ' :: t)) =
      some ⟨b.toList, .tag, Region.tag.opener ++ ' ' :: t, ⟨false, ' ' :: t⟩⟩ := by
  refine Lexer.findOpening?_eq_some.2 ⟨rfl, rfl, fun u hu hs hregion => ?_⟩
  obtain ⟨region, hpre⟩ := hregion
  dsimp only at hs
  obtain ⟨c, cs, rfl⟩ := List.exists_cons_of_ne_nil hu
  -- An opening delimiter has two characters, and the second may be the brace behind the text.
  have hbrace : region.opener <+: c :: cs ++ ['\x7b'] := by
    cases cs with
    | nil =>
      cases region with
      | output => simpa [Region.opener] using hpre
      | tag => simp [Region.opener] at hpre
    | cons d cs => cases region <;> simpa [Region.opener] using hpre
  obtain ⟨before, hs⟩ := hs
  rw [PlainText, ← hs, List.append_assoc] at hb
  exact hb region (hbrace.isInfix.trans (List.suffix_append before _).isInfix)

/-! ## What is read -/

section

variable {g : Grammar} {places : Array Position} {more : List Char} {rest : List Token}
  {nodes : List Node} {blocks : List OpenBlock}

/-- The place of the keyword of a tag. -/
def keywordPosition (places : Array Position) (n : String) (more : List Char) : Position :=
  .among places (n.toList ++ ' ' :: (Region.tag.closer ++ more))

/-- The tokens of a tag that is nothing but a keyword. -/
theorem map_tagLexemes (places : Array Position) (n : String) (more : List Char) :
    ∃ begin close : Token, begin.kind = .blockBegin ∧ close.kind = .blockEnd ∧
      (tagLexemes n more).map (Lexeme.toToken places) =
        [begin, ⟨.name, n, keywordPosition places n more, false⟩, close] := by
  have hk : Lexeme.toToken places
      ⟨.name, n.toList, n.toList ++ (' ' :: (Region.tag.closer ++ more)), false⟩ =
        ⟨.name, n, keywordPosition places n more, false⟩ :=
    congrArg (fun text => (⟨.name, text, keywordPosition places n more, false⟩ : Token))
      String.ofList_toList
  rw [tagLexemes, List.map_cons, List.map_cons, hk, List.map_singleton]
  exact ⟨_, _, rfl, rfl, rfl⟩

theorem readNodes_host {block : Bool} (hn : HostKeyword n) (hg : g.tag? n = some block) :
    readNodes g nodes blocks ((tagLexemes n more).map (Lexeme.toToken places) ++ rest) =
      if block then
        readNodes g [] (⟨keywordPosition places n more, .host n [] "", nodes⟩ :: blocks) rest
      else readNodes g (.tag (keywordPosition places n more) n [] [] "" :: nodes) blocks rest := by
  obtain ⟨begin, close, hb, hc, htokens⟩ := map_tagLexemes places n more
  rw [htokens]
  have he := Grammar.endsBody_eq_false hn hg
  let keyword : Token := ⟨.name, n, keywordPosition places n more, false⟩
  have hr : Returns (tag g (blocks.any OpenBlock.isLoopBody) keyword (close :: rest)) _ rest :=
    returns_host hg hc _
  cases block with
  | true => exact readNodes_tag hb rfl he hr
  | false => exact readNodes_adds hb rfl he hr

theorem readNodes_ending (he : g.endsBody ("end" ++ n) = true) (pos : Position)
    (before : List Node) :
    readNodes g nodes (⟨pos, .host n [] "", before⟩ :: blocks)
        ((tagLexemes ("end" ++ n) more).map (Lexeme.toToken places) ++ rest) =
      readNodes g (.tag pos n [] nodes.reverse "" :: before) blocks rest := by
  obtain ⟨begin, close, hb, hc, htokens⟩ := map_tagLexemes places ("end" ++ n) more
  rw [htokens]
  exact readNodes_end (b := ⟨pos, .host n [] "", before⟩) hb rfl rfl rfl he hc

/-- A text is read as it stands; where it is empty, nothing is read. -/
theorem readNodes_dataOf (b : String) (here : List Char) :
    readNodes g nodes blocks ((dataOf b.toList here).map (Lexeme.toToken places) ++ rest) =
      readNodes g ((if b = "" then [] else [.text (.among places here) b]) ++ nodes) blocks
        rest := by
  by_cases hb : b = ""
  · subst hb
    rfl
  · have hne : b.toList ≠ [] := fun h => hb (String.toList_eq_nil_iff.1 h)
    rw [dataOf, if_neg hne, if_neg hb, List.map_singleton, List.singleton_append,
      readNodes_text rfl]
    exact congrArg (fun text => readNodes g (.text _ text :: nodes) blocks rest)
      String.ofList_toList

theorem keywordPosition_tagSource (n : String) (more : List Char) :
    keywordPosition (Position.places ((tagSource n).toList ++ more)) n more = .inline 3 := by
  have hs : (tagSource n).toList ++ more =
      ['\x7b', '%', ' '] ++ (n.toList ++ ' ' :: (Region.tag.closer ++ more)) := by
    simp [tagSource, Region.closer]
  rw [hs]
  exact Position.among_eq_inline (by decide)

theorem textPosition_tagSource (h : Spells .name n n.toList) (here : List Char) :
    Position.among (Position.places ((tagSource n).toList ++ here)) here =
      .inline (n.length + 6) := by
  have hl : '\n' ∉ (tagSource n).toList := by
    simp [tagSource, h.newline_notMem]
  have hlength : (tagSource n).toList.length = n.length + 6 := by
    simp only [tagSource, String.toList_append, List.length_append, String.length_toList]
    change 3 + n.length + 3 = n.length + 6
    omega
  rw [Position.among_eq_inline hl, hlength]

end

section

variable {engine : Engine} {tag : HostTag}

/-- A tag of the host without a body is read as one node, whatever the language has of its name. -/
theorem parse_tagSource (hn : HostKeyword n) (ht : engine.tags.overrides.lookup n = some tag)
    (hb : tag.block = false) :
    parse engine.tagBlocks (tagSource n) = .ok [.tag (.inline 3) n [] [] ""] := by
  have hl := lexemes_tagSource hn.spells hn.verbatim (Lexer.lexemes_nil false)
  have hp := keywordPosition_tagSource n []
  have hg : Grammar.tag? ⟨engine.tagBlocks, some (tagSource n).toList⟩ n = some false := by
    rw [Grammar.tag?_tagBlocks, ht, ← hb]
    rfl
  rw [List.append_nil] at hl hp
  have htokens := tokenize_of_lexemes hl
  rw [String.ofList_toList, List.map_append] at htokens
  rw [parse_of_tokenize htokens, parseTokens, readNodes_host hn hg, hp]
  exact readNodes_eof rfl

/-- What stands behind the tag of a block around a text. -/
def behindTag (n b : String) : List Char := b.toList ++ ((tagSource ("end" ++ n)).toList ++ [])

theorem toList_blockSource (n b : String) :
    (blockSource n b).toList = (tagSource n).toList ++ behindTag n b := by
  simp [blockSource, behindTag]

theorem lexemes_blockSource (hn : HostKeyword n) (hb : PlainText b) :
    Lexer.lexemes false (blockSource n b).toList =
      .ok (tagLexemes n (behindTag n b) ++ (dataOf b.toList (behindTag n b) ++
        (tagLexemes ("end" ++ n) [] ++ [⟨.eof, [], [], false⟩]))) := by
  have hend := lexemes_tagSource hn.spells.ending (ending_ne n) (Lexer.lexemes_nil false)
  rw [toList_tagSource hn.spells.ending] at hend
  have htext := Lexer.lexemes_text hb.findOpening? hend
  rw [← toList_tagSource hn.spells.ending, data_eq] at htext
  rw [toList_blockSource, behindTag, lexemes_tagSource hn.spells hn.verbatim htext]
  rfl

/-- A block around a plain text is read up to what its end is read as. -/
theorem parse_blockSource_eq (hn : HostKeyword n) (hb : PlainText b)
    (ht : engine.tags.overrides.lookup n = some tag) (hblock : tag.block = true) :
    parse engine.tagBlocks (blockSource n b) =
      readNodes ⟨engine.tagBlocks, some (blockSource n b).toList⟩ (plainBody n b)
        [⟨.inline 3, .host n [] "", []⟩]
        ((tagLexemes ("end" ++ n) []).map
            (Lexeme.toToken (Position.places (blockSource n b).toList)) ++
          [⟨.eof, "", .among (Position.places (blockSource n b).toList) [], false⟩]) := by
  have hg : Grammar.tag? ⟨engine.tagBlocks, some (blockSource n b).toList⟩ n = some true := by
    rw [Grammar.tag?_tagBlocks, ht, ← hblock]
    rfl
  have hp : keywordPosition (Position.places (blockSource n b).toList) n (behindTag n b) =
      .inline 3 := by
    rw [toList_blockSource, keywordPosition_tagSource]
  have htext : Position.among (Position.places (blockSource n b).toList) (behindTag n b) =
      .inline (n.length + 6) := by
    rw [toList_blockSource, textPosition_tagSource hn.spells]
  have htokens := tokenize_of_lexemes (lexemes_blockSource hn hb)
  rw [String.ofList_toList, List.map_append, List.map_append, List.map_append] at htokens
  rw [parse_of_tokenize htokens, parseTokens, readNodes_host hn hg, if_pos rfl, hp,
    readNodes_dataOf, htext, List.append_nil, plainBody]
  rfl

/-- A block of the host around a plain text is read as one node, unless its end is a tag of the host
itself. -/
theorem parse_blockSource (hn : HostKeyword n) (hb : PlainText b)
    (ht : engine.tags.overrides.lookup n = some tag) (hblock : tag.block = true)
    (hend : "end" ++ n ∈ Grammar.endKeywords ∨ engine.tags.overrides.lookup ("end" ++ n) = none) :
    parse engine.tagBlocks (blockSource n b) = .ok [.tag (.inline 3) n [] (plainBody n b) ""] := by
  let g : Grammar := ⟨engine.tagBlocks, some (blockSource n b).toList⟩
  have he : g.endsBody ("end" ++ n) = true := by
    refine Grammar.endsBody_ending (hend.imp_right fun h => ?_)
    rw [Grammar.tag?_tagBlocks, h]
    rfl
  have hreverse : (plainBody n b).reverse = plainBody n b := by
    unfold plainBody
    split <;> rfl
  rw [parse_blockSource_eq hn hb ht hblock, readNodes_ending he, hreverse]
  exact readNodes_eof rfl

/-- A block of the host whose end is a tag of the host is never closed. -/
theorem parse_blockSource_of_registered (hn : HostKeyword n) (hb : PlainText b)
    (ht : engine.tags.overrides.lookup n = some tag) (hblock : tag.block = true)
    (he : HostKeyword ("end" ++ n)) {ending : HostTag}
    (hend : engine.tags.overrides.lookup ("end" ++ n) = some ending) :
    ∃ pos, parse engine.tagBlocks (blockSource n b) =
      .error ⟨.unclosedBlock (if ending.block then "end" ++ n else n), pos⟩ := by
  have hg : Grammar.tag? ⟨engine.tagBlocks, some (blockSource n b).toList⟩ ("end" ++ n) =
      some ending.block := by
    rw [Grammar.tag?_tagBlocks, hend]
    rfl
  rw [parse_blockSource_eq hn hb ht hblock, readNodes_host he hg]
  cases ending.block with
  | true => exact ⟨_, readNodes_eof rfl⟩
  | false => exact ⟨_, readNodes_eof rfl⟩

end

/-! ## What is rendered -/

/-- The view after a local name is bound. -/
def View.assign (view : View) (name : String) (v : Value) : View :=
  { view with scope := view.scope.assign name v }

/-- What a tag comes to that sees a view, when its body is the same text wherever it is rendered. -/
def Program.answer (body : String) : View → Program → Except Error Value
  | _, .done v => .ok v
  | _, .fail e => .error e
  | view, .body _ next => answer body view (next body)
  | view, .look next => answer body view (next view)
  | view, .assign name v next => answer body (view.assign name v) next

namespace Run

variable {s : Setting} {text : String} {line : Int}

/-- On a line, a run renders to a text and leaves everything as it is. -/
def Yields (line : Int) (text : String) (run : Run (String × Option Signal)) : Prop :=
  ∀ st : State, st.line = line → run st = (.ok (text, none), st)

/-- The steps of a tag come to its answer, and bind local names at most. -/
theorem program_answers {body : Surrounding → Run (String × Option Signal)}
    (hb : ∀ where_, Yields line text (body where_)) (p : Program) {st : State}
    (hl : st.line = line) :
    ∃ locals, program s body p none st =
      (((p.answer text (s.view st)).map fun v => (v, none)).mapError Stop.error,
        { st with locals }) := by
  induction p generalizing st with
  | done v => exact ⟨st.locals, rfl⟩
  | fail e => exact ⟨st.locals, rfl⟩
  | body where_ next ih =>
    rw [program, bind_of_ok (hb where_ st hl)]
    exact ih text hl
  | look next ih => exact ih (s.view st) hl
  | assign name v next ih =>
    let next : State := { st with locals := st.locals.set name v }
    obtain ⟨locals, h⟩ := ih (show next.line = line from hl)
    exact ⟨locals, h⟩

theorem renderNodes_plainBody (deeper : Option Renderer) (s : Setting) (n b : String) {st : State}
    (hl : st.line = 1) :
    renderNodes deeper s (plainBody n b) st = (.ok (), { st with output := st.output ++ b }) := by
  unfold plainBody
  split
  · rename_i hb
    rw [hb, String.append_empty, renderNodes_nil]
    rfl
  · rw [renderNodes_cons, renderNode, renderNodes_nil]
    change (Except.ok (), { st with line := 1, output := st.output ++ b }) = _
    rw [← hl]

theorem yields_capturedToSignal {run : Run Unit}
    (h : ∀ st : State, st.line = line →
      run st = (.ok (), { st with output := st.output ++ text })) :
    Yields line text (capturedToSignal run) := by
  intro st hl
  rw [capturedToSignal_apply, h { st with output := "" } hl]
  dsimp only
  rw [String.empty_append]

theorem renderNodes_singleton (deeper : Option Renderer) (s : Setting) (n : Node) (st : State) :
    renderNodes deeper s [n] st = renderNode deeper s n { st with line := n.pos.line } := by
  rw [renderNodes_cons, renderNodes_nil]
  change (renderNode deeper s n >>= fun _ => pure ()) { st with line := n.pos.line } = _
  rw [bind_apply]
  rcases renderNode deeper s n { st with line := n.pos.line } with ⟨_ | _, _⟩ <;> rfl

/-- A text between the tags of a block renders to itself, among whatever names. -/
theorem yields_plainBody (deeper : Option Renderer) (s : Setting) (n b : String)
    (where_ : Surrounding) :
    Yields 1 b (inSurrounding s where_ fun inner =>
      capturedToSignal (renderNodes deeper inner (plainBody n b))) := by
  have hinner (inner : Setting) :
      Yields 1 b (capturedToSignal (renderNodes deeper inner (plainBody n b))) :=
    yields_capturedToSignal fun _ hl => renderNodes_plainBody deeper inner n b hl
  cases where_ with
  | here => exact hinner _
  | inside frame => exact hinner _
  | isolated data =>
    intro st hl
    unfold inSurrounding isolate
    dsimp only
    rw [hinner _ { st with locals := [], positions := .outside _ } hl]

/-- A tag of the host without arguments writes what its function answers. -/
theorem hostTag_answers {name : String} {tag : HostTag} (ht : s.engine.tags.get? name = some tag)
    {body : Surrounding → Run (String × Option Signal)}
    (hb : ∀ where_, Yields line text (body where_)) {st : State} (hl : st.line = line) :
    ∃ locals, hostTag s name [] body st =
      match ((tag.run []).answer text (s.view st)) with
      | .ok v => (.ok (), { st with locals, output := st.output ++ v.toText })
      | .error e => (.error (.error (e.withinTag name)), { st with locals }) := by
  obtain ⟨locals, hp⟩ := program_answers (s := s) hb (tag.run []) hl
  refine ⟨locals, ?_⟩
  have harguments : evalArguments s [] st = (.ok [], st) := rfl
  have hrun : onError (Error.withinTag name) (program s body (tag.run []) none) st =
      ((((tag.run []).answer text (s.view st)).map fun v => (v, none)).mapError fun e =>
        .error (e.withinTag name), { st with locals }) := by
    unfold onError
    rw [hp]
    cases (tag.run []).answer text (s.view st) <;> rfl
  unfold hostTag
  rw [ht]
  dsimp only
  rw [bind_of_ok harguments]
  cases ha : (tag.run []).answer text (s.view st) with
  | error e =>
    rw [ha] at hrun
    exact bind_of_error hrun
  | ok v =>
    rw [ha] at hrun
    rw [bind_of_ok hrun]
    rfl

end Run

namespace Environment

variable {env : Environment} {n b : String} {tag : HostTag}

/-- What a tag on the first line of a template sees. -/
def firstView (env : Environment) (t : Template) (data : Bindings) : View :=
  let s := env.setting data (some (env.placeOf t))
  s.view { env.start s with line := 1 }

/-- What the function of a tag comes to on the first line of a template when its body is a text: the
text of its value, or its error as that of the tag. -/
def outcomeOf (env : Environment) (t : Template) (data : Bindings) (n : String) (tag : HostTag)
    (body : String) : Except Error String :=
  ((tag.run []).answer body (env.firstView t data)).mapError (fun e =>
    (e.withinTag n).positioned (some (env.placeOf t)) 1) |>.map Value.toText

/-- A template that is one tag around a text is rendered as what the tag's function comes to. -/
theorem render_host (ht : env.engine.tags.overrides.lookup n = some tag) (t : Template)
    (hnodes : t.nodes = [.tag (.inline 3) n [] (plainBody n b) ""]) (data : Bindings) :
    env.render t data = (env.outcomeOf t data n tag b, env) := by
  let s := env.setting data (some (env.placeOf t))
  have hget : s.engine.tags.get? n = some tag := by
    change (env.engine.tags.overrides.lookup n).or _ = some tag
    rw [ht]
    rfl
  let st : State := { env.start s with line := 1 }
  obtain ⟨locals, hrun⟩ := Run.hostTag_answers hget
    (Run.yields_plainBody (below env.levels) s n b) (show st.line = 1 from rfl)
  have hnode : renderNodes (below env.levels) s t.nodes { env.start s with line := 0 } =
      renderNode (below env.levels) s (.tag (.inline 3) n [] (plainBody n b) "") st := by
    rw [hnodes, Run.renderNodes_singleton]
    rfl
  rw [renderNode] at hnode
  unfold render outcomeOf
  dsimp only
  rw [Run.enter_apply, hnode, hrun]
  change _ = (((tag.run []).answer b (s.view st)).mapError _ |>.map Value.toText, env)
  cases (tag.run []).answer b (s.view st) with
  | error e => rfl
  | ok v =>
    change (Except.ok ("" ++ v.toText), env) = _
    rw [String.empty_append]
    rfl

/-- **Tags of the host go first.** The source of a tag that the host has registered, under whatever
name it can go by, is read as one node, with the plain text of its body if it has one, and the
template is rendered by running what is registered under the name.  What closes a block must not be
a tag of the host itself, unless it closes a block of the language. -/
theorem runs_host_tag (env : Environment) (hn : HostKeyword n)
    (ht : env.engine.tags.overrides.lookup n = some tag) (name : Option String) (data : Bindings) :
    (tag.block = false →
      ∃ t, env.read (tagSource n) name = .ok t ∧ t.nodes = [.tag (.inline 3) n [] [] ""] ∧
        env.render t data = (env.outcomeOf t data n tag "", env)) ∧
    (tag.block = true →
      "end" ++ n ∈ Grammar.endKeywords ∨ env.engine.tags.overrides.lookup ("end" ++ n) = none →
      ∀ b, PlainText b →
        ∃ t, env.read (blockSource n b) name = .ok t ∧
          t.nodes = [.tag (.inline 3) n [] (plainBody n b) ""] ∧
          env.render t data = (env.outcomeOf t data n tag b, env)) := by
  refine ⟨fun hblock => ?_, fun hblock hend b hb => ?_⟩
  · exact ⟨_, read_of_parse name (parse_tagSource hn ht hblock), rfl, render_host ht _ rfl data⟩
  · exact ⟨_, read_of_parse name (parse_blockSource hn hb ht hblock hend), rfl,
      render_host ht _ rfl data⟩

/-- A tag that puts its body between brackets. -/
def bracketing : HostTag :=
  ⟨true, fun _ => .body .here fun text => .text ("[" ++ text ++ "]")⟩

/-- A tag without a body. -/
def marking : HostTag := ⟨false, fun _ => .text "!"⟩

/-- An environment with some tags of the host. -/
def hosting (tags : List (String × HostTag)) : Environment :=
  { bare with engine := { bare.engine with tags := { overrides := tags } } }

theorem hostKeyword_if : HostKeyword "if" := ⟨ofIf.spells, by decide, by decide, by decide⟩

theorem plainText_b : PlainText "b" := by
  intro region
  cases region <;> decide

/-- Tags of the host in the places of `if` and `assign`. -/
theorem runs_host_tag_if :
    ∃ env : Environment,
      HostKeyword "if" ∧ env.engine.tags.overrides.lookup "if" = some bracketing ∧
        HostKeyword "assign" ∧ env.engine.tags.overrides.lookup "assign" = some marking ∧
        PlainText "b" ∧
        (∃ t, env.read (blockSource "if" "b") none = .ok t ∧ (env.render t []).1 = .ok "[b]") ∧
        ∃ t, env.read (tagSource "assign") none = .ok t ∧ (env.render t []).1 = .ok "!" := by
  let env := hosting [("if", bracketing), ("assign", marking)]
  have hassign : HostKeyword "assign" :=
    ⟨(ofName 'a' ['s', 's', 'i', 'g', 'n'] rfl).spells, by decide, by decide, by decide⟩
  have htag : env.engine.tags.overrides.lookup "if" = some bracketing := rfl
  have htag' : env.engine.tags.overrides.lookup "assign" = some marking := rfl
  obtain ⟨t, ht, -, hrender⟩ :=
    (runs_host_tag env hostKeyword_if htag none []).2 rfl (.inl (by decide)) "b" plainText_b
  obtain ⟨t', ht', -, hrender'⟩ := (runs_host_tag env hassign htag' none []).1 rfl
  refine ⟨env, hostKeyword_if, htag, hassign, htag', plainText_b, ⟨t, ht, ?_⟩, ⟨t', ht', ?_⟩⟩
  · rw [hrender]
    rfl
  · rw [hrender']
    rfl

/-- A block whose end is a tag of the host itself is not closed by it. -/
theorem not_always_one_tag :
    ¬ ∀ (env : Environment) (n b : String) (tag : HostTag),
      env.engine.tags.overrides.lookup n = some tag → Spells .name n n.toList →
        n ∉ Grammar.branchKeywords → n ∉ Grammar.endKeywords → tag.block = true → PlainText b →
          ∃ t pos body, env.read (blockSource n b) none = .ok t ∧
            t.nodes = [.tag pos n [] body ""] := by
  intro h
  let env := hosting [("box", bracketing), ("endbox", marking)]
  have hbox : HostKeyword "box" :=
    ⟨(ofName 'b' ['o', 'x'] rfl).spells, by decide, by decide, by decide⟩
  have hend : HostKeyword "endbox" :=
    ⟨(ofName 'e' ['n', 'd', 'b', 'o', 'x'] rfl).spells, by decide, by decide, by decide⟩
  obtain ⟨t, -, -, ht, -⟩ :=
    h env "box" "b" bracketing rfl hbox.spells hbox.branch hbox.ends rfl plainText_b
  have htag : env.engine.tags.overrides.lookup "box" = some bracketing := rfl
  have hending : env.engine.tags.overrides.lookup ("end" ++ "box") = some marking := rfl
  obtain ⟨pos, hp⟩ := parse_blockSource_of_registered hbox plainText_b htag rfl hend hending
  rw [read, Engine.read] at ht
  cases hr : Template.read env.engine.tagBlocks (blockSource "box" "b") none none with
  | error e =>
    rw [hr] at ht
    cases ht
  | ok u =>
    have hu := Template.read_nodes hr
    rw [hp] at hu
    cases hu

end Environment

end Liquid
