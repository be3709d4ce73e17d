import Liquid.Expr.Parser
import Liquid.Node.Basic
import Liquid.Text.Blank
import Liquid.Token.Lexer

/-!
# Reading nodes

Tokens are read from left to right with a stack of open blocks.  A tag either stands for itself,
opens a block, begins another branch of the innermost open block, or closes that block.

* `Grammar.isEnd_of_known`: the end tags of the blocks of the language are never taken for anything
  else.
* `readNodes` consumes tokens with every step, which is why reading ends.
-/
namespace Liquid

/-- What a reader knows beside the tokens: the tags of the host, each with the news whether it has
a body, and the source, if it is at hand. -/
structure Grammar where
  tags : List (String × Bool)
  source : Option (List Char)

namespace Grammar

/-- The keywords that open the tags of the language. -/
def keywords : List String :=
  ["if", "unless", "for", "case", "break", "continue", "assign", "capture", "comment", "raw", "#",
    "include", "render"]

/-- The keywords that begin another branch of a block. -/
def branchKeywords : List String := ["elsif", "else", "when"]

/-- The keywords that close the blocks of the language. -/
def endKeywords : List String :=
  ["endif", "endunless", "endfor", "endcase", "endcapture", "endcomment", "endraw"]

/-- Whether the host has a tag of this name, and whether that tag has a body. -/
def tag? (g : Grammar) (name : String) : Option Bool :=
  (g.tags.find? fun (n, _) => n == name).map Prod.snd

/-- Whether a keyword closes a block: one of the language, or one that begins with `end` and means
nothing else. -/
def isEnd (g : Grammar) (name : String) : Bool :=
  endKeywords.contains name ||
    ("end".toList.isPrefixOf name.toList && (g.tag? name).isNone && !keywords.contains name)

theorem isEnd_of_known (g : Grammar) {name : String} (h : name ∈ endKeywords) :
    g.isEnd name = true := by
  simp [isEnd, h]

/-- Whether a tag with this keyword does not belong to the body it is found in. -/
def endsBody (g : Grammar) (name : String) : Bool := branchKeywords.contains name || g.isEnd name

/-- The source between two places, without blanks around it and without a mark to trim at its
end. -/
def markup (g : Grammar) (first stop : Position) : String :=
  match g.source with
  | none => ""
  | some source =>
    let text := Text.trim ((source.drop first.offset).take (stop.offset - first.offset))
    String.ofList (Text.trimEnd (if text.getLast? = some '-' then text.dropLast else text))

end Grammar

/-! ## Open blocks -/

/-- Which part of a conditional is being read. -/
inductive ConditionalPart where
  | body
  | branch (test : Expr)
  | otherwise

/-- Which part of a choice is being read.  What stands before the first branch is dropped. -/
inductive ChoicePart where
  | preamble
  | branch (pos : Position) (values : List Expr)
  | otherwise

/-- The part of a block that is read already. -/
inductive BlockKind where
  | conditional (negated : Bool) (test : Expr) (body : List Node) (branches : List (Branch Node))
      (part : ConditionalPart)
  | loop (head : LoopHead) (body : Option (List Node))
  | choice (subject : Expr) (whens : List (When Node)) (part : ChoicePart)
  | capture (name : String)
  | host (name : String) (arguments : List Expr) (markup : String)

/-- A block that is open: the place of its keyword, what of it is read, and the nodes that stand
before it in the body around it, in reverse. -/
structure OpenBlock where
  pos : Position
  kind : BlockKind
  before : List Node

namespace OpenBlock

/-- The keyword that opened the block. -/
def name (b : OpenBlock) : String :=
  match b.kind with
  | .conditional negated _ _ _ _ => if negated then "unless" else "if"
  | .loop _ _ => "for"
  | .choice _ _ _ => "case"
  | .capture _ => "capture"
  | .host name _ _ => name

/-- Whether the body of a loop is being read. -/
def isLoopBody (b : OpenBlock) : Bool :=
  match b.kind with
  | .loop _ none => true
  | _ => false

/-- The node of the block, whose last body is `nodes`. -/
def close (b : OpenBlock) (nodes : List Node) : Node :=
  match b.kind with
  | .conditional negated test body branches part =>
    match part with
    | .body => .conditional b.pos negated test nodes [] []
    | .branch t => .conditional b.pos negated test body (branches ++ [⟨t, nodes⟩]) []
    | .otherwise => .conditional b.pos negated test body branches nodes
  | .loop head body =>
    match body with
    | none => .loop b.pos head nodes []
    | some body => .loop b.pos head body nodes
  | .choice subject whens part =>
    match part with
    | .preamble => .choice b.pos subject [] []
    | .branch pos values => .choice b.pos subject (whens ++ [⟨pos, values, nodes⟩]) []
    | .otherwise => .choice b.pos subject whens nodes
  | .capture name => .capture b.pos name nodes
  | .host name arguments markup => .tag b.pos name arguments nodes markup

/-- The block once the body before another test is read, if it takes another test. -/
def elsif? (b : OpenBlock) (nodes : List Node) (next : Expr) : Option OpenBlock :=
  match b.kind with
  | .conditional negated test body branches part =>
    match part with
    | .body => some { b with kind := .conditional negated test nodes [] (.branch next) }
    | .branch t =>
      some
        { b with
          kind := .conditional negated test body (branches ++ [⟨t, nodes⟩]) (.branch next) }
    | .otherwise => none
  | _ => none

/-- The block once the body before `else` is read, if it takes one. -/
def else? (b : OpenBlock) (nodes : List Node) : Option OpenBlock :=
  match b.kind with
  | .conditional negated test body branches part =>
    match part with
    | .body => some { b with kind := .conditional negated test nodes [] .otherwise }
    | .branch t =>
      some { b with kind := .conditional negated test body (branches ++ [⟨t, nodes⟩]) .otherwise }
    | .otherwise => none
  | .loop head none => some { b with kind := .loop head (some nodes) }
  | .choice subject whens part =>
    match part with
    | .preamble => some { b with kind := .choice subject [] .otherwise }
    | .branch pos values =>
      some { b with kind := .choice subject (whens ++ [⟨pos, values, nodes⟩]) .otherwise }
    | .otherwise => none
  | _ => none

/-- The block once the body before another branch for values is read, if it takes one. -/
def when? (b : OpenBlock) (nodes : List Node) (pos : Position) (values : List Expr) :
    Option OpenBlock :=
  match b.kind with
  | .choice subject whens part =>
    match part with
    | .preamble => some { b with kind := .choice subject [] (.branch pos values) }
    | .branch p vs =>
      some { b with kind := .choice subject (whens ++ [⟨p, vs, nodes⟩]) (.branch pos values) }
    | .otherwise => none
  | _ => none

/-- Whether the block takes a branch with this keyword at this point. -/
def takes (b : OpenBlock) (keyword : String) : Bool :=
  match b.kind with
  | .conditional _ _ _ _ .otherwise => false
  | .conditional _ _ _ _ _ => keyword == "elsif" || keyword == "else"
  | .loop _ none => keyword == "else"
  | .choice _ _ .otherwise => false
  | .choice _ _ _ => keyword == "when" || keyword == "else"
  | _ => false

end OpenBlock

/-! ## Tags -/

namespace Reading

/-- The end tag of a block that was opened with the keyword `name` at `opened`. -/
def endTag (g : Grammar) (name : String) (opened : Position) (s : List Token) :
    Reading Unit s.length :=
  match s with
  | [] => throw ⟨.unclosedBlock name, opened⟩
  | t :: rest =>
    if t.kind = .eof then throw ⟨.unclosedBlock name, opened⟩
    else
      match rest with
      | [] => throw ((Mistake.expectedEnd name).at t)
      | keyword :: rest =>
        if t.kind ≠ .blockBegin ∨ keyword.kind ≠ .name then throw ((Mistake.expectedEnd name).at t)
        else if keyword.text ≠ "end" ++ name then
          if g.isEnd keyword.text then
            throw ((Mistake.mismatchedEnd name keyword.text opened.line).at keyword)
          else throw ((Mistake.unexpectedInside name keyword.text).at keyword)
        else do
          let close ← expect .blockEnd
            (fun _ => .expectedText ("'%\x7d' after 'end" ++ name ++ "'")) rest
          return ((close.giving ()).behind keyword).behind t

/-- An output, behind its opening delimiter. -/
def output (begin : Token) (s : List Token) : Reading Node s.length :=
  if (nextToken s).kind = .variableEnd then do
    return (← expectKind .variableEnd s).map fun close =>
      .output begin.position none [] begin.trim close.trim
  else do
    let value ← Expr.primary s
    let filters ← FilterCall.filters .variableEnd value.rest
    let close ← expectKind .variableEnd filters.rest
    return value.followedBy (filters.optionFollowedBy (close.giving
      (.output begin.position (some value.value) filters.value begin.trim close.value.trim)))

/-- An expression and the end of its tag. -/
def condition (s : List Token) : Reading Expr s.length := do (← Expr.expression s).toEnd

/-- The options of a loop: a limit, an offset and the direction, in any order. -/
def loopOptions (head : LoopHead) (s : List Token) : Reading LoopHead s.length :=
  match s with
  | [] => throw ((Mistake.unknownOption "").at Token.atEnd)
  | t :: rest =>
    if t.kind = .blockEnd then pure (.taken head t rest)
    else if t.kind = .comma then do
      return (← loopOptions head rest).behind t
    else if t.isName "reversed" then do
      return (← loopOptions { head with reversed := true } rest).behind t
    else
      match rest with
      | colon :: rest =>
        if (t.isName "limit" ∨ t.isName "offset") ∧ colon.kind = .colon then do
          let value ← Expr.primary rest
          have _h := value.within
          let head := if t.text = "limit" then { head with limit := some value.value }
            else { head with offset := some value.value }
          return ((value.followedBy (← loopOptions head value.rest)).behind colon).behind t
        else throw ((Mistake.unknownOption t.text).at t)
      | [] => throw ((Mistake.unknownOption t.text).at t)
termination_by s.length
decreasing_by all_goals (simp only [List.length_cons]; omega)

/-- What a loop goes through, behind its keyword. -/
def loopHead (s : List Token) : Reading LoopHead s.length := do
  let target ← expectName "loop variable name after 'for'" s
  let word ← expectWord "in" .expectedIn target.rest
  let items ← Expr.primary word.rest
  let head ← loopOptions ⟨target.value, items.value, none, none, false⟩ items.rest
  return target.followedBy (word.followedBy (items.followedBy head))

/-- Further values of a branch, each behind a comma or `or`. -/
def moreValues (s : List Token) : Reading (List Expr) (s.length + 1) :=
  match s with
  | [] => pure (.absent [] [])
  | t :: rest =>
    if t.kind = .comma ∨ t.isName "or" then do
      let value ← Expr.primary rest
      have h := value.within
      let more ← moreValues value.rest
      pure ⟨value.value :: more.value, more.rest, by
        have := more.within; simp only [List.length_cons]; omega⟩
    else pure (.absent [] (t :: rest))
termination_by s.length
decreasing_by simp only [List.length_cons]; omega

/-- The values of a branch and the end of its tag. -/
def whenValues (s : List Token) : Reading (List Expr) s.length := do
  let first ← Expr.primary s
  let more ← moreValues first.rest
  let close ← expectKind .blockEnd more.rest
  return first.followedBy (more.optionFollowedBy (close.giving (first.value :: more.value)))

/-- An assignment, behind its keyword. -/
def assign (pos : Position) (s : List Token) : Reading Node s.length := do
  let name ← expectName "variable name after 'assign'" s
  let sign ← expect .assign
    (fun _ => .expectedText ("'=' after '" ++ name.value ++ "' in assign")) name.rest
  let value ← Expr.primary sign.rest
  let filters ← FilterCall.filters .blockEnd value.rest
  let close ← expectKind .blockEnd filters.rest
  let node := close.giving (.assign pos name.value value.value filters.value)
  return name.followedBy (sign.followedBy (value.followedBy (filters.optionFollowedBy node)))

/-- The name of a captured text, which may be quoted, and the end of the tag. -/
def captureName (s : List Token) : Reading String s.length := do
  let name ← if (nextToken s).kind = .string then do
      pure ((← expectKind .string s).map Token.text)
    else expectName "variable name after 'capture'" s
  name.toEnd

/-- The options of a tag that renders another template. -/
structure Options where
  given : Option Expr := none
  each : Option Expr := none
  called : Option String := none
  bindings : List (String × Expr) := []

/-- A name behind `as`, if there is one. -/
def calledAs? (known : Option String) (s : List Token) : Reading (Option String) (s.length + 1) :=
  match s with
  | [] => pure (.absent known [])
  | t :: rest =>
    if t.isName "as" then do
      return (((← expectName "a name after 'as'" rest).map some).behind t).optional
    else pure (.absent known (t :: rest))

/-- A value may be given once, and only where it is allowed one for each item of it. -/
def Options.allow (o : Options) (allowEach : Bool) (t : Token) : Except Misplaced Unit :=
  if t.text = "for" ∧ !allowEach then throw (Mistake.noForInRender.at t)
  else if o.given.isSome ∨ o.each.isSome then throw (Mistake.doubleOption.at t)
  else pure ()

/-- The options with a value that is given, as a whole or item by item. -/
def Options.give (o : Options) (word : String) (value : Expr) (called : Option String) : Options :=
  if word = "with" then { o with given := some value, called }
  else { o with each := some value, called }

/-- The options of `include` or `render` up to the end of the tag. -/
def options (keyword : String) (allowEach : Bool) (o : Options) (s : List Token) :
    Reading Options s.length :=
  match s with
  | [] => throw ((Mistake.unexpectedOption "" keyword).at Token.atEnd)
  | t :: rest =>
    if t.kind = .blockEnd then pure (.taken o t rest)
    else if t.kind = .comma then do
      return (← options keyword allowEach o rest).behind t
    else if t.kind = .name ∧ (nextToken rest).kind = .colon then do
      let value ← Expr.primary rest.tail
      have h := value.within
      return (← options keyword allowEach
        { o with bindings := o.bindings ++ [(t.text, value.value)] } value.rest).widen (by
          simp only [List.length_tail] at h; simp only [List.length_cons]; omega)
    else if t.isName "with" ∨ t.isName "for" then do
      o.allow allowEach t
      let value ← Expr.primary rest
      let called ← calledAs? o.called value.rest
      have h₁ := value.within
      have h₂ := called.within
      return (← options keyword allowEach (o.give t.text value.value called.value)
        called.rest).widen (by simp only [List.length_cons]; omega)
    else throw ((Mistake.unexpectedOption t.text keyword).at t)
termination_by s.length
decreasing_by
  · simp
  · simp only [List.length_tail] at h; simp only [List.length_cons]; omega
  · simp only [List.length_cons]; omega

/-- What is rendered in place, from the name of the template and the options. -/
def Options.inclusion (o : Options) (template : Expr) : Inclusion :=
  ⟨template, o.given, o.called, o.bindings⟩

/-- A template rendered in the same scope, behind its keyword. -/
def includeTag (pos : Position) (s : List Token) : Reading Node s.length := do
  let template ← Expr.primary s
  let o ← options "include" true {} template.rest
  return template.followedBy (o.map fun o => .include pos (o.inclusion template.value) o.each)

/-- A template rendered in a scope of its own, behind its keyword. -/
def renderTag (pos : Position) (s : List Token) : Reading Node s.length := do
  if (nextToken s).kind ≠ .string then throw (Mistake.expectedQuotedName.at (nextToken s))
  let template ← Expr.primary s
  let o ← options "render" false {} template.rest
  return template.followedBy (o.map fun o => .render pos (o.inclusion template.value))

/-- The tokens from the end of the tag on. -/
def skipToEnd (s : List Token) : List Token :=
  s.dropWhile fun t => t.kind != .blockEnd && t.kind != .eof

/-- The content of a verbatim block and its end tag, behind the end of its opening tag. -/
def verbatim (g : Grammar) (name : String) (pos : Position) (s : List Token) :
    Reading String s.length := do
  let close ← expectKind .blockEnd s
  let content ← expectKind .raw close.rest
  let ending ← endTag g name pos content.rest
  return close.followedBy (content.followedBy (ending.giving content.value.text))

/-- A note, behind its `#`. -/
def note (pos : Position) (s : List Token) : Reading Node s.length := do
  let content ← (← expectKind .raw s).toEnd
  return content.map fun content => .comment pos content.text

/-- The arguments of a tag of the host, and its closing delimiter. -/
def hostArguments (tag : String) (known : List Expr) (s : List Token) :
    Reading (List Expr × Token) s.length :=
  match s with
  | [] => throw ((Mistake.expectedValue "").at Token.atEnd)
  | t :: rest =>
    if t.kind = .blockEnd then pure (.taken (known, t) t rest)
    else if known.isEmpty then do
      let value ← Expr.expression (t :: rest)
      have h := value.within
      return (← hostArguments tag [value.value] value.rest).widen (by omega)
    else if t.kind = .comma then do
      let value ← Expr.expression rest
      have h := value.within
      return (← hostArguments tag (known ++ [value.value]) value.rest).widen (by
        simp only [List.length_cons]; omega)
    else throw ((Mistake.expectedText ("',' between '" ++ tag ++ "' arguments")).at t)
termination_by s.length
decreasing_by all_goals (simp only [List.length_cons] at *; omega)

end Reading

/-- What a tag does to the body it stands in: it adds a node, or it opens a block. -/
inductive TagEffect where
  | add (node : Node)
  | begin (kind : BlockKind)

namespace Reading

/-- A tag of the language or of the host, behind its keyword; `inLoop` tells whether the body of a
loop is open. -/
def tag (g : Grammar) (inLoop : Bool) (keyword : Token) (s : List Token) :
    Reading TagEffect (s.length + 1) :=
  let pos := keyword.position
  let conditional (negated : Bool) : Reading TagEffect (s.length + 1) := do
    let test ← condition s
    return (test.map fun test =>
      .begin (.conditional negated test [] [] .body)).optional
  let signal (what : Signal) : Reading TagEffect (s.length + 1) := do
    if !inLoop then throw ((Mistake.outsideLoop keyword.text).at keyword)
    let close ← expectKind .blockEnd s
    return (close.map fun _ => .add (.signal pos what)).optional
  match g.tag? keyword.text with
  | some hasBody => do
    let args ← hostArguments keyword.text [] s
    let (values, close) := args.value
    let markup := if values.isEmpty then "" else g.markup (nextToken s).position close.position
    return (args.map fun _ =>
      if hasBody then .begin (.host keyword.text values markup)
      else .add (.tag pos keyword.text values [] markup)).optional
  | none =>
    match keyword.text with
    | "if" => conditional false
    | "unless" => conditional true
    | "for" => do
      return ((← loopHead s).map fun head => .begin (.loop head none)).optional
    | "case" => do
      let subject ← (← Expr.primary s).toEnd
      return (subject.map fun subject => .begin (.choice subject [] .preamble)).optional
    | "break" => signal .leave
    | "continue" => signal .next
    | "assign" => do return ((← assign pos s).map .add).optional
    | "capture" => do
      return ((← captureName s).map fun name => .begin (.capture name)).optional
    | "comment" => do
      let content ← verbatim g "comment" pos (skipToEnd s)
      pure ⟨.add (.comment pos content.value), content.rest, by
        have := content.within
        have := (List.dropWhile_suffix (fun t : Token => t.kind != .blockEnd && t.kind != .eof)
          (l := s)).length_le
        unfold skipToEnd at *
        omega⟩
    | "raw" => do
      return ((← verbatim g "raw" pos s).map fun v => .add (.raw pos v)).optional
    | "#" => do return ((← note pos s).map .add).optional
    | "include" => do return ((← includeTag pos s).map .add).optional
    | "render" => do return ((← renderTag pos s).map .add).optional
    | name =>
      throw ((Mistake.unknownTag name (Grammar.keywords ++ g.tags.map Prod.fst)).at keyword)

/-- A tag that begins another branch of an open block, behind its keyword. -/
def branch (b : OpenBlock) (nodes : List Node) (keyword : Token) (s : List Token) :
    Reading OpenBlock s.length :=
  match keyword.text with
  | "elsif" => do
    let test ← condition s
    return test.map fun test => (b.elsif? nodes test).getD b
  | "when" => do
    let values ← whenValues s
    return values.map fun values => (b.when? nodes keyword.position values).getD b
  | _ => do
    let close ← expectKind .blockEnd s
    return close.map fun _ => (b.else? nodes).getD b

/-- The nodes of the innermost body, in reverse, and the open blocks, the innermost first, at a
point where fewer than `bound` tokens are left. -/
structure Progress (bound : Nat) where
  nodes : List Node
  blocks : List OpenBlock
  rest : List Token
  within : rest.length < bound

/-- A tag that belongs to the block around it, from its opening delimiter on: it begins another
branch of that block, or it closes it. -/
def blockTag (g : Grammar) (nodes : List Node) (blocks : List OpenBlock) (t keyword : Token)
    (rest : List Token) : Except Misplaced (Progress (t :: keyword :: rest).length) :=
  match blocks with
  | [] =>
    if Grammar.branchKeywords.contains keyword.text then
      throw ((Mistake.strayBranch keyword.text).at keyword)
    else throw ((Mistake.strayEnd keyword.text).at keyword)
  | b :: outer =>
    if b.takes keyword.text then do
      let b ← branch b nodes.reverse keyword rest
      pure ⟨[], b.value :: outer, b.rest,
        Nat.lt_trans b.within (length_lt_cons_cons t keyword rest)⟩
    else do
      let ending ← endTag g b.name b.pos (t :: keyword :: rest)
      pure ⟨b.close nodes.reverse :: b.before, outer, ending.rest, ending.within⟩

/-- A tag of any kind, from its opening delimiter on. -/
def anyTag (g : Grammar) (nodes : List Node) (blocks : List OpenBlock) (t : Token) :
    (rest : List Token) → Except Misplaced (Progress (t :: rest).length)
  | [] => throw ((Mistake.expectedTag "").at Token.atEnd)
  | keyword :: rest =>
    if keyword.kind = .blockEnd then throw (Mistake.emptyTag.at keyword)
    else if keyword.kind ≠ .name then throw ((Mistake.expectedTag keyword.text).at keyword)
    else if g.endsBody keyword.text then blockTag g nodes blocks t keyword rest
    else do
      let effect ← tag g (blocks.any OpenBlock.isLoopBody) keyword rest
      have h := Nat.lt_of_lt_of_le effect.within (length_lt_cons_cons t keyword rest)
      match effect.value with
      | .add node => pure ⟨node :: nodes, blocks, effect.rest, h⟩
      | .begin kind => pure ⟨[], ⟨keyword.position, kind, nodes⟩ :: blocks, effect.rest, h⟩

/-- A text, an output or a tag, which begins with the token `t`. -/
def item (g : Grammar) (nodes : List Node) (blocks : List OpenBlock) (t : Token)
    (rest : List Token) : Except Misplaced (Progress (t :: rest).length) :=
  match t.kind with
  | .data => pure ⟨.text t.position t.text :: nodes, blocks, rest, length_lt_cons t rest⟩
  | .variableBegin => do
    let node ← output t rest
    pure ⟨node.value :: nodes, blocks, node.rest, Nat.lt_trans node.within (length_lt_cons t rest)⟩
  | .blockBegin => anyTag g nodes blocks t rest
  | _ => throw ((Mistake.unexpected t.text).at t)

/-- The nodes of a template at its end, where no block may be open. -/
def finish (nodes : List Node) : List OpenBlock → Except Misplaced (List Node)
  | [] => pure nodes.reverse
  | b :: _ => throw ⟨.unclosedBlock b.name, b.pos⟩

end Reading

/-- Reads nodes to the end: `nodes` are those of the innermost body, in reverse, and `blocks` are the
open blocks, the innermost first. -/
def readNodes (g : Grammar) (nodes : List Node) (blocks : List OpenBlock) (s : List Token) :
    Except Misplaced (List Node) :=
  match s with
  | [] => Reading.finish nodes blocks
  | t :: rest =>
    if t.kind = .eof then Reading.finish nodes blocks
    else do
      let p ← Reading.item g nodes blocks t rest
      have _h := p.within
      readNodes g p.nodes p.blocks p.rest
termination_by s.length
decreasing_by exact _h

/-- The nodes of a template. -/
def parseTokens (g : Grammar) (s : List Token) : Except Misplaced (List Node) := readNodes g [] [] s

/-- The nodes of a source. -/
def parse (tags : List (String × Bool)) (source : String) : Except Misplaced (List Node) := do
  parseTokens ⟨tags, some source.toList⟩ (← tokenize source)

end Liquid
