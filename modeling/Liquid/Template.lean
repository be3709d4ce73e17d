import Liquid.Diagnostic.Error
import Liquid.Node.Parser

/-!
# Templates

A template is its nodes, together with its source and the names under which errors speak of it.

* `read_nodes`: a template holds the nodes that its source reads as.
-/
namespace Liquid

/-- A mistake as an error about the template with a given source and name. -/
def SyntaxError.ofMisplaced (e : Misplaced) (source name : Option String) : SyntaxError where
  parsing := true
  text := e.mistake.message
  code := e.mistake.code
  line := some e.position.line
  column := some e.position.column
  name := none
  filename := name
  source
  suggestion := e.mistake.suggestion?

/-- A template that is read. -/
structure Template where
  source : String
  name : Option String
  filename : Option String
  nodes : List Node

namespace Template

/-- Reads a template.  Mistakes between delimiters name the template itself, all others the file it
comes from, if there is one. -/
def read (tags : List (String × Bool)) (source : String) (name filename : Option String) :
    Except SyntaxError Template :=
  match tokenize source with
  | .error e => throw (.ofMisplaced e source name)
  | .ok tokens =>
    match parseTokens ⟨tags, some source.toList⟩ tokens with
    | .error e => throw (.ofMisplaced e source ((nonEmpty? filename).or name))
    | .ok nodes => pure ⟨source, name, filename, nodes⟩

theorem read_nodes {tags : List (String × Bool)} {source : String} {name filename : Option String}
    {t : Template} (h : read tags source name filename = .ok t) :
    parse tags source = .ok t.nodes := by
  unfold read at h
  unfold parse
  split at h
  · cases h
  · rename_i tokens ht
    split at h
    · cases h
    · rename_i nodes hn
      cases h
      rw [ht]
      exact hn

end Template

end Liquid
