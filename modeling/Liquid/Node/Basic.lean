import Liquid.Expr.Basic

/-!
# Nodes

A template is a list of nodes: text, outputs and tags.  The bodies of block tags are again lists of
nodes.

* `Node.pos_text`: the place of a node is the place it was read at.
* `Node.induction_bodies`: induction on the bodies of nodes.
-/
namespace Liquid

/-- What ends a visit of a loop: leaving the loop, or going on with its next item. -/
inductive Signal where
  | leave
  | next
  deriving DecidableEq, Repr

/-- The keyword of a signal. -/
def Signal.keyword : Signal → String
  | .leave => "break"
  | .next => "continue"

/-- A body that is rendered if its test holds. -/
structure Branch (ν : Type) where
  test : Expr
  body : List ν

/-- A body that is rendered for some values of the subject. -/
structure When (ν : Type) where
  pos : Position
  values : List Expr
  body : List ν

/-- What a loop goes through, and which part of it. -/
structure LoopHead where
  target : String
  items : Expr
  limit : Option Expr
  offset : Option Expr
  reversed : Bool
  deriving DecidableEq

/-- Which template is rendered in place, with what under which name, and with which bindings. -/
structure Inclusion where
  template : Expr
  given : Option Expr
  called : Option String
  bindings : List (String × Expr)
  deriving DecidableEq

/-- A node of a template. -/
inductive Node where
  | text (pos : Position) (value : String)
  | output (pos : Position) (expr : Option Expr) (filters : List FilterCall)
      (trimLeft trimRight : Bool)
  | raw (pos : Position) (value : String)
  | comment (pos : Position) (text : String)
  | conditional (pos : Position) (negated : Bool) (test : Expr) (body : List Node)
      (branches : List (Branch Node)) (otherwise : List Node)
  | loop (pos : Position) (head : LoopHead) (body otherwise : List Node)
  | choice (pos : Position) (subject : Expr) (whens : List (When Node)) (otherwise : List Node)
  | signal (pos : Position) (signal : Signal)
  | assign (pos : Position) (name : String) (value : Expr) (filters : List FilterCall)
  | capture (pos : Position) (name : String) (body : List Node)
  | include (pos : Position) (what : Inclusion) (each : Option Expr)
  | render (pos : Position) (what : Inclusion)
  | tag (pos : Position) (name : String) (arguments : List Expr) (body : List Node)
      (markup : String)

namespace Node

/-- The place of a node: that of its text, its opening delimiter or its keyword. -/
def pos : Node → Position
  | .text pos _ | .output pos _ _ _ _ | .raw pos _ | .comment pos _ | .conditional pos _ _ _ _ _
  | .loop pos _ _ _ | .choice pos _ _ _ | .signal pos _ | .assign pos _ _ _ | .capture pos _ _
  | .include pos _ _ | .render pos _ | .tag pos _ _ _ _ => pos

theorem pos_text (p : Position) (value : String) : (text p value).pos = p := rfl

/-- The kind of a node. -/
def kindName : Node → String
  | .text _ _ => "Text"
  | .output _ _ _ _ _ => "Output"
  | .raw _ _ => "Raw"
  | .comment _ _ => "Comment"
  | .conditional _ false _ _ _ _ => "If"
  | .conditional _ true _ _ _ _ => "Unless"
  | .loop _ _ _ _ => "For"
  | .choice _ _ _ _ => "Case"
  | .signal _ .leave => "Break"
  | .signal _ .next => "Continue"
  | .assign _ _ _ _ => "Assign"
  | .capture _ _ _ => "Capture"
  | .include _ _ _ => "Include"
  | .render _ _ => "Render"
  | .tag _ _ _ _ _ => "Tag"

/-! ## Bodies -/

/-- The bodies of a node. -/
def bodies : Node → List (List Node)
  | .conditional _ _ _ body branches otherwise => body :: otherwise :: branches.map Branch.body
  | .loop _ _ body otherwise => [body, otherwise]
  | .choice _ _ whens otherwise => otherwise :: whens.map When.body
  | .capture _ _ body => [body]
  | .tag _ _ _ body _ => [body]
  | _ => []

theorem sizeOf_lt_of_mem_bodies {n : Node} {body : List Node} (h : body ∈ n.bodies) :
    sizeOf body < sizeOf n := by
  cases n <;> simp only [bodies, List.mem_cons, List.mem_map, List.not_mem_nil, or_false] at h
  case conditional branches _ =>
    rcases h with rfl | rfl | ⟨b, hb, rfl⟩
    · simp only [Node.conditional.sizeOf_spec]; omega
    · simp only [Node.conditional.sizeOf_spec]; omega
    · have := List.sizeOf_lt_of_mem hb
      cases b
      simp only [Node.conditional.sizeOf_spec, Branch.mk.sizeOf_spec] at this ⊢; omega
  case choice whens _ =>
    rcases h with rfl | ⟨w, hw, rfl⟩
    · simp only [Node.choice.sizeOf_spec]; omega
    · have := List.sizeOf_lt_of_mem hw
      cases w
      simp only [Node.choice.sizeOf_spec, When.mk.sizeOf_spec] at this ⊢; omega
  case loop => rcases h with rfl | rfl <;> simp only [Node.loop.sizeOf_spec] <;> omega
  case capture => subst h; simp only [Node.capture.sizeOf_spec]; omega
  case tag => subst h; simp only [Node.tag.sizeOf_spec]; omega

/-- What holds of nodes whenever it holds of the bodies of each of them holds of all nodes. -/
theorem induction_bodies {P : List Node → Prop}
    (h : ∀ nodes : List Node, (∀ n ∈ nodes, ∀ body ∈ n.bodies, P body) → P nodes)
    (nodes : List Node) : P nodes :=
  h nodes fun n hn body hb =>
    have : sizeOf body < sizeOf nodes :=
      Nat.lt_trans (sizeOf_lt_of_mem_bodies hb) (List.sizeOf_lt_of_mem hn)
    induction_bodies h body
termination_by sizeOf nodes

end Node

end Liquid
