import Liquid.Expr.Basic
import Liquid.Mistake

/-!
# Reading expressions

The grammar, the loosest binding first:

    expression  = comparison [("and" | "or") expression]
    comparison  = primary [sign primary | "contains" primary]
    primary     = literal | "(" primary ".." primary ")" | path
    path        = name ("." name | "." integer | "[" expression "]")*
    filters     = ("|" name [":" argument ("," argument)*])*
    argument    = [name ":"] primary

Both connectives bind equally and group to the right.  A reader takes the tokens that are left and
gives the tokens that remain; behind the last token, the end of the template is read again and
again.

* `Parsed.within`: what remains is less than what was there.
-/
namespace Liquid

/-- The token that stands behind all others. -/
def Token.atEnd : Token := ⟨.eof, "", Position.start, false⟩

/-- The next token. -/
def nextToken (s : List Token) : Token := s.head?.getD Token.atEnd

/-- A mistake at a token. -/
def Mistake.at (m : Mistake) (t : Token) : Misplaced := ⟨m, t.position⟩

/-- What was read, and the tokens that remain: fewer than `bound`. -/
structure Parsed (α : Type) (bound : Nat) where
  value : α
  rest : List Token
  within : rest.length < bound

namespace Parsed

/-- What is read off one token. -/
def taken {α : Type} (value : α) (t : Token) (rest : List Token) : Parsed α (t :: rest).length :=
  ⟨value, rest, length_lt_cons t rest⟩

/-- What is read off no token. -/
def absent {α : Type} (value : α) (s : List Token) : Parsed α (s.length + 1) :=
  ⟨value, s, Nat.lt_succ_self s.length⟩

/-- The same with a looser bound. -/
def widen {α : Type} {m n : Nat} (p : Parsed α m) (h : m ≤ n) : Parsed α n :=
  ⟨p.value, p.rest, Nat.lt_of_lt_of_le p.within h⟩

/-- The same, read behind one more token. -/
def behind {α : Type} (t : Token) {s : List Token} (p : Parsed α s.length) :
    Parsed α (t :: s).length := p.widen (Nat.le_succ s.length)

/-- The same where it might have been absent. -/
def optional {α : Type} {n : Nat} (p : Parsed α n) : Parsed α (n + 1) := p.widen (Nat.le_succ n)

/-- What is read behind something, counted from before both. -/
def followedBy {α β : Type} {n : Nat} (q : Parsed β n) (p : Parsed α q.rest.length) : Parsed α n :=
  ⟨p.value, p.rest, Nat.lt_trans p.within q.within⟩

/-- What is read behind something that may be absent, counted from before both. -/
def optionFollowedBy {α β : Type} {n : Nat} (q : Parsed β (n + 1)) (p : Parsed α q.rest.length) :
    Parsed α n :=
  ⟨p.value, p.rest, Nat.lt_of_lt_of_le p.within (Nat.le_of_lt_succ q.within)⟩

/-- The same with another value. -/
def map {α β : Type} {n : Nat} (f : α → β) (p : Parsed α n) : Parsed β n :=
  ⟨f p.value, p.rest, p.within⟩

/-- The same with a given value. -/
def giving {α β : Type} {n : Nat} (p : Parsed α n) (value : β) : Parsed β n := p.map fun _ => value

end Parsed

/-- What reading gives. -/
abbrev Reading (α : Type) (bound : Nat) := Except Misplaced (Parsed α bound)

/-- A token of a given kind. -/
def expect (kind : Token.Kind) (mistake : Token → Mistake) :
    (s : List Token) → Reading Token s.length
  | [] => throw ((mistake Token.atEnd).at Token.atEnd)
  | t :: rest =>
    if t.kind = kind then pure (.taken t t rest) else throw ((mistake t).at t)

/-- A token of a given kind, and the usual message if there is none. -/
def expectKind (kind : Token.Kind) (s : List Token) : Reading Token s.length :=
  expect kind (.expected kind) s

/-- A name, and a message of its own if there is none. -/
def expectName (what : String) (s : List Token) : Reading String s.length := do
  return (← expect .name (fun _ => .expectedText what) s).map Token.text

/-- What was read, if the tag ends behind it. -/
def Parsed.toEnd {α : Type} {n : Nat} (p : Parsed α n) : Reading α n := do
  return p.followedBy ((← expectKind .blockEnd p.rest).giving p.value)

/-- A certain word. -/
def expectWord (word : String) (mistake : Mistake) : (s : List Token) → Reading Token s.length
  | [] => throw (mistake.at Token.atEnd)
  | t :: rest => if t.isName word then pure (.taken t t rest) else throw (mistake.at t)

namespace Expr

/-- The literal that a word stands for. -/
def literal? : String → Option Constant
  | "true" => some (.bool true)
  | "false" => some (.bool false)
  | "nil" => some .nil
  | "null" => some .nil
  | "empty" => some (.literal .empty)
  | "blank" => some (.literal .blank)
  | _ => none

/-- The sign that a token stands for. -/
def sign? : Token.Kind → Option Sign
  | .equal => some .equal
  | .notEqual => some .notEqual
  | .less => some (.order .less)
  | .greater => some (.order .greater)
  | .lessOrEqual => some (.order .lessOrEqual)
  | .greaterOrEqual => some (.order .greaterOrEqual)
  | _ => none

/-- The connective that a token stands for. -/
def connective? (t : Token) : Option Connective :=
  if t.isName "and" then some .and else if t.isName "or" then some .or else none

/-- The whole number that digits write. -/
def integerValue (text : String) : Number := .int ((Number.readInt? text.toList).getD 0)

/-- The number that digits with a fraction write. -/
def floatValue (text : String) : Number := .float ((Number.readFloat? text.toList).getD 0)

/-- Whether a path goes on. -/
def continuesPath (s : List Token) : Bool :=
  (nextToken s).kind == .dot || (nextToken s).kind == .leftBracket

mutual

/-- An expression. -/
def expression (s : List Token) : Reading Expr s.length := do
  let left ← comparison s
  match h : left.rest with
  | [] => pure left
  | t :: rest =>
    match connective? t with
    | none => pure left
    | some word => do
      have hl := left.within
      let right ← expression rest
      pure ⟨.connect t.position left.value word right.value, right.rest, by
        have := right.within; rw [h] at hl; simp only [List.length_cons] at hl; omega⟩
termination_by 4 * s.length + 3
decreasing_by
  all_goals simp_wf
  · have := left.within; rw [h] at this; simp only [List.length_cons] at this; omega

/-- A comparison, or a single value. -/
def comparison (s : List Token) : Reading Expr s.length := do
  let left ← primary s
  match h : left.rest with
  | [] => pure left
  | t :: rest =>
    have hl : rest.length < s.length := by
      have := left.within; rw [h] at this; simp only [List.length_cons] at this; omega
    match sign? t.kind with
    | some sign => do
      let right ← primary rest
      return ⟨.compare t.position left.value sign right.value, right.rest,
        Nat.lt_trans right.within hl⟩
    | none =>
      if t.isName "contains" then do
        let right ← primary rest
        return ⟨.contains t.position left.value right.value, right.rest,
          Nat.lt_trans right.within hl⟩
      else pure left
termination_by 4 * s.length + 2
decreasing_by all_goals simp_wf <;> omega

/-- A literal, a range or a path. -/
def primary (s : List Token) : Reading Expr s.length :=
  match s with
  | [] => throw ((Mistake.expectedValue "").at Token.atEnd)
  | t :: rest =>
    match t.kind with
    | .string => pure (.taken (.const t.position (.text t.text)) t rest)
    | .integer => pure (.taken (.const t.position (.number (integerValue t.text))) t rest)
    | .float => pure (.taken (.const t.position (.number (floatValue t.text))) t rest)
    | .leftParen => do
      let first ← primary rest
      let dots ← expect .range (fun _ => .expectedText "'..' in range, e.g. (1..5)") first.rest
      have _h₁ := first.within
      have _h₂ := dots.within
      let last ← primary dots.rest
      let close ← expect .rightParen (fun _ => .expectedText "')' to close range") last.rest
      let range := close.giving (.range t.position first.value last.value)
      return (first.followedBy (dots.followedBy (last.followedBy range))).behind t
    | .name =>
      match literal? t.text, continuesPath rest with
      | some c, false => pure (.taken (.const t.position c) t rest)
      | _, _ => path (.name t.position t.text) rest
    | _ => throw ((Mistake.expectedValue t.text).at t)
termination_by 4 * s.length + 1
decreasing_by
  all_goals simp_wf
  all_goals omega

/-- The steps of a path that begins with `base`. -/
def path (base : Expr) (s : List Token) : Reading Expr (s.length + 1) :=
  match s with
  | [] => pure (.absent base [])
  | t :: rest =>
    match t.kind with
    | .dot =>
      match rest with
      | [] => throw (Mistake.expectedProperty.at Token.atEnd)
      | u :: rest =>
        match u.kind with
        | .name => do
          return (← path (.property t.position base u.text) rest).widen (by simp)
        | .integer => do
          let key : Expr := .const u.position (.number (integerValue u.text))
          return (← path (.index t.position base key) rest).widen (by simp)
        | _ => throw (Mistake.expectedProperty.at u)
    | .leftBracket => do
      let key ← expression rest
      let close ← expect .rightBracket (fun _ => .expectedText "']' to close index") key.rest
      have h₁ := key.within
      have h₂ := close.within
      return (← path (.index t.position base key.value) close.rest).widen (by
        simp only [List.length_cons]; omega)
    | _ => pure (.absent base (t :: rest))
termination_by 4 * s.length
decreasing_by
  all_goals simp_wf
  all_goals omega

end

end Expr

namespace FilterCall

/-- An argument of a filter. -/
def argument (filter : String) (s : List Token) : Reading Expr s.length :=
  match (nextToken s).kind with
  | .pipe | .comma | .variableEnd | .blockEnd =>
    throw ((Mistake.expectedArgument filter).at (nextToken s))
  | _ => Expr.primary s

/-- An argument by position, which no argument by name may precede. -/
def positionalArgument (filter : String) (byPosition : List Expr) (byName : List (String × Expr))
    (s : List Token) : Reading (List Expr × List (String × Expr)) s.length := do
  if byName.isEmpty then
    return (← argument filter s).map fun v => (byPosition ++ [v], byName)
  else throw ((Mistake.positionalAfterKeyword filter).at (nextToken s))

/-- The next argument of a filter, added to those before it. -/
def nextArgument (filter : String) (byPosition : List Expr) (byName : List (String × Expr)) :
    (s : List Token) → Reading (List Expr × List (String × Expr)) s.length
  | t :: u :: rest =>
    if t.kind = .name ∧ u.kind = .colon then do
      return ((← argument filter rest).map fun v =>
        (byPosition, byName ++ [(t.text, v)])).widen (by simp only [List.length_cons]; omega)
    else positionalArgument filter byPosition byName (t :: u :: rest)
  | s => positionalArgument filter byPosition byName s

/-- The arguments of a filter, behind its colon or a comma. -/
def argumentsFrom (filter : String) (byPosition : List Expr) (byName : List (String × Expr))
    (s : List Token) : Reading (List Expr × List (String × Expr)) s.length := do
  let next ← nextArgument filter byPosition byName s
  match h : next.rest with
  | t :: rest =>
    have hr : rest.length < s.length := by
      have := next.within; rw [h] at this; simp only [List.length_cons] at this; omega
    if t.kind = .comma then do
      return (← argumentsFrom filter next.value.1 next.value.2 rest).widen (by omega)
    else pure next
  | [] => pure next
termination_by s.length

/-- The arguments of a filter, if there are any. -/
def arguments? (filter : String) (s : List Token) :
    Reading (List Expr × List (String × Expr)) (s.length + 1) :=
  match s with
  | t :: rest =>
    if t.kind = .colon then do
      return ((← argumentsFrom filter [] [] rest).behind t).optional
    else pure (.absent ([], []) (t :: rest))
  | [] => pure (.absent ([], []) [])

/-- The filters of a value, up to the token that ends its region. -/
def filters (ending : Token.Kind) (s : List Token) : Reading (List FilterCall) (s.length + 1) :=
  match s with
  | [] => pure (.absent [] [])
  | t :: rest =>
    if t.kind = .pipe then
      match rest with
      | [] => throw (Mistake.expectedFilter.at Token.atEnd)
      | name :: rest => do
        if name.kind ≠ .name then throw (Mistake.expectedFilter.at name)
        let args ← arguments? name.text rest
        have h := args.within
        if (nextToken args.rest).kind ≠ .pipe ∧ (nextToken args.rest).kind ≠ ending then
          throw ((Mistake.malformedArguments name.text).at (nextToken args.rest))
        let more ← filters ending args.rest
        let call : FilterCall := ⟨name.position, name.text, args.value.1, args.value.2⟩
        pure ⟨call :: more.value, more.rest, by
          have := more.within; simp only [List.length_cons]; omega⟩
    else pure (.absent [] (t :: rest))
termination_by s.length
decreasing_by simp only [List.length_cons]; omega

end FilterCall

end Liquid
