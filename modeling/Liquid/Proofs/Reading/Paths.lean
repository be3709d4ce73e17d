import Liquid.Expr.Eval
import Liquid.Proofs.Reading.Delimited
import Liquid.Proofs.Reading.Digits
import Liquid.Proofs.Reading.ReadBack
import Mathlib

/-!
# Paths are read alike

A path that a host asks for is read at once; in a template it is read as words, and the words as an
expression.  Where the template is read at all, both lead to the same value.

**Quoted keys.**  For the host a quoted key ends at the first mark with a bracket behind it, in a
template it ends at the first mark.  The two differ for a key that holds the mark it stands between.

* `Lexer.readsOr_segments`: the words of the steps of a path, one step after the other.
* `Expr.returns_segments`: the expression that is made of them.
* `View.follow_eq_output`: the value of a path is that of the output with the same text.
-/
namespace Liquid

open Liquid.Text

namespace Number

variable {d : Char} {ds : List Char}

theorem readInt?_minus (h : isDigit d = true) :
    readInt? ('-' :: d :: ds) = (readInt? (d :: ds)).map fun n => -n := by
  have hs : signPart ('-' :: d :: ds) = (true, d :: ds) := rfl
  unfold readInt?
  rw [hs, signPart_digit h]
  dsimp only
  rcases digitPart (d :: ds) with ⟨_ | _, _ | _⟩ <;> rfl

end Number

/-! ## The text of a path -/

namespace Path

variable {s r : List Char}

/-- Digits, perhaps behind a minus: what writes a whole number. -/
def Whole (sign digits : List Char) : Prop :=
  (sign = [] ∨ sign = ['-']) ∧ digits ≠ [] ∧ ∀ d ∈ digits, isDigit d = true

theorem name?_eq_some {n : String} (h : name? s = some (n, r)) :
    ∃ c kept mark, s = c :: (kept ++ mark ++ r) ∧ n = String.ofList (c :: (kept ++ mark)) ∧
      Lexer.beginsName c = true ∧ (∀ d ∈ kept, isWord d = true ∨ d = '-') ∧
        (mark = [] ∨ mark = ['?']) ∧ (mark = [] → Lexer.EndsName r) := by
  cases s with
  | nil => cases h
  | cons c rest =>
    have hrest := List.takeWhile_append_dropWhile (p := fun c => isWord c || c == '-') (l := rest)
    have hkept : ∀ d ∈ rest.takeWhile fun c => isWord c || c == '-', isWord d = true ∨ d = '-' := by
      intro d hd
      simpa using List.all_eq_true.1 (List.all_takeWhile (l := rest)) d hd
    have hends := List.head?_dropWhile_not (fun c => isWord c || c == '-') rest
    unfold name? at h
    dsimp only at h
    by_cases hb : (c.isAlpha || c == '_') = true
    · rw [if_pos hb] at h
      split at h
      · rename_i more hd
        cases h
        rw [hd] at hrest
        refine ⟨c, _, ['?'], ?_, rfl, hb, hkept, .inr rfl, fun h => by cases h⟩
        rw [List.append_assoc, List.singleton_append, hrest]
      · rename_i more hne
        cases h
        refine ⟨c, _, [], ?_, ?_, hb, hkept, .inl rfl, fun _ d hd => ?_⟩
        · rw [List.append_nil, hrest]
        · rw [List.append_nil]
        · rw [Option.mem_def.1 hd] at hends
          refine ⟨by simp_all, by simp_all, ?_⟩
          rintro rfl
          obtain ⟨t, ht⟩ := List.head?_eq_some_iff.1 hd
          exact hne t ht
    · rw [if_neg hb] at h
      cases h

theorem digits?_eq_some {k : Int} (h : digits? s = some (k, r)) :
    ∃ digits, s = digits ++ r ∧ digits ≠ [] ∧ (∀ d ∈ digits, isDigit d = true) ∧
      (∀ d ∈ r.head?, isDigit d = false) ∧ k = (Number.readInt? digits).getD 0 := by
  unfold digits? at h
  split at h
  · cases h
  · rename_i hne
    cases h
    refine ⟨_, List.takeWhile_append_dropWhile.symm, fun h => hne h,
      List.all_eq_true.1 List.all_takeWhile, fun d hd => ?_, rfl⟩
    have hends := List.head?_dropWhile_not isDigit s
    rw [Option.mem_def.1 hd] at hends
    simpa using hends

theorem signedDigits?_eq_some {k : Int} (h : signedDigits? s = some (k, r)) :
    ∃ sign digits, s = sign ++ digits ++ r ∧ Whole sign digits ∧
      (∀ d ∈ r.head?, isDigit d = false) ∧ k = (Number.readInt? (sign ++ digits)).getD 0 := by
  unfold signedDigits? at h
  split at h
  · obtain ⟨⟨n, rest⟩, hd, h⟩ := Option.map_eq_some_iff.1 h
    cases h
    obtain ⟨digits, rfl, hn, hall, hr, rfl⟩ := digits?_eq_some hd
    refine ⟨['-'], digits, rfl, ⟨.inr rfl, hn, hall⟩, hr, ?_⟩
    obtain ⟨d, ds, rfl⟩ := List.exists_cons_of_ne_nil hn
    rw [List.singleton_append, Number.readInt?_minus (hall d (.head _))]
    cases Number.readInt? (d :: ds) <;> rfl
  · obtain ⟨digits, rfl, hn, hall, hr, rfl⟩ := digits?_eq_some h
    exact ⟨[], digits, rfl, ⟨.inl rfl, hn, hall⟩, hr, rfl⟩

theorem position?_eq_some {k : Int} (h : position? s = some (k, r)) :
    ∃ sign digits, s = sign ++ digits ++ ']' :: r ∧ Whole sign digits ∧
      k = (Number.readInt? (sign ++ digits)).getD 0 := by
  unfold position? at h
  split at h
  · rename_i n rest hs
    cases h
    obtain ⟨sign, digits, hs, hw, -, hk⟩ := signedDigits?_eq_some hs
    exact ⟨sign, digits, hs, hw, hk⟩
  · cases h

theorem quotedKey?_eq_some {quote : Char} {key : List Char} (h : quotedKey? quote s = some (key, r)) :
    s = key ++ quote :: ']' :: r := by
  obtain ⟨⟨key', rest⟩, hs, h⟩ := Option.bind_eq_some_iff.1 h
  dsimp only at h
  split at h
  · cases h
  · cases h
    rw [splitFirst?_eq_some hs, List.append_assoc]
    rfl

/-- How a step is written, and what follows it. -/
inductive Step : List Char → Segment → List Char → Prop where
  | name {s n r} : name? s = some (n, r) → Step ('.' :: s) (.key n) r
  | digits {s k r} : digits? s = some (k, r) → Step ('.' :: s) (.position k) r
  | position {s k r} : position? s = some (k, r) → Step ('[' :: s) (.position k) r
  | quoted {quote s key r} : quote = '"' ∨ quote = '\'' → quotedKey? quote s = some (key, r) →
    Step ('[' :: quote :: s) (.key (String.ofList key)) r

theorem step_of_segment? {g : Segment} (h : segment? s = some (g, r)) : Step s g r := by
  unfold segment? at h
  split at h
  · split at h
    · rename_i hn
      cases h
      exact .name hn
    · obtain ⟨⟨k, rest⟩, hd, h⟩ := Option.map_eq_some_iff.1 h
      cases h
      exact .digits hd
  · split at h
    · rename_i hp
      cases h
      exact .position hp
    · split at h
      · split at h
        · rename_i hq
          obtain ⟨⟨key, rest⟩, hk, h⟩ := Option.map_eq_some_iff.1 h
          cases h
          exact .quoted hq hk
        · cases h
      · cases h
  · cases h

/-- Among the steps that begin a text there is a quoted key that holds its own mark. -/
inductive Overruns : List Char → Prop where
  | here {quote s key r} : quote = '"' ∨ quote = '\'' → quotedKey? quote s = some (key, r) →
    quote ∈ key → Overruns ('[' :: quote :: s)
  | later {s g r} : segment? s = some (g, r) → Overruns r → Overruns s

/-- A path is a name and steps, perhaps behind a point. -/
theorem read_eq_ok {text : String} {path : Path} (h : read text = .ok path) :
    ∃ rest, segments? rest = some path.segments ∧
      (name? (trim text.toList) = some (path.name, rest) ∨
        ∃ s, trim text.toList = '.' :: s ∧ name? s = some (path.name, rest)) := by
  unfold read at h
  dsimp only at h
  split at h
  · rename_i found hf
    cases h
    obtain ⟨⟨n, rest⟩, hn, hs⟩ := Option.bind_eq_some_iff.1 hf
    obtain ⟨gs, hgs, rfl⟩ := Option.map_eq_some_iff.1 hs
    refine ⟨rest, hgs, ?_⟩
    split at hn
    · rename_i s ht
      exact .inr ⟨s, ht, hn⟩
    · exact .inl hn
  · cases h

theorem ofList_of_name? {n : String} (h : name? s = some (n, [])) : String.ofList s = n := by
  obtain ⟨c, kept, mark, rfl, rfl, -⟩ := name?_eq_some h
  rw [List.append_nil]

/-- A quoted key of a path holds the mark that it stands between. -/
def HoldsMark (text : String) : Prop :=
  ∃ n rest, name? (trim text.toList) = some (n, rest) ∧ Overruns rest

/-- What may follow a step: another one, or a blank. -/
def Follows (s : List Char) : Prop := ∀ c ∈ s.head?, c = '.' ∨ c = '[' ∨ isBlank c = true

theorem follows_of_segments? {gs : List Segment} (h : segments? s = some gs) {tail : List Char}
    (ht : Follows tail) : Follows (s ++ tail) := by
  cases s with
  | nil => exact ht
  | cons c rest =>
    unfold segments? at h
    split at h
    · rename_i hs
      intro d hd
      cases hd
      cases step_of_segment? hs with
      | name _ | digits _ => exact .inl rfl
      | position _ | quoted _ _ => exact .inr (.inl rfl)
    · cases h

end Path

/-! ## The words of a path -/

/-- The words of a step. -/
inductive Segment.Words : Segment → List Lexeme → Prop where
  | name {dot word : Lexeme} : dot.kind = .dot → word.kind = .name →
    Words (.key (String.ofList word.text)) [dot, word]
  | digits {dot word : Lexeme} {k : Int} : dot.kind = .dot → word.kind = .integer →
    Number.readInt? word.text = some k → Words (.position k) [dot, word]
  | position {left word right : Lexeme} {k : Int} : left.kind = .leftBracket →
    word.kind = .integer → Number.readInt? word.text = some k → right.kind = .rightBracket →
    Words (.position k) [left, word, right]
  | quoted {left word right : Lexeme} : left.kind = .leftBracket → word.kind = .string →
    right.kind = .rightBracket → Words (.key (String.ofList word.text)) [left, word, right]

/-- The words of some steps. -/
inductive Path.Words : List Segment → List Lexeme → Prop where
  | nil : Words [] []
  | cons {g gs ws vs} : g.Words ws → Words gs vs → Words (g :: gs) (ws ++ vs)

namespace Lexer

variable {region : Region} {begin s t u rest : List Char} {point point' point'' : Bool}
  {ws vs : List Lexeme}

theorem Reads.refl : Reads region begin point point s [] s :=
  ⟨id, by cases inside region begin point s <;> rfl, fun _ => ⟨rfl, rfl, rfl⟩⟩

theorem Reads.trans (h : Reads region begin point point' s ws t)
    (h' : Reads region begin point' point'' t vs u) :
    Reads region begin point point'' s (ws ++ vs) u := by
  obtain ⟨f, hf, hl⟩ := h
  obtain ⟨f', hf', hl'⟩ := h'
  refine ⟨f ∘ f', ?_, fun m => ?_⟩
  · rw [hf, hf']
    cases inside region begin point'' u <;> rfl
  · obtain ⟨h₁, h₂, h₃⟩ := hl (f' m)
    obtain ⟨h₁', h₂', h₃'⟩ := hl' m
    exact ⟨by rw [Function.comp, h₁, h₁', List.append_assoc], h₂.trans h₂', h₃.trans h₃'⟩

/-- What is read inside an output is words of some kind and then what is read behind them, or it is
not read at all. -/
def ReadsOr (begin : List Char) (point : Bool) (s : List Char) (P : List Lexeme → Prop)
    (rest : List Char) : Prop :=
  (∃ ws, P ws ∧ Reads .output begin point false s ws rest) ∨
    ∃ e, inside .output begin point s = .error e

theorem Reads.error (h : Reads region begin point point' s ws t) {e : Slip}
    (he : inside region begin point' t = .error e) : inside region begin point s = .error e := by
  obtain ⟨f, hf, -⟩ := h
  rw [hf, he]
  rfl

/-- What is read behind words is read behind them. -/
theorem Reads.thenOr {P Q : List Lexeme → Prop} (h : Reads .output begin point point' s ws t)
    (h' : ReadsOr begin point' t P u) (hPQ : ∀ vs, P vs → Q (ws ++ vs)) :
    ReadsOr begin point s Q u := by
  rcases h' with ⟨vs, hp, h'⟩ | ⟨e, he⟩
  · exact .inl ⟨_, hPQ vs hp, h.trans h'⟩
  · exact .inr ⟨e, h.error he⟩

theorem isDigit_of_isBlank {c : Char} (h : isBlank c = true) : isDigit c = false := by
  cases hd : isDigit c with
  | false => rfl
  | true =>
    rw [isBlank_of_isDigit hd] at h
    cases h

/-- What may follow a step goes on with no word. -/
theorem endsName_of_follows (h : Path.Follows s) : EndsName s := by
  intro c hc
  rcases h c hc with rfl | rfl | hb
  · decide
  · decide
  · refine ⟨isWord_of_isBlank hb, ?_, ?_⟩
    · rintro rfl
      exact absurd hb (by decide)
    · rintro rfl
      exact absurd hb (by decide)

theorem endsNumber_of_follows (h : Path.Follows s) : EndsNumber true s where
  digit c hc := by
    rcases h c hc with rfl | rfl | hb
    · decide
    · decide
    · exact isDigit_of_isBlank hb
  fraction hp := by cases hp

theorem trimStart_cons {c : Char} (h : isBlank c = false) : trimStart (c :: s) = c :: s := by
  rw [trimStart, List.dropWhile_cons_of_neg (by simp [h])]

/-- A hyphen that begins neither a number nor a closing delimiter is not read. -/
theorem inside_hyphen (region : Region) (begin : List Char)
    (h : ∀ c ∈ s.head?, isDigit c = false ∧ c ≠ '%' ∧ c ≠ '\x7d') :
    ∃ e, inside region begin false ('-' :: s) = .error e := by
  have hc : closing? region ('-' :: s) = none := by
    cases s with
    | nil => cases region <;> rfl
    | cons c s => exact closing?_minus (h c rfl).2.1 (h c rfl).2.2
  have hn : number? false ('-' :: s) = none := by
    have hm : isDigit '-' = false := by decide
    unfold number?
    cases s with
    | nil => simp [hm]
    | cons c s => simp [hm, (h c rfl).1]
  have hw : word false '-' s = .error ⟨.unexpectedCharacter '-', '-' :: s⟩ := by
    unfold word
    rw [if_neg (by decide), hn]
    rfl
  refine ⟨⟨.unexpectedCharacter '-', '-' :: s⟩, ?_⟩
  unfold inside
  split
  · rename_i he
    rw [trimStart_cons (by decide)] at he
    cases he
  · rename_i c rest he
    rw [trimStart_cons (by decide)] at he
    obtain ⟨rfl, rfl⟩ := List.cons.inj he
    dsimp only
    split
    · rename_i m hm
      rw [hc] at hm
      cases hm
    · rw [hw]
      rfl

/-- Hyphens at the end of a name are no part of it. -/
theorem nameTail_hyphen {kept mark tail : List Char} (hk : ∀ d ∈ kept, isWord d = true ∨ d = '-')
    (hl : kept.getLast? = some '-') (hm : mark = [] ∨ mark = ['?']) (ht : mark = [] → EndsName tail) :
    ∃ s, (nameTail (kept ++ mark ++ tail)).2 = '-' :: s ∧
      ∀ c ∈ s.head?, c = '-' ∨ c = '?' ∨ c ∈ tail.head? := by
  have hrev : kept.reverse.takeWhile (· == '-') ++ kept.reverse.dropWhile (· == '-') = kept.reverse :=
    List.takeWhile_append_dropWhile
  have hsplit := congrArg List.reverse hrev
  rw [List.reverse_append, List.reverse_reverse] at hsplit
  have hall : ∀ c ∈ (kept.reverse.takeWhile (· == '-')).reverse, c = '-' := by
    intro c hc
    exact eq_of_beq (List.all_eq_true.1 List.all_takeWhile c (List.mem_reverse.1 hc))
  have hne : (kept.reverse.takeWhile (· == '-')).reverse ≠ [] := by
    rw [List.getLast?_eq_head?_reverse] at hl
    obtain ⟨ds, hds⟩ := List.head?_eq_some_iff.1 hl
    rw [hds, List.takeWhile_cons_of_pos rfl]
    simp
  generalize hrun : (kept.reverse.takeWhile (· == '-')).reverse = run at hsplit hall hne
  generalize hfront : (kept.reverse.dropWhile (· == '-')).reverse = front at hsplit
  obtain ⟨c, run, rfl⟩ := List.exists_cons_of_ne_nil hne
  obtain ⟨rfl, hrun'⟩ := List.forall_mem_cons.1 hall
  subst hsplit
  refine ⟨run ++ (mark ++ tail), ?_, fun c hc => ?_⟩
  · unfold nameTail
    dsimp only
    rw [takeWhile_name hk hm ht, hfront, List.append_assoc, List.append_assoc, List.drop_left]
    rfl
  · cases run with
    | cons d run => cases hc; exact .inl (hrun' _ (.head _))
    | nil =>
      rcases hm with rfl | rfl
      · exact .inr (.inr hc)
      · cases hc; exact .inr (.inl rfl)

/-! ### Steps -/

variable {c : Char} {r tail : List Char}

theorem operator?_of_none {sign : String} {kind : Token.Kind} (more : List (String × Token.Kind))
    (h : dropPrefix? sign.toList s = none) :
    operator? s ((sign, kind) :: more) = operator? s more := by
  rw [operator?]
  split
  · rename_i hs
    rw [h] at hs
    cases hs
  · rfl

theorem gets_dot (h : s.head? ≠ some '.') (point : Bool) :
    Gets (word point '.' s) .dot ['.'] s := by
  have hrange : dropPrefix? "..".toList ('.' :: s) = none := by
    cases s with
    | nil => rfl
    | cons c s =>
      have hc : ¬ '.' = c := fun he => h (congrArg some he.symm)
      simp [dropPrefix?, hc]
  -- The operators before and behind the two points begin with other characters.
  have ho : operator? ('.' :: s) operators =
      some ⟨⟨.dot, ['.'], '.' :: s, false⟩, s, length_lt_cons '.' s⟩ := by
    change operator? ('.' :: s) (("..", .range) :: operators.drop 6) = _
    rw [operator?_of_none _ hrange]
    rfl
  refine ⟨⟨⟨.dot, ['.'], '.' :: s, false⟩, s, length_lt_cons '.' s⟩, ?_, rfl, rfl⟩
  unfold word
  rw [if_neg (by decide), number?_none (by decide) (by decide), ho]
  rfl

theorem gets_leftBracket (point : Bool) (s : List Char) :
    Gets (word point '[' s) .leftBracket ['['] s := by
  cases point <;> exact ⟨_, rfl, rfl, rfl⟩

theorem gets_rightBracket (point : Bool) (s : List Char) :
    Gets (word point ']' s) .rightBracket [']'] s := by
  cases point <;> exact ⟨_, rfl, rfl, rfl⟩

theorem reads_dot (begin : List Char) (hs : trimStart t = '.' :: s) (h : s.head? ≠ some '.') :
    Reads .output begin false true t [⟨.dot, ['.'], '.' :: s, false⟩] s :=
  reads_word begin hs (closing?_cons (by decide) (by decide) (by decide))
    (gets_dot h false)

theorem reads_leftBracket (begin s : List Char) :
    Reads .output begin false false ('[' :: s) [⟨.leftBracket, ['['], '[' :: s, false⟩] s :=
  reads_word begin (trimStart_cons (by decide)) (closing?_cons (by decide) (by decide) (by decide))
    (gets_leftBracket false s)

theorem reads_rightBracket (begin s : List Char) :
    Reads .output begin false false (']' :: s) [⟨.rightBracket, [']'], ']' :: s, false⟩] s :=
  reads_word begin (trimStart_cons (by decide)) (closing?_cons (by decide) (by decide) (by decide))
    (gets_rightBracket false s)

/-- A name is read alike, unless it ends in a hyphen: such a name is not read in a template. -/
theorem readsOr_name (begin : List Char) (point : Bool) {n : String} (hn : Path.name? s = some (n, r))
    (hf : Path.Follows (r ++ tail)) (hstart : trimStart t = s ++ tail) :
    ReadsOr begin point t
      (fun ws => ∃ w : Lexeme, ws = [w] ∧ w.kind = .name ∧ String.ofList w.text = n) (r ++ tail) := by
  obtain ⟨c, kept, mark, rfl, rfl, hb, hk, hm, -⟩ := Path.name?_eq_some hn
  have ht := endsName_of_follows hf
  have hs : c :: (kept ++ mark ++ r) ++ tail = c :: (kept ++ mark ++ (r ++ tail)) := by
    rw [List.cons_append, List.append_assoc (kept ++ mark)]
  rw [hs] at hstart
  have hclose : closing? .output (c :: (kept ++ mark ++ (r ++ tail))) = none :=
    (opens_of_beginsName hb).2 .output
  by_cases hl : kept.getLast? = some '-'
  · obtain ⟨x, hx, hhead⟩ := nameTail_hyphen hk hl hm fun _ => ht
    have hg := gets_nameTail hb point (kept ++ mark ++ (r ++ tail))
    rw [hx] at hg
    obtain ⟨e, he⟩ := inside_hyphen .output begin fun d hd => by
      rcases hhead d hd with rfl | rfl | hd
      · decide
      · decide
      · rcases hf d hd with rfl | rfl | hb
        · decide
        · decide
        · refine ⟨isDigit_of_isBlank hb, ?_, ?_⟩
          · rintro rfl
            exact absurd hb (by decide)
          · rintro rfl
            exact absurd hb (by decide)
    exact .inr ⟨e, (reads_word begin hstart hclose hg).error he⟩
  · exact .inl ⟨_, ⟨_, rfl, rfl, rfl⟩,
      reads_word begin hstart hclose (gets_name hb hk hl hm (fun _ => ht) point)⟩

theorem readInt?_of_whole {sign digits : List Char} (h : Path.Whole sign digits) :
    Number.readInt? (sign ++ digits) = some ((Number.readInt? (sign ++ digits)).getD 0) := by
  obtain ⟨hs, hn, hd⟩ := h
  obtain ⟨d, ds, rfl⟩ := List.exists_cons_of_ne_nil hn
  obtain ⟨k, hk⟩ := Option.isSome_iff_exists.1 (Number.isSome_readInt_digits hs hd)
  rw [hk]
  rfl

/-- Digits behind a point are read alike. -/
theorem reads_digits (begin : List Char) {k : Int} (hd : Path.digits? s = some (k, r))
    (hf : Path.Follows (r ++ tail)) :
    ∃ w : Lexeme, w.kind = .integer ∧ Number.readInt? w.text = some k ∧
      Reads .output begin true false (s ++ tail) [w] (r ++ tail) := by
  obtain ⟨digits, rfl, hn, hall, -, rfl⟩ := Path.digits?_eq_some hd
  have hw : Path.Whole [] digits := ⟨.inl rfl, hn, hall⟩
  obtain ⟨d, ds, rfl⟩ := List.exists_cons_of_ne_nil hn
  rw [List.append_assoc, List.cons_append]
  have ho : Opens (d :: (ds ++ (r ++ tail))) := opens_of_isDigit (hall d (.head _))
  exact ⟨_, rfl, readInt?_of_whole hw, reads_word begin
    (trimStart_cons (isBlank_of_isDigit (hall d (.head _)))) (ho.2 .output)
    (gets_integer (.inl rfl) hn hall (fun _ => rfl) rfl (endsNumber_of_follows hf))⟩

/-- A position in brackets is read alike. -/
theorem reads_position (begin : List Char) {k : Int} (hp : Path.position? s = some (k, r))
    (tail : List Char) :
    ∃ w right : Lexeme, w.kind = .integer ∧ Number.readInt? w.text = some k ∧
      right.kind = .rightBracket ∧
        Reads .output begin false false (s ++ tail) [w, right] (r ++ tail) := by
  obtain ⟨sign, digits, rfl, hw, rfl⟩ := Path.position?_eq_some hp
  have hends : EndsNumber false (']' :: (r ++ tail)) :=
    ⟨fun d hd => by cases hd; decide, fun _ => rfl⟩
  have ho : Opens (sign ++ digits ++ ']' :: (r ++ tail)) := opens_number hw.1 hw.2.1 hw.2.2
  have happ : sign ++ digits ++ ']' :: r ++ tail = sign ++ digits ++ ']' :: (r ++ tail) := by
    rw [List.append_assoc (sign ++ digits), List.cons_append]
  rw [happ]
  obtain ⟨⟨c, cs, hc, hb, -⟩, hclose⟩ := ho
  have hclose := hclose .output
  obtain ⟨c', cs', hcs⟩ : ∃ c' cs', sign ++ digits = c' :: cs' := by
    obtain ⟨d, ds, rfl⟩ := List.exists_cons_of_ne_nil hw.2.1
    rcases hw.1 with rfl | rfl <;> exact ⟨_, _, rfl⟩
  rw [hcs, List.cons_append] at hc hclose ⊢
  obtain ⟨rfl, rfl⟩ := List.cons.inj hc
  have hpoint : false = true → sign = [] := fun h => by cases h
  have hint := gets_integer hw.1 hw.2.1 hw.2.2 hpoint hcs hends
  refine ⟨_, _, rfl, hcs ▸ readInt?_of_whole hw, rfl,
    (reads_word begin (trimStart_cons hb) hclose hint).trans (reads_rightBracket begin _)⟩

/-- A quoted key that does not hold its mark is read alike. -/
theorem reads_quoted (begin : List Char) {quote : Char} {key : List Char}
    (hq : quote = '"' ∨ quote = '\'') (hk : Path.quotedKey? quote s = some (key, r))
    (hn : quote ∉ key) (tail : List Char) :
    ∃ w right : Lexeme, w.kind = .string ∧ w.text = key ∧ right.kind = .rightBracket ∧
      Reads .output begin false false (quote :: s ++ tail) [w, right] (r ++ tail) := by
  rw [Path.quotedKey?_eq_some hk]
  have happ : quote :: (key ++ quote :: ']' :: r) ++ tail =
      quote :: (key ++ quote :: ']' :: (r ++ tail)) := by
    rw [List.cons_append, List.append_assoc, List.cons_append, List.cons_append]
  rw [happ]
  have hb : isBlank quote = false := by rcases hq with rfl | rfl <;> decide
  have hclose : closing? .output (quote :: (key ++ quote :: ']' :: (r ++ tail))) = none := by
    rcases hq with rfl | rfl <;> exact closing?_cons (by decide) (by decide) (by decide)
  exact ⟨_, _, rfl, rfl, rfl, (reads_word begin (trimStart_cons hb) hclose
    (gets_string hq hn false)).trans (reads_rightBracket begin _)⟩

theorem head?_ne_dot (hb : ∀ d ∈ s.head?, isDigit d = true ∨ beginsName d = true) :
    s.head? ≠ some '.' := by
  intro h
  rcases hb '.' h with h | h
  · exact absurd h (by decide)
  · exact absurd h (by decide)

theorem begins_of_name? {n : String} (hn : Path.name? s = some (n, r)) (tail : List Char) :
    (s ++ tail).head? ≠ some '.' ∧ trimStart (s ++ tail) = s ++ tail := by
  obtain ⟨c, kept, mark, rfl, -, hb, -⟩ := Path.name?_eq_some hn
  exact ⟨head?_ne_dot fun d hd => by cases hd; exact .inr hb,
    trimStart_cons (isBlank_of_beginsName hb)⟩

/-- A step is read alike, or not at all. -/
theorem readsOr_step (begin : List Char) {g : Segment} (hs : Path.Step s g r)
    (ho : ¬ Path.Overruns s) (hf : Path.Follows (r ++ tail)) :
    ReadsOr begin false (s ++ tail) g.Words (r ++ tail) := by
  cases hs with
  | @name s n r hn =>
    obtain ⟨hdot, hstart⟩ := begins_of_name? hn tail
    have hpoint := reads_dot begin (trimStart_cons (s := s ++ tail) (by decide)) hdot
    refine hpoint.thenOr (readsOr_name begin true hn hf hstart) ?_
    rintro _ ⟨w, rfl, hk, rfl⟩
    exact .name rfl hk
  | @digits s k r hd =>
    have hdot : (s ++ tail).head? ≠ some '.' := by
      obtain ⟨digits, rfl, hn, hall, -⟩ := Path.digits?_eq_some hd
      obtain ⟨d, ds, rfl⟩ := List.exists_cons_of_ne_nil hn
      exact head?_ne_dot fun d hd => by cases hd; exact .inl (hall _ (.head _))
    obtain ⟨w, hk, ht, hr⟩ := reads_digits begin hd hf
    have hpoint := reads_dot begin (trimStart_cons (s := s ++ tail) (by decide)) hdot
    exact .inl ⟨_, .digits rfl hk ht, hpoint.trans hr⟩
  | @position s k r hp =>
    obtain ⟨w, right, hk, ht, hright, hr⟩ := reads_position begin hp tail
    exact .inl ⟨_, .position rfl hk ht hright, (reads_leftBracket begin _).trans hr⟩
  | @quoted quote s key r hq hk =>
    obtain ⟨w, right, hkind, rfl, hright, hr⟩ :=
      reads_quoted begin hq hk (fun hm => ho (.here hq hk hm)) tail
    exact .inl ⟨_, .quoted rfl hkind hright, (reads_leftBracket begin _).trans hr⟩

/-- The steps of a path are read alike, one after the other, or not all of them. -/
theorem readsOr_segments (begin : List Char) {gs : List Segment} (hs : Path.segments? s = some gs)
    (ho : ¬ Path.Overruns s) (ht : Path.Follows tail) :
    ReadsOr begin false (s ++ tail) (Path.Words gs) tail := by
  fun_induction Path.segments? s generalizing gs with
  | case1 =>
    cases hs
    exact .inl ⟨[], .nil, .refl⟩
  | case2 c s g rest hg ih =>
    obtain ⟨gs', hgs, rfl⟩ := Option.map_eq_some_iff.1 hs
    have hrest := ih hgs fun h => ho (.later hg h)
    rcases readsOr_step begin (Path.step_of_segment? hg) ho (Path.follows_of_segments? hgs ht) with
      ⟨ws, hw, hr⟩ | ⟨e, he⟩
    · exact hr.thenOr hrest fun vs hvs => .cons hw hvs
    · exact .inr ⟨e, he⟩
  | case3 => cases hs

end Lexer

/-! ## The value of a path -/

theorem orFault_bind {α β : Type} (r : Except Fault α) (f : α → Except Fault β) :
    orFault (r >>= f) = orFault r >>= fun x => orFault (f x) := by
  cases r <;> rfl

namespace Expr

open Reading

/-- An expression leads by some steps from the value of another. -/
def Leads (base : Expr) (gs : List Segment) (e : Expr) : Prop :=
  ∀ view : View, e.eval view false =
    base.eval view false >>= fun v => orFault (Path.follow v gs)

variable {base key e : Expr} {g : Segment} {gs : List Segment} {pos : Position}

theorem leads_nil (base : Expr) : Leads base [] base := fun view => by
  cases base.eval view false <;> rfl

theorem leads_property {n : String} (h : Leads (.property pos base n) gs e) :
    Leads base (.key n :: gs) e := by
  intro view
  rw [h view, eval, bind_assoc]
  refine congrArg _ (funext fun v => ?_)
  exact (orFault_bind (v.segment (.text n)) fun w => Path.follow w gs).symm

theorem leads_index (hk : ∀ view, key.eval view false = .ok g.toValue)
    (h : Leads (.index pos base key) gs e) : Leads base (g :: gs) e := by
  intro view
  have hp : g.toValue.asPosition = g.toValue := by cases g <;> rfl
  rw [h view, eval, bind_assoc]
  refine congrArg _ (funext fun v => ?_)
  rw [hk view]
  change (orFault (v.segment g.toValue.asPosition) >>= _) = _
  rw [hp]
  exact (orFault_bind (v.segment g.toValue) fun w => Path.follow w gs).symm

theorem integerValue_ofList {text : List Char} {k : Int} (h : Number.readInt? text = some k) :
    integerValue (String.ofList text) = .int k := by
  rw [integerValue, String.toList_ofList, h]
  rfl

/-- One word between brackets is read as a step by its value. -/
theorem returns_bracketed {left word right : Token} {next after : List Token}
    (hl : left.kind = .leftBracket)
    (hw : Returns (primary (word :: right :: next)) key (right :: next))
    (hr : right.kind = .rightBracket)
    (hp : Returns (path (.index left.position base key) next) e after) :
    Returns (path base (left :: word :: right :: next)) e after := by
  have hs : StopsExpression (right :: next) := stopsExpression_cons (by rw [hr]; decide)
  exact returns_index hl
    (returns_expression (returns_comparison hw hs.1.2.1 hs.1.2.2) hs.2) hr hp

/-- The words of steps behind an expression are read as an expression that leads by these steps from
its value. -/
theorem returns_segments {ws : List Lexeme} (h : Path.Words gs ws) (places : Array Position)
    {next : List Token} (hn : StopsPath next) (base : Expr) :
    ∃ e, Returns (path base (ws.map (Lexeme.toToken places) ++ next)) e next ∧ Leads base gs e := by
  induction h generalizing base with
  | nil => exact ⟨base, returns_path base hn, leads_nil base⟩
  | @cons g gs ws vs hg _ ih =>
    cases hg with
    | @name dot word hd hw =>
      obtain ⟨e, hr, he⟩ := ih (.property (dot.toToken places).position base (String.ofList word.text))
      exact ⟨e, returns_property (d := dot.toToken places) (t := word.toToken places) hd hw hr,
        leads_property he⟩
    | @digits dot word k hd hw hk =>
      let key : Expr := .const (word.toToken places).position
        (.number (integerValue (String.ofList word.text)))
      obtain ⟨e, hr, he⟩ := ih (.index (dot.toToken places).position base key)
      refine ⟨e, returns_position (d := dot.toToken places) (t := word.toToken places) hd hw hr,
        leads_index (fun view => ?_) he⟩
      rw [eval_const, integerValue_ofList hk]
      rfl
    | @position left word right k hl hw hk hr' =>
      let key : Expr := .const (word.toToken places).position
        (.number (integerValue (String.ofList word.text)))
      obtain ⟨e, hr, he⟩ := ih (.index (left.toToken places).position base key)
      refine ⟨e, returns_bracketed (hl : (left.toToken places).kind = _)
        (returns_integer (t := word.toToken places) hw) hr' hr, leads_index (fun view => ?_) he⟩
      rw [eval_const, integerValue_ofList hk]
      rfl
    | @quoted left word right hl hw hr' =>
      let key : Expr := .const (word.toToken places).position (.text (String.ofList word.text))
      obtain ⟨e, hr, he⟩ := ih (.index (left.toToken places).position base key)
      exact ⟨e, returns_bracketed (hl : (left.toToken places).kind = _)
        (returns_text (t := word.toToken places) hw) hr' hr,
        leads_index (fun view => eval_const view false _ _) he⟩

end Expr

/-! ## The output of a path -/

namespace Lexer

variable {begin s tail : List Char} {P : List Lexeme → Prop}

/-- The first word of an output, if the source is read. -/
theorem lexemes_output_word {w : Lexeme} {ls : List Lexeme} {point : Bool}
    (h : Reads .output (Region.output.opener ++ ' ' :: s) false point (' ' :: s) [w] tail)
    (hl : lexemes false (Region.output.opener ++ ' ' :: s) = .ok ls) :
    ∃ more, ls = ⟨.variableBegin, Region.output.opener, Region.output.opener ++ ' ' :: s,
      false⟩ :: w :: more := by
  obtain ⟨f, hf, hlex⟩ := h
  rw [lexemes_of_findOpening (findOpening?_opener .output s)] at hl
  dsimp only [Lexer.region] at hl
  rw [hf] at hl
  cases hm : inside .output (Region.output.opener ++ ' ' :: s) point tail with
  | error e =>
    rw [hm] at hl
    cases hl
  | ok m =>
    rw [hm] at hl
    change (do
      let more ← lexemes (f m).trim (f m).rest
      _) = _ at hl
    cases hr : lexemes (f m).trim (f m).rest with
    | error e =>
      rw [hr] at hl
      cases hl
    | ok more =>
      rw [hr, (hlex m).1] at hl
      cases hl
      exact ⟨m.lexemes ++ more, by rw [data_nil]; rfl⟩

/-- The lexemes of an output that ends the source, if it is read. -/
theorem lexemes_output {close : Lexeme} {ls : List Lexeme}
    (h : ReadsOr (Region.output.opener ++ ' ' :: s) false (' ' :: s) P tail)
    (hc : Scans (inside .output (Region.output.opener ++ ' ' :: s) false tail) [close] false [])
    (hl : lexemes false (Region.output.opener ++ ' ' :: s) = .ok ls) :
    ∃ ws, P ws ∧ ls = ⟨.variableBegin, Region.output.opener, Region.output.opener ++ ' ' :: s,
      false⟩ :: (ws ++ [close, ⟨.eof, [], [], false⟩]) := by
  rw [lexemes_of_findOpening (findOpening?_opener .output s)] at hl
  dsimp only [Lexer.region] at hl
  rcases h with ⟨ws, hp, f, hf, hlex⟩ | ⟨e, he⟩
  · obtain ⟨m, hm, hml, hmt, hmr⟩ := hc
    obtain ⟨h₁, h₂, h₃⟩ := hlex m
    rw [hf, hm] at hl
    change (do
      let more ← lexemes (f m).trim (f m).rest
      _) = _ at hl
    rw [h₁, h₂, h₃, hml, hmt, hmr, lexemes_nil] at hl
    cases hl
    refine ⟨ws, hp, ?_⟩
    rw [data_nil, List.nil_append, List.append_assoc]
    rfl
  · rw [he] at hl
    cases hl

end Lexer

theorem lexemes_of_parse {tags : List (String × Bool)} {source : String} {nodes : List Node}
    (h : parse tags source = .ok nodes) :
    ∃ ls, Lexer.lexemes false source.toList = .ok ls ∧
      parseTokens ⟨tags, some source.toList⟩
        (ls.map (Lexeme.toToken (Position.places source.toList))) = .ok nodes := by
  unfold parse tokenize at h
  dsimp only at h
  cases hl : Lexer.lexemes false source.toList with
  | error slip =>
    rw [hl] at h
    cases h
  | ok ls =>
    rw [hl] at h
    exact ⟨ls, rfl, h⟩

/-- Blanks, then what is trimmed, then blanks. -/
theorem eq_trim (s : List Char) : ∃ lead trail, s = lead ++ (trim s ++ trail) ∧ Blank lead ∧
    Blank trail := by
  obtain ⟨trail, ht, hb⟩ := trimEnd_append (trimStart s)
  refine ⟨s.takeWhile isBlank, trail, ?_, blank_takeWhile s, hb⟩
  rw [trim, ht, trimStart_eq]

/-- The words of a path: its name and its steps. -/
def Path.Spoken (path : Path) (ws : List Lexeme) : Prop :=
  ∃ w vs, ws = w :: vs ∧ w.kind = .name ∧ String.ofList w.text = path.name ∧
    Path.Words path.segments vs

/-- The words of steps go on with a path. -/
theorem not_stopsPath_of_words {g : Segment} {gs : List Segment} {ws : List Lexeme}
    (h : Path.Words (g :: gs) ws) (places : Array Position) (next : List Token) :
    ¬ StopsPath (ws.map (Lexeme.toToken places) ++ next) := by
  intro hs
  cases h with
  | cons hg _ =>
    unfold StopsPath Expr.continuesPath at hs
    cases hg with
    | name hd _ | digits hd _ _ => simp [nextToken, Lexeme.toToken, hd] at hs
    | position hl _ _ _ | quoted hl _ _ => simp [nextToken, Lexeme.toToken, hl] at hs

/-- The words of a path between the delimiters of an output are read as an expression that leads by
its steps from its name. -/
theorem leads_of_parseTokens {g : Grammar} {path : Path} {ws : List Lexeme} (h : path.Spoken ws)
    (hl : path.segments = [] → Expr.literal? path.name = none) {places : Array Position}
    {begin close mark : Lexeme} (hb : begin.kind = .variableBegin) (hc : close.kind = .variableEnd)
    (hm : mark.kind = .eof) {pos : Position} {e : Expr} {left right : Bool}
    (hp : parseTokens g ((begin :: (ws ++ [close, mark])).map (Lexeme.toToken places)) =
      .ok [.output pos (some e) [] left right]) :
    ∃ pos, (Expr.name pos path.name).Leads path.segments e := by
  obtain ⟨w, vs, rfl, hw, hn, hvs⟩ := h
  let last := [close.toToken places, mark.toToken places]
  have hlast : (nextToken last).kind = .variableEnd := hc
  obtain ⟨e', hpath, he⟩ := Expr.returns_segments hvs places
    (stopsPath_of_nextToken hlast (by decide) (by decide)) (.name (w.toToken places).position path.name)
  refine ⟨(w.toToken places).position, ?_⟩
  have hlit : Expr.literal? (w.toToken places).text = none ∨
      ¬ StopsPath (vs.map (Lexeme.toToken places) ++ last) := by
    cases hs : path.segments with
    | nil => exact .inl ((congrArg _ hn).trans (hl hs))
    | cons g gs => exact .inr (not_stopsPath_of_words (hs ▸ hvs) places _)
  rw [← hn] at hpath
  have hprimary := Expr.returns_named (t := w.toToken places) hw hlit hpath
  have hfilters : Reading.Returns (FilterCall.filters .variableEnd last) [] last :=
    FilterCall.returns_noFilters (by rw [hlast]; decide)
  have hne : (nextToken (w.toToken places :: (vs.map (Lexeme.toToken places) ++ last))).kind ≠
      .variableEnd := by
    rw [show (nextToken (w.toToken places :: _)).kind = .name from hw]
    decide
  rw [List.map_cons, List.cons_append, List.map_cons, List.map_append, parseTokens] at hp
  change readNodes g [] [] (begin.toToken places :: w.toToken places ::
    (vs.map (Lexeme.toToken places) ++ last)) = _ at hp
  rw [Reading.readNodes_output (t := begin.toToken places) hb
      (Reading.returns_output hne hprimary hfilters hc _),
    Reading.readNodes_eof (t := mark.toToken places) hm] at hp
  cases hp
  exact he

/-- An output does not begin with a point. -/
theorem parseTokens_dot {g : Grammar} {places : Array Position} {begin dot : Lexeme}
    {rest : List Lexeme} (hb : begin.kind = .variableBegin) (hd : dot.kind = .dot)
    {nodes : List Node} :
    parseTokens g ((begin :: dot :: rest).map (Lexeme.toToken places)) ≠ .ok nodes := by
  intro hp
  let t := dot.toToken places
  let more := rest.map (Lexeme.toToken places)
  have hkind : t.kind = .dot := hd
  have hprimary : Expr.primary (t :: more) = .error ((Mistake.expectedValue t.text).at t) := by
    rw [Expr.primary]
    simp only [hkind]
    rfl
  have ho : Reading.output (begin.toToken places) (t :: more) =
      .error ((Mistake.expectedValue t.text).at t) := by
    unfold Reading.output
    rw [if_neg (by rw [show (nextToken (t :: more)).kind = _ from hd]; decide), hprimary]
    rfl
  have hkind' : (begin.toToken places).kind = .variableBegin := hb
  have hi : Reading.item g [] [] (begin.toToken places) (t :: more) =
      .error ((Mistake.expectedValue t.text).at t) := by
    unfold Reading.item
    rw [hkind']
    dsimp only
    rw [ho]
    rfl
  rw [List.map_cons, List.map_cons, parseTokens, readNodes, if_neg (by rw [hkind']; decide), hi] at hp
  cases hp

/-- The words of a path behind blanks, if they are read. -/
theorem readsOr_path (begin : List Char) {path : Path} {s rest t tail : List Char}
    (hn : Path.name? s = some (path.name, rest)) (hgs : Path.segments? rest = some path.segments)
    (ho : ¬ Path.Overruns rest) (ht : Path.Follows tail) (hstart : trimStart t = s ++ tail) :
    Lexer.ReadsOr begin false t path.Spoken tail := by
  rcases Lexer.readsOr_name begin false hn (Path.follows_of_segments? hgs ht) hstart with
    ⟨_, ⟨w, rfl, hw, hname⟩, hr⟩ | he
  · exact hr.thenOr (Lexer.readsOr_segments _ hgs ho ht) fun vs hvs =>
      ⟨w, vs, rfl, hw, hname, hvs⟩
  · exact .inr he

/-- A path without steps is its name. -/
theorem ofList_of_segments_nil {path : Path} {s rest : List Char}
    (hn : Path.name? s = some (path.name, rest)) (hgs : Path.segments? rest = some path.segments)
    (hnil : path.segments = []) : String.ofList s = path.name := by
  rw [hnil] at hgs
  cases rest with
  | nil => exact Path.ofList_of_name? hn
  | cons c rest =>
    unfold Path.segments? at hgs
    split at hgs
    · obtain ⟨_, -, h⟩ := Option.map_eq_some_iff.1 hgs
      cases h
    · cases hgs

/-- What stands between the delimiters of an output, cut into blanks, the path and blanks. -/
theorem toList_pathSource {p : String} {lead trail : List Char}
    (hs : p.toList = lead ++ (trim p.toList ++ trail)) :
    ("\x7b\x7b " ++ p ++ " \x7d\x7d").toList = Region.output.opener ++ ' ' :: (lead ++
      (trim p.toList ++ ((trail ++ [' ']) ++ (Region.output.closer ++ [])))) := by
  rw [String.toList_append, String.toList_append]
  conv => lhs; rw [hs]
  simp [Region.opener, Region.closer]

/-- Blanks may follow a path. -/
theorem Path.follows_of_blank {blank more : List Char} (hb : Blank blank) (hne : blank ≠ []) :
    Path.Follows (blank ++ more) := by
  obtain ⟨c, blank, rfl⟩ := List.exists_cons_of_ne_nil hne
  intro d hd
  cases hd
  exact .inr (.inr (hb _ (.head _)))

/-- A path is read in an output as for the host: the value of the output is the one at its end, if
no quoted key of it holds its own mark, it is none of the words that are literals, and the output is
read at all. -/
theorem View.follow_eq_output {p : String} {path : Path} (hp : Path.read p = .ok path)
    (ho : ¬ Path.HoldsMark p) (hl : Expr.literal? (String.ofList (trim p.toList)) = none)
    {tags : List (String × Bool)} {pos : Position} {e : Expr} {left right : Bool}
    (h : parse tags ("\x7b\x7b " ++ p ++ " \x7d\x7d") =
      .ok [.output pos (some e) [] left right]) (view : View) :
    e.eval view false = orFault (view.follow path) := by
  obtain ⟨ls, hls, hparse⟩ := lexemes_of_parse h
  obtain ⟨lead, trail, hs, hlead, htrail⟩ := eq_trim p.toList
  obtain ⟨rest, hgs, hname⟩ := Path.read_eq_ok hp
  rw [toList_pathSource hs] at hls
  have hblank : Blank (trail ++ [' ']) := htrail.append (List.forall_mem_singleton.2 (by decide))
  have hfollows : Path.Follows ((trail ++ [' ']) ++ (Region.output.closer ++ [])) :=
    Path.follows_of_blank hblank (by simp)
  have hstart {s : List Char} (hs : ∀ c ∈ s.head?, isBlank c = false) :
      trimStart (' ' :: (lead ++ s)) = s :=
    trimStart_append (s := ' ' :: lead) (List.forall_mem_cons.2 ⟨by decide, hlead⟩) hs
  rcases hname with hn | ⟨s, hdot, hn⟩
  · -- the words of the path, and what they are read as
    have hbegins := (Lexer.begins_of_name? hn ((trail ++ [' ']) ++ (Region.output.closer ++ []))).2
    obtain ⟨ws, hws, rfl⟩ := Lexer.lexemes_output
      (readsOr_path _ hn hgs (fun h => ho ⟨_, _, hn, h⟩) hfollows
        (hstart (hbegins ▸ head?_trimStart _)))
      (Lexer.scans_closing (d := ⟨.output, false, [], false⟩) hblank) hls
    obtain ⟨pos', he⟩ := leads_of_parseTokens hws
      (fun hnil => ofList_of_segments_nil hn hgs hnil ▸ hl) rfl rfl rfl hparse
    rw [he view, Expr.eval_lenient_name]
    rfl
  · -- a point before the name
    obtain ⟨hpoint, -⟩ := Lexer.begins_of_name? hn
      ((trail ++ [' ']) ++ (Region.output.closer ++ []))
    rw [hdot] at hls
    obtain ⟨more, rfl⟩ := Lexer.lexemes_output_word (Lexer.reads_dot _
      (hstart (s := '.' :: (s ++ _)) fun c hc => by cases hc; decide) hpoint) hls
    exact absurd hparse (parseTokens_dot rfl rfl)

/-- A view of a name that has parts. -/
def View.sample : View where
  scope :=
    { globals := []
      data := [("a", .mapping [(.text "x", .mapping [(.text "y", .int 1)])])]
      frames := []
      strict := false
      locals := [] }
  positions := .outside 0
  place := none
  line := 1

/-- What is read of `a["x"].y` in an output. -/
def Expr.samplePath : Expr :=
  .property ⟨9, 1, 9⟩ (.index ⟨4, 1, 4⟩ (.name ⟨3, 1, 3⟩ "a") (.const ⟨5, 1, 5⟩ (.text "x"))) "y"

theorem View.follow_eq_output_sample :
    Expr.samplePath.eval View.sample false =
      orFault (View.sample.follow ⟨"a", [.key "x", .key "y"]⟩) := by
  have hp : Path.read "a[\"x\"].y" = .ok ⟨"a", [.key "x", .key "y"]⟩ := by cbv
  have ho : ¬ Path.HoldsMark "a[\"x\"].y" := by
    rintro ⟨n, rest, hn, h⟩
    have hname : Path.name? (trim "a[\"x\"].y".toList) =
        some ("a", ['[', '"', 'x', '"', ']', '.', 'y']) := by cbv
    cases hname.symm.trans hn
    cases h with
    | here _ hk hm =>
      have hkey : Path.quotedKey? '"' ['x', '"', ']', '.', 'y'] = some (['x'], ['.', 'y']) := by cbv
      cases hkey.symm.trans hk
      exact absurd hm (by decide)
    | later hs h =>
      have hstep : Path.segment? ['[', '"', 'x', '"', ']', '.', 'y'] =
          some (.key "x", ['.', 'y']) := by cbv
      cases hstep.symm.trans hs
      cases h with
      | later hs h =>
        have hstep : Path.segment? ['.', 'y'] = some (.key "y", []) := by cbv
        cases hstep.symm.trans hs
        cases h with
        | later hs _ => cases hs
  have h : parse [] ("\x7b\x7b " ++ "a[\"x\"].y" ++ " \x7d\x7d") =
      .ok [.output ⟨0, 1, 0⟩ (some Expr.samplePath) [] false false] := by cbv
  exact follow_eq_output hp ho rfl h View.sample

/-- What is read of `a["x" ]["y"]` in an output. -/
def Expr.sampleBlank : Expr :=
  .index ⟨10, 1, 10⟩ (.index ⟨4, 1, 4⟩ (.name ⟨3, 1, 3⟩ "a") (.const ⟨5, 1, 5⟩ (.text "x")))
    (.const ⟨11, 1, 11⟩ (.text "y"))

/-- For the host the blank in `a["x" ]["y"]` belongs to one long key. -/
theorem View.follow_ne_output :
    ¬ ∀ (p : String) (path : Path) (tags : List (String × Bool)) (pos : Position) (e : Expr)
      (left right : Bool) (view : View), Path.read p = .ok path →
        Expr.literal? (String.ofList (trim p.toList)) = none →
          parse tags ("\x7b\x7b " ++ p ++ " \x7d\x7d") =
            .ok [.output pos (some e) [] left right] →
            e.eval view false = orFault (view.follow path) := by
  intro h
  have hp : Path.read "a[\"x\" ][\"y\"]" = .ok ⟨"a", [.key "x\" ][\"y"]⟩ := by cbv
  have hparse : parse [] ("\x7b\x7b " ++ "a[\"x\" ][\"y\"]" ++ " \x7d\x7d") =
      .ok [.output ⟨0, 1, 0⟩ (some Expr.sampleBlank) [] false false] := by cbv
  have he : Expr.sampleBlank.eval View.sample false = .ok (.int 1) := by cbv
  have hf : orFault (View.sample.follow ⟨"a", [.key "x\" ][\"y"]⟩) = .ok .undefined := by cbv
  have hne := h _ _ [] _ _ false false View.sample hp rfl hparse
  rw [he, hf] at hne
  cases hne

end Liquid
