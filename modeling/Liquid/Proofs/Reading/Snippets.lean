import Liquid.Proofs.Reading.Placed
import Mathlib

/-!
# The lines that an error shows

A place counts lines by line feeds.  An error shows its line, and a snippet the lines around it, out
of the source cut at every kind of line break.  Both speak of the same lines as far as the source
has no other breaks: the line feed ends a line, with a carriage return before it or without one.

* `fedLines_after`: a place is on the line that its number says, at its column.
* `splitLines_getElem?`: up to a stray break, both kinds of cutting give the same lines.
* `lt_length_splitLines`: no cutting has fewer lines, but for an empty last one.
* `numbers_own_lines`: what is shown under a number is the line of that number, up to a stray break,
  and the line with the mistake is listed unless it is empty.
* `not_always_own_lines`: behind a form feed, what is shown is another line.
-/
namespace Liquid

namespace Text

/-- The lines of a text as places count them: a line feed ends a line, and nothing else does. -/
def fedLines (s : List Char) : List (List Char) := s.splitOn '\n'

/-- A line without the carriage return that belongs to its end. -/
def dropReturn (line : List Char) : List Char :=
  if line.getLast? = some '\r' then line.dropLast else line

/-- What stands in lines of which all but the last are ended by a line feed. -/
def lineTexts : List (List Char) → List (List Char)
  | [] => []
  | [last] => [last]
  | line :: next :: rest => dropReturn line :: lineTexts (next :: rest)

/-- The text of a line of a source, counted from one. -/
def lineText? (s : List Char) (number : Nat) : Option (List Char) :=
  (lineTexts (fedLines s))[number - 1]?

/-- There is no other break in the first lines of a source. -/
def PlainTo (s : List Char) (number : Nat) : Prop :=
  ∀ line ∈ (lineTexts (fedLines s)).take number, ∀ c ∈ line, isLineBreak c = false

theorem fedLines_feed {x : List Char} (hx : '\n' ∉ x) (rest : List Char) :
    fedLines (x ++ '\n' :: rest) = x :: fedLines rest := by
  have hf : ∀ c ∈ x, (c == '\n') = false := fun c hc => by
    rw [beq_eq_false_iff_ne]
    rintro rfl
    exact hx hc
  rw [fedLines, List.splitOn, List.splitOnP_append_cons x rest (by exact beq_self_eq_true '\n'),
    List.splitOnP_eq_singleton hf]
  rfl

theorem fedLines_of_not_mem {x : List Char} (hx : '\n' ∉ x) : fedLines x = [x] := by
  refine List.splitOnP_eq_singleton fun c hc => ?_
  rw [beq_eq_false_iff_ne]
  rintro rfl
  exact hx hc

/-- A text begins with its first line: either it has no other, or a line feed follows. -/
theorem fed_cases (s : List Char) :
    ('\n' ∉ s) ∨ ∃ x rest, '\n' ∉ x ∧ s = x ++ '\n' :: rest := by
  by_cases h : '\n' ∈ s
  · obtain ⟨x, rest, rfl, hx⟩ := List.eq_append_cons_of_mem h
    exact .inr ⟨x, rest, hx, rfl⟩
  · exact .inl h

/-- What a property says of the last line, and of a line that a line feed ends before more lines, it
says of every text. -/
theorem fed_induction {P : List Char → Prop} (last : ∀ x, '\n' ∉ x → P x)
    (line : ∀ x rest, '\n' ∉ x → P rest → P (x ++ '\n' :: rest)) (s : List Char) : P s := by
  induction hn : s.length using Nat.strongRecOn generalizing s with
  | ind n ih =>
    rcases fed_cases s with h | ⟨x, rest, hx, rfl⟩
    · exact last s h
    · refine line x rest hx (ih rest.length ?_ rest rfl)
      rw [← hn, List.length_append, List.length_cons]
      omega

theorem fedLines_ne_nil (s : List Char) : fedLines s ≠ [] := List.splitOn_ne_nil _ _

theorem lineTexts_fedLines_feed {x : List Char} (hx : '\n' ∉ x) (rest : List Char) :
    lineTexts (fedLines (x ++ '\n' :: rest)) = dropReturn x :: lineTexts (fedLines rest) := by
  rw [fedLines_feed hx]
  cases h : fedLines rest with
  | nil => exact absurd h (fedLines_ne_nil rest)
  | cons next more => rfl

/-! ## Places -/

theorem head_fedLines (x here : List Char) (hx : '\n' ∉ x) :
    (fedLines (x ++ here))[0]? = some (x ++ here.takeWhile (· ≠ '\n')) := by
  rcases fed_cases here with h | ⟨y, rest, hy, rfl⟩
  · rw [fedLines_of_not_mem fun hm => (List.mem_append.1 hm).elim hx h]
    rw [List.takeWhile_eq_self_iff.2 fun c hc => by simpa using ne_of_mem_of_not_mem hc h]
    rfl
  · rw [← List.append_assoc,
      fedLines_feed (x := x ++ y) fun hm => (List.mem_append.1 hm).elim hx hy]
    rw [List.takeWhile_append_of_pos fun c hc => by simpa using ne_of_mem_of_not_mem hc hy]
    simp

theorem fedLines_foldl_step (before here x : List Char) (p : Position) (hx : '\n' ∉ x)
    (hp : p.column = x.length) :
    ∃ y, (fedLines (x ++ (before ++ here)))[(before.foldl Position.step p).line - p.line]? =
        some (y ++ here.takeWhile (· ≠ '\n')) ∧
      y.length = (before.foldl Position.step p).column := by
  induction before generalizing x p with
  | nil =>
    refine ⟨x, ?_, hp.symm⟩
    rw [List.foldl_nil, Nat.sub_self]
    exact head_fedLines x here hx
  | cons c rest ih =>
    rw [List.foldl_cons]
    by_cases hc : c = '\n'
    · subst hc
      obtain ⟨y, hy, hl⟩ := ih [] (p.step '\n') List.not_mem_nil rfl
      refine ⟨y, ?_, hl⟩
      have hle := Position.line_le_foldl_step rest (p.step '\n')
      have hs : (p.step '\n').line = p.line + 1 := rfl
      rw [List.cons_append, fedLines_feed hx, ← hy,
        show (rest.foldl Position.step (p.step '\n')).line - p.line =
          (rest.foldl Position.step (p.step '\n')).line - (p.step '\n').line + 1 by omega]
      rfl
    · have hs : p.step c = ⟨p.offset + 1, p.line, p.column + 1⟩ := if_neg hc
      have hxc : '\n' ∉ x ++ [c] := by simpa [hx] using Ne.symm hc
      obtain ⟨y, hy, hl⟩ := ih (x ++ [c]) (p.step c) hxc (by rw [hs, hp]; simp)
      rw [hs] at hy hl ⊢
      refine ⟨y, ?_, hl⟩
      simpa using hy

/-- A place is on the line that its number says, behind as many characters as its column says. -/
theorem fedLines_after (before here : List Char) :
    ∃ y, (fedLines (before ++ here))[(Position.after before).line - 1]? =
        some (y ++ here.takeWhile (· ≠ '\n')) ∧
      y.length = (Position.after before).column :=
  fedLines_foldl_step before here [] Position.start List.not_mem_nil rfl

/-! ## Both kinds of cutting -/

theorem dropReturn_cons {c : Char} {x : List Char} (h : c ≠ '\r' ∨ x ≠ []) :
    dropReturn (c :: x) = c :: dropReturn x := by
  cases x with
  | nil =>
    have hc : c ≠ '\r' := h.resolve_right (absurd rfl)
    simp [dropReturn, hc]
  | cons d y =>
    unfold dropReturn
    rw [List.getLast?_cons_cons, List.dropLast_cons_cons]
    split <;> rfl

theorem splitLinesAux_return (line rest : List Char) :
    splitLinesAux line ('\r' :: '\n' :: rest) = line.reverse :: splitLines rest := by
  rw [splitLinesAux]
  rfl

theorem splitLinesAux_break {c : Char} (hc : isLineBreak c = true) (line : List Char)
    {rest : List Char} (hr : c = '\r' → rest.head? ≠ some '\n') :
    splitLinesAux line (c :: rest) = line.reverse :: splitLines rest := by
  rw [splitLinesAux]
  · rw [if_pos hc]
    rfl
  · intro more he hm
    exact hr he (hm ▸ rfl)

theorem splitLinesAux_other {c : Char} (hc : isLineBreak c = false) (line rest : List Char) :
    splitLinesAux line (c :: rest) = splitLinesAux (c :: line) rest := by
  rw [splitLinesAux]
  · rw [if_neg (by rw [hc]; exact Bool.false_ne_true)]
  · intro more he
    rw [he] at hc
    cases hc

/-- A line that a line feed ends gives some lines, and only itself if there is no other break. -/
theorem splitLinesAux_feed {x : List Char} (hx : '\n' ∉ x) (line rest : List Char) :
    ∃ pieces, pieces ≠ [] ∧ splitLinesAux line (x ++ '\n' :: rest) = pieces ++ splitLines rest ∧
      ((∀ c ∈ dropReturn x, isLineBreak c = false) → pieces = [line.reverse ++ dropReturn x]) := by
  induction x generalizing line with
  | nil =>
    refine ⟨[line.reverse], List.cons_ne_nil _ _, ?_, fun _ => ?_⟩
    · exact splitLinesAux_break rfl line fun h => absurd h (by decide)
    · exact congrArg (· :: []) (List.append_nil _).symm
  | cons c y ih =>
    obtain ⟨hc, hy⟩ := not_or.1 (mt List.mem_cons.2 hx)
    by_cases hret : c = '\r' ∧ y = []
    · -- the carriage return belongs to the end of the line
      obtain ⟨rfl, rfl⟩ := hret
      exact ⟨[line.reverse], List.cons_ne_nil _ _, splitLinesAux_return line rest, fun _ =>
        congrArg (· :: []) (List.append_nil _).symm⟩
    · have hcons : dropReturn (c :: y) = c :: dropReturn y := dropReturn_cons (not_and_or.1 hret)
      cases hb : isLineBreak c with
      | true =>
        obtain ⟨pieces, -, hs, -⟩ := ih hy []
        refine ⟨line.reverse :: pieces, List.cons_ne_nil _ _, ?_, fun hp => ?_⟩
        · rw [List.cons_append, splitLinesAux_break hb line, splitLines, hs]
          · rfl
          · intro he
            cases y with
            | nil => exact absurd ⟨he, rfl⟩ hret
            | cons d z =>
              rintro ⟨⟩
              exact hy (.head _)
        · rw [hcons] at hp
          cases hb.symm.trans (hp c (.head _))
      | false =>
        obtain ⟨pieces, hne, hs, hp⟩ := ih hy (c :: line)
        refine ⟨pieces, hne, ?_, fun h => ?_⟩
        · rw [List.cons_append, splitLinesAux_other hb, hs]
        · rw [hcons] at h ⊢
          rw [hp fun d hd => h d (.tail _ hd)]
          simp

theorem splitLinesAux_ne_nil {line s : List Char} (h : line ≠ [] ∨ s ≠ []) :
    splitLinesAux line s ≠ [] := by
  fun_induction splitLinesAux line s with
  | case1 line he => simp_all
  | case2 line he => exact List.cons_ne_nil _ _
  | case3 line rest ih => exact List.cons_ne_nil _ _
  | case4 line c rest _ hc ih => exact List.cons_ne_nil _ _
  | case5 line c rest _ hc ih => exact ih (.inl (List.cons_ne_nil _ _))

/-- Up to a stray break, cutting at every break gives the lines that places count. -/
theorem splitLines_getElem? {s line : List Char} {n : Nat}
    (h : ∀ t ∈ (lineTexts (fedLines s)).take (n + 1), ∀ c ∈ t, isLineBreak c = false)
    (hl : (splitLines s)[n]? = some line) : (lineTexts (fedLines s))[n]? = some line := by
  induction s using fed_induction generalizing n with
  | last x hx =>
    rw [fedLines_of_not_mem hx] at h ⊢
    cases x with
    | nil => cases hl
    | cons c x =>
      have hp := h (c :: x) (by simp [lineTexts])
      rw [splitLines_of_forall _ hp (List.cons_ne_nil _ _)] at hl
      exact hl
  | line x rest hx ih =>
    obtain ⟨pieces, -, hs, hp⟩ := splitLinesAux_feed hx [] rest
    rw [lineTexts_fedLines_feed hx] at h ⊢
    rw [splitLines, hs, hp (h _ (.head _))] at hl
    cases n with
    | zero => exact hl
    | succ n => exact ih (fun t ht => h t (.tail _ ht)) hl

/-- A line that is not empty is one of those that cutting at every break gives. -/
theorem lt_length_splitLines {s line : List Char} {n : Nat} (hl : (fedLines s)[n]? = some line)
    (hne : line ≠ []) : n < (splitLines s).length := by
  induction s using fed_induction generalizing n with
  | last x hx =>
    rw [fedLines_of_not_mem hx] at hl
    cases n with
    | zero =>
      cases hl
      exact List.length_pos_iff.2 (splitLinesAux_ne_nil (.inr hne))
    | succ n => cases hl
  | line x rest hx ih =>
    obtain ⟨pieces, hp, hs, -⟩ := splitLinesAux_feed hx [] rest
    have hpos := List.length_pos_iff.2 hp
    rw [fedLines_feed hx] at hl
    rw [splitLines, hs, List.length_append]
    cases n with
    | zero => omega
    | succ n =>
      have := ih hl
      omega

end Text

/-! ## Snippets -/

open Text

theorem getElem?_sourceLines {source text : String} {n : Nat}
    (h : (sourceLines source)[n]? = some text) :
    (splitLines source.toList)[n]? = some text.toList := by
  unfold sourceLines at h
  rw [List.getElem?_map] at h
  obtain ⟨line, hl, rfl⟩ := Option.map_eq_some_iff.1 h
  rw [hl, String.toList_ofList]

/-- A line that is shown under a number, up to a stray break. -/
theorem lineText?_of_sourceLines {source text : String} {number : Nat} (hn : 0 < number)
    (h : (sourceLines source)[number - 1]? = some text) (hp : PlainTo source.toList number) :
    lineText? source.toList number = some text.toList := by
  refine splitLines_getElem? ?_ (getElem?_sourceLines h)
  rw [Nat.sub_add_cancel hn]
  exact hp

namespace Snippet

variable {source text : String} {line context n : Int} {column : Option Int}

/-- A snippet shows the lines of the source that are near enough, under their numbers. -/
theorem mem_lines_iff :
    (n, text) ∈ (of source line context column).lines ↔
      (max 0 (line - 1 - context) < n ∧ n ≤ line + context) ∧
        (sourceLines source)[(n - 1).toNat]? = some text := by
  simp only [of, List.mem_filterMap, List.mem_map, List.mem_range, Option.map_eq_some_iff,
    Prod.mk.injEq]
  constructor
  · rintro ⟨i, ⟨k, hk, rfl⟩, t, ht, rfl, rfl⟩
    refine ⟨by omega, ?_⟩
    rwa [Int.add_sub_cancel]
  · rintro ⟨⟨hlow, hhigh⟩, ht⟩
    have hlt := (List.getElem?_eq_some_iff.1 ht).1
    refine ⟨n - 1, ⟨(n - 1 - max 0 (line - 1 - context)).toNat, by omega, by omega⟩, text, ht,
      by omega, rfl⟩

end Snippet

/-- The line of a source with a number that is not empty. -/
theorem exists_sourceLines {source : String} {line : List Char} {number : Nat}
    (hl : (fedLines source.toList)[number - 1]? = some line) (hne : line ≠ []) :
    ∃ text, (sourceLines source)[number - 1]? = some text := by
  have h := lt_length_splitLines hl hne
  rw [sourceLines, List.getElem?_map, List.getElem?_eq_getElem h]
  exact ⟨_, rfl⟩

/-- The line that an error shows is the one that has its number when the source is cut at every
break. -/
theorem SyntaxError.sourceLines_of_snippet? {e : SyntaxError} {source text : String} {number : Nat}
    (hs : e.source = some source) (hl : e.line = some number) (h : e.snippet? = some text) :
    (sourceLines source)[number - 1]? = some text := by
  unfold snippet? line? at h
  rw [hs, hl] at h
  obtain ⟨s, hsource, h⟩ := Option.bind_eq_some_iff.1 h
  obtain ⟨line, hline, h⟩ := Option.bind_eq_some_iff.1 h
  obtain ⟨rfl, -⟩ : source = s ∧ _ := by simpa [nonEmpty?] using hsource
  obtain ⟨rfl, -⟩ : (number : Int) = line ∧ _ := by simpa using hline
  split at h
  · rwa [show ((number : Int) - 1).toNat = number - 1 by omega] at h
  · cases h

/-- Every place of a source is on the line that its number says, and errors speak of lines by these
numbers: the line that an error shows, and every line that a snippet shows, is the line with that
number, if the source has no other break than line feeds so far; a carriage return before a line
feed belongs to it.  A snippet lists the line it is about, whatever breaks there are, unless it is
empty. -/
theorem numbers_own_lines (source : String) :
    (∀ before here, source.toList = before ++ here →
      ∃ y, (fedLines source.toList)[(Position.after before).line - 1]? =
          some (y ++ here.takeWhile (· ≠ '\n')) ∧ y.length = (Position.after before).column) ∧
    ∀ number : Nat, 0 < number →
      (∀ e : SyntaxError, e.source = some source → e.line = some number →
        ∀ text, e.snippet? = some text → PlainTo source.toList number →
          lineText? source.toList number = some text.toList) ∧
      ∀ (context : Nat) (column : Option Int),
        (∀ n text, (n, text) ∈ (Snippet.of source number context column).lines →
          ∃ k : Nat, n = k ∧ 0 < k ∧
            (PlainTo source.toList k → lineText? source.toList k = some text.toList)) ∧
        ∀ line, (fedLines source.toList)[number - 1]? = some line → line ≠ [] →
          ∃ text, (↑number, text) ∈ (Snippet.of source number context column).lines := by
  refine ⟨fun before here hs => hs ▸ fedLines_after before here, fun number hn => ⟨?_, ?_⟩⟩
  · intro e hs hl text ht hp
    exact lineText?_of_sourceLines hn (e.sourceLines_of_snippet? hs hl ht) hp
  · intro context column
    refine ⟨fun n text h => ?_, fun line hl hne => ?_⟩
    · obtain ⟨⟨hlow, -⟩, ht⟩ := Snippet.mem_lines_iff.1 h
      obtain ⟨k, rfl⟩ : ∃ k : Nat, n = k := ⟨n.toNat, by omega⟩
      have hk : 0 < k := by omega
      refine ⟨k, rfl, hk, lineText?_of_sourceLines hk ?_⟩
      rwa [show ((k : Int) - 1).toNat = k - 1 by omega] at ht
    · obtain ⟨text, ht⟩ := exists_sourceLines hl hne
      refine ⟨text, Snippet.mem_lines_iff.2 ⟨by omega, ?_⟩⟩
      rwa [show ((number : Int) - 1).toNat = number - 1 by omega]

example : lineText? "a\r\nb".toList 1 = some ['a'] := by decide

/-- A source with a form feed on its first line and an output on its second. -/
def formFed : String := "a\x0cb\n{{ x }}"

/-- Its tokens, all but the first on the second line. -/
def formFedTokens : List Token :=
  [⟨.data, "a\x0cb\n", ⟨0, 1, 0⟩, false⟩, ⟨.variableBegin, "\x7b\x7b", ⟨4, 2, 0⟩, false⟩,
    ⟨.name, "x", ⟨7, 2, 3⟩, false⟩, ⟨.variableEnd, "\x7d\x7d", ⟨9, 2, 5⟩, false⟩,
    ⟨.eof, "", ⟨11, 2, 7⟩, false⟩]

/-- Behind a form feed, the line that is shown under the number of a token is not the line of that
number. -/
theorem not_always_own_lines :
    tokenize formFed = .ok formFedTokens ∧ (∃ t ∈ formFedTokens, t.position.line = 2) ∧
      (2, "b") ∈ (Snippet.of formFed 2 Snippet.usualContext none).lines ∧
      (∀ e : SyntaxError, e.source = some formFed → e.line = some 2 → e.snippet? = some "b") ∧
      (fedLines formFed.toList)[1]? = some "{{ x }}".toList := by
  refine ⟨by cbv, ⟨_, .tail _ (.head _), rfl⟩, by decide, fun e hs hl => ?_, by decide⟩
  unfold SyntaxError.snippet? SyntaxError.line?
  rw [hs, hl]
  decide

end Liquid
