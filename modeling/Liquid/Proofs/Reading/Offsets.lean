import Liquid.Proofs.Reading.Cutting
import Mathlib

/-!
# Places as offsets

A place is told by its line and its column.  A table of the offsets at which the lines of a source
begin turns it into an offset again, and there the source holds the token: a delimiter, a name, a
number or an operator as it is, a string between its quotes, a closing delimiter perhaps behind its
mark, and a text behind the blanks that were trimmed.

**Standing in a row.**  Whatever stands in a source is read from its beginning on, so each lexeme
begins in what the one before it has in front of it (`Standing`).  Texts, the words of a region and
the two tags of a verbatim block are such rows, and rows are put together end to end.

* `Position.offset?_of`: the table turns every place of a source into its offset.
* `Standing.append`: rows are put together.
* `standing_intoWords`, `standing_area`, `standing_cut`: the lexemes of a source stand in a row.
* `offset?_tokenize`: where the tokens of a source stand.
-/
namespace Liquid

open Liquid.Text

/-! ## Lines -/

/-- The offsets behind the line feeds of a text that begins at an offset. -/
def lineStartsFrom (offset : Nat) : List Char → List Nat
  | [] => []
  | c :: rest =>
    if c = '\n' then (offset + 1) :: lineStartsFrom (offset + 1) rest
    else lineStartsFrom (offset + 1) rest

/-- The offsets at which the lines of a source begin. -/
def lineStarts (source : List Char) : List Nat := 0 :: lineStartsFrom 0 source

/-- The offset of a place, by the table of the lines. -/
def Position.offset? (starts : List Nat) (p : Position) : Option Nat :=
  starts[p.line - 1]?.map (· + p.column)

section

variable {source here : List Char}

theorem lineStartsFrom_append (offset : Nat) (s t : List Char) :
    lineStartsFrom offset (s ++ t) = lineStartsFrom offset s ++ lineStartsFrom (offset + s.length) t
    := by
  induction s generalizing offset with
  | nil => rfl
  | cons c s ih =>
    have hlen : offset + 1 + s.length = offset + (c :: s).length := by
      simp only [List.length_cons]
      omega
    simp only [List.cons_append, lineStartsFrom, ih, hlen]
    split <;> rfl

theorem lineStarts_append (s t : List Char) :
    lineStarts (s ++ t) = lineStarts s ++ lineStartsFrom s.length t := by
  simp [lineStarts, lineStartsFrom_append]

theorem after_concat (s : List Char) (c : Char) :
    Position.after (s ++ [c]) = (Position.after s).step c := by
  simp [Position.after]

/-- Behind a text as many lines have begun as its last place tells, and the last one begins the
column of the place in front of it. -/
theorem lineStarts_after (s : List Char) :
    (lineStarts s).length = (Position.after s).line ∧
      (lineStarts s).getLast?.map (· + (Position.after s).column) = some s.length := by
  induction s using List.reverseRecOn with
  | nil => simp [lineStarts, lineStartsFrom, Position.after, Position.start]
  | append_singleton s c ih =>
    obtain ⟨hline, hlast⟩ := ih
    rw [lineStarts_append, after_concat, Position.step]
    by_cases hc : c = '\n'
    · simp [lineStartsFrom, hc, hline]
    · simp only [lineStartsFrom, hc, if_false, List.append_nil]
      refine ⟨hline, ?_⟩
      rw [Option.map_eq_some_iff] at hlast ⊢
      obtain ⟨b, hb, he⟩ := hlast
      refine ⟨b, hb, ?_⟩
      simp
      omega

/-- Lines that begin behind a place do not move it. -/
theorem offset?_after (s t : List Char) :
    (Position.after s).offset? (lineStarts (s ++ t)) = some s.length := by
  obtain ⟨hline, hlast⟩ := lineStarts_after s
  have hlt : (Position.after s).line - 1 < (lineStarts s).length := by
    have : 0 < (lineStarts s).length := by simp [lineStarts]
    omega
  rw [Position.offset?, lineStarts_append, List.getElem?_append_left hlt, ← hline,
    ← List.getLast?_eq_getElem?]
  exact hlast

/-- The table of the lines turns every place of a source into its offset. -/
theorem Position.offset?_of (h : here <:+ source) :
    (Position.of source here).offset? (lineStarts source) = some (Position.of source here).offset ∧
      source.drop (Position.of source here).offset = here ∧
      (Position.of source here).offset + here.length = source.length := by
  obtain ⟨before, rfl⟩ := h
  have hof : Position.of (before ++ here) here = Position.after before := by
    rw [Position.of, List.length_append, Nat.add_sub_cancel, List.take_left]
  rw [hof, Position.offset_after]
  exact ⟨offset?_after before here, List.drop_left, by simp⟩

end

/-! ## What stands at a place -/

/-- What a token of some kind with some text looks like at the beginning of the source. -/
def Token.Kind.Shows (text here : List Char) : Token.Kind → Prop
  | .string => ∃ quote, (quote = '"' ∨ quote = '\'') ∧ quote :: (text ++ [quote]) <+: here
  | .variableEnd | .blockEnd => text <+: here ∨ '-' :: text <+: here
  | .data | .raw => ∃ blank, Blank blank ∧ blank ++ text <+: here
  | .eof => text = [] ∧ here = []
  | _ => text <+: here

/-- Whether a token of this kind shows nothing but its text. -/
def Token.Kind.literal : Token.Kind → Bool
  | .string | .variableEnd | .blockEnd | .data | .raw | .eof => false
  | _ => true

section

variable {kind : Token.Kind} {text here after rest mid s t : List Char} {ls more : List Lexeme}

theorem shows_literal (h : kind.literal = true) (ht : text <+: here) : kind.Shows text here := by
  unfold Token.Kind.Shows
  split
  · cases h
  · cases h
  · cases h
  · cases h
  · cases h
  · cases h
  · exact ht

theorem shows_spelling (w : Spelling) (rest : List Char) :
    w.kind.Shows w.text.toList (w.chars ++ rest) := by
  obtain ⟨kind, text, chars, h⟩ := w
  cases h with
  | name => exact shows_literal rfl (by simp)
  | @string quote content hq =>
    refine ⟨quote, hq, ?_⟩
    simp
  | integer => exact shows_literal rfl (by simp)
  | float => exact shows_literal rfl (by simp)
  | operator ho =>
    have hall : ∀ o ∈ Lexer.operators, o.2.literal = true := by decide
    exact shows_literal (hall _ ho) (by simp)

theorem shows_opener (d : Delimited) (rest : List Char) :
    d.region.openKind.Shows d.region.opener (d.source ++ rest) := by
  refine shows_literal (by cases d.region <;> rfl) ?_
  rw [Delimited.source, List.append_assoc]
  exact List.prefix_append _ _

theorem shows_closing (d : Delimited) (rest : List Char) :
    d.region.closeKind.Shows d.region.closer (d.closing ++ rest) := by
  have h : d.region.closer <+: d.closing ++ rest ∨ '-' :: d.region.closer <+: d.closing ++ rest := by
    unfold Delimited.closing markOf
    cases d.right
    · exact .inl (by simp)
    · exact .inr (by simp)
  cases hr : d.region <;> rw [hr] at h <;> exact h

/-- What is left of a text stands behind the blanks at its beginning. -/
theorem shows_trims {left right : Bool} {kept : List Char} (h : Trims left right text kept)
    (rest : List Char) : ∃ blank, Blank blank ∧ blank ++ kept <+: text ++ rest := by
  obtain ⟨a, b, rfl, ha, -⟩ := h.parts
  exact ⟨a, ha, by simp⟩

/-! ## Rows -/

/-- Lexemes that stand in a row in a source, which goes on with `rest` behind them: each shows what
it is, and begins in what the one before it has in front of it. -/
inductive Standing (rest : List Char) : List Char → List Lexeme → Prop where
  | nil {s : List Char} : rest <:+ s → Standing rest s []
  | cons {s : List Char} {l : Lexeme} {ls : List Lexeme} :
    l.here <:+ s → l.kind.Shows l.text l.here → Standing rest l.here ls →
    Standing rest s (l :: ls)

theorem Standing.mono (h : Standing rest s ls) (hs : s <:+ t) : Standing rest t ls := by
  cases h with
  | nil hr => exact .nil (hr.trans hs)
  | cons hl hshow hmore => exact .cons (hl.trans hs) hshow hmore

/-- One row behind another. -/
theorem Standing.append (h : Standing mid s ls) (hm : Standing rest mid more) :
    Standing rest s (ls ++ more) := by
  induction h with
  | nil hmid => exact hm.mono hmid
  | cons hl hshow _ ih => exact .cons hl hshow ih

/-- One lexeme and a row in what it has in front of it. -/
theorem Standing.cons_self {l : Lexeme} (hs : l.here = s) (h : l.kind.Shows l.text s)
    (hmore : Standing rest s ls) : Standing rest s (l :: ls) := by
  subst hs
  exact .cons (List.suffix_refl _) h hmore

theorem standing_intoWords {point : Bool} (h : Lexer.IntoWords after point s ls) :
    Standing after (s ++ after) ls := by
  induction h with
  | @nil _ blank _ => exact .nil (List.suffix_append blank after)
  | @cons _ blank s w ls _ _ _ ih =>
    have hword : w.chars ++ (s ++ after) <:+ blank ++ (w.chars ++ s) ++ after :=
      ⟨blank, by simp⟩
    refine .cons hword (shows_spelling w _) ?_
    exact ih.mono (List.suffix_append w.chars _)

theorem suffix_source (d : Delimited) (rest : List Char) :
    d.inside ++ (d.closing ++ rest) <:+ d.source ++ rest :=
  ⟨d.region.opener ++ markOf d.left, by simp [Delimited.source]⟩

/-- A region whose words stand in a row. -/
theorem standing_delimited {d : Delimited} {words : List Lexeme}
    (h : Standing (d.closing ++ rest) (d.inside ++ (d.closing ++ rest)) words) :
    Standing rest (d.source ++ rest) (d.lexemes words rest) := by
  refine .cons_self rfl (shows_opener d rest) ?_
  refine (h.mono (suffix_source d rest)).append ?_
  exact .cons_self rfl (shows_closing d rest) (.nil (List.suffix_append d.closing rest))

/-- The content of a verbatim block and its end tag. -/
theorem standing_verbatim {v : Lexer.Verbatim} {left : Bool} {body word kept : List Char}
    {e : Delimited} (he : Tagged v.End e word) (hk : Trims left e.left body kept)
    (rest : List Char) :
    Standing rest (body ++ (e.source ++ rest)) (v.lexemes kept body e word rest) := by
  have hopen := shows_opener e rest
  rw [he.region] at hopen
  have hword : ("end" ++ v.keyword).toList <+: word ++ (e.closing ++ rest) := by
    cases v with
    | raw =>
      obtain ⟨blank, -, rfl⟩ := he.holds
      exact ⟨blank ++ (e.closing ++ rest), by simp [Lexer.Verbatim.keyword]⟩
    | comment =>
      obtain ⟨tail, rfl, -⟩ := he.holds
      exact ⟨tail ++ (e.closing ++ rest), by simp [Lexer.Verbatim.keyword]⟩
  obtain ⟨blank, -, hinside⟩ := he.inside
  refine .cons_self rfl (shows_trims hk _) ?_
  refine .cons (List.suffix_append body _) hopen ?_
  refine .cons ?_ (shows_literal rfl hword) ?_
  · exact (hinside ▸ ⟨blank, by simp⟩ : word ++ (e.closing ++ rest) <:+
      e.inside ++ (e.closing ++ rest)).trans (suffix_source e rest)
  · have hclose : e.region.closer ++ rest <:+ word ++ (e.closing ++ rest) :=
      ⟨word ++ markOf e.right, by simp [Delimited.closing]⟩
    refine .cons hclose ?_ (.nil (List.suffix_append e.region.closer rest))
    exact .inl (by rw [he.region]; exact List.prefix_append _ rest)

theorem standing_note {d : Delimited} {blank content : List Char}
    (hi : d.inside = blank ++ '#' :: content) (rest : List Char) :
    Standing (d.closing ++ rest) (d.inside ++ (d.closing ++ rest))
      [⟨.name, ['#'], '#' :: (content ++ (d.closing ++ rest)), false⟩,
        ⟨.raw, trim content, content ++ (d.closing ++ rest), false⟩] := by
  have hcontent := shows_trims (trims_trimmed true true content) (d.closing ++ rest)
  refine .cons ⟨blank, by simp [hi]⟩ (shows_literal rfl (by simp)) ?_
  exact .cons (List.suffix_cons '#' _) hcontent (.nil (List.suffix_append content _))

/-- The lexemes of a region stand in a row. -/
theorem standing_area {left right : Bool} {source : List Char}
    (h : Area rest left source right ls) : Standing rest (source ++ rest) ls := by
  cases h with
  | words _ hw _ => exact standing_delimited (standing_intoWords hw)
  | note _ _ _ hi _ => exact standing_delimited (standing_note hi rest)
  | @verbatim v d e words body word kept _ _ hw _ _ he hk =>
    have hopen := standing_delimited (standing_intoWords hw)
    have hblock := hopen.append (standing_verbatim he hk rest)
    rwa [← List.append_assoc, ← List.append_assoc, List.append_assoc d.source] at hblock

theorem standing_dataOf {left right : Bool} {kept : List Char} (h : Trims left right s kept)
    (rest : List Char) : Standing rest (s ++ rest) (dataOf kept (s ++ rest)) := by
  have hrest := List.suffix_append s rest
  unfold dataOf
  split
  · exact .nil hrest
  · exact .cons_self rfl (shows_trims h rest) (.nil hrest)

/-- The lexemes of a source stand in a row. -/
theorem standing_cut {trim : Bool} (h : Cut trim s ls) : Standing [] s ls := by
  induction h with
  | @last trim text kept _ hk =>
    have hdata := standing_dataOf hk []
    rw [List.append_nil] at hdata
    exact hdata.append (.cons_self rfl ⟨rfl, rfl⟩ (.nil (List.suffix_refl [])))
  | region _ hk harea _ ih => exact (standing_dataOf hk _).append ((standing_area harea).append ih)

/-- Of lexemes in a row each begins where the source goes on, behind all before it. -/
theorem Standing.pairwise (h : Standing rest s ls) :
    (∀ l ∈ ls, l.here <:+ s ∧ l.kind.Shows l.text l.here) ∧
      ls.Pairwise fun l l' => l'.here <:+ l.here := by
  induction h with
  | nil => simp
  | cons hl hshow _ ih =>
    refine ⟨List.forall_mem_cons.2 ⟨⟨hl, hshow⟩, fun l' hl' => ?_⟩, ?_⟩
    · exact ⟨(ih.1 l' hl').1.trans hl, (ih.1 l' hl').2⟩
    · exact List.pairwise_cons.2 ⟨fun l' hl' => (ih.1 l' hl').1, ih.2⟩

end

/-- **Where tokens stand.**  The table of the lines turns the line and the column of every token of
a source into an offset, at which the source holds the token; the offsets do not decrease, and the
token that marks the end is at the end. -/
theorem offset?_tokenize {source : String} {tokens : List Token}
    (h : tokenize source = .ok tokens) :
    (∀ t ∈ tokens, t.position.offset? (lineStarts source.toList) = some t.position.offset ∧
      t.kind.Shows t.text.toList (source.toList.drop t.position.offset)) ∧
    (tokens.Pairwise fun t t' => t.position.offset ≤ t'.position.offset) ∧
    ∃ before last, tokens = before ++ [last] ∧ last.kind = .eof ∧
      last.position.offset = source.length := by
  obtain ⟨ls, hls, rfl⟩ := lexemes_of_tokenize h
  obtain ⟨hall, hrow⟩ := (standing_cut (Lexer.cut_lexemes hls)).pairwise
  have hplace (l : Lexeme) (hl : l ∈ ls) := Position.offset?_of (hall l hl).1
  refine ⟨List.forall_mem_map.2 fun l hl => ?_, ?_, ?_⟩
  · obtain ⟨hoffset, hdrop, -⟩ := hplace l hl
    rw [Lexeme.position_toToken, hdrop]
    refine ⟨hoffset, ?_⟩
    simpa [Lexeme.toToken] using (hall l hl).2
  · refine List.pairwise_map.2 (hrow.imp_of_mem fun hl hl' hs => ?_)
    have hlen := (hplace _ hl).2.2
    have hlen' := (hplace _ hl').2.2
    have := hs.length_le
    simp only [Lexeme.position_toToken]
    omega
  · obtain ⟨before, rfl, -⟩ := Lexer.complete_of_lexemes hls
    refine ⟨_, _, List.map_append, rfl, ?_⟩
    have hlast := (hplace ⟨.eof, [], [], false⟩ (by simp)).2.2
    rw [Lexeme.position_toToken, ← String.length_toList]
    simpa using hlast

/-- Behind a line feed columns are counted anew, a string stands between its quotes, and a closing
delimiter behind its mark. -/
theorem offset?_tokenize_two_lines :
    ∃ tokens, tokenize "a\n\x7b\x7b'b' -\x7d\x7d" = .ok tokens ∧
      tokens.map (fun t => (t.position.line, t.position.column, t.position.offset)) =
        [(1, 0, 0), (2, 0, 2), (2, 2, 4), (2, 6, 8), (2, 9, 11)] ∧
      ∀ t ∈ tokens, t.position.offset? (lineStarts "a\n\x7b\x7b'b' -\x7d\x7d".toList) =
          some t.position.offset ∧
        t.kind.Shows t.text.toList ("a\n\x7b\x7b'b' -\x7d\x7d".toList.drop t.position.offset) := by
  have h : tokenize "a\n\x7b\x7b'b' -\x7d\x7d" = .ok [⟨.data, "a\n", ⟨0, 1, 0⟩, false⟩,
      ⟨.variableBegin, "\x7b\x7b", ⟨2, 2, 0⟩, false⟩, ⟨.string, "b", ⟨4, 2, 2⟩, false⟩,
      ⟨.variableEnd, "\x7d\x7d", ⟨8, 2, 6⟩, true⟩, ⟨.eof, "", ⟨11, 2, 9⟩, false⟩] := by cbv
  exact ⟨_, h, rfl, (offset?_tokenize h).1⟩

end Liquid
