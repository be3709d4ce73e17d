import Liquid.Text.Html

/-!
# Escaping for HTML

Five characters have a meaning in HTML.  Escaping writes each of them as an entity, and escaping
once leaves an ampersand alone that begins an entity already.

**Settled texts.** A text is settled if it has none of the five characters but ampersands, and each
of these goes on as an entity.  Escaping settles a text, with regard to entities or not, and a
settled text is not changed by escaping once.

**Digits.** The number of a character is written in the digits `0` to `9`.  Escaping once takes the
digits of every script for such a number, so that it may leave an ampersand alone that begins no
entity.

* `isEntityBody_iff`: what goes on as an entity, by its form.
* `settled_escape`, `settled_escapeOnce`: both results are settled.
* `escapeOnce_of_settled`: a settled text stays as it is.
* `escape_injective`: escaping loses nothing.
* `escaped_texts_settled`: all of this together.
* `not_always_entity`: the ampersand that begins no entity.
-/
namespace Liquid.Text.Html

/-! ## Entities -/

/-- What stands between the ampersand and the semicolon of an entity: a name, or the number of a
character in decimal or hexadecimal digits.  Which decimal digits count is left open. -/
inductive Reference (digit : Char → Bool) : List Char → Prop
  | name {c : Char} {rest : List Char} (hc : c.isAlpha = true)
      (h : ∀ d ∈ rest, d.isAlphanum = true) : Reference digit (c :: rest)
  | decimal {d : Char} {ds : List Char} (hd : digit d = true) (h : ∀ d ∈ ds, digit d = true) :
      Reference digit ('#' :: d :: ds)
  | hexadecimal {x d : Char} {ds : List Char} (hx : x = 'x' ∨ x = 'X') (hd : isHexDigit d = true)
      (h : ∀ d ∈ ds, isHexDigit d = true) : Reference digit ('#' :: x :: d :: ds)

/-- What follows an ampersand makes an entity of it. -/
def GoesOn (digit : Char → Bool) (s : List Char) : Prop :=
  ∃ body rest, Reference digit body ∧ s = body ++ ';' :: rest

/-- What follows an ampersand is a number in digits that are not all of them `0` to `9`. -/
def IsForeign (s : List Char) : Prop :=
  ∃ ds rest, s = '#' :: ds ++ ';' :: rest ∧ (∀ d ∈ ds, isDigit d = true) ∧
    ∃ d ∈ ds, d.isDigit = false

/-- A run of characters of one class with a semicolon behind it. -/
theorem head?_dropWhile_iff {p : Char → Bool} (hp : p ';' = false) {s : List Char} :
    (s.dropWhile p).head? = some ';' ↔
      ∃ run rest, (∀ d ∈ run, p d = true) ∧ s = run ++ ';' :: rest := by
  constructor
  · intro h
    obtain ⟨rest, hrest⟩ := List.head?_eq_some_iff.1 h
    refine ⟨s.takeWhile p, rest, List.all_eq_true.1 List.all_takeWhile, ?_⟩
    rw [← hrest, List.takeWhile_append_dropWhile]
  · rintro ⟨run, rest, hrun, rfl⟩
    rw [List.dropWhile_append_of_pos hrun, List.dropWhile_cons_of_neg (by simp [hp])]
    rfl

theorem isRunThenSemicolon_iff {p : Char → Bool} (hp : p ';' = false) {s : List Char} :
    isRunThenSemicolon p s = true ↔
      ∃ d ds rest, p d = true ∧ (∀ d ∈ ds, p d = true) ∧ s = d :: ds ++ ';' :: rest := by
  cases s with
  | nil => simp [isRunThenSemicolon]
  | cons c s =>
    simp only [isRunThenSemicolon, Bool.and_eq_true, beq_iff_eq, head?_dropWhile_iff hp,
      List.cons_append, List.cons.injEq]
    constructor
    · rintro ⟨hc, run, rest, hrun, hs⟩
      exact ⟨c, run, rest, hc, hrun, rfl, hs⟩
    · rintro ⟨_, run, rest, hc, hrun, rfl, hs⟩
      exact ⟨hc, run, rest, hrun, hs⟩

theorem isEntityBody_iff (s : List Char) : isEntityBody s = true ↔ GoesOn isDigit s := by
  have hhex : isHexDigit ';' = false := by decide
  have hdecimal : isDigit ';' = false := by decide
  constructor
  · intro h
    unfold isEntityBody at h
    split at h
    · obtain ⟨d, ds, rest, hd, hds, rfl⟩ := (isRunThenSemicolon_iff hhex).1 h
      exact ⟨'#' :: 'x' :: d :: ds, rest, .hexadecimal (.inl rfl) hd hds, rfl⟩
    · obtain ⟨d, ds, rest, hd, hds, rfl⟩ := (isRunThenSemicolon_iff hhex).1 h
      exact ⟨'#' :: 'X' :: d :: ds, rest, .hexadecimal (.inr rfl) hd hds, rfl⟩
    · obtain ⟨d, ds, rest, hd, hds, rfl⟩ := (isRunThenSemicolon_iff hdecimal).1 h
      exact ⟨'#' :: d :: ds, rest, .decimal hd hds, rfl⟩
    · rename_i c s _ _ _
      simp only [Bool.and_eq_true, beq_iff_eq, head?_dropWhile_iff (p := Char.isAlphanum) rfl] at h
      obtain ⟨hc, run, rest, hrun, rfl⟩ := h
      exact ⟨c :: run, rest, .name hc hrun, rfl⟩
    · cases h
  · rintro ⟨body, rest, hbody, rfl⟩
    cases hbody with
    | @name c run hc hrun =>
      have hne : c ≠ '#' := by
        rintro rfl
        cases hc
      have hrest : ((run ++ ';' :: rest).dropWhile Char.isAlphanum).head? = some ';' :=
        (head?_dropWhile_iff rfl).2 ⟨run, rest, hrun, rfl⟩
      unfold isEntityBody
      split <;> grind [isLetter]
    | @decimal d ds hd hds =>
      have hrun : isRunThenSemicolon isDigit (d :: ds ++ ';' :: rest) = true :=
        (isRunThenSemicolon_iff hdecimal).2 ⟨d, ds, rest, hd, hds, rfl⟩
      -- The first digit is not the sign of a hexadecimal number.
      have hx : d ≠ 'x' := by
        rintro rfl
        cases hd
      have hX : d ≠ 'X' := by
        rintro rfl
        cases hd
      unfold isEntityBody
      split <;> grind
    | @hexadecimal x d ds hx hd hds =>
      have hrun := (isRunThenSemicolon_iff hhex).2 ⟨d, ds, rest, hd, hds, rfl⟩
      rcases hx with rfl | rfl <;> exact hrun

/-! ## Settled texts -/

/-- A text in which nothing is left to escape: the only characters with a meaning are ampersands,
and each of them goes on as an entity. -/
inductive Settled (digit : Char → Bool) : List Char → Prop
  | nil : Settled digit []
  | plain {c : Char} {rest : List Char} (hc : escapeChar c = [c]) (h : Settled digit rest) :
      Settled digit (c :: rest)
  | entity {rest : List Char} (he : GoesOn digit rest) (h : Settled digit rest) :
      Settled digit ('&' :: rest)

/-- The characters with a meaning, and the references to them. -/
def references : List (Char × List Char) :=
  [('&', "amp".toList), ('<', "lt".toList), ('>', "gt".toList), ('"', "quot".toList),
    ('\'', "#39".toList)]

/-- A character is written as it is, or as an entity. -/
theorem escapeChar_cases (c : Char) :
    (c ≠ '&' ∧ escapeChar c = [c]) ∨
      ∃ e ∈ references, c = e.1 ∧ escapeChar c = '&' :: e.2 ++ [';'] := by
  by_cases h : ∃ e ∈ references, c = e.1
  · obtain ⟨e, he, rfl⟩ := h
    refine .inr ⟨e, he, rfl, ?_⟩
    revert e
    decide
  · refine .inl ?_
    simp only [references, List.mem_cons, List.not_mem_nil, or_false, exists_eq_or_imp,
      exists_eq_left, not_or] at h
    obtain ⟨h₁, h₂, h₃, h₄, h₅⟩ := h
    exact ⟨h₁, by simp only [escapeChar, h₁, h₂, h₃, h₄, h₅, if_false]⟩

/-- The characters of a class without the five characters are written as they are. -/
theorem escapeChar_of_class {p : Char → Bool} (hp : ∀ e ∈ references, p e.1 = false) {c : Char}
    (hc : p c = true) : escapeChar c = [c] := by
  obtain ⟨-, h⟩ | ⟨e, he, rfl, -⟩ := escapeChar_cases c
  · exact h
  · rw [hp e he] at hc
    cases hc

/-- A class of digits as in the number of a character: the digits of the apostrophe are among them,
and no character with a meaning is. -/
structure IsDecimal (digit : Char → Bool) : Prop where
  three : digit '3' = true
  nine : digit '9' = true
  plain : ∀ e ∈ references, digit e.1 = false

theorem isDecimal_isDigit : IsDecimal isDigit := ⟨rfl, rfl, by decide⟩

theorem isDecimal_ascii : IsDecimal Char.isDigit := ⟨rfl, rfl, by decide⟩

/-- A reference has no character with a meaning in it. -/
theorem Reference.escapeChar {digit : Char → Bool} (hdigit : IsDecimal digit) {body : List Char}
    (h : Reference digit body) : ∀ c ∈ body, escapeChar c = [c] := by
  have hname {c : Char} (hc : c.isAlphanum = true) : Html.escapeChar c = [c] :=
    escapeChar_of_class (p := Char.isAlphanum) (by decide) hc
  have hdecimal {c : Char} (hc : digit c = true) : Html.escapeChar c = [c] :=
    escapeChar_of_class hdigit.plain hc
  have hhex {c : Char} (hc : isHexDigit c = true) : Html.escapeChar c = [c] :=
    escapeChar_of_class (p := isHexDigit) (by decide) hc
  cases h with
  | @name c rest hc hrest =>
    exact List.forall_mem_cons.2 ⟨hname (by simp [Char.isAlphanum, hc]),
      fun d hd => hname (hrest d hd)⟩
  | decimal hd hds =>
    exact List.forall_mem_cons.2 ⟨rfl, List.forall_mem_cons.2 ⟨hdecimal hd,
      fun d hd => hdecimal (hds d hd)⟩⟩
  | hexadecimal hx hd hds =>
    refine List.forall_mem_cons.2 ⟨rfl, List.forall_mem_cons.2 ⟨?_, List.forall_mem_cons.2
      ⟨hhex hd, fun d hd => hhex (hds d hd)⟩⟩⟩
    rcases hx with rfl | rfl <;> rfl

theorem escapeOnce_of_settled {s : List Char} (h : Settled isDigit s) : escapeOnce s = s := by
  induction h with
  | nil => rfl
  | @plain c rest hc _ ih =>
    rw [escapeOnce, ih]
    split
    · rfl
    · rw [hc, List.singleton_append]
  | @entity rest he _ ih =>
    rw [escapeOnce, if_pos (by simpa using (isEntityBody_iff rest).2 he), ih, List.singleton_append]

section

variable {digit : Char → Bool} {s rest : List Char}

theorem Settled.append {run : List Char} (hrun : ∀ c ∈ run, escapeChar c = [c])
    (h : Settled digit rest) : Settled digit (run ++ rest) := by
  induction run with
  | nil => exact h
  | cons c run ih =>
    obtain ⟨hc, hrun⟩ := List.forall_mem_cons.1 hrun
    exact .plain hc (ih hrun)

theorem reference_of_mem (hdigit : IsDecimal digit) : ∀ e ∈ references, Reference digit e.2 := by
  simp only [references, List.forall_mem_cons]
  have hletters (name : String) (h : name.toList.all Char.isAlphanum = true) :
      ∀ d ∈ name.toList, d.isAlphanum = true := List.all_eq_true.1 h
  exact ⟨.name rfl (hletters "mp" rfl), .name rfl (hletters "t" rfl), .name rfl (hletters "t" rfl),
    .name rfl (hletters "uot" rfl), .decimal hdigit.three (List.forall_mem_singleton.2 hdigit.nine),
    List.forall_mem_nil _⟩

theorem settled_escapeChar (hdigit : IsDecimal digit) (h : Settled digit rest) (c : Char) :
    Settled digit (escapeChar c ++ rest) := by
  obtain ⟨-, hc⟩ | ⟨e, he, -, hc⟩ := escapeChar_cases c
  · rw [hc]
    exact .plain hc h
  · have hname : Reference digit e.2 := reference_of_mem hdigit e he
    rw [hc, List.append_assoc]
    exact .entity ⟨e.2, rest, hname, rfl⟩ (.append (hname.escapeChar hdigit) (.plain rfl h))

theorem settled_escape (hdigit : IsDecimal digit) (s : List Char) : Settled digit (escape s) := by
  induction s with
  | nil => exact .nil
  | cons c s ih =>
    rw [escape, List.flatMap_cons]
    exact settled_escapeChar hdigit ih c

theorem Settled.escapeChar_of_mem (h : Settled digit s) {c : Char} (hc : c ∈ s) :
    c = '&' ∨ escapeChar c = [c] := by
  induction h with
  | nil => cases hc
  | plain hd _ ih =>
    cases hc with
    | head => exact .inr hd
    | tail _ hc => exact ih hc
  | entity _ _ ih =>
    cases hc with
    | head => exact .inl rfl
    | tail _ hc => exact ih hc

theorem Settled.goesOn (h : Settled digit s) {before after : List Char}
    (hs : s = before ++ '&' :: after) : GoesOn digit after := by
  induction h generalizing before with
  | nil => simp at hs
  | @plain c rest hc _ ih =>
    cases before with
    | nil =>
      obtain ⟨rfl, rfl⟩ := List.cons.inj hs
      cases hc
    | cons d before => exact ih (List.cons.inj hs).2
  | entity he _ ih =>
    cases before with
    | nil =>
      obtain ⟨-, rfl⟩ := List.cons.inj hs
      exact he
    | cons d before => exact ih (List.cons.inj hs).2

end

/-- Characters without a meaning in front of a text stay as they are. -/
theorem escapeOnce_append {run : List Char} (hrun : ∀ c ∈ run, escapeChar c = [c])
    (s : List Char) : escapeOnce (run ++ s) = run ++ escapeOnce s := by
  induction run with
  | nil => rfl
  | cons c run ih =>
    obtain ⟨hc, hrun⟩ := List.forall_mem_cons.1 hrun
    rw [List.cons_append, escapeOnce, ih hrun]
    split
    · rfl
    · rw [hc]
      rfl

/-- Escaping once settles a text in the digits in which its numbers are written. -/
theorem settled_escapeOnce {digit : Char → Bool} (hdigit : IsDecimal digit) {s : List Char}
    (hs : ∀ before after, s = before ++ '&' :: after → GoesOn isDigit after → GoesOn digit after) :
    Settled digit (escapeOnce s) := by
  induction s with
  | nil => exact .nil
  | cons c s ih =>
    replace ih := ih fun before after h => hs (c :: before) after (congrArg (c :: ·) h)
    rw [escapeOnce]
    split
    next h =>
      simp only [Bool.and_eq_true, decide_eq_true_eq] at h
      obtain ⟨rfl, he⟩ := h
      -- The entity that was there is still there: nothing in it is escaped.
      obtain ⟨body, rest, hbody, rfl⟩ := hs [] s rfl ((isEntityBody_iff s).1 he)
      refine .entity ⟨body, escapeOnce rest, hbody, ?_⟩ ih
      have hend : escapeOnce ([';'] ++ rest) = [';'] ++ escapeOnce rest :=
        escapeOnce_append (List.forall_mem_singleton.2 (by decide)) rest
      rw [escapeOnce_append (hbody.escapeChar hdigit)]
      exact congrArg (body ++ ·) hend
    next => exact settled_escapeChar hdigit ih c

/-! ## Nothing is lost -/

/-- Where the first semicolon stands. -/
theorem append_semicolon_inj {n m s t : List Char} (hn : ';' ∉ n) (hm : ';' ∉ m)
    (h : n ++ ';' :: s = m ++ ';' :: t) : n = m ∧ s = t := by
  induction n generalizing m with
  | nil =>
    cases m with
    | nil => exact ⟨rfl, (List.cons.inj h).2⟩
    | cons c m =>
      obtain ⟨rfl, -⟩ := List.cons.inj h
      simp at hm
  | cons d n ih =>
    cases m with
    | nil =>
      obtain ⟨rfl, -⟩ := List.cons.inj h
      simp at hn
    | cons c m =>
      obtain ⟨rfl, hrest⟩ := List.cons.inj h
      obtain ⟨rfl, hst⟩ := ih (fun hc => hn (.tail _ hc)) (fun hc => hm (.tail _ hc)) hrest
      exact ⟨rfl, hst⟩

theorem escapeChar_append_inj {c d : Char} {s t : List Char}
    (h : escapeChar c ++ s = escapeChar d ++ t) : c = d ∧ s = t := by
  have hnames : ∀ e ∈ references, ';' ∉ e.2 := by decide
  have hapart : ∀ e ∈ references, ∀ f ∈ references, e.2 = f.2 → e.1 = f.1 := by decide
  obtain ⟨hne, hc⟩ | ⟨e, he, rfl, hc⟩ := escapeChar_cases c <;>
    obtain ⟨hne', hd⟩ | ⟨f, hf, rfl, hd⟩ := escapeChar_cases d <;>
    rw [hc, hd] at h
  · exact List.cons.inj h
  · exact absurd (List.cons.inj h).1 hne
  · exact absurd (List.cons.inj h).1.symm hne'
  · simp only [List.cons_append, List.append_assoc, List.nil_append] at h
    obtain ⟨hname, hst⟩ := append_semicolon_inj (hnames e he) (hnames f hf) (List.cons.inj h).2
    exact ⟨hapart e he f hf hname, hst⟩

theorem escapeChar_ne_nil (c : Char) : escapeChar c ≠ [] := by
  obtain ⟨-, hc⟩ | ⟨e, -, -, hc⟩ := escapeChar_cases c <;> simp [hc]

theorem escape_injective : Function.Injective escape := by
  intro s
  induction s with
  | nil =>
    intro t h
    cases t with
    | nil => rfl
    | cons d t => simp [escape, escapeChar_ne_nil] at h
  | cons c s ih =>
    intro t h
    cases t with
    | nil => simp [escape, escapeChar_ne_nil] at h
    | cons d t =>
      obtain ⟨rfl, hst⟩ := escapeChar_append_inj h
      rw [ih hst]

/-! ## Both ways to escape -/

/-- What goes on as an entity in digits of any script does so in the digits `0` to `9`, or it is a
number in other digits. -/
theorem GoesOn.ascii_or_foreign {s : List Char} (h : GoesOn isDigit s) :
    GoesOn Char.isDigit s ∨ IsForeign s := by
  obtain ⟨body, rest, hbody, rfl⟩ := h
  cases hbody with
  | name hc hrest => exact .inl ⟨_, rest, .name hc hrest, rfl⟩
  | hexadecimal hx hd hds => exact .inl ⟨_, rest, .hexadecimal hx hd hds, rfl⟩
  | @decimal d ds hd hds =>
    by_cases hother : ∃ e ∈ d :: ds, e.isDigit = false
    · exact .inr ⟨d :: ds, rest, rfl, List.forall_mem_cons.2 ⟨hd, hds⟩, hother⟩
    · have hall : ∀ e ∈ d :: ds, e.isDigit = true := fun e he => by
        simpa using fun hne => hother ⟨e, he, hne⟩
      obtain ⟨hd, hds⟩ := List.forall_mem_cons.1 hall
      exact .inl ⟨_, rest, .decimal hd hds, rfl⟩

/-- Escaping a text, with regard to entities or not, settles it: escaping it once more changes
nothing, and no character with a meaning is left in it but ampersands.  Each ampersand of an escaped
text begins an entity; one that escaping once has left alone may begin a number in digits of another
script, but only where the text has such a number.  Different texts are different when escaped. -/
theorem escaped_texts_settled (s : List Char) :
    escapeOnce (escape s) = escape s ∧
      escapeOnce (escapeOnce s) = escapeOnce s ∧
      (∀ c ∈ ['<', '>', '"', '\''], c ∉ escape s ∧ c ∉ escapeOnce s) ∧
      (∀ before after, escape s = before ++ '&' :: after → GoesOn Char.isDigit after) ∧
      (∀ before after, escapeOnce s = before ++ '&' :: after →
        GoesOn Char.isDigit after ∨ IsForeign after) ∧
      ((∀ before after, s = before ++ '&' :: after → ¬IsForeign after) →
        ∀ before after, escapeOnce s = before ++ '&' :: after → GoesOn Char.isDigit after) ∧
      ∀ t, escape s = escape t → s = t := by
  have hescape : Settled isDigit (escape s) := settled_escape isDecimal_isDigit s
  have honce : Settled isDigit (escapeOnce s) :=
    settled_escapeOnce isDecimal_isDigit fun _ _ _ => id
  have hspecial : ∀ c ∈ ['<', '>', '"', '\''], ¬(c = '&' ∨ escapeChar c = [c]) := by
    simp only [List.forall_mem_cons]
    exact ⟨by decide, by decide, by decide, by decide, List.forall_mem_nil _⟩
  refine ⟨escapeOnce_of_settled hescape, escapeOnce_of_settled honce, fun c hc => ?_,
    fun before after h => ?_, fun before after h => ?_, fun hs before after h => ?_,
    fun t h => escape_injective h⟩
  · exact ⟨fun hm => hspecial c hc (hescape.escapeChar_of_mem hm),
      fun hm => hspecial c hc (honce.escapeChar_of_mem hm)⟩
  · exact (settled_escape isDecimal_ascii s).goesOn h
  · exact (honce.goesOn h).ascii_or_foreign
  · have hascii : Settled Char.isDigit (escapeOnce s) :=
      settled_escapeOnce isDecimal_ascii fun before after hm hgoes =>
        hgoes.ascii_or_foreign.resolve_right (hs before after hm)
    exact hascii.goesOn h

theorem escaped_texts_settled_entity :
    (∀ before after, "<&lt;".toList = before ++ '&' :: after → ¬IsForeign after) ∧
      escapeOnce "<&lt;".toList = '&' :: "lt;&lt;".toList ∧
      GoesOn Char.isDigit "lt;&lt;".toList := by
  have hforeign : ∀ before after, "<&lt;".toList = before ++ '&' :: after → ¬IsForeign after := by
    rintro before after h ⟨ds, rest, hafter, -⟩
    have hsign : '#' ∈ "<&lt;".toList := by simp [h, hafter]
    exact absurd hsign (by decide)
  have honce : escapeOnce "<&lt;".toList = '&' :: "lt;&lt;".toList := by decide
  exact ⟨hforeign, honce, (escaped_texts_settled _).2.2.2.2.2.1 hforeign [] _ honce⟩

/-- Escaping once leaves the ampersand before an Arabic digit three and a semicolon alone, which is
no entity. -/
theorem not_always_entity :
    ¬∀ s before after, escapeOnce s = before ++ '&' :: after → GoesOn Char.isDigit after := by
  intro h
  obtain ⟨body, rest, hbody, hs⟩ := h "&#٣;".toList [] "#٣;".toList (by decide)
  cases hbody with
  | name hc =>
    obtain ⟨rfl, -⟩ := List.cons.inj hs
    cases hc
  | decimal hd =>
    obtain ⟨-, hs⟩ := List.cons.inj hs
    obtain ⟨rfl, -⟩ := List.cons.inj hs
    cases hd
  | hexadecimal hx =>
    obtain ⟨-, hs⟩ := List.cons.inj hs
    obtain ⟨rfl, -⟩ := List.cons.inj hs
    rcases hx with hx | hx <;> cases hx

end Liquid.Text.Html
