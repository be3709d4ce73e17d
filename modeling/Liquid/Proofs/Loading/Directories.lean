import Liquid.Loader.Basic

/-!
# Looking for templates in directories

A template is looked for in some directories, one after the other, and in each of them under one or
two pathnames.  The name is the template's own: it may start at the root, go up, be empty, or name a
directory.

**Where a name leads.**  `Holds` says what it is for a pathname to hold a file: all but its last
part lead to directories, it leads to the file, and this lies within the directory that is searched.
It says so without following the pathname.

**What may go wrong.**  `Plain` names can be looked up in a directory.  One without a last part,
with the null character in it, or that is too long is refused by a fault, and not merely missing.

* `walk_cases`: a pathname is followed to where its parts lead.
* `search_outcome`: a search ends at the first pathname that holds a file.
* `load_eq_of_agree`: nothing but the files within the directories is read.
* `load_answers`: what looking for a template gives.
* `not_always_settled`: some names are refused.
-/
namespace Liquid

namespace Loader

variable {l : Loader} {name : String}

/-! ## One loader among others -/

theorem loadFirst_of_found {s : Source} (h : l.load name = .ok s) (rest : List Loader) :
    loadFirst name (l :: rest) = .ok (some s) := by
  rw [loadFirst, h]
  rfl

theorem loadFirst_of_missed {e : Error} {text : String} {hint asked : Option String}
    (h : l.load name = .error e) (he : e.failure = .notFound text hint asked)
    (rest : List Loader) : loadFirst name (l :: rest) = loadFirst name rest := by
  rw [loadFirst, h]
  simp only [he]

theorem loadFirst_of_fault {f : Fault} (h : l.load name = .error (.ofFault f))
    (rest : List Loader) : loadFirst name (l :: rest) = .error (.ofFault f) := by
  rw [loadFirst, h]
  rfl

end Loader

namespace Directory

open Pathname

variable {d : Directory} {name : String}

/-! ## Following pathnames -/

/-- All parts but the last lead to directories, from a place on. -/
def Passable (d : Directory) (place parts : List String) : Prop :=
  ∀ front part rest, parts = front ++ part :: rest →
    d.tree.isDirectory (front.foldl further place) = true

theorem passable_nil (place : List String) : d.Passable place [] := fun front part rest h => by
  cases front <;> cases h

theorem passable_cons {place rest : List String} {part : String} :
    d.Passable place (part :: rest) ↔
      d.tree.isDirectory place = true ∧ d.Passable (further place part) rest := by
  constructor
  · intro h
    exact ⟨h [] part rest rfl, fun front q more hq => h (part :: front) q more (by rw [hq]; rfl)⟩
  · rintro ⟨hplace, hrest⟩ front q more hq
    cases front with
    | nil => exact hplace
    | cons p front =>
      obtain ⟨rfl, rfl⟩ := List.cons.inj hq
      exact hrest front q more rfl

/-- A pathname is followed to where its parts lead, unless one of them is too long. -/
theorem walk_cases (place parts : List String) :
    d.Passable place parts ∧ d.walk place parts = .ok (some (parts.foldl further place)) ∨
      ¬d.Passable place parts ∧ d.walk place parts = .ok none ∨
      (∃ part ∈ parts, partLimit < part.utf8ByteSize) ∧ d.walk place parts = .error tooLong := by
  induction parts generalizing place with
  | nil => exact .inl ⟨passable_nil place, rfl⟩
  | cons part rest ih =>
    rw [walk, passable_cons]
    by_cases hplace : d.tree.isDirectory place = true
    · by_cases hlong : partLimit < part.utf8ByteSize
      · refine .inr (.inr ⟨⟨part, List.mem_cons_self, hlong⟩, ?_⟩)
        simp only [hplace, hlong, Bool.not_true, Bool.false_eq_true, if_false, if_true]
        rfl
      · simp only [hplace, hlong, Bool.not_true, Bool.false_eq_true, if_false, true_and]
        refine (ih (further place part)).imp_right (Or.imp_right (And.imp_left ?_))
        exact fun ⟨q, hq, hl⟩ => ⟨q, List.mem_cons_of_mem _ hq, hl⟩
    · refine .inr (.inl ⟨fun h => hplace h.1, ?_⟩)
      simp only [hplace, Bool.not_false, if_true]
      rfl

/-! ## Pathnames that can be looked up -/

/-- A pathname that can be looked up. -/
structure Clear (p : Pathname) : Prop where
  clean : p.hasNull = false
  short : p.text.utf8ByteSize < pathLimit
  short_parts : ∀ part ∈ p.parts, part.utf8ByteSize ≤ partLimit

/-- A pathname is followed to its end, unless it is too long. -/
theorem find?_cases (d : Directory) (p : Pathname) :
    d.Passable (p.start d.here) p.parts ∧ d.find? p = .ok (some (p.path d.here)) ∨
      ¬d.Passable (p.start d.here) p.parts ∧ d.find? p = .ok none ∨
      ¬Clear p ∧ d.find? p = .error tooLong := by
  unfold find?
  split
  · rename_i hlong
    exact .inr (.inr ⟨fun h => absurd hlong (Nat.not_le.2 h.short), rfl⟩)
  · refine (d.walk_cases (p.start d.here) p.parts).imp_right (Or.imp_right (And.imp_left ?_))
    rintro ⟨part, hpart, hlong⟩ h
    exact absurd hlong (Nat.not_lt.2 (h.short_parts part hpart))

/-- The pathnames under which a template is looked for in a directory: the exact one, and if that
has no suffix the one with `.liquid` at its end. -/
def pathnames (directory : Pathname) (name : String) : List Pathname :=
  let p := directory.join (.ofString name)
  if p.suffix = "" then
    p :: p.last?.toList.map fun part => { p with parts := p.parts.dropLast ++ [part ++ ".liquid"] }
  else [p]

/-- A name that can be looked up in a directory. -/
structure Plain (directory : Pathname) (name : String) : Prop where
  named : (directory.join (.ofString name)).last?.isSome = true
  clean : directory.hasNull = false
  clear : ∀ p ∈ pathnames directory name, Clear p

/-- A fault that a name is refused with. -/
def Refusal (f : Fault) : Prop := f.kind = .wrongValue ∨ f.kind = .system

theorem candidates_cases (directory : Pathname) (name : String) :
    candidates directory name = .ok (pathnames directory name) ∨
      ¬Plain directory name ∧ ∃ f, candidates directory name = .error f ∧ Refusal f := by
  unfold candidates pathnames
  by_cases hs : (directory.join (.ofString name)).suffix = ""
  · simp only [hs, bne_self_eq_false, Bool.false_eq_true, if_false, if_true, extend]
    cases hlast : (directory.join (.ofString name)).last? with
    | none =>
      refine .inr ⟨fun h => ?_, ⟨.wrongValue, none⟩, rfl, .inl rfl⟩
      have hnamed := h.named
      rw [hlast] at hnamed
      cases hnamed
    | some part => exact .inl rfl
  · simp only [hs, bne_iff_ne, ne_eq, not_false_eq_true, if_true, if_false]
    exact .inl rfl

/-! ## Files -/

/-- A pathname that is looked up for a directory holds a file of some text: it can be followed to
the file, and the file lies within the directory. -/
structure Holds (d : Directory) (directory p : Pathname) (text : String) : Prop where
  passable : d.Passable (p.start d.here) p.parts
  file : d.tree.file? (p.path d.here) = some text
  within : directory.path d.here <+: p.path d.here

/-- The source that a file is read as. -/
def source (p : Pathname) (text : String) : Source :=
  ⟨String.ofList (Text.normalizeNewlines text.toList), some p.text⟩

theorem read?_of_null {p : Pathname} (h : p.hasNull = true) (place : List String) :
    d.read? place p = .error { kind := .wrongValue, note := some "embedded null byte" } := by
  unfold read? resolve
  rw [h]
  rfl

theorem read?_eq {p : Pathname} (h : p.hasNull = false) (place : List String) :
    d.read? place p =
      if place <+: p.path d.here then
        (d.find? p).map fun found => (found.bind d.tree.file?).map (source p)
      else .ok none := by
  unfold read? resolve
  rw [h]
  change (if (!place.isPrefixOf (p.path d.here)) = true then _ else _) = _
  by_cases hwithin : place <+: p.path d.here
  · rw [if_neg (by simp [List.isPrefixOf_iff_prefix.2 hwithin]), if_pos hwithin]
    cases d.find? p with
    | error f => rfl
    | ok found =>
      simp only [bind, Except.bind, Except.map]
      cases found.bind d.tree.file? with
      | none => rfl
      | some text => rfl
  · rw [if_pos (by simpa [← List.isPrefixOf_iff_prefix] using hwithin), if_neg hwithin]
    rfl

/-- A pathname is read if it holds a file. -/
theorem read?_cases (d : Directory) (directory p : Pathname) :
    (∃ text, d.Holds directory p text ∧
      d.read? (directory.path d.here) p = .ok (some (source p text))) ∨
    ((∀ text, ¬d.Holds directory p text) ∧ d.read? (directory.path d.here) p = .ok none) ∨
    ¬Clear p ∧ ∃ f, d.read? (directory.path d.here) p = .error f ∧ Refusal f := by
  cases hnull : p.hasNull with
  | true =>
    refine .inr (.inr ⟨fun h => ?_, _, read?_of_null hnull _, .inl rfl⟩)
    cases h.clean.symm.trans hnull
  | false =>
    rw [read?_eq hnull]
    split
    · rename_i hwithin
      obtain ⟨hpass, hfind⟩ | ⟨hpass, hfind⟩ | ⟨hclear, hfind⟩ := d.find?_cases p
      · rw [hfind]
        cases htext : d.tree.file? (p.path d.here) with
        | some text =>
          refine .inl ⟨text, ⟨hpass, htext, hwithin⟩, ?_⟩
          simp [Except.map, htext]
        | none =>
          refine .inr (.inl ⟨fun text h => ?_, ?_⟩)
          · cases htext.symm.trans h.file
          · simp [Except.map, htext]
      · rw [hfind]
        exact .inr (.inl ⟨fun text h => hpass h.passable, rfl⟩)
      · rw [hfind]
        exact .inr (.inr ⟨hclear, _, rfl, .inr rfl⟩)
    · rename_i hwithin
      exact .inr (.inl ⟨fun text h => hwithin h.within, rfl⟩)

/-! ## Searching -/

/-- None of some pathnames, each of them looked up for a directory, holds a file. -/
def NoneHolds (d : Directory) (looks : List (Pathname × Pathname)) : Prop :=
  ∀ look ∈ looks, ∀ text, ¬d.Holds look.1 look.2 text

theorem noneHolds_nil : d.NoneHolds [] := List.forall_mem_nil _

theorem NoneHolds.append {looks more : List (Pathname × Pathname)} (h : d.NoneHolds looks)
    (h' : d.NoneHolds more) : d.NoneHolds (looks ++ more) :=
  List.forall_mem_append.2 ⟨h, h'⟩

/-- What comes of looking up a list of pathnames, each of them for a directory: the first file that
one of them holds, or nothing if none holds any.  A pathname is refused only if the name cannot be
looked up, and only if none before it holds a file. -/
inductive Outcome (d : Directory) (name : String) (looks : List (Pathname × Pathname)) :
    Except Fault (Option Source) → Prop
  | found {before after : List (Pathname × Pathname)} {directory p : Pathname} {text : String}
      (split : looks = before ++ (directory, p) :: after) (holds : d.Holds directory p text)
      (first : d.NoneHolds before) :
      Outcome d name looks (.ok (some (source p text)))
  | missed (every : d.NoneHolds looks) : Outcome d name looks (.ok none)
  | refused {before after : List (Pathname × Pathname)} {directory p : Pathname} {f : Fault}
      (split : looks = before ++ (directory, p) :: after) (plain : ¬Plain directory name)
      (first : d.NoneHolds before) (refusal : Refusal f) :
      Outcome d name looks (.error f)

/-- Looking up more pathnames if nothing is found. -/
theorem Outcome.append {looks more : List (Pathname × Pathname)}
    {r r' : Except Fault (Option Source)} (h : d.Outcome name looks r)
    (h' : d.Outcome name more r') :
    d.Outcome name (looks ++ more) (r >>= fun found =>
      match found with
      | some s => pure (some s)
      | none => r') := by
  cases h with
  | found split holds first =>
    exact .found (by rw [split, List.append_assoc]; rfl) holds first
  | refused split plain first refusal =>
    exact .refused (by rw [split, List.append_assoc]; rfl) plain first refusal
  | missed every =>
    cases h' with
    | found split holds first =>
      exact .found ((congrArg _ split).trans (List.append_assoc ..).symm) holds (every.append first)
    | refused split plain first refusal =>
      exact .refused ((congrArg _ split).trans (List.append_assoc ..).symm) plain
        (every.append first) refusal
    | missed every' => exact .missed (every.append every')

/-- One pathname after another. -/
theorem readFirst?_outcome {directory : Pathname} {ps : List Pathname}
    (h : ∀ p ∈ ps, p ∈ pathnames directory name) :
    d.Outcome name (ps.map (directory, ·)) (d.readFirst? (directory.path d.here) ps) := by
  induction ps with
  | nil => exact .missed noneHolds_nil
  | cons p rest ih =>
    obtain ⟨hp, hrest⟩ := List.forall_mem_cons.1 h
    have halone : [(directory, p)] = [] ++ (directory, p) :: [] := rfl
    have hone : d.Outcome name [(directory, p)] (d.read? (directory.path d.here) p) := by
      obtain ⟨text, hholds, hread⟩ | ⟨hnone, hread⟩ | ⟨hclear, f, hread, hf⟩ :=
        d.read?_cases directory p
      · rw [hread]
        exact .found halone hholds noneHolds_nil
      · rw [hread]
        exact .missed fun look hlook => by rw [List.mem_singleton.1 hlook]; exact hnone
      · rw [hread]
        exact .refused halone (fun hplain => hclear (hplain.clear p hp)) noneHolds_nil hf
    exact hone.append (ih hrest)

theorem search_of_null {directory : Pathname} (h : directory.hasNull = true)
    (rest : List Pathname) : d.search name (directory :: rest) =
      .error { kind := .wrongValue, note := some "embedded null byte" } := by
  rw [search, resolve, h]
  rfl

theorem search_of_error {directory : Pathname} (h : directory.hasNull = false) {f : Fault}
    (hc : candidates directory name = .error f) (rest : List Pathname) :
    d.search name (directory :: rest) = .error f := by
  rw [search, resolve, h, hc]
  rfl

theorem search_cons {directory : Pathname} (h : directory.hasNull = false) {ps : List Pathname}
    (hc : candidates directory name = .ok ps) (rest : List Pathname) :
    d.search name (directory :: rest) =
      d.readFirst? (directory.path d.here) ps >>= fun found =>
        match found with
        | some s => pure (some s)
        | none => d.search name rest := by
  rw [search, resolve, h, hc]
  rfl

/-- The pathnames that are looked up, in their order, each for its directory. -/
def looked (directories : List Pathname) (name : String) : List (Pathname × Pathname) :=
  directories.flatMap fun directory => (pathnames directory name).map (directory, ·)

theorem looked_cons (directory : Pathname) (rest : List Pathname) (name : String) :
    looked (directory :: rest) name =
      (pathnames directory name).map (directory, ·) ++ looked rest name :=
  List.flatMap_cons

/-- The first pathname for a directory is the exact one. -/
theorem pathnames_eq_cons (directory : Pathname) (name : String) :
    ∃ rest, pathnames directory name = directory.join (.ofString name) :: rest := by
  unfold pathnames
  dsimp only
  split
  · exact ⟨_, rfl⟩
  · exact ⟨_, rfl⟩

/-- A directory for which the name is refused at once. -/
theorem refused_at_once {directory : Pathname} (rest : List Pathname) {f : Fault}
    (h : ¬Plain directory name) (hf : Refusal f) :
    d.Outcome name (looked (directory :: rest) name) (.error f) := by
  obtain ⟨more, hmore⟩ := pathnames_eq_cons directory name
  have hsplit : looked (directory :: rest) name = [] ++
      (directory, directory.join (.ofString name)) ::
        (more.map (directory, ·) ++ looked rest name) := by
    rw [looked_cons, hmore]
    rfl
  exact .refused hsplit h noneHolds_nil hf

/-- One directory after another. -/
theorem search_outcome (d : Directory) (name : String) (directories : List Pathname) :
    d.Outcome name (looked directories name) (d.search name directories) := by
  induction directories with
  | nil => exact .missed noneHolds_nil
  | cons directory rest ih =>
    cases hnull : directory.hasNull with
    | true =>
      rw [search_of_null hnull]
      exact refused_at_once rest (fun h => by cases h.clean.symm.trans hnull) (.inl rfl)
    | false =>
      obtain hall | ⟨hplain, f, hrefused, hf⟩ := candidates_cases directory name
      · rw [search_cons hnull hall, looked_cons]
        exact (readFirst?_outcome fun _ => id).append ih
      · rw [search_of_error hnull hrefused]
        exact refused_at_once rest hplain hf

/-! ## What is read -/

/-- Two trees of files are searched alike: the same directories are in both, and within those that
are searched the same files. -/
structure Agree (d d' : Directory) : Prop where
  here : d'.here = d.here
  paths : d'.paths = d.paths
  isDirectory : ∀ place, d'.tree.isDirectory place = d.tree.isDirectory place
  file? : ∀ directory ∈ d.paths, ∀ place, directory.path d.here <+: place →
    d'.tree.file? place = d.tree.file? place

theorem walk_eq_of_agree {d' : Directory} (h : d.Agree d') (place parts : List String) :
    d'.walk place parts = d.walk place parts := by
  induction parts generalizing place with
  | nil => rfl
  | cons part rest ih => rw [walk, walk, h.isDirectory, ih]

theorem read?_eq_of_agree {d' : Directory} (h : d.Agree d') {directory : Pathname}
    (hd : directory ∈ d.paths) (p : Pathname) :
    d'.read? (directory.path d.here) p = d.read? (directory.path d.here) p := by
  cases hnull : p.hasNull with
  | true => rw [read?_of_null hnull, read?_of_null hnull]
  | false =>
    rw [read?_eq hnull, read?_eq hnull, h.here]
    split
    · rename_i hwithin
      have hfind : d'.find? p = d.find? p := by rw [find?, find?, h.here, walk_eq_of_agree h]
      obtain ⟨-, hfound⟩ | ⟨-, hfound⟩ | ⟨-, hfound⟩ := d.find?_cases p
      · simp only [hfind, hfound, Except.map, Option.bind_some, h.file? directory hd _ hwithin]
      · simp only [hfind, hfound, Except.map, Option.bind_none]
      · simp only [hfind, hfound, Except.map]
    · rfl

theorem search_eq_of_agree {d' : Directory} (h : d.Agree d') {directories : List Pathname}
    (hd : ∀ directory ∈ directories, directory ∈ d.paths) :
    d'.search name directories = d.search name directories := by
  induction directories with
  | nil => rfl
  | cons directory rest ih =>
    obtain ⟨hdirectory, hrest⟩ := List.forall_mem_cons.1 hd
    have hread (ps : List Pathname) : d'.readFirst? (directory.path d.here) ps =
        d.readFirst? (directory.path d.here) ps := by
      induction ps with
      | nil => rfl
      | cons p rest ih => rw [readFirst?, readFirst?, read?_eq_of_agree h hdirectory, ih]
    cases hnull : directory.hasNull with
    | true => rw [search_of_null hnull, search_of_null hnull]
    | false =>
      cases hc : candidates directory name with
      | error f => rw [search_of_error hnull hc, search_of_error hnull hc]
      | ok ps => rw [search_cons hnull hc, search_cons hnull hc, h.here, hread, ih hrest]

/-- The files outside of the directories do not matter. -/
theorem load_eq_of_agree {d' : Directory} (h : d.Agree d') (name : String) :
    d'.load name = d.load name := by
  have hmissed : d'.notFound name = d.notFound name := by rw [notFound, notFound, h.paths]
  rw [load, load, h.paths, search_eq_of_agree h fun _ => id, hmissed]

/-! ## What is answered -/

/-- Looking for a template gives the file that the first of its pathnames holds within its
directory, and the failure to find it if none holds any; where there are more loaders, these are
asked then.  Else the name cannot be looked up in one of the directories, those before have no file
for it, and whoever asks gets a fault.  No file outside of the directories is read: whatever such
files hold, the answer is the same. -/
theorem load_answers (d : Directory) (name : String) :
    ((∃ before directory p after text, looked d.paths name = before ++ (directory, p) :: after ∧
        d.Holds directory p text ∧ d.NoneHolds before ∧ d.load name = .ok (source p text) ∧
        ∀ rest, Loader.loadFirst name (.files d :: rest) = .ok (some (source p text))) ∨
      (d.NoneHolds (looked d.paths name) ∧ d.load name = .error (d.notFound name) ∧
        ∀ rest, Loader.loadFirst name (.files d :: rest) = Loader.loadFirst name rest) ∨
      ∃ before directory p after f, looked d.paths name = before ++ (directory, p) :: after ∧
        ¬Plain directory name ∧ d.NoneHolds before ∧ Refusal f ∧ d.load name = .error (.ofFault f) ∧
        ∀ rest, Loader.loadFirst name (.files d :: rest) = .error (.ofFault f)) ∧
      ∀ d', d.Agree d' → d'.load name = d.load name := by
  refine ⟨?_, fun d' h => load_eq_of_agree h name⟩
  have hsearch := d.search_outcome name d.paths
  have hload : (Loader.files d).load name = d.load name := by rw [Loader.load]
  generalize hr : d.search name d.paths = r at hsearch
  cases hsearch with
  | @found before after directory p text split holds first =>
    have hfound : d.load name = .ok (source p text) := by
      rw [load, hr]
      rfl
    exact .inl ⟨_, _, _, _, _, split, holds, first, hfound,
      Loader.loadFirst_of_found (hload.trans hfound)⟩
  | missed every =>
    have hmissed : d.load name = .error (d.notFound name) := by
      rw [load, hr]
      rfl
    exact .inr (.inl ⟨every, hmissed, Loader.loadFirst_of_missed (hload.trans hmissed) rfl⟩)
  | @refused before after directory p f split plain first refusal =>
    have hrefused : d.load name = .error (.ofFault f) := by
      rw [load, hr]
      rfl
    exact .inr (.inr ⟨_, _, _, _, _, split, plain, first, refusal, hrefused,
      Loader.loadFirst_of_fault (hload.trans hrefused)⟩)

/-- A directory with one template, and a file beside it that is none. -/
def sample (beside : String) : Directory where
  tree := .directory [("tpl", .directory [("a.liquid", .file "x")]), ("b", .file beside)]
  here := []
  paths := [⟨"", ["tpl"]⟩]
  here_isDirectory := rfl

theorem agree_sample (beside other : String) : (sample beside).Agree (sample other) where
  here := rfl
  paths := rfl
  isDirectory place := by
    cases place with
    | nil => rfl
    | cons name rest =>
      simp only [FileTree.isDirectory, FileTree.at?, sample, List.lookup_cons]
      cases name == "tpl" with
      | true => rfl
      | false =>
        cases name == "b" with
        | true => cases rest <;> rfl
        | false => rfl
  file? directory hd place hwithin := by
    rw [List.mem_singleton.1 hd] at hwithin
    obtain ⟨rest, rfl⟩ := hwithin
    rfl

theorem load_answers_within :
    Plain ⟨"", ["tpl"]⟩ "a" ∧ (sample "y").load "a" = .ok ⟨"x", some "tpl/a.liquid"⟩ ∧
      (sample "y").Agree (sample "z") ∧ (sample "z").load "a" = (sample "y").load "a" := by
  have hname : ofString "a" = ⟨"", ["a"]⟩ := by decide +kernel
  refine ⟨⟨?_, rfl, ?_⟩, ?_, agree_sample _ _, (load_answers _ _).2 _ (agree_sample _ _)⟩
  · rw [hname]
    rfl
  · rw [pathnames, hname]
    refine List.forall_mem_cons.2 ⟨⟨by decide, by decide, by decide⟩, ?_⟩
    exact List.forall_mem_singleton.2 ⟨by decide, by decide, by decide⟩
  · rw [load, sample, search, candidates, hname]
    rfl

/-- A name without a last part is neither found nor missed. -/
theorem not_always_settled :
    ¬∀ (d : Directory) (name : String),
      (∃ s, d.load name = .ok s) ∨ d.load name = .error (d.notFound name) := by
  intro h
  have hname : ofString "/" = ⟨"/", []⟩ := by decide +kernel
  have hrefused : (sample "y").load "/" = .error (.ofFault { kind := .wrongValue }) := by
    rw [load, sample, search, candidates, hname]
    rfl
  obtain ⟨s, hs⟩ | hs := h (sample "y") "/"
  · cases hrefused.symm.trans hs
  · cases hrefused.symm.trans hs

end Directory

end Liquid
