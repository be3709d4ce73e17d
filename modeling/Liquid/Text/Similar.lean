/-!
# Similar words

How alike two texts are, measured by the characters in their matching blocks: the longest common
block, then the longest common blocks on either side of it, and so on.  The measure picks the word
someone may have meant.

* `matched_nil`: nothing matches an empty text.
* `closest?_mem`: the word picked is one of the candidates.
-/
namespace Liquid.Text.Similar

/-- A text in which characters that are too common to anchor a block are marked. -/
abbrev Marked := List (Char × Bool)

/-- Marks the characters that make up more than one in a hundred of a text of at least 200. -/
def mark (s : List Char) : Marked :=
  if s.length < 200 then s.map fun c => (c, false)
  else s.map fun c => (c, decide (s.length / 100 + 1 < s.count c))

/-- For each character of the second text, the length of the common block that ends with it and
with `a`.  `row` holds these lengths for the character before `a`, and `corner` the one up and to
the left. -/
def blockRow (a : Char) (corner : Nat) : Marked → List Nat → List Nat
  | [], _ => []
  | (b, common) :: bs, row =>
    (if a = b && !common then corner + 1 else 0) :: blockRow a (row.headD 0) bs row.tail

/-- A common block: where it starts in either text, and its length. -/
structure Block where
  startA : Nat
  startB : Nat
  size : Nat
  deriving DecidableEq, Repr

/-- The best block, given those that end at row `i` from column `j` on.  Of equal ones the first
counts. -/
def bestInRow (i j : Nat) (best : Block) : List Nat → Block
  | [] => best
  | n :: ns =>
    bestInRow i (j + 1) (if best.size < n then ⟨i + 1 - n, j + 1 - n, n⟩ else best) ns

/-- The longest block that common characters do not anchor, from row `i` on. -/
def longestFrom (i : Nat) (row : List Nat) (best : Block) : List Char → Marked → Block
  | [], _ => best
  | a :: as, bs =>
    let next := blockRow a 0 bs row
    longestFrom (i + 1) next (bestInRow i 0 best next) as bs

/-- The length of the common beginning of two texts. -/
def commonPrefix : List Char → List Char → Nat
  | a :: as, b :: bs => if a = b then commonPrefix as bs + 1 else 0
  | _, _ => 0

/-- The longest common block, the leftmost one in both texts, extended to either side. -/
def longest (as : List Char) (bs : Marked) : Block :=
  let block := longestFrom 0 [] ⟨0, 0, 0⟩ as bs
  let plain := bs.map Prod.fst
  let left := commonPrefix (as.take block.startA).reverse (plain.take block.startB).reverse
  let right :=
    commonPrefix (as.drop (block.startA + block.size)) (plain.drop (block.startB + block.size))
  ⟨block.startA - left, block.startB - left, left + block.size + right⟩

/-- The number of characters in the matching blocks, `fuel` blocks deep. -/
def matchedAux : Nat → List Char → Marked → Nat
  | 0, _, _ => 0
  | fuel + 1, as, bs =>
    let block := longest as bs
    if block.size = 0 then 0
    else
      matchedAux fuel (as.take block.startA) (bs.take block.startB) + block.size +
        matchedAux fuel (as.drop (block.startA + block.size)) (bs.drop (block.startB + block.size))

/-- The number of characters in the matching blocks of two texts. -/
def matched (as : List Char) (bs : Marked) : Nat := matchedAux as.length as bs

theorem matched_nil (bs : Marked) : matched [] bs = 0 := rfl

/-- How alike a candidate is to the word: matching characters, out of so many. -/
structure Likeness where
  shared : Nat
  total : Nat
  deriving DecidableEq, Repr

/-- Twice the matching characters against all characters of both texts. -/
def likeness (word candidate : String) : Likeness :=
  ⟨2 * matched candidate.toList (mark word.toList), candidate.length + word.length⟩

namespace Likeness

/-- At least three in five; two empty texts are alike. -/
def isClose (l : Likeness) : Bool := 3 * l.total ≤ 5 * l.shared

/-- Whether one likeness is strictly less than another. -/
def lt (l m : Likeness) : Bool :=
  if l.total = 0 then false
  else if m.total = 0 then true
  else l.shared * m.total < m.shared * l.total

end Likeness

/-- The better of two candidates: the one more alike, and of equal ones the last in text order. -/
def better (word : String) (best : Option String) (candidate : String) : Option String :=
  if (likeness word candidate).isClose then
    match best with
    | none => some candidate
    | some b =>
      if (likeness word b).lt (likeness word candidate) ||
          (!(likeness word candidate).lt (likeness word b) && decide (b < candidate)) then
        some candidate
      else best
  else best

/-- The candidate that `word` was probably meant to be. -/
def closest? (word : String) (candidates : List String) : Option String :=
  candidates.foldl (better word) none

theorem foldl_better_mem (word : String) (candidates : List String) (best : Option String)
    (w : String) (h : candidates.foldl (better word) best = some w) :
    best = some w ∨ w ∈ candidates := by
  induction candidates generalizing best with
  | nil => exact Or.inl h
  | cons c cs ih =>
    rcases ih _ h with h' | h'
    · have : better word best c = best ∨ better word best c = some c := by
        unfold better
        split
        · split
          · exact Or.inr rfl
          · split
            · exact Or.inr rfl
            · exact Or.inl rfl
        · exact Or.inl rfl
      rcases this with e | e
      · exact Or.inl (e ▸ h')
      · rw [e] at h'
        cases h'
        exact Or.inr (by simp)
    · exact Or.inr (by simp [h'])

theorem closest?_mem {word w : String} {candidates : List String}
    (h : closest? word candidates = some w) : w ∈ candidates := by
  simpa using foldl_better_mem word candidates none w h

end Liquid.Text.Similar
