/-!
# UTF-8

Characters as byte sequences and back.  The reader accepts exactly the shortest forms of the
Unicode scalar values and says what is wrong with anything else.

* `decode_encode`: reading gives back what was written.
-/
namespace Liquid.Text.Utf8

/-- What is wrong with a byte sequence. -/
inductive Fault where
  | startByte
  | continuationByte
  | endOfData
  deriving DecidableEq, Repr

/-- The wording of a fault. -/
def Fault.message : Fault → String
  | .startByte => "invalid start byte"
  | .continuationByte => "invalid continuation byte"
  | .endOfData => "unexpected end of data"

/-- The bytes of one character. -/
def encodeChar (c : Char) : List Nat :=
  let n := c.toNat
  if n < 0x80 then [n]
  else if n < 0x800 then [0xc0 + n / 64, 0x80 + n % 64]
  else if n < 0x10000 then [0xe0 + n / 4096, 0x80 + n / 64 % 64, 0x80 + n % 64]
  else [0xf0 + n / 262144, 0x80 + n / 4096 % 64, 0x80 + n / 64 % 64, 0x80 + n % 64]

/-- The bytes of a text. -/
def encode (s : List Char) : List Nat := s.flatMap encodeChar

/-- Bytes that may follow the first byte of a character. -/
def isContinuation (b : Nat) : Bool := 0x80 ≤ b && b < 0xc0

/-- Second bytes that may follow `b`: some first bytes narrow the range, so that no character has
two forms, none lies beyond the last plane, and surrogates have no form. -/
def isSecond (b b₁ : Nat) : Bool :=
  isContinuation b₁ &&
    (if b = 0xe0 then 0xa0 ≤ b₁ else if b = 0xed then b₁ < 0xa0
    else if b = 0xf0 then 0x90 ≤ b₁ else if b = 0xf4 then b₁ < 0x90 else true)

/-- The text of a byte sequence, or what is wrong with its first bad character. -/
def decode : List Nat → Except Fault (List Char)
  | [] => .ok []
  | b :: rest =>
    if b < 0x80 then (Char.ofNat b :: ·) <$> decode rest
    else if b < 0xc2 then .error .startByte
    else if b < 0xe0 then
      match rest with
      | [] => .error .endOfData
      | b₁ :: rest =>
        if isSecond b b₁ then (Char.ofNat ((b - 0xc0) * 64 + (b₁ - 0x80)) :: ·) <$> decode rest
        else .error .continuationByte
    else if b < 0xf0 then
      match rest with
      | [] => .error .endOfData
      | [b₁] => .error (if isSecond b b₁ then .endOfData else .continuationByte)
      | b₁ :: b₂ :: rest =>
        if isSecond b b₁ && isContinuation b₂ then
          (Char.ofNat ((b - 0xe0) * 4096 + (b₁ - 0x80) * 64 + (b₂ - 0x80)) :: ·) <$> decode rest
        else .error .continuationByte
    else if b < 0xf5 then
      match rest with
      | [] => .error .endOfData
      | [b₁] => .error (if isSecond b b₁ then .endOfData else .continuationByte)
      | [b₁, b₂] =>
        .error (if isSecond b b₁ && isContinuation b₂ then .endOfData else .continuationByte)
      | b₁ :: b₂ :: b₃ :: rest =>
        if isSecond b b₁ && isContinuation b₂ && isContinuation b₃ then
          (Char.ofNat
            ((b - 0xf0) * 262144 + (b₁ - 0x80) * 4096 + (b₂ - 0x80) * 64 + (b₃ - 0x80)) :: ·)
            <$> decode rest
        else .error .continuationByte
    else .error .startByte

/-- The code points of characters: all below `0x110000` but the surrogates. -/
theorem toNat_valid (c : Char) : c.toNat < 0xd800 ∨ 0xdfff < c.toNat ∧ c.toNat < 0x110000 := c.valid

theorem decode_encodeChar (c : Char) (rest : List Nat) :
    decode (encodeChar c ++ rest) = (c :: ·) <$> decode rest := by
  have hv := toNat_valid c
  have hc : ∀ m : Nat, m = c.toNat → Char.ofNat m = c := fun m h => h ▸ Char.ofNat_toNat c
  simp only [encodeChar]
  generalize c.toNat = n at hv hc
  split
  · rw [List.singleton_append, decode.eq_def]
    dsimp only
    rw [if_pos ‹_›, hc n rfl]
  · split
    · simp only [List.cons_append, List.nil_append]
      rw [decode, if_neg (by omega), if_neg (by omega), if_pos (by omega)]
      rw [if_pos, hc _ (by omega)]
      simp only [isSecond, isContinuation, Bool.and_eq_true, decide_eq_true_eq]
      refine ⟨by omega, ?_⟩
      rw [if_neg (by omega), if_neg (by omega), if_neg (by omega), if_neg (by omega)]
    · split
      · simp only [List.cons_append, List.nil_append]
        rw [decode, if_neg (by omega), if_neg (by omega), if_neg (by omega), if_pos (by omega)]
        dsimp only
        rw [if_pos, hc _ (by omega)]
        simp only [isSecond, isContinuation, Bool.and_eq_true, decide_eq_true_eq]
        refine ⟨⟨by omega, ?_⟩, by omega⟩
        repeat' split
        all_goals first | rfl | (simp only [decide_eq_true_eq]; omega)
      · simp only [List.cons_append, List.nil_append]
        rw [decode, if_neg (by omega), if_neg (by omega), if_neg (by omega), if_neg (by omega),
          if_pos (by omega)]
        dsimp only
        rw [if_pos, hc _ (by omega)]
        simp only [isSecond, isContinuation, Bool.and_eq_true, decide_eq_true_eq]
        refine ⟨⟨⟨by omega, ?_⟩, by omega⟩, by omega⟩
        repeat' split
        all_goals first | rfl | (simp only [decide_eq_true_eq]; omega)

theorem decode_encode (s : List Char) : decode (encode s) = .ok s := by
  induction s with
  | nil => rfl
  | cons c s ih => rw [encode, List.flatMap_cons, decode_encodeChar, ← encode, ih]; rfl

end Liquid.Text.Utf8
