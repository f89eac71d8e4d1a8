import TibiaLogin.ByteOrder
import TibiaLogin.Conversion

namespace TibiaLogin.Canonical

open MachineInt Memory Utf8 Latin1 Conversion

/-- The string starts with one of the sequences that have the bit patterns of
UTF-8 but spend more bytes than the code point needs, or pass U+10FFFF. -/
def StartsIllFormed : List UInt8 → Prop
  | b₀ :: b₁ :: _ =>
      b₀ = 0xC0 ∨ b₀ = 0xC1 ∨ (b₀ = 0xE0 ∧ b₁ < 0xA0) ∨ (b₀ = 0xF0 ∧ b₁ < 0x90) ∨
        (b₀ = 0xF4 ∧ 0x90 ≤ b₁) ∨ 0xF5 ≤ b₀
  | _ => False

/-- The string starts with an overlong form of a Latin-1 character other than
the question mark. -/
def StartsOverlong : List UInt8 → Prop
  | b₀ :: b₁ :: src =>
      (b₀ = 0xC0 ∧ utf8IsTrailingByte b₁ ∧ b₁ ≠ 0xBF) ∨
      (b₀ = 0xC1 ∧ utf8IsTrailingByte b₁) ∨
      (b₀ = 0xE0 ∧ 0x80 ≤ b₁ ∧ b₁ ≤ 0x83 ∧
        ∃ b₂ ∈ src.head?, utf8IsTrailingByte b₂ ∧ ¬(b₁ = 0x80 ∧ b₂ = 0xBF)) ∨
      (b₀ = 0xF0 ∧ b₁ = 0x80 ∧ ∃ b₂ ∈ src.head?, 0x80 ≤ b₂ ∧ b₂ ≤ 0x83 ∧
        ∃ b₃ ∈ src.tail.head?, utf8IsTrailingByte b₃ ∧ ¬(b₂ = 0x80 ∧ b₃ = 0xBF))
  | _ => False

/-- The encoder fills a buffer of this size with exactly these bytes. -/
def Encodes (codepoint : Nat) (bytes : List UInt8) : Prop :=
  utf8EncodeOne (List.replicate bytes.length 0) 0 bytes.length codepoint = .ok (bytes, (bytes.length : Int))

instance (codepoint : Nat) (bytes : List UInt8) : Decidable (Encodes codepoint bytes) :=
  inferInstanceAs (Decidable (_ = _))

def IsEncoding (bytes : List UInt8) : Prop := ∃ c, c ≤ 0x10FFFF ∧ Encodes c bytes

def roundsLoop : Nat → List UInt8 → List (List UInt8 × UInt8)
  | 0, _ => []
  | _ + 1, [] => []
  | fuel + 1, b :: src =>
      ((b :: src).take (advance (b :: src)), (utf8ToLatin1Next (b :: src)).1) ::
        roundsLoop fuel (utf8ToLatin1Next (b :: src)).2

def rounds (src : List UInt8) : List (List UInt8 × UInt8) := roundsLoop src.length src

theorem utf8SequenceSize_eq (b : UInt8) :
    utf8SequenceSize b =
      if b.toNat < 0x80 then 1 else if b.toNat < 0xC0 then 0 else if b.toNat < 0xE0 then 2
      else if b.toNat < 0xF0 then 3 else if b.toNat < 0xF8 then 4 else 0 := by
  revert b
  exact forall_byte (by decide +kernel)

theorem utf8IsTrailingByte_iff (b : UInt8) : utf8IsTrailingByte b ↔ 0x80 ≤ b.toNat ∧ b.toNat < 0xC0 := by
  revert b
  exact forall_byte (by decide +kernel)

theorem and_mask (b m : UInt8) (k : Nat) (h : m.toNat = 2 ^ k - 1) : (b &&& m).toNat = b.toNat % 2 ^ k := by
  rw [UInt8.toNat_and, h, Nat.and_two_pow_sub_one_eq_mod]

theorem shiftLeft_or {a b k : Nat} (h : b < 2 ^ k) : a <<< k ||| b = 2 ^ k * a + b := by
  rw [Nat.lor_comm, ByteOrder.or_shiftLeft h, Nat.add_comm]

theorem or_and (a k x : Nat) : 2 ^ k * a ||| (2 ^ k - 1 &&& x) = 2 ^ k * a + x % 2 ^ k := by
  rw [Nat.and_comm, Nat.and_two_pow_sub_one_eq_mod, Nat.two_pow_add_eq_or_of_lt]
  exact Nat.mod_lt _ (Nat.two_pow_pos k)

def tailBits (b : UInt8) : Nat := b.toNat - 0x80

theorem and_tail {b : UInt8} (h : utf8IsTrailingByte b) : (b &&& 0x3F).toNat = tailBits b := by
  have hb := (utf8IsTrailingByte_iff b).mp h
  have hm := and_mask b 0x3F 6 rfl
  unfold tailBits
  omega

theorem tailBits_lt {b : UInt8} (h : utf8IsTrailingByte b) : tailBits b < 64 := by
  have hb := (utf8IsTrailingByte_iff b).mp h
  unfold tailBits
  omega

theorem sequenceCodepoint_two {b₀ b₁ : UInt8} (rest : List UInt8) (h₀ : 0xC0 ≤ b₀.toNat) (h₀' : b₀.toNat < 0xE0)
    (h₁ : utf8IsTrailingByte b₁) :
    sequenceCodepoint 2 (b₀ :: b₁ :: rest) = 64 * (b₀.toNat - 0xC0) + tailBits b₁ := by
  have hlead : b₀.toNat % 2 ^ 5 = b₀.toNat - 0xC0 := by omega
  have ht₁ : tailBits b₁ < 2 ^ 6 := tailBits_lt h₁
  rw [sequenceCodepoint, and_tail h₁, and_mask b₀ 0x1F 5 rfl, hlead, shiftLeft_or ht₁]
  rfl

theorem sequenceCodepoint_three {b₀ b₁ b₂ : UInt8} (rest : List UInt8) (h₀ : 0xE0 ≤ b₀.toNat)
    (h₀' : b₀.toNat < 0xF0) (h₁ : utf8IsTrailingByte b₁) (h₂ : utf8IsTrailingByte b₂) :
    sequenceCodepoint 3 (b₀ :: b₁ :: b₂ :: rest) =
      4096 * (b₀.toNat - 0xE0) + 64 * tailBits b₁ + tailBits b₂ := by
  have hlead : b₀.toNat % 2 ^ 4 = b₀.toNat - 0xE0 := by omega
  have ht₁ : tailBits b₁ < 2 ^ 6 := tailBits_lt h₁
  have ht₂ : tailBits b₂ < 2 ^ 6 := tailBits_lt h₂
  have ht₁₂ : 2 ^ 6 * tailBits b₁ + tailBits b₂ < 2 ^ 12 := by omega
  rw [sequenceCodepoint, and_tail h₁, and_tail h₂, and_mask b₀ 0x0F 4 rfl, hlead, Nat.lor_assoc,
    shiftLeft_or ht₂, shiftLeft_or ht₁₂, ← Nat.add_assoc]
  rfl

theorem sequenceCodepoint_four {b₀ b₁ b₂ b₃ : UInt8} (rest : List UInt8) (h₀ : 0xF0 ≤ b₀.toNat)
    (h₀' : b₀.toNat < 0xF8) (h₁ : utf8IsTrailingByte b₁) (h₂ : utf8IsTrailingByte b₂)
    (h₃ : utf8IsTrailingByte b₃) :
    sequenceCodepoint 4 (b₀ :: b₁ :: b₂ :: b₃ :: rest) =
      262144 * (b₀.toNat - 0xF0) + 4096 * tailBits b₁ + 64 * tailBits b₂ + tailBits b₃ := by
  have hlead : b₀.toNat % 2 ^ 3 = b₀.toNat - 0xF0 := by omega
  have ht₁ : tailBits b₁ < 2 ^ 6 := tailBits_lt h₁
  have ht₂ : tailBits b₂ < 2 ^ 6 := tailBits_lt h₂
  have ht₃ : tailBits b₃ < 2 ^ 6 := tailBits_lt h₃
  have ht₂₃ : 2 ^ 6 * tailBits b₂ + tailBits b₃ < 2 ^ 12 := by omega
  have ht₁₃ : 2 ^ 12 * tailBits b₁ + (2 ^ 6 * tailBits b₂ + tailBits b₃) < 2 ^ 18 := by omega
  rw [sequenceCodepoint, and_tail h₁, and_tail h₂, and_tail h₃, and_mask b₀ 0x07 3 rfl, hlead, Nat.lor_assoc,
    Nat.lor_assoc, shiftLeft_or ht₃, shiftLeft_or ht₂₃, shiftLeft_or ht₁₃, ← Nat.add_assoc, ← Nat.add_assoc]
  rfl

/-- The four kinds of sequence the decoder accepts, with their code points. -/
inductive Accepted : List UInt8 → Nat → Nat → Prop
  | one {b₀ : UInt8} (rest : List UInt8) (h₀ : b₀.toNat < 0x80) : Accepted (b₀ :: rest) 1 b₀.toNat
  | two {b₀ b₁ : UInt8} (rest : List UInt8) (h₀ : 0xC0 ≤ b₀.toNat) (h₀' : b₀.toNat < 0xE0)
      (h₁ : utf8IsTrailingByte b₁) :
      Accepted (b₀ :: b₁ :: rest) 2 (64 * (b₀.toNat - 0xC0) + tailBits b₁)
  | three {b₀ b₁ b₂ : UInt8} (rest : List UInt8) (h₀ : 0xE0 ≤ b₀.toNat) (h₀' : b₀.toNat < 0xF0)
      (h₁ : utf8IsTrailingByte b₁) (h₂ : utf8IsTrailingByte b₂) :
      Accepted (b₀ :: b₁ :: b₂ :: rest) 3 (4096 * (b₀.toNat - 0xE0) + 64 * tailBits b₁ + tailBits b₂)
  | four {b₀ b₁ b₂ b₃ : UInt8} (rest : List UInt8) (h₀ : 0xF0 ≤ b₀.toNat) (h₀' : b₀.toNat < 0xF8)
      (h₁ : utf8IsTrailingByte b₁) (h₂ : utf8IsTrailingByte b₂) (h₃ : utf8IsTrailingByte b₃) :
      Accepted (b₀ :: b₁ :: b₂ :: b₃ :: rest) 4
        (262144 * (b₀.toNat - 0xF0) + 4096 * tailBits b₁ + 64 * tailBits b₂ + tailBits b₃)

theorem utf8DecodeOne_accepted {src : List UInt8} {n c : Nat} (h : Accepted src n c) :
    utf8DecodeOne src = some (n, c) := by
  cases h with
  | one rest h₀ =>
      have hsize : utf8SequenceSize _ = 1 := (utf8SequenceSize_eq _).trans (if_pos h₀)
      simp [utf8DecodeOne, hsize, sequenceCodepoint]
  | @two b₀ b₁ rest h₀ h₀' h₁ =>
      have hsize : utf8SequenceSize b₀ = 2 := by
        rw [utf8SequenceSize_eq, if_neg (by omega), if_neg (by omega), if_pos h₀']
      simp [utf8DecodeOne, hsize, h₁, sequenceCodepoint_two rest h₀ h₀' h₁]
  | @three b₀ b₁ b₂ rest h₀ h₀' h₁ h₂ =>
      have hsize : utf8SequenceSize b₀ = 3 := by
        rw [utf8SequenceSize_eq, if_neg (by omega), if_neg (by omega), if_neg (by omega), if_pos h₀']
      simp [utf8DecodeOne, hsize, h₁, h₂, sequenceCodepoint_three rest h₀ h₀' h₁ h₂]
  | @four b₀ b₁ b₂ b₃ rest h₀ h₀' h₁ h₂ h₃ =>
      have hsize : utf8SequenceSize b₀ = 4 := by
        rw [utf8SequenceSize_eq, if_neg (by omega), if_neg (by omega), if_neg (by omega), if_neg (by omega),
          if_pos h₀']
      simp [utf8DecodeOne, hsize, h₁, h₂, h₃, sequenceCodepoint_four rest h₀ h₀' h₁ h₂ h₃]

theorem accepted_of_utf8DecodeOne {src : List UInt8} {n c : Nat} (h : utf8DecodeOne src = some (n, c)) :
    Accepted src n c := by
  suffices hex : ∃ n' c', Accepted src n' c' by
    obtain ⟨n', c', hacc⟩ := hex
    have hsame := (utf8DecodeOne_accepted hacc).symm.trans h
    simp only [Option.some.injEq, Prod.mk.injEq] at hsame
    rw [← hsame.1, ← hsame.2]
    exact hacc
  cases src with
  | nil => simp [utf8DecodeOne] at h
  | cons b₀ src =>
      simp only [utf8DecodeOne] at h
      split_ifs at h with hz hall
      have hsize := utf8SequenceSize_eq b₀
      split_ifs at hsize with h₁ h₂ h₃ h₄ h₅
      · exact ⟨_, _, Accepted.one src h₁⟩
      · omega
      · rw [hsize, List.length_cons] at hz
        rw [hsize] at hall
        rcases src with _ | ⟨b₁, rest⟩
        · simp at hz
        · simp only [Nat.add_one_sub_one, List.take_succ_cons, List.take_zero, List.all_cons, List.all_nil,
            Bool.and_true] at hall
          exact ⟨_, _, Accepted.two rest (by omega) h₃ hall⟩
      · rw [hsize, List.length_cons] at hz
        rw [hsize] at hall
        rcases src with _ | ⟨b₁, _ | ⟨b₂, rest⟩⟩
        · simp at hz
        · simp at hz
        · simp only [Nat.add_one_sub_one, List.take_succ_cons, List.take_zero, List.all_cons, List.all_nil,
            Bool.and_true, Bool.and_eq_true] at hall
          exact ⟨_, _, Accepted.three rest (by omega) h₄ hall.1 hall.2⟩
      · rw [hsize, List.length_cons] at hz
        rw [hsize] at hall
        rcases src with _ | ⟨b₁, _ | ⟨b₂, _ | ⟨b₃, rest⟩⟩⟩
        · simp at hz
        · simp at hz
        · simp at hz
        · simp only [Nat.add_one_sub_one, List.take_succ_cons, List.take_zero, List.all_cons, List.all_nil,
            Bool.and_true, Bool.and_eq_true] at hall
          exact ⟨_, _, Accepted.four rest (by omega) h₅ hall.1 hall.2.1 hall.2.2⟩
      · omega

theorem or_field (a k c j : Nat) :
    2 ^ k * a ||| (2 ^ k - 1 &&& (c >>> j)) = 2 ^ k * a + c / 2 ^ j % 2 ^ k := by
  rw [Nat.shiftRight_eq_div_pow, or_and]

theorem utf8Bytes_one {c : Nat} (h : c < 0x80) : utf8Bytes c = [c.toUInt8] := by
  have hsize : utf8EncodedSize c = 1 := by
    rw [utf8EncodedSize, if_neg (by omega), if_pos (by omega)]
  simp only [utf8Bytes, hsize]

theorem utf8Bytes_two {c : Nat} (h : 0x80 ≤ c) (h' : c < 0x800) :
    utf8Bytes c = [(0xC0 + c / 64 % 32).toUInt8, (0x80 + c % 64).toUInt8] := by
  have hsize : utf8EncodedSize c = 2 := by
    rw [utf8EncodedSize, if_neg (by omega), if_neg (by omega), if_pos (by omega)]
  have hlead : 0xC0 ||| (0x1F &&& (c >>> 6)) = 0xC0 + c / 64 % 32 := or_field 6 5 c 6
  have htail : 0x80 ||| (0x3F &&& c) = 0x80 + c % 64 := or_and 2 6 c
  simp only [utf8Bytes, hsize, hlead, htail]

theorem utf8Bytes_three {c : Nat} (h : 0x800 ≤ c) (h' : c < 0x10000) :
    utf8Bytes c =
      [(0xE0 + c / 4096 % 16).toUInt8, (0x80 + c / 64 % 64).toUInt8, (0x80 + c % 64).toUInt8] := by
  have hsize : utf8EncodedSize c = 3 := by
    rw [utf8EncodedSize, if_neg (by omega), if_neg (by omega), if_neg (by omega), if_pos (by omega)]
  have hlead : 0xE0 ||| (0x0F &&& (c >>> 12)) = 0xE0 + c / 4096 % 16 := or_field 14 4 c 12
  have hmid : 0x80 ||| (0x3F &&& (c >>> 6)) = 0x80 + c / 64 % 64 := or_field 2 6 c 6
  have htail : 0x80 ||| (0x3F &&& c) = 0x80 + c % 64 := or_and 2 6 c
  simp only [utf8Bytes, hsize, hlead, hmid, htail]

theorem utf8Bytes_four {c : Nat} (h : 0x10000 ≤ c) (h' : c ≤ 0x10FFFF) :
    utf8Bytes c =
      [(0xF0 + c / 262144 % 8).toUInt8, (0x80 + c / 4096 % 64).toUInt8, (0x80 + c / 64 % 64).toUInt8,
        (0x80 + c % 64).toUInt8] := by
  have hsize : utf8EncodedSize c = 4 := by
    rw [utf8EncodedSize, if_neg (by omega), if_neg (by omega), if_neg (by omega), if_neg (by omega),
      if_pos (by omega)]
  have hlead : 0xF0 ||| (0x07 &&& (c >>> 18)) = 0xF0 + c / 262144 % 8 := or_field 30 3 c 18
  have hupper : 0x80 ||| (0x3F &&& (c >>> 12)) = 0x80 + c / 4096 % 64 := or_field 2 6 c 12
  have hmid : 0x80 ||| (0x3F &&& (c >>> 6)) = 0x80 + c / 64 % 64 := or_field 2 6 c 6
  have htail : 0x80 ||| (0x3F &&& c) = 0x80 + c % 64 := or_and 2 6 c
  simp only [utf8Bytes, hsize, hlead, hupper, hmid, htail]

theorem toUInt8_eq {n : Nat} {b : UInt8} (h : n = b.toNat) : n.toUInt8 = b := by
  rw [h]
  exact UInt8.ofNat_toNat

theorem startsIllFormed_cons (b₀ b₁ : UInt8) (rest : List UInt8) :
    StartsIllFormed (b₀ :: b₁ :: rest) ↔
      b₀.toNat = 0xC0 ∨ b₀.toNat = 0xC1 ∨ (b₀.toNat = 0xE0 ∧ b₁.toNat < 0xA0) ∨
        (b₀.toNat = 0xF0 ∧ b₁.toNat < 0x90) ∨ (b₀.toNat = 0xF4 ∧ 0x90 ≤ b₁.toNat) ∨ 0xF5 ≤ b₀.toNat := by
  simp only [StartsIllFormed, ← UInt8.toNat_inj, UInt8.lt_iff_toNat_lt, UInt8.le_iff_toNat_le]
  rfl

theorem size_of_utf8Bytes_eq {c n : Nat} {src : List UInt8} (h : utf8Bytes c = src.take n) (hn : n ≤ src.length) :
    utf8EncodedSize c = n := by
  rw [← length_utf8Bytes, h, List.length_take, Nat.min_eq_left hn]

/-- An accepted sequence is the encoding of the code point it stands for
exactly when it is none of the listed forms. -/
theorem accepted_encoding_iff {src : List UInt8} {n c : Nat} (h : Accepted src n c) :
    (c ≤ 0x10FFFF ∧ utf8Bytes c = src.take n) ↔ ¬StartsIllFormed src := by
  have hn := utf8DecodeOne_size (utf8DecodeOne_accepted h)
  cases h with
  | @one b₀ rest h₀ =>
      have hnot : ¬StartsIllFormed (b₀ :: rest) := by
        cases rest with
        | nil => exact id
        | cons b₁ rest => rw [startsIllFormed_cons]; omega
      refine ⟨fun _ => hnot, fun _ => ⟨by omega, ?_⟩⟩
      rw [utf8Bytes_one h₀, toUInt8_eq rfl]
      rfl
  | @two b₀ b₁ rest h₀ h₀' h₁ =>
      have hb := (utf8IsTrailingByte_iff b₁).mp h₁
      have ht := tailBits_lt h₁
      rw [startsIllFormed_cons]
      constructor
      · rintro ⟨-, henc⟩ hill
        have hsize := size_of_utf8Bytes_eq henc hn
        rw [utf8EncodedSize, if_neg (by omega), if_pos (by omega)] at hsize
        omega
      · intro hill
        unfold tailBits
        rw [utf8Bytes_two (by omega) (by omega)]
        refine ⟨by omega, ?_⟩
        rw [toUInt8_eq (b := b₀) (by omega), toUInt8_eq (b := b₁) (by omega)]
        rfl
  | @three b₀ b₁ b₂ rest h₀ h₀' h₁ h₂ =>
      have hb₁ := (utf8IsTrailingByte_iff b₁).mp h₁
      have hb₂ := (utf8IsTrailingByte_iff b₂).mp h₂
      rw [startsIllFormed_cons]
      unfold tailBits
      constructor
      · rintro ⟨-, henc⟩ hill
        have hsize := size_of_utf8Bytes_eq henc hn
        rw [utf8EncodedSize, if_neg (by omega)] at hsize
        split_ifs at hsize <;> omega
      · intro hill
        rw [utf8Bytes_three (by omega) (by omega)]
        refine ⟨by omega, ?_⟩
        rw [toUInt8_eq (b := b₀) (by omega), toUInt8_eq (b := b₁) (by omega), toUInt8_eq (b := b₂) (by omega)]
        rfl
  | @four b₀ b₁ b₂ b₃ rest h₀ h₀' h₁ h₂ h₃ =>
      have hb₁ := (utf8IsTrailingByte_iff b₁).mp h₁
      have hb₂ := (utf8IsTrailingByte_iff b₂).mp h₂
      have hb₃ := (utf8IsTrailingByte_iff b₃).mp h₃
      rw [startsIllFormed_cons]
      unfold tailBits
      constructor
      · rintro ⟨hmax, henc⟩ hill
        have hsize := size_of_utf8Bytes_eq henc hn
        rw [utf8EncodedSize, if_neg (by omega)] at hsize
        split_ifs at hsize <;> omega
      · intro hill
        rw [utf8Bytes_four (by omega) (by omega)]
        refine ⟨by omega, ?_⟩
        rw [toUInt8_eq (b := b₀) (by omega), toUInt8_eq (b := b₁) (by omega), toUInt8_eq (b := b₂) (by omega),
          toUInt8_eq (b := b₃) (by omega)]
        rfl

theorem utf8EncodedSize_pos {c : Nat} (h : c ≤ 0x10FFFF) : 0 < utf8EncodedSize c := by
  rw [utf8EncodedSize]
  split_ifs <;> omega

theorem encodes_iff {c : Nat} (h : c ≤ 0x10FFFF) (bytes : List UInt8) : Encodes c bytes ↔ utf8Bytes c = bytes := by
  have hlen := length_utf8Bytes c
  have hpos := utf8EncodedSize_pos h
  have hfill : (utf8Bytes c).length = bytes.length →
      utf8EncodeOne (List.replicate bytes.length 0) 0 bytes.length c =
        .ok (utf8Bytes c, (utf8EncodedSize c : Int)) := by
    intro heq
    have hstore : storeBytes (List.replicate bytes.length 0) (0 : Nat) (utf8Bytes c) = .ok (utf8Bytes c) := by
      rw [storeBytes_of_within (by rw [List.length_replicate]; omega), overwrite_all]
      rw [List.length_replicate, heq]
    simp only [utf8EncodeOne, Int.toNat_natCast]
    rw [if_pos ⟨hpos, by omega⟩]
    exact congrArg (· >>= _) hstore
  unfold Encodes
  constructor
  · intro henc
    have hsize : utf8EncodedSize c = bytes.length := by
      simp only [utf8EncodeOne] at henc
      split_ifs at henc with hfit
      · obtain ⟨d, -, hd⟩ := bind_eq_ok.mp henc
        simp only [pure, Except.pure, Except.ok.injEq, Prod.mk.injEq] at hd
        omega
      · simp only [pure, Except.pure, Except.ok.injEq, Prod.mk.injEq] at henc
        omega
    rw [hfill (by omega)] at henc
    simp only [Except.ok.injEq, Prod.mk.injEq] at henc
    exact henc.1
  · rintro rfl
    rw [hfill rfl, hlen]

theorem startsOverlong_cons (b₀ b₁ : UInt8) (src : List UInt8) :
    StartsOverlong (b₀ :: b₁ :: src) ↔
      (b₀.toNat = 0xC0 ∧ utf8IsTrailingByte b₁ ∧ b₁.toNat ≠ 0xBF) ∨
      (b₀.toNat = 0xC1 ∧ utf8IsTrailingByte b₁) ∨
      (b₀.toNat = 0xE0 ∧ 0x80 ≤ b₁.toNat ∧ b₁.toNat ≤ 0x83 ∧
        ∃ b₂ ∈ src.head?, utf8IsTrailingByte b₂ ∧ ¬(b₁.toNat = 0x80 ∧ b₂.toNat = 0xBF)) ∨
      (b₀.toNat = 0xF0 ∧ b₁.toNat = 0x80 ∧ ∃ b₂ ∈ src.head?, 0x80 ≤ b₂.toNat ∧ b₂.toNat ≤ 0x83 ∧
        ∃ b₃ ∈ src.tail.head?, utf8IsTrailingByte b₃ ∧ ¬(b₂.toNat = 0x80 ∧ b₃.toNat = 0xBF)) := by
  simp only [StartsOverlong, ← UInt8.toNat_inj, UInt8.le_iff_toNat_le, ne_eq]
  rfl

theorem startsOverlong_of_accepted {src : List UInt8} {n c : Nat} (h : Accepted src n c)
    (hill : StartsIllFormed src) (hc : c ≤ 0xFF) (hq : c ≠ 63) : StartsOverlong src := by
  cases h with
  | @one b₀ rest h₀ =>
      cases rest with
      | nil => exact hill
      | cons b₁ rest => rw [startsIllFormed_cons] at hill; omega
  | @two b₀ b₁ rest h₀ h₀' h₁ =>
      have hb₁ := (utf8IsTrailingByte_iff b₁).mp h₁
      unfold tailBits at hc hq
      rw [startsIllFormed_cons] at hill
      rw [startsOverlong_cons]
      rcases hill with hill | hill | hill
      · exact Or.inl ⟨hill, h₁, by omega⟩
      · exact Or.inr (Or.inl ⟨hill, h₁⟩)
      · omega
  | @three b₀ b₁ b₂ rest h₀ h₀' h₁ h₂ =>
      have hb₁ := (utf8IsTrailingByte_iff b₁).mp h₁
      have hb₂ := (utf8IsTrailingByte_iff b₂).mp h₂
      unfold tailBits at hc hq
      rw [startsOverlong_cons]
      exact Or.inr (Or.inr (Or.inl ⟨by omega, by omega, by omega, b₂, rfl, h₂, by omega⟩))
  | @four b₀ b₁ b₂ b₃ rest h₀ h₀' h₁ h₂ h₃ =>
      have hb₁ := (utf8IsTrailingByte_iff b₁).mp h₁
      have hb₂ := (utf8IsTrailingByte_iff b₂).mp h₂
      have hb₃ := (utf8IsTrailingByte_iff b₃).mp h₃
      unfold tailBits at hc hq
      rw [startsOverlong_cons]
      exact Or.inr (Or.inr (Or.inr ⟨by omega, by omega, b₂, rfl, by omega, by omega, b₃, rfl, h₃, by omega⟩))

theorem accepted_of_startsOverlong {src : List UInt8} (h : StartsOverlong src) :
    ∃ n c, Accepted src n c ∧ StartsIllFormed src ∧ c ≤ 0xFF ∧ c ≠ 63 := by
  rcases src with _ | ⟨b₀, _ | ⟨b₁, src⟩⟩
  · exact h.elim
  · exact h.elim
  · rw [startsOverlong_cons] at h
    simp only [startsIllFormed_cons]
    rcases h with ⟨h₀, h₁, hne⟩ | ⟨h₀, h₁⟩ | ⟨h₀, h₁, h₁', b₂, hmem, h₂, hne⟩ |
      ⟨h₀, h₁, b₂, hmem, h₂, h₂', b₃, hmem', h₃, hne⟩
    · have hb₁ := (utf8IsTrailingByte_iff b₁).mp h₁
      refine ⟨2, _, Accepted.two src (by omega) (by omega) h₁, by omega, ?_, ?_⟩ <;> unfold tailBits <;> omega
    · have hb₁ := (utf8IsTrailingByte_iff b₁).mp h₁
      refine ⟨2, _, Accepted.two src (by omega) (by omega) h₁, by omega, ?_, ?_⟩ <;> unfold tailBits <;> omega
    · obtain ⟨rest, rfl⟩ := List.head?_eq_some_iff.mp hmem
      have hb₂ := (utf8IsTrailingByte_iff b₂).mp h₂
      have ht₁ := (utf8IsTrailingByte_iff b₁).mpr (by omega)
      refine ⟨3, _, Accepted.three rest (by omega) (by omega) ht₁ h₂, by omega, ?_, ?_⟩ <;> unfold tailBits <;>
        omega
    · obtain ⟨rest, rfl⟩ := List.head?_eq_some_iff.mp hmem
      obtain ⟨rest, rfl⟩ := List.head?_eq_some_iff.mp hmem'
      have hb₃ := (utf8IsTrailingByte_iff b₃).mp h₃
      have ht₁ := (utf8IsTrailingByte_iff b₁).mpr (by omega)
      have ht₂ := (utf8IsTrailingByte_iff b₂).mpr (by omega)
      refine ⟨4, _, Accepted.four rest (by omega) (by omega) ht₁ ht₂ h₃, by omega, ?_, ?_⟩ <;>
        unfold tailBits <;> omega

theorem trailing_of_mem_advance {b x : UInt8} {src : List UInt8}
    (h : x ∈ src.take (advance (b :: src) - 1)) : utf8IsTrailingByte x := by
  cases hdec : utf8DecodeOne (b :: src) with
  | none =>
      simp only [advance, hdec, utf8FindNextLeadingByte, Nat.add_sub_cancel_left] at h
      rw [← List.prefix_iff_eq_take.mp (List.takeWhile_prefix _)] at h
      exact List.all_eq_true.mp List.all_takeWhile x h
  | some r =>
      simp only [advance, hdec] at h
      simp only [utf8DecodeOne] at hdec
      split_ifs at hdec with hz hall
      cases hdec
      exact List.all_eq_true.mp hall x h

theorem suffix_of_suffix_append {b : UInt8} {src trail rest : List UInt8} (hb : utf8IsTrailingByte b = false)
    (htrail : ∀ x ∈ trail, utf8IsTrailingByte x) (h : b :: src <:+ trail ++ rest) : b :: src <:+ rest := by
  induction trail with
  | nil => exact h
  | cons x trail ih =>
      rcases List.suffix_cons_iff.mp h with heq | hsuf
      · cases heq
        rw [htrail b List.mem_cons_self] at hb
        cases hb
      · exact ih (fun x hx => htrail x (List.mem_cons_of_mem _ hx)) hsuf

theorem mem_roundsLoop_of_suffix {fuel : Nat} {u src : List UInt8} {b : UInt8} (hfuel : u.length ≤ fuel)
    (hb : utf8IsTrailingByte b = false) (h : b :: src <:+ u) :
    ((b :: src).take (advance (b :: src)), (utf8ToLatin1Next (b :: src)).1) ∈ roundsLoop fuel u := by
  induction fuel generalizing u with
  | zero =>
      have hlen := h.length_le
      simp only [List.length_cons] at hlen
      omega
  | succ fuel ih =>
      cases u with
      | nil => simp at h
      | cons c u =>
          obtain ⟨hpos, hle⟩ := advance_bounds c u
          have hnext := utf8ToLatin1Next_snd (c :: u)
          rw [roundsLoop]
          rcases List.suffix_cons_iff.mp h with heq | hsuf
          · cases heq
            exact List.mem_cons_self
          · have hsplit : u.take (advance (c :: u) - 1) ++ (c :: u).drop (advance (c :: u)) = u := by
              conv_rhs => rw [← List.take_append_drop (advance (c :: u) - 1) u]
              rw [show advance (c :: u) = advance (c :: u) - 1 + 1 by omega, List.drop_succ_cons]
              rfl
            rw [← hsplit] at hsuf
            have hrest := suffix_of_suffix_append hb (fun x hx => trailing_of_mem_advance hx) hsuf
            rw [← hnext] at hrest
            refine List.mem_cons_of_mem _ (ih ?_ hrest)
            rw [hnext, List.length_drop]
            omega

theorem suffix_of_mem_roundsLoop {fuel : Nat} {u : List UInt8} {r : List UInt8 × UInt8}
    (h : r ∈ roundsLoop fuel u) :
    ∃ src, src <:+ u ∧ r.1 = src.take (advance src) ∧ r.2 = (utf8ToLatin1Next src).1 := by
  induction fuel generalizing u with
  | zero => simp [roundsLoop] at h
  | succ fuel ih =>
      cases u with
      | nil => simp [roundsLoop] at h
      | cons c u =>
          rw [roundsLoop] at h
          rcases List.mem_cons.mp h with rfl | h
          · exact ⟨c :: u, List.suffix_rfl, rfl, rfl⟩
          · obtain ⟨src, hsuf, hr⟩ := ih h
            refine ⟨src, hsuf.trans ?_, hr⟩
            rw [utf8ToLatin1Next_snd]
            exact List.drop_suffix _ _

theorem latin1Chars_rounds (fuel : Nat) (u : List UInt8) :
    latin1Chars fuel u = (roundsLoop fuel u).map Prod.snd := by
  induction fuel generalizing u with
  | zero => rfl
  | succ fuel ih =>
      cases u with
      | nil => rfl
      | cons c u => rw [latin1Chars, roundsLoop, List.map_cons, ih]

theorem decoded_of_emitted {src : List UInt8} (h : (utf8ToLatin1Next src).1 ≠ 63) :
    ∃ n c, utf8DecodeOne src = some (n, c) ∧ advance src = n ∧ c ≤ 0xFF ∧ c ≠ 63 ∧
      (utf8ToLatin1Next src).1 = c.toUInt8 := by
  cases hdec : utf8DecodeOne src with
  | none => simp [utf8ToLatin1Next, hdec] at h
  | some r =>
      obtain ⟨n, c⟩ := r
      simp only [utf8ToLatin1Next, hdec] at h ⊢
      split_ifs at h ⊢ with hc
      · refine ⟨n, c, rfl, ?_, hc, ?_, rfl⟩
        · simp only [advance, hdec]
        · rintro rfl
          exact h rfl
      · exact absurd rfl h

/-- What the conversion is asked not to do: pass on a sequence that encodes
nothing, or emit an ASCII byte that the input does not hold. -/
def ConvertsOnlyEncodings (u : List UInt8) : Prop :=
  (∀ r ∈ rounds u, ¬IsEncoding r.1 → r.2 = 63) ∧ ∀ r ∈ rounds u, r.2 < 0x80 → r.2 ≠ 63 → r.2 ∈ u

theorem accepted_utf8Bytes {c : Nat} (h : c ≤ 0x10FFFF) : ∃ n, Accepted (utf8Bytes c) n c := by
  have htoNat : ∀ {n : Nat}, n < 256 → n.toUInt8.toNat = n := fun hn => UInt8.toNat_ofNat_of_lt' hn
  have htrail : ∀ n, utf8IsTrailingByte (0x80 + n % 64).toUInt8 := by
    intro n
    rw [utf8IsTrailingByte_iff, htoNat (by omega)]
    omega
  have hbits : ∀ n, tailBits (0x80 + n % 64).toUInt8 = n % 64 := by
    intro n
    have hbyte : (0x80 + n % 64).toUInt8.toNat = 0x80 + n % 64 := htoNat (by omega)
    unfold tailBits
    omega
  by_cases h₁ : c < 0x80
  · have hacc := @Accepted.one c.toUInt8 [] (by rw [htoNat (by omega)]; omega)
    rw [htoNat (by omega)] at hacc
    rw [utf8Bytes_one h₁]
    exact ⟨_, hacc⟩
  · by_cases h₂ : c < 0x800
    · have hlead : (0xC0 + c / 64 % 32).toUInt8.toNat = 0xC0 + c / 64 % 32 := htoNat (by omega)
      have hacc := @Accepted.two (0xC0 + c / 64 % 32).toUInt8 _ [] (by omega) (by omega) (htrail c)
      rw [hlead, hbits, show 64 * (0xC0 + c / 64 % 32 - 0xC0) + c % 64 = c by omega] at hacc
      rw [utf8Bytes_two (by omega) h₂]
      exact ⟨_, hacc⟩
    · by_cases h₃ : c < 0x10000
      · have hlead : (0xE0 + c / 4096 % 16).toUInt8.toNat = 0xE0 + c / 4096 % 16 := htoNat (by omega)
        have hacc := @Accepted.three (0xE0 + c / 4096 % 16).toUInt8 _ _ [] (by omega) (by omega) (htrail (c / 64))
          (htrail c)
        rw [hlead, hbits, hbits,
          show 4096 * (0xE0 + c / 4096 % 16 - 0xE0) + 64 * (c / 64 % 64) + c % 64 = c by omega] at hacc
        rw [utf8Bytes_three (by omega) h₃]
        exact ⟨_, hacc⟩
      · have hlead : (0xF0 + c / 262144 % 8).toUInt8.toNat = 0xF0 + c / 262144 % 8 := htoNat (by omega)
        have hacc := @Accepted.four (0xF0 + c / 262144 % 8).toUInt8 _ _ _ [] (by omega) (by omega) (htrail (c / 4096))
          (htrail (c / 64)) (htrail c)
        rw [hlead, hbits, hbits, hbits,
          show 262144 * (0xF0 + c / 262144 % 8 - 0xF0) + 4096 * (c / 4096 % 64) + 64 * (c / 64 % 64) + c % 64 = c
            by omega] at hacc
        rw [utf8Bytes_four (by omega) h]
        exact ⟨_, hacc⟩

theorem accepted_take {src : List UInt8} {n c : Nat} (h : Accepted src n c) : Accepted (src.take n) n c := by
  cases h with
  | one rest h₀ => exact Accepted.one [] h₀
  | two rest h₀ h₀' h₁ => exact Accepted.two [] h₀ h₀' h₁
  | three rest h₀ h₀' h₁ h₂ => exact Accepted.three [] h₀ h₀' h₁ h₂
  | four rest h₀ h₀' h₁ h₂ h₃ => exact Accepted.four [] h₀ h₀' h₁ h₂ h₃

theorem isEncoding_take_iff {src : List UInt8} {n c : Nat} (h : Accepted src n c) :
    IsEncoding (src.take n) ↔ ¬StartsIllFormed src := by
  rw [← accepted_encoding_iff h]
  constructor
  · rintro ⟨c', hc', henc⟩
    have hbytes := (encodes_iff hc' _).mp henc
    obtain ⟨n', hacc'⟩ := accepted_utf8Bytes hc'
    rw [hbytes] at hacc'
    have hsame := (utf8DecodeOne_accepted hacc').symm.trans (utf8DecodeOne_accepted (accepted_take h))
    simp only [Option.some.injEq, Prod.mk.injEq] at hsame
    rw [← hsame.2]
    exact ⟨hc', hbytes⟩
  · rintro ⟨hc, hbytes⟩
    exact ⟨c, hc, (encodes_iff hc _).mpr hbytes⟩

theorem accepted_lead {src : List UInt8} {n c : Nat} (h : Accepted src n c) :
    ∃ b rest, src = b :: rest ∧ utf8IsTrailingByte b = false := by
  have hlead : ∀ b : UInt8, b.toNat < 0x80 ∨ 0xC0 ≤ b.toNat → utf8IsTrailingByte b = false := by
    intro b hb
    rw [Bool.eq_false_iff, ne_eq, utf8IsTrailingByte_iff]
    omega
  cases h with
  | one rest h₀ => exact ⟨_, _, rfl, hlead _ (Or.inl h₀)⟩
  | two rest h₀ => exact ⟨_, _, rfl, hlead _ (Or.inr h₀)⟩
  | three rest h₀ => exact ⟨_, _, rfl, hlead _ (by omega)⟩
  | four rest h₀ => exact ⟨_, _, rfl, hlead _ (by omega)⟩

theorem convertsOnlyEncodings_iff (u : List UInt8) :
    ConvertsOnlyEncodings u ↔ ∀ src, src <:+ u → ¬StartsOverlong src := by
  constructor
  · rintro ⟨hill, -⟩ src hsuf hover
    obtain ⟨n, c, hacc, hstart, hc, hq⟩ := accepted_of_startsOverlong hover
    obtain ⟨b, rest, rfl, hb⟩ := accepted_lead hacc
    have hdec := utf8DecodeOne_accepted hacc
    have hread : advance (b :: rest) = n := by simp only [advance, hdec]
    have hemit : (utf8ToLatin1Next (b :: rest)).1 = c.toUInt8 := by
      simp only [utf8ToLatin1Next, hdec, if_pos hc]
    have hmem := mem_roundsLoop_of_suffix (Nat.le_refl u.length) hb hsuf
    rw [hread, hemit] at hmem
    have hmark : c.toUInt8 = 63 := hill _ hmem fun henc => (isEncoding_take_iff hacc).mp henc hstart
    have htoNat : c.toUInt8.toNat = c := UInt8.toNat_ofNat_of_lt' (show c < 256 by omega)
    rw [hmark] at htoNat
    exact hq htoNat.symm
  · intro hnone
    -- a round that emits another byte than the mark has read an encoding of it
    have hgood : ∀ r ∈ rounds u, r.2 ≠ 63 → ∃ c, c ≤ 0xFF ∧ r.2 = c.toUInt8 ∧ utf8Bytes c = r.1 ∧ r.1 <:+: u := by
      intro r hr hne
      obtain ⟨src, hsuf, hread, hemit⟩ := suffix_of_mem_roundsLoop hr
      rw [hemit] at hne
      obtain ⟨n, c, hdec, hadv, hc, hq, hch⟩ := decoded_of_emitted hne
      have hacc := accepted_of_utf8DecodeOne hdec
      have hform : ¬StartsIllFormed src := fun hill => hnone src hsuf (startsOverlong_of_accepted hacc hill hc hq)
      obtain ⟨-, hbytes⟩ := (accepted_encoding_iff hacc).mpr hform
      rw [hadv] at hread
      rw [hread, hemit]
      exact ⟨c, hc, hch, hbytes, (List.take_prefix n src).isInfix.trans hsuf.isInfix⟩
    constructor
    · intro r hr hno
      by_contra hne
      obtain ⟨c, hc, -, hbytes, -⟩ := hgood r hr hne
      exact hno ⟨c, by omega, (encodes_iff (by omega) _).mpr hbytes⟩
    · intro r hr hlt hne
      obtain ⟨c, hc, hch, hbytes, hinf⟩ := hgood r hr hne
      have htoNat : c.toUInt8.toNat = c := UInt8.toNat_ofNat_of_lt' (show c < 256 by omega)
      rw [hch, UInt8.lt_iff_toNat_lt, htoNat] at hlt
      rw [utf8Bytes_one hlt] at hbytes
      rw [hch]
      apply hinf.subset
      rw [← hbytes]
      exact List.mem_singleton_self _

/-- What the decoder accepts is an encoding exactly when it is not one of the
ill-formed sequences, and the conversion keeps such sequences out of its
output exactly when the input holds no overlong form of a Latin-1 character. -/
theorem decoder_accepts_encodings_iff (u dest : List UInt8) :
    (∀ n c, utf8DecodeOne u = some (n, c) → ((c ≤ 0x10FFFF ∧ Encodes c (u.take n)) ↔ ¬StartsIllFormed u)) ∧
    ∃ out, utf8ToLatin1 dest 0 dest.length u = .ok (out, (rounds u).length) ∧
      ((rounds u).length ≤ dest.length → out.take (rounds u).length = (rounds u).map Prod.snd) ∧
      (ConvertsOnlyEncodings u ↔ ∀ src, src <:+ u → ¬StartsOverlong src) := by
  constructor
  · intro n c hdec
    have hacc := accepted_of_utf8DecodeOne hdec
    rw [← accepted_encoding_iff hacc]
    constructor
    · rintro ⟨hc, henc⟩
      exact ⟨hc, (encodes_iff hc _).mp henc⟩
    · rintro ⟨hc, hbytes⟩
      exact ⟨hc, (encodes_iff hc _).mpr hbytes⟩
  · obtain ⟨out, hout, htake⟩ := utf8ToLatin1_ok dest u
    have hchars : toLatin1 u = (rounds u).map Prod.snd := latin1Chars_rounds u.length u
    rw [hchars, List.length_map] at hout htake
    exact ⟨out, hout, htake, convertsOnlyEncodings_iff u⟩

theorem decoder_accepts_encodings_euro :
    utf8DecodeOne [0xE2, 0x82, 0xAC] = some (3, 0x20AC) ∧
      ((0x20AC ≤ 0x10FFFF ∧ Encodes 0x20AC ([0xE2, 0x82, 0xAC].take 3)) ↔ ¬StartsIllFormed [0xE2, 0x82, 0xAC]) :=
  ⟨by decide, (decoder_accepts_encodings_iff [0xE2, 0x82, 0xAC] []).1 _ _ (by decide)⟩

/-- The overlong form of NUL is accepted and converted to NUL, which the input does not hold. -/
theorem decoder_accepts_overlong_nul :
    ¬((∀ src n c, utf8DecodeOne src = some (n, c) → c ≤ 0x10FFFF ∧ Encodes c (src.take n)) ∧
        ∀ u, ConvertsOnlyEncodings u) ∧
      utf8DecodeOne [0xC0, 0x80] = some (2, 0) ∧ utf8ToLatin1 [1] 0 1 [0xC0, 0x80] = .ok ([0], 1) := by
  refine ⟨?_, by decide, by decide⟩
  rintro ⟨haccepts, -⟩
  exact absurd (haccepts [0xC0, 0x80] 2 0 (by decide)).2 (by decide)

end TibiaLogin.Canonical
