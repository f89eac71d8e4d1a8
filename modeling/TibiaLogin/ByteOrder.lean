import Mathlib.Data.Nat.Bitwise
import Mathlib.Data.List.Basic
import Mathlib.Tactic.Common

namespace TibiaLogin.ByteOrder

def readU16Le : List UInt8 → UInt16
  | b₀ :: b₁ :: _ => b₀.toUInt16 ||| (b₁.toUInt16 <<< 8)
  | _ => 0

def readU16Be : List UInt8 → UInt16
  | b₀ :: b₁ :: _ => (b₀.toUInt16 <<< 8) ||| b₁.toUInt16
  | _ => 0

def readU32Le : List UInt8 → UInt32
  | b₀ :: b₁ :: b₂ :: b₃ :: _ =>
      b₀.toUInt32 ||| (b₁.toUInt32 <<< 8) ||| (b₂.toUInt32 <<< 16) ||| (b₃.toUInt32 <<< 24)
  | _ => 0

def readU32Be : List UInt8 → UInt32
  | b₀ :: b₁ :: b₂ :: b₃ :: _ =>
      (b₀.toUInt32 <<< 24) ||| (b₁.toUInt32 <<< 16) ||| (b₂.toUInt32 <<< 8) ||| b₃.toUInt32
  | _ => 0

def writeU16Le (value : UInt16) : List UInt8 := [value.toUInt8, (value >>> 8).toUInt8]

def writeU16Be (value : UInt16) : List UInt8 := [(value >>> 8).toUInt8, value.toUInt8]

def writeU32Le (value : UInt32) : List UInt8 :=
  [value.toUInt8, (value >>> 8).toUInt8, (value >>> 16).toUInt8, (value >>> 24).toUInt8]

def writeU32Be (value : UInt32) : List UInt8 :=
  [(value >>> 24).toUInt8, (value >>> 16).toUInt8, (value >>> 8).toUInt8, value.toUInt8]

theorem or_shiftLeft {a b k : Nat} (h : a < 2 ^ k) : a ||| (b <<< k) = a + 2 ^ k * b := by
  rw [Nat.lor_comm, ← Nat.shiftLeft_add_eq_or_of_lt h, Nat.shiftLeft_eq, Nat.mul_comm, Nat.add_comm]

theorem readU16Le_toNat (b₀ b₁ : UInt8) (rest : List UInt8) :
    (readU16Le (b₀ :: b₁ :: rest)).toNat = b₀.toNat + 256 * b₁.toNat := by
  have h₀ := b₀.toNat_lt
  have h₁ := b₁.toNat_lt
  have hm : b₁.toNat <<< 8 % 2 ^ 16 = b₁.toNat <<< 8 := by rw [Nat.shiftLeft_eq]; omega
  simp only [readU16Le, UInt16.toNat_or, UInt16.toNat_shiftLeft, UInt8.toNat_toUInt16]
  change b₀.toNat ||| b₁.toNat <<< 8 % 2 ^ 16 = _
  rw [hm, or_shiftLeft h₀]
  rfl

theorem readU32Le_toNat (b₀ b₁ b₂ b₃ : UInt8) (rest : List UInt8) :
    (readU32Le (b₀ :: b₁ :: b₂ :: b₃ :: rest)).toNat =
      b₀.toNat + 256 * b₁.toNat + 65536 * b₂.toNat + 16777216 * b₃.toNat := by
  have h₀ := b₀.toNat_lt
  have h₁ := b₁.toNat_lt
  have h₂ := b₂.toNat_lt
  have h₃ := b₃.toNat_lt
  have hm₁ : b₁.toNat <<< 8 % 2 ^ 32 = b₁.toNat <<< 8 := by rw [Nat.shiftLeft_eq]; omega
  have hm₂ : b₂.toNat <<< 16 % 2 ^ 32 = b₂.toNat <<< 16 := by rw [Nat.shiftLeft_eq]; omega
  have hm₃ : b₃.toNat <<< 24 % 2 ^ 32 = b₃.toNat <<< 24 := by rw [Nat.shiftLeft_eq]; omega
  have h₀₁ : b₀.toNat + 2 ^ 8 * b₁.toNat < 2 ^ 16 := by omega
  have h₀₂ : b₀.toNat + 2 ^ 8 * b₁.toNat + 2 ^ 16 * b₂.toNat < 2 ^ 24 := by omega
  simp only [readU32Le, UInt32.toNat_or, UInt32.toNat_shiftLeft, UInt8.toNat_toUInt32]
  change b₀.toNat ||| b₁.toNat <<< 8 % 2 ^ 32 ||| b₂.toNat <<< 16 % 2 ^ 32 ||| b₃.toNat <<< 24 % 2 ^ 32 = _
  rw [hm₁, hm₂, hm₃, or_shiftLeft h₀, or_shiftLeft h₀₁, or_shiftLeft h₀₂]
  rfl

theorem readU32Be_eq (b₀ b₁ b₂ b₃ : UInt8) (rest : List UInt8) :
    readU32Be (b₀ :: b₁ :: b₂ :: b₃ :: rest) = readU32Le [b₃, b₂, b₁, b₀] := by
  simp only [readU32Be, readU32Le]
  rw [UInt32.or_comm, UInt32.or_comm (_ ||| _) (b₂.toUInt32 <<< 8), UInt32.or_comm (b₀.toUInt32 <<< 24),
    UInt32.or_assoc, UInt32.or_assoc]

theorem toNat_shiftRight16 (v : UInt16) : (v >>> 8).toUInt8.toNat = v.toNat / 256 % 256 := by
  rw [UInt16.toNat_toUInt8, UInt16.toNat_shiftRight, Nat.shiftRight_eq_div_pow]
  rfl

theorem toNat_shiftRight32 (v k : UInt32) (h : k.toNat < 32) :
    (v >>> k).toUInt8.toNat = v.toNat / 2 ^ k.toNat % 256 := by
  rw [UInt32.toNat_toUInt8, UInt32.toNat_shiftRight, Nat.shiftRight_eq_div_pow, Nat.mod_eq_of_lt h]

theorem readU16Le_writeU16Le (v : UInt16) (rest : List UInt8) :
    readU16Le (writeU16Le v ++ rest) = v := by
  apply UInt16.toNat_inj.mp
  have hv := v.toNat_lt
  rw [writeU16Le, List.cons_append, List.cons_append, readU16Le_toNat, toNat_shiftRight16,
    UInt16.toNat_toUInt8]
  omega

theorem readU32Le_writeU32Le (v : UInt32) (rest : List UInt8) :
    readU32Le (writeU32Le v ++ rest) = v := by
  apply UInt32.toNat_inj.mp
  have hv := v.toNat_lt
  rw [writeU32Le, List.cons_append, List.cons_append, List.cons_append, List.cons_append,
    readU32Le_toNat, toNat_shiftRight32 v 8 (by decide), toNat_shiftRight32 v 16 (by decide),
    toNat_shiftRight32 v 24 (by decide), UInt32.toNat_toUInt8]
  change v.toNat % 2 ^ 8 + 256 * (v.toNat / 2 ^ 8 % 256) + 65536 * (v.toNat / 2 ^ 16 % 256) +
    16777216 * (v.toNat / 2 ^ 24 % 256) = v.toNat
  omega

theorem readU16Be_writeU16Be (v : UInt16) (rest : List UInt8) :
    readU16Be (writeU16Be v ++ rest) = v := by
  have hswap : readU16Be (writeU16Be v ++ rest) = readU16Le (writeU16Le v ++ rest) := UInt16.or_comm _ _
  rw [hswap, readU16Le_writeU16Le]

theorem readU32Be_writeU32Be (v : UInt32) (rest : List UInt8) :
    readU32Be (writeU32Be v ++ rest) = v := by
  rw [writeU32Be, List.cons_append, List.cons_append, List.cons_append, List.cons_append, readU32Be_eq]
  exact readU32Le_writeU32Le v []

theorem writeU32Le_readU32Le (b₀ b₁ b₂ b₃ : UInt8) (rest : List UInt8) :
    writeU32Le (readU32Le (b₀ :: b₁ :: b₂ :: b₃ :: rest)) = [b₀, b₁, b₂, b₃] := by
  have h₀ := b₀.toNat_lt
  have h₁ := b₁.toNat_lt
  have h₂ := b₂.toNat_lt
  have h₃ := b₃.toNat_lt
  have hv := readU32Le_toNat b₀ b₁ b₂ b₃ rest
  simp only [writeU32Le, List.cons.injEq, and_true, ← UInt8.toNat_inj]
  rw [toNat_shiftRight32 _ 8 (by decide), toNat_shiftRight32 _ 16 (by decide),
    toNat_shiftRight32 _ 24 (by decide), UInt32.toNat_toUInt8, hv]
  change _ % 2 ^ 8 = b₀.toNat ∧ _ / 2 ^ 8 % 256 = b₁.toNat ∧ _ / 2 ^ 16 % 256 = b₂.toNat ∧
    _ / 2 ^ 24 % 256 = b₃.toNat
  omega

@[simp] theorem length_writeU16Le (v : UInt16) : (writeU16Le v).length = 2 := rfl

@[simp] theorem length_writeU32Le (v : UInt32) : (writeU32Le v).length = 4 := rfl

@[simp] theorem length_writeU16Be (v : UInt16) : (writeU16Be v).length = 2 := rfl

@[simp] theorem length_writeU32Be (v : UInt32) : (writeU32Be v).length = 4 := rfl

theorem writeU32Le_readU32Le_take {bytes : List UInt8} (h : 4 ≤ bytes.length) :
    writeU32Le (readU32Le bytes) = bytes.take 4 :=
  match bytes, h with
  | b₀ :: b₁ :: b₂ :: b₃ :: rest, _ => writeU32Le_readU32Le b₀ b₁ b₂ b₃ rest

end TibiaLogin.ByteOrder
