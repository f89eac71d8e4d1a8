import Mathlib.Data.Int.Basic
import Mathlib.Tactic.Common

namespace TibiaLogin.MachineInt

def wrap32 (x : Int) : Int := (x + 2147483648) % 4294967296 - 2147483648

def toSize (x : Int) : Nat := (x % 18446744073709551616).toNat

def toU8 (x : Int) : UInt8 := UInt8.ofNat (x % 256).toNat

def toU16 (x : Int) : UInt16 := UInt16.ofNat (x % 65536).toNat

def toU32 (x : Int) : UInt32 := UInt32.ofNat (x % 4294967296).toNat

theorem wrap32_of_mem {x : Int} (hlo : -2147483648 ≤ x) (hhi : x < 2147483648) : wrap32 x = x := by
  rw [wrap32]
  omega

theorem wrap32_natCast {n : Nat} (h : n < 2147483648) : wrap32 n = n :=
  wrap32_of_mem (by omega) (by omega)

theorem toU32_wrap32 (v : UInt32) : toU32 (wrap32 v.toNat) = v := by
  have hlt := v.toNat_lt
  have hm : (wrap32 v.toNat % 4294967296).toNat = v.toNat := by
    rw [wrap32]
    omega
  rw [toU32, hm, UInt32.ofNat_toNat]

theorem toU16_toNat (v : UInt16) : toU16 v.toNat = v := by
  have hlt := v.toNat_lt
  have hm : ((v.toNat : Int) % 65536).toNat = v.toNat := by omega
  rw [toU16, hm, UInt16.ofNat_toNat]

theorem toNat_toU8 {n : Nat} (h : n < 256) : (toU8 n).toNat = n := by
  have hm : ((n : Int) % 256).toNat = n := by omega
  rw [toU8, hm]
  exact UInt8.toNat_ofNat_of_lt' h

theorem toNat_toU16 {n : Nat} (h : n < 65536) : (toU16 n).toNat = n := by
  have hm : ((n : Int) % 65536).toNat = n := by omega
  rw [toU16, hm]
  exact UInt16.toNat_ofNat_of_lt' h

theorem toNat_toU32 {n : Nat} (h : n < 4294967296) : (toU32 n).toNat = n := by
  have hm : ((n : Int) % 4294967296).toNat = n := by omega
  rw [toU32, hm]
  exact UInt32.toNat_ofNat_of_lt' h

theorem toSize_natCast {n : Nat} (h : n < 2147483648) : toSize n = n := by
  rw [toSize]
  omega

theorem toSize_of_neg {x : Int} (hlo : -2147483648 ≤ x) (hneg : x < 0) : 2147483648 < toSize x := by
  rw [toSize]
  omega

theorem forall_byte {P : UInt8 → Prop} (h : ∀ n < 256, P n.toUInt8) (b : UInt8) : P b := by
  have hb := h b.toNat b.toNat_lt
  rw [show b.toNat.toUInt8 = b from UInt8.ofNat_toNat] at hb
  exact hb

end TibiaLogin.MachineInt
