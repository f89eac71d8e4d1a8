import TibiaLogin.ReadConfig
import Mathlib.Tactic.LinearCombination
import Mathlib.Tactic.Ring

namespace TibiaLogin.StringHash

open MachineInt ReadConfig

def fnvStep (hash : Nat) (b : UInt8) : Nat := (hash ^^^ b.toNat) * 0x01000193 % 2 ^ 32

def fnv1a (bytes : List UInt8) : Nat := bytes.foldl fnvStep 0x811C9DC5

def highBytes (bytes : List UInt8) : Nat := bytes.countP fun b => 128 ≤ b

/-- The lowest byte of the hash behind a byte; it depends on the lowest byte before it alone. -/
def lowStep (low : Nat) (b : UInt8) : Nat := (low ^^^ b.toNat) * 0x93 % 256

def carry (low : Nat) (b : UInt8) : Nat := (low ^^^ b.toNat) * 0x01000193 / 256

/-- By how much sign extension moves the upper part of the hash, over all. Each
byte outside of ASCII turns the upper part over, so a position counts when
there is an odd number of them behind it. -/
def imbalance : Nat → List UInt8 → Int
  | _, [] => 0
  | low, b :: bytes =>
      (if highBytes bytes % 2 = 1 then 403 ^ bytes.length * ((carry low b : Int) - 201) else 0) +
        imbalance (lowStep low b) bytes

/-- The sign extensions in the string undo each other. -/
def Cancels (bytes : List UInt8) : Prop := highBytes bytes % 2 = 0 ∧ imbalance 0xC5 bytes % 2 ^ 23 = 0

instance (bytes : List UInt8) : Decidable (Cancels bytes) := inferInstanceAs (Decidable (_ ∧ _))

def hashStep (hash : Nat) (ch : UInt8) : Nat := (hash ^^^ (charToU32 ch).toNat) * 0x01000193 % 2 ^ 32

def sign (bytes : List UInt8) : Int := (-1) ^ highBytes bytes

theorem toNat_stringHash (str : List UInt8) : (stringHash str).toNat = (cString str).foldl hashStep 0x811C9DC5 := by
  suffices H : ∀ (bytes : List UInt8) (hash : UInt32),
      (bytes.foldl (fun hash ch => (hash ^^^ charToU32 ch) * 0x01000193) hash).toNat =
        bytes.foldl hashStep hash.toNat from
    H _ _
  intro bytes
  induction bytes with
  | nil => intro hash; rfl
  | cons ch bytes ih =>
      intro hash
      rw [List.foldl_cons, ih, List.foldl_cons, hashStep, UInt32.toNat_mul, UInt32.toNat_xor]
      rfl

theorem xor_upper {h : Nat} (hlt : h < 2 ^ 32) : h / 256 ^^^ 16777215 = 16777215 - h / 256 := by
  have hx : h / 256 < 2 ^ 24 := by omega
  have hnot : (BitVec.ofNat 24 (h / 256) ^^^ BitVec.allOnes 24).toNat = (~~~BitVec.ofNat 24 (h / 256)).toNat := by
    rw [BitVec.xor_allOnes]
  rw [BitVec.toNat_xor, BitVec.toNat_not, BitVec.toNat_ofNat, Nat.mod_eq_of_lt hx, BitVec.toNat_allOnes] at hnot
  exact hnot

theorem xor_charToU32 {h : Nat} (hlt : h < 2 ^ 32) (b : UInt8) :
    (h ^^^ (charToU32 b).toNat) / 256 = (if 128 ≤ b then 16777215 - h / 256 else h / 256) ∧
      (h ^^^ (charToU32 b).toNat) % 256 = h % 256 ^^^ b.toNat := by
  have hparts : ∀ b : UInt8, (charToU32 b).toNat / 256 = (if 128 ≤ b then 16777215 else 0) ∧
      (charToU32 b).toNat % 256 = b.toNat := forall_byte (by decide +kernel)
  obtain ⟨hdiv, hmod⟩ := hparts b
  have hd : (h ^^^ (charToU32 b).toNat) / 256 = h / 256 ^^^ (charToU32 b).toNat / 256 := Nat.xor_div_two_pow (n := 8)
  have hm : (h ^^^ (charToU32 b).toNat) % 256 = h % 256 ^^^ (charToU32 b).toNat % 256 := Nat.xor_mod_two_pow (n := 8)
  rw [hd, hm, hdiv, hmod]
  refine ⟨?_, rfl⟩
  split_ifs
  · exact xor_upper hlt
  · exact Nat.xor_zero _

theorem xor_byte (h : Nat) (b : UInt8) :
    (h ^^^ b.toNat) / 256 = h / 256 ∧ (h ^^^ b.toNat) % 256 = h % 256 ^^^ b.toNat := by
  have hb := b.toNat_lt
  have hd : (h ^^^ b.toNat) / 256 = h / 256 ^^^ b.toNat / 256 := Nat.xor_div_two_pow (n := 8)
  have hm : (h ^^^ b.toNat) % 256 = h % 256 ^^^ b.toNat % 256 := Nat.xor_mod_two_pow (n := 8)
  rw [hd, hm, Nat.div_eq_of_lt hb, Nat.xor_zero, Nat.mod_eq_of_lt hb]
  exact ⟨rfl, rfl⟩

theorem mul_prime (x : Nat) :
    x * 0x01000193 % 2 ^ 32 / 256 = (403 * (x / 256) + x % 256 * 0x01000193 / 256) % 2 ^ 24 ∧
      x * 0x01000193 % 2 ^ 32 % 256 = x % 256 * 0x93 % 256 := by
  have hdiv : x * 0x01000193 % (256 * 2 ^ 24) / 256 = x * 0x01000193 / 256 % 2 ^ 24 := Nat.mod_mul_right_div_self ..
  have hsplit : x * 0x01000193 / 256 = x / 256 * 0x01000193 + x % 256 * 0x01000193 / 256 := by omega
  refine ⟨?_, by omega⟩
  rw [show 2 ^ 32 = 256 * 2 ^ 24 from rfl, hdiv, hsplit]
  omega

theorem hashStep_lt (h : Nat) (b : UInt8) : hashStep h b < 2 ^ 32 := Nat.mod_lt _ (by decide)

theorem fnvStep_lt (g : Nat) (b : UInt8) : fnvStep g b < 2 ^ 32 := Nat.mod_lt _ (by decide)

theorem hashStep_parts {h : Nat} (hlt : h < 2 ^ 32) (b : UInt8) :
    hashStep h b / 256 = (403 * (if 128 ≤ b then 16777215 - h / 256 else h / 256) + carry (h % 256) b) % 2 ^ 24 ∧
      hashStep h b % 256 = lowStep (h % 256) b := by
  obtain ⟨hdiv, hmod⟩ := xor_charToU32 hlt b
  obtain ⟨hupper, hlow⟩ := mul_prime (h ^^^ (charToU32 b).toNat)
  rw [hdiv, hmod] at hupper
  rw [hmod] at hlow
  exact ⟨hupper, hlow⟩

theorem fnvStep_parts (g : Nat) (b : UInt8) :
    fnvStep g b / 256 = (403 * (g / 256) + carry (g % 256) b) % 2 ^ 24 ∧
      fnvStep g b % 256 = lowStep (g % 256) b := by
  obtain ⟨hdiv, hmod⟩ := xor_byte g b
  obtain ⟨hupper, hlow⟩ := mul_prime (g ^^^ b.toNat)
  rw [hdiv, hmod] at hupper
  rw [hmod] at hlow
  exact ⟨hupper, hlow⟩

theorem sign_cons (b : UInt8) (bytes : List UInt8) :
    sign (b :: bytes) = (if 128 ≤ b then -1 else 1) * sign bytes := by
  rw [sign, sign, highBytes, highBytes, List.countP_cons, pow_add, mul_comm]
  by_cases hb : 128 ≤ b
  · simp [hb]
  · simp [hb]

theorem sign_eq (bytes : List UInt8) : sign bytes = if highBytes bytes % 2 = 1 then -1 else 1 := by
  rw [sign]
  split_ifs with hodd
  · exact Odd.neg_one_pow (Nat.odd_iff.mpr hodd)
  · exact Even.neg_one_pow (Nat.even_iff.mpr (by omega))

theorem imbalance_cons (low : Nat) (b : UInt8) (bytes : List UInt8) :
    2 * imbalance low (b :: bytes) =
      (1 - sign bytes) * (403 ^ bytes.length * ((carry low b : Int) - 201)) + 2 * imbalance (lowStep low b) bytes := by
  rw [imbalance, sign_eq]
  split_ifs <;> ring

theorem upper_round (x u : Nat) : ∃ k : Int,
    2 * (((403 * x + u) % 2 ^ 24 : Nat) : Int) + 1 = 403 * (2 * (x : Int) + 1) + 2 * ((u : Int) - 201) + 2 ^ 25 * k := by
  refine ⟨-(((403 * x + u) / 2 ^ 24 : Nat) : Int), ?_⟩
  omega

def upper (h : Nat) : Int := 2 * ((h / 256 : Nat) : Int) + 1

theorem upper_hashStep {h : Nat} (hlt : h < 2 ^ 32) (b : UInt8) : ∃ k : Int,
    upper (hashStep h b) =
      403 * ((if 128 ≤ b then -1 else 1) * upper h) + 2 * ((carry (h % 256) b : Int) - 201) + 2 ^ 25 * k := by
  rw [upper, upper, (hashStep_parts hlt b).1]
  split_ifs
  · obtain ⟨k, hk⟩ := upper_round (16777215 - h / 256) (carry (h % 256) b)
    have hcast : ((16777215 - h / 256 : Nat) : Int) = 16777215 - ((h / 256 : Nat) : Int) := by omega
    rw [hcast] at hk
    exact ⟨403 + k, by linear_combination hk⟩
  · obtain ⟨k, hk⟩ := upper_round (h / 256) (carry (h % 256) b)
    exact ⟨k, by linear_combination hk⟩

theorem upper_fnvStep (g : Nat) (b : UInt8) : ∃ k : Int,
    upper (fnvStep g b) = 403 * upper g + 2 * ((carry (g % 256) b : Int) - 201) + 2 ^ 25 * k := by
  rw [upper, upper, (fnvStep_parts g b).1]
  exact upper_round (g / 256) (carry (g % 256) b)

/-- Both hashes of a string: the lowest bytes stay the same, and the upper
parts differ by what they differed by before and the imbalance. -/
theorem hashes_run (bytes : List UInt8) {h g : Nat} (hh : h < 2 ^ 32) (hg : g < 2 ^ 32) (hlow : h % 256 = g % 256) :
    bytes.foldl hashStep h < 2 ^ 32 ∧ bytes.foldl fnvStep g < 2 ^ 32 ∧
      bytes.foldl hashStep h % 256 = bytes.foldl fnvStep g % 256 ∧
      ∃ k : Int, upper (bytes.foldl hashStep h) - upper (bytes.foldl fnvStep g) =
        403 ^ bytes.length * (sign bytes * upper h - upper g) - 4 * imbalance (g % 256) bytes + 2 ^ 25 * k := by
  induction bytes generalizing h g with
  | nil => exact ⟨hh, hg, hlow, 0, by simp [sign, highBytes, imbalance]⟩
  | cons b bytes ih =>
      have hnext : hashStep h b % 256 = fnvStep g b % 256 := by
        rw [(hashStep_parts hh b).2, (fnvStep_parts g b).2, hlow]
      obtain ⟨k₁, hk₁⟩ := upper_hashStep hh b
      obtain ⟨k₂, hk₂⟩ := upper_fnvStep g b
      obtain ⟨hlt, glt, hend, k₃, hk₃⟩ := ih (hashStep_lt h b) (fnvStep_lt g b) hnext
      have himbalance := imbalance_cons (g % 256) b bytes
      refine ⟨hlt, glt, hend, 403 ^ bytes.length * (sign bytes * k₁ - k₂) + k₃, ?_⟩
      rw [(fnvStep_parts g b).2] at hk₃
      rw [hlow] at hk₁
      rw [List.foldl_cons, List.foldl_cons, sign_cons, List.length_cons]
      linear_combination hk₃ + 403 ^ bytes.length * (sign bytes * hk₁ - hk₂) + 2 * himbalance

theorem highBytes_of_ascii {bytes : List UInt8} (h : ∀ b ∈ bytes, b < 128) : highBytes bytes = 0 := by
  rw [highBytes, List.countP_eq_zero]
  intro b hb
  have hlt := UInt8.lt_iff_toNat_lt.mp (h b hb)
  rw [decide_eq_true_eq, UInt8.le_iff_toNat_le]
  omega

theorem cancels_of_ascii {bytes : List UInt8} (h : ∀ b ∈ bytes, b < 128) : Cancels bytes := by
  have himbalance : ∀ low, imbalance low bytes = 0 := by
    induction bytes with
    | nil => exact fun _ => rfl
    | cons b bytes ih =>
        intro low
        have htail : ∀ b ∈ bytes, b < 128 := fun b hb => h b (List.mem_cons_of_mem _ hb)
        rw [imbalance, highBytes_of_ascii htail, if_neg (by decide), ih htail]
        rfl
  rw [Cancels, highBytes_of_ascii h, himbalance]
  decide

/-- The hash is 32-bit FNV-1a exactly on the strings whose sign extensions undo
each other. -/
theorem stringHash_fnv1a_iff (str : List UInt8) :
    (stringHash str).toNat = fnv1a (cString str) ↔ Cancels (cString str) := by
  rw [toNat_stringHash, fnv1a, Cancels]
  generalize cString str = bytes
  obtain ⟨hlt, glt, hlow, k, hk⟩ := hashes_run bytes (h := 0x811C9DC5) (g := 0x811C9DC5) (by decide) (by decide) rfl
  have hodd : upper 0x811C9DC5 % 2 = 1 := by decide
  have hpow : (403 : Int) ^ bytes.length % 2 = 1 := Int.odd_iff.mp (Odd.pow (by decide))
  rw [show 0x811C9DC5 % 256 = 0xC5 from rfl, sign_eq] at hk
  have hupper : bytes.foldl hashStep 0x811C9DC5 = bytes.foldl fnvStep 0x811C9DC5 ↔
      upper (bytes.foldl hashStep 0x811C9DC5) - upper (bytes.foldl fnvStep 0x811C9DC5) = 0 := by
    rw [upper, upper]
    omega
  have hbound : -2 ^ 25 < upper (bytes.foldl hashStep 0x811C9DC5) - upper (bytes.foldl fnvStep 0x811C9DC5) ∧
      upper (bytes.foldl hashStep 0x811C9DC5) - upper (bytes.foldl fnvStep 0x811C9DC5) < 2 ^ 25 := by
    rw [upper, upper]
    omega
  rw [hupper]
  generalize upper (bytes.foldl hashStep 0x811C9DC5) - upper (bytes.foldl fnvStep 0x811C9DC5) = d at *
  generalize imbalance 0xC5 bytes = w at *
  by_cases heven : highBytes bytes % 2 = 0
  · rw [if_neg (by omega)] at hk
    have hd : d = -4 * w + 2 ^ 25 * k := by linear_combination hk
    omega
  · -- an odd number of turns leaves an odd difference
    rw [if_pos (by omega)] at hk
    generalize upper 0x811C9DC5 = x at *
    have hd : d = -2 * ((403 : Int) ^ bytes.length * x) - 4 * w + 2 ^ 25 * k := by linear_combination hk
    have hx : (403 : Int) ^ bytes.length * x % 2 = 1 := by rw [Int.mul_emod, hpow, hodd]; rfl
    omega

/-- The word "é": its two bytes do not undo each other. -/
theorem stringHash_accent : (stringHash [0xC3, 0xA9, 0]).toNat ≠ fnv1a (cString [0xC3, 0xA9, 0]) := by
  decide +kernel

example : Cancels [90, 0xCD, 0xC5] := by decide

end TibiaLogin.StringHash
