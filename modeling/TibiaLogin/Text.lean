import Mathlib.Data.List.Basic
import Mathlib.Tactic.Common

namespace TibiaLogin.Text

def text (s : String) : List UInt8 := s.toList.map fun ch => UInt8.ofNat ch.toNat

def decimal (n : Nat) : List UInt8 := (Nat.toDigits 10 n).map fun ch => UInt8.ofNat ch.toNat

def signedDecimal (n : Int) : List UInt8 := if n < 0 then 45 :: decimal n.natAbs else decimal n.natAbs

def Digits (text : List UInt8) : Prop := ∀ ch ∈ text, 48 ≤ ch ∧ ch ≤ 57

instance (text : List UInt8) : Decidable (Digits text) := List.decidableBAll _ text

def digitsValue (text : List UInt8) : Nat := text.foldl (fun value ch => 10 * value + (ch.toNat - 48)) 0

def parseDecimal (text : List UInt8) : Option Nat :=
  if text ≠ [] ∧ Digits text then some (digitsValue text) else none

def parseSigned (text : List UInt8) : Option Int :=
  if text.head? = some 45 then (parseDecimal text.tail).map fun value : Nat => -(value : Int)
  else (parseDecimal text).map fun value : Nat => (value : Int)

theorem toNat_digit {n : Nat} (hn : n < 10) : (UInt8.ofNat n.digitChar.toNat).toNat = 48 + n := by
  rw [Nat.toNat_digitChar_of_lt_ten hn, UInt8.toNat_ofNat']
  omega

theorem digit_bounds {n : Nat} (hn : n < 10) :
    48 ≤ UInt8.ofNat n.digitChar.toNat ∧ UInt8.ofNat n.digitChar.toNat ≤ 57 := by
  rw [UInt8.le_iff_toNat_le, UInt8.le_iff_toNat_le, toNat_digit hn]
  exact ⟨Nat.le_add_right 48 n, show 48 + n ≤ 57 by omega⟩

theorem decimal_of_lt {n : Nat} (hn : n < 10) : decimal n = [UInt8.ofNat n.digitChar.toNat] := by
  rw [decimal, Nat.toDigits_of_lt_base hn, List.map_singleton]

theorem decimal_of_le {n : Nat} (hn : 10 ≤ n) :
    decimal n = decimal (n / 10) ++ [UInt8.ofNat (n % 10).digitChar.toNat] := by
  rw [decimal, Nat.toDigits_of_base_le (by omega) hn, List.map_append, List.map_singleton, ← decimal]

theorem digits_decimal (n : Nat) : Digits (decimal n) := by
  induction n using Nat.strongRecOn with
  | ind n ih =>
      intro ch hch
      by_cases hsmall : n < 10
      · rw [decimal_of_lt hsmall, List.mem_singleton] at hch
        rw [hch]
        exact digit_bounds hsmall
      · rw [decimal_of_le (by omega)] at hch
        rcases List.mem_append.mp hch with hch | hch
        · exact ih (n / 10) (by omega) ch hch
        · rw [List.mem_singleton.mp hch]
          exact digit_bounds (by omega)

theorem decimal_ne_nil (n : Nat) : decimal n ≠ [] := by
  by_cases hsmall : n < 10
  · rw [decimal_of_lt hsmall]
    exact List.cons_ne_nil _ _
  · rw [decimal_of_le (by omega)]
    exact List.append_ne_nil_of_right_ne_nil _ (List.cons_ne_nil _ _)

theorem digitsValue_decimal (n : Nat) : digitsValue (decimal n) = n := by
  induction n using Nat.strongRecOn with
  | ind n ih =>
      by_cases hsmall : n < 10
      · simp [decimal_of_lt hsmall, digitsValue, toNat_digit hsmall]
      · have hrest := ih (n / 10) (by omega)
        rw [digitsValue] at hrest
        rw [decimal_of_le (by omega), digitsValue, List.foldl_append, hrest, List.foldl_cons, List.foldl_nil,
          toNat_digit (by omega)]
        omega

theorem parseDecimal_decimal (n : Nat) : parseDecimal (decimal n) = some n := by
  rw [parseDecimal, if_pos ⟨decimal_ne_nil n, digits_decimal n⟩, digitsValue_decimal]

theorem head_decimal (n : Nat) : (decimal n).head? ≠ some 45 := by
  intro h
  obtain ⟨rest, hrest⟩ := List.head?_eq_some_iff.mp h
  have hdigit := digits_decimal n 45 (by rw [hrest]; exact List.mem_cons_self)
  exact absurd hdigit.1 (by decide)

theorem parseSigned_signedDecimal (n : Int) : parseSigned (signedDecimal n) = some n := by
  rw [signedDecimal]
  split_ifs with hneg
  · rw [parseSigned, List.head?_cons, if_pos rfl, List.tail_cons, parseDecimal_decimal, Option.map_some]
    congr 1
    omega
  · rw [parseSigned, if_neg (head_decimal _), parseDecimal_decimal, Option.map_some]
    congr 1
    omega

theorem mem_signedDecimal {n : Int} {ch : UInt8} (h : ch ∈ signedDecimal n) : ch = 45 ∨ (48 ≤ ch ∧ ch ≤ 57) := by
  rw [signedDecimal] at h
  split_ifs at h with hneg
  · rcases List.mem_cons.mp h with rfl | h
    · exact Or.inl rfl
    · exact Or.inr (digits_decimal _ ch h)
  · exact Or.inr (digits_decimal _ ch h)

end TibiaLogin.Text
