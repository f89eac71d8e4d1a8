import Mathlib.Data.List.TakeWhile
import TibiaLogin.LoginHandler

namespace TibiaLogin.PeerAddress

open MachineInt Text LoginHandler

def nextDigit : Option Nat → UInt8 → Option Nat
  | none, ch => some (ch.toNat - 48)
  | some value, ch =>
      if value = 0 then none
      else if 255 < value * 10 + (ch.toNat - 48) then none
      else some (value * 10 + (ch.toNat - 48))

/-- The scan of `inet_pton`: the octets that are finished, and the current one
once it has a digit. -/
def inetPton : List Nat → Option Nat → List UInt8 → Option (List Nat)
  | octets, current, [] =>
      match current with
      | some value => if octets.length = 3 then some (octets ++ [value]) else none
      | none => none
  | octets, current, ch :: text =>
      if 48 ≤ ch ∧ ch ≤ 57 then
        match nextDigit current ch with
        | some value => inetPton octets (some value) text
        | none => none
      else if ch = 46 then
        match current with
        | some value => if octets.length = 3 then none else inetPton (octets ++ [value]) none text
        | none => none
      else none

def parseIpv4Address (text : List UInt8) : Int :=
  match inetPton [] none (cString text) with
  | some [a, b, c, d] => wrap32 (a * 2 ^ 24 + b * 2 ^ 16 + c * 2 ^ 8 + d : Nat)
  | _ => 0

def mappedMark : List UInt8 := text "::ffff:"

def stripMapped (text : List UInt8) : List UInt8 := if text.take 7 = mappedMark then text.drop 7 else text

def peerAddress (text : List UInt8) : Int := parseIpv4Address (stripMapped text)

def dottedQuad (addr : UInt32) : List UInt8 :=
  decimal (addr.toNat / 2 ^ 24 % 256) ++ 46 :: (decimal (addr.toNat / 2 ^ 16 % 256) ++
    46 :: (decimal (addr.toNat / 2 ^ 8 % 256) ++ 46 :: decimal (addr.toNat % 256)))

theorem decimal_octet (n : Nat) (hn : n < 256) :
    (decimal n).foldlM (fun current ch => (nextDigit current ch).map some) none = some (some n) := by
  induction n using Nat.strong_induction_on with
  | _ n ih =>
      by_cases hsmall : n < 10
      · simp [decimal_of_lt hsmall, nextDigit, toNat_digit hsmall]
      · have hfold := ih (n / 10) (by omega) (by omega)
        have hlast : n % 10 < 10 := by omega
        -- the octets end at 255, and what comes before the last digit is not zero
        have hvalue : n / 10 * 10 + n % 10 = n := by omega
        rw [decimal_of_le (by omega), List.foldlM_append, hfold, Option.bind_eq_bind, Option.bind_some, List.foldlM_cons]
        simp only [nextDigit, toNat_digit hlast, Nat.add_sub_cancel_left, hvalue]
        rw [if_neg (by omega), if_neg (by omega)]
        rfl

theorem inetPton_digits (octets : List Nat) {current current' : Option Nat} {digits : List UInt8} (h : Digits digits)
    (hfold : digits.foldlM (fun current ch => (nextDigit current ch).map some) current = some current')
    (rest : List UInt8) : inetPton octets current (digits ++ rest) = inetPton octets current' rest := by
  induction digits generalizing current with
  | nil =>
      cases hfold
      rfl
  | cons ch digits ih =>
      obtain ⟨hch, hdigits⟩ := List.forall_mem_cons.mp h
      rw [List.foldlM_cons, Option.bind_eq_bind, Option.bind_eq_some_iff] at hfold
      obtain ⟨next, hnext, hfold⟩ := hfold
      obtain ⟨value, hvalue, rfl⟩ := Option.map_eq_some_iff.mp hnext
      simp only [List.cons_append, inetPton, if_pos hch, hvalue]
      exact ih hdigits hfold

theorem inetPton_decimal (octets : List Nat) {n : Nat} (hn : n < 256) (rest : List UInt8) :
    inetPton octets none (decimal n ++ rest) = inetPton octets (some n) rest :=
  inetPton_digits octets (digits_decimal n) (decimal_octet n hn) rest

theorem inetPton_dot (octets : List Nat) (value : Nat) (hlt : octets.length < 3) (rest : List UInt8) :
    inetPton octets (some value) (46 :: rest) = inetPton (octets ++ [value]) none rest := by
  have hne : octets.length ≠ 3 := by omega
  simp only [inetPton, if_neg hne]
  rfl

theorem inetPton_dottedQuad (addr : UInt32) :
    inetPton [] none (dottedQuad addr) = some [addr.toNat / 2 ^ 24 % 256, addr.toNat / 2 ^ 16 % 256,
      addr.toNat / 2 ^ 8 % 256, addr.toNat % 256] := by
  have hlast := inetPton_decimal [addr.toNat / 2 ^ 24 % 256, addr.toNat / 2 ^ 16 % 256, addr.toNat / 2 ^ 8 % 256]
    (show addr.toNat % 256 < 256 by omega) []
  rw [List.append_nil] at hlast
  rw [dottedQuad, inetPton_decimal [] (by omega), inetPton_dot [] _ (by simp), inetPton_decimal _ (by omega),
    inetPton_dot _ _ (by simp), inetPton_decimal _ (by omega), inetPton_dot _ _ (by simp)]
  exact hlast

theorem cString_dottedQuad (addr : UInt32) : cString (dottedQuad addr) = dottedQuad addr := by
  have hdecimal (n : Nat) : ∀ ch ∈ decimal n, ch ≠ 0 := by
    intro ch hch hz
    have h48 := (digits_decimal n ch hch).1
    rw [hz] at h48
    exact absurd h48 (by decide)
  refine List.takeWhile_eq_self_iff.mpr fun ch hch => ?_
  simp only [dottedQuad, List.mem_append, List.mem_cons] at hch
  rw [bne_iff_ne]
  rcases hch with h | rfl | h | rfl | h | rfl | h
  · exact hdecimal _ ch h
  · decide
  · exact hdecimal _ ch h
  · decide
  · exact hdecimal _ ch h
  · decide
  · exact hdecimal _ ch h

theorem parseIpv4Address_dottedQuad (addr : UInt32) : parseIpv4Address (dottedQuad addr) = wrap32 addr.toNat := by
  have hlt := addr.toNat_lt
  have hsum : addr.toNat / 2 ^ 24 % 256 * 2 ^ 24 + addr.toNat / 2 ^ 16 % 256 * 2 ^ 16 +
      addr.toNat / 2 ^ 8 % 256 * 2 ^ 8 + addr.toNat % 256 = addr.toNat := by
    omega
  rw [parseIpv4Address, cString_dottedQuad, inetPton_dottedQuad]
  simp only
  rw [hsum]

theorem stripMapped_dottedQuad (addr : UInt32) : stripMapped (dottedQuad addr) = dottedQuad addr := by
  have hdigits := digits_decimal (addr.toNat / 2 ^ 24 % 256)
  have hne := decimal_ne_nil (addr.toNat / 2 ^ 24 % 256)
  obtain ⟨ch, digits, hcons⟩ := List.exists_cons_of_ne_nil hne
  rw [stripMapped, if_neg]
  rw [dottedQuad, hcons, List.cons_append, List.take_succ_cons]
  intro heq
  have hch : ch = 58 := (List.cons.inj heq).1
  have h57 := (hdigits ch (by rw [hcons]; exact List.mem_cons_self ..)).2
  rw [hch] at h57
  exact absurd h57 (by decide)

/-- The text of an IPv4 peer, with or without the mark of a mapped address,
stands for the address that `accept` gives. -/
theorem peerAddress_eq (addr : UInt32) {peer : List UInt8}
    (h : peer = dottedQuad addr ∨ peer = mappedMark ++ dottedQuad addr) : peerAddress peer = wrap32 addr.toNat := by
  rcases h with rfl | rfl
  · rw [peerAddress, stripMapped_dottedQuad, parseIpv4Address_dottedQuad]
  · have hlen : mappedMark.length = 7 := by decide
    rw [peerAddress, stripMapped, if_pos (List.take_left' hlen), List.drop_left' hlen, parseIpv4Address_dottedQuad]

end TibiaLogin.PeerAddress
