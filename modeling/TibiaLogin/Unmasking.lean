import TibiaLogin.WebSocketProtocol

namespace TibiaLogin.Unmasking

open Memory KeyStream WebSocketProtocol

section

variable {α : Type} {memory : List α}

theorem slice_append (memory : List α) (i m n : Nat) :
    (memory.drop i).take (m + n) = (memory.drop i).take m ++ (memory.drop (i + m)).take n := by
  rw [List.take_add, List.drop_drop]

theorem length_slice {i n : Nat} (h : i + n ≤ memory.length) : ((memory.drop i).take n).length = n := by
  rw [List.length_take, List.length_drop]
  omega

theorem drop_overwrite_of_le {i j : Nat} {data : List α} (h : i + data.length ≤ memory.length)
    (hj : i + data.length ≤ j) : (overwrite memory i data).drop j = memory.drop j := by
  obtain ⟨k, rfl⟩ := Nat.exists_eq_add_of_le hj
  rw [← List.drop_drop, drop_overwrite h, List.drop_drop]

theorem slice_overwrite {i n : Nat} {data : List α} (h : i ≤ memory.length) (hn : n ≤ data.length) :
    ((overwrite memory i data).drop i).take n = data.take n := by
  have hi : (memory.take i).length = i := by
    rw [List.length_take]
    omega
  rw [overwrite, List.append_assoc, List.drop_left' hi, List.take_append_of_le_length hn]

theorem slice_before {i j n : Nat} {data : List α} (h : j + n ≤ i) (hi : i ≤ memory.length) :
    ((overwrite memory i data).drop j).take n = (memory.drop j).take n := by
  have hlen : (memory.take i).length = i := by
    rw [List.length_take]
    omega
  rw [overwrite, List.append_assoc, List.drop_append_of_le_length (by omega),
    List.take_append_of_le_length (by rw [List.length_drop]; omega), List.drop_take, List.take_take,
    Nat.min_eq_left (by omega)]

end

variable {memory : List UInt8}

/-- The blocks together. None of them is written before it is read, and what
comes after the last of them is left alone. -/
theorem xorBlocks_eq {key : List UInt8} {destination n src : Nat} (hd : destination ≤ src)
    (hroom : src + key.length * n ≤ memory.length) :
    xorBlocks key destination n src memory =
      .ok (overwrite memory (src - destination) (keyed (· ^^^ ·) key ((memory.drop src).take (key.length * n)))) := by
  induction n generalizing src memory with
  | zero => rw [Nat.mul_zero, List.take_zero, keyed_nil, overwrite_nil]; rfl
  | succ n ih =>
      rw [Nat.mul_succ] at hroom
      have hblock : ((memory.drop src).take key.length).length = key.length := length_slice (by omega)
      generalize hfirst : keyed (· ^^^ ·) key ((memory.drop src).take key.length) = first
      have hlen : first.length = key.length := by rw [← hfirst, length_keyed, hblock]
      have hfits : src - destination + first.length ≤ memory.length := by omega
      have hkept : (overwrite memory (src - destination) first).length = memory.length := length_overwrite hfits
      have hplace : (src - destination : Int) = (src - destination : Nat) := (Int.ofNat_sub hd).symm
      have hnext : src + key.length - destination = src - destination + first.length := by omega
      rw [xorBlocks, loadBytes_of_within (by omega), ok_bind, zipWith_keyed _ _ _ (by rw [hblock]), hfirst, hplace,
        storeBytes_of_within hfits, ok_bind, ih (by omega) (by rw [hkept]; omega), hnext,
        drop_overwrite_of_le hfits (by omega), overwrite_overwrite, Nat.mul_succ, Nat.add_comm (key.length * n),
        slice_append, keyed_append, hblock, List.rotate_length, hfirst]
      rw [length_keyed, length_slice (by omega)]
      omega

theorem xorBlocks_spec (memory key : List UInt8) (n : Nat) {destination src k : Nat} (hd : destination ≤ src)
    (hroom : src + key.length * n ≤ memory.length) (hk : k ≤ key.length * n) :
    ∃ memory', xorBlocks key destination n src memory = .ok memory' ∧ memory'.length = memory.length ∧
      (memory'.drop (src - destination)).take k = keyed (· ^^^ ·) key ((memory.drop src).take k) ∧
      ∀ j, src - destination + key.length * n ≤ j → memory'.drop j = memory.drop j := by
  have hlen : (keyed (· ^^^ ·) key ((memory.drop src).take (key.length * n))).length = key.length * n := by
    rw [length_keyed, length_slice hroom]
  refine ⟨_, xorBlocks_eq hd hroom, length_overwrite (by omega), ?_, fun j hj => ?_⟩
  · rw [slice_overwrite (by omega) (by omega), keyed_take, List.take_take, Nat.min_eq_left hk]
  · exact drop_overwrite_of_le (by omega) (by omega)

section

variable {mask : List UInt8} (hmask : mask.length = 4)

include hmask

theorem unmaskImprecise8_spec (memory : List UInt8) (length : Nat) {destination src k : Nat} (hd : destination ≤ src)
    (hroom : src + length + 8 ≤ memory.length) (hk : k ≤ length) :
    ∃ memory', unmaskImprecise8 destination src mask length memory = .ok memory' ∧ memory'.length = memory.length ∧
      (memory'.drop (src - destination)).take k = keyed (· ^^^ ·) mask ((memory.drop src).take k) ∧
      ∀ j, src - destination + length + 8 ≤ j → memory'.drop j = memory.drop j := by
  have hkey : (mask ++ mask).length = 8 := by rw [List.length_append, hmask]
  obtain ⟨memory', hrun, hlen, hdata, hrest⟩ := xorBlocks_spec memory (mask ++ mask) (length / 8 + 1)
    (k := k) hd (by rw [hkey]; omega) (by rw [hkey]; omega)
  refine ⟨memory', hrun, hlen, hdata.trans (keyed_append_self ..), fun j hj => hrest j (by rw [hkey]; omega)⟩

theorem unmaskImprecise4_spec (memory : List UInt8) (length : Nat) {destination src k : Nat} (hd : destination ≤ src)
    (hroom : src + length + 4 ≤ memory.length) (hk : k ≤ length) :
    ∃ memory', unmaskImprecise4 destination src mask length memory = .ok memory' ∧ memory'.length = memory.length ∧
      (memory'.drop (src - destination)).take k = keyed (· ^^^ ·) mask ((memory.drop src).take k) ∧
      ∀ j, src - destination + length + 4 ≤ j → memory'.drop j = memory.drop j := by
  obtain ⟨memory', hrun, hlen, hdata, hrest⟩ := xorBlocks_spec memory mask (length / 4 + 1)
    (k := k) hd (by rw [hmask]; omega) (by rw [hmask]; omega)
  exact ⟨memory', hrun, hlen, hdata, fun j hj => hrest j (by rw [hmask]; omega)⟩

theorem unmaskInplace_spec (memory : List UInt8) (src n : Nat) {k : Nat} (hroom : src + n * 4 ≤ memory.length) (hk : k ≤ n * 4) :
    ∃ memory', unmaskInplace src (src + n * 4) mask memory = .ok memory' ∧ memory'.length = memory.length ∧
      (memory'.drop src).take k = keyed (· ^^^ ·) mask ((memory.drop src).take k) ∧
      ∀ j, src + n * 4 ≤ j → memory'.drop j = memory.drop j := by
  have hcount : (src + n * 4 - src + 3) / 4 = n := by omega
  obtain ⟨memory', hrun, hlen, hdata, hrest⟩ := xorBlocks_spec memory mask n
    (k := k) (Nat.zero_le src) (by rw [hmask]; omega) (by rw [hmask]; omega)
  rw [unmaskInplace, hcount]
  exact ⟨memory', hrun, hlen, hdata, fun j hj => hrest j (by rw [hmask]; omega)⟩

theorem unmaskAll_spec (ctx : Context) (memory : List UInt8) {src k : Nat} (hroom : src + ctx.recvBufferLength + 16 ≤ memory.length)
    (hk : k ≤ ctx.recvBufferLength) :
    ∃ memory', unmaskAll ctx src mask memory = .ok memory' ∧ memory'.length = memory.length ∧
      (memory'.drop src).take k = keyed (· ^^^ ·) mask ((memory.drop src).take k) := by
  have hkey : (mask ++ mask ++ (mask ++ mask)).length = 16 := by
    rw [List.length_append, List.length_append, hmask]
  obtain ⟨memory', hrun, hlen, hdata, -⟩ := xorBlocks_spec memory (mask ++ mask ++ (mask ++ mask))
    ((ctx.recvBufferLength + 15) / 16) (k := k) (Nat.zero_le src) (by rw [hkey]; omega) (by rw [hkey]; omega)
  refine ⟨memory', hrun, hlen, hdata.trans ?_⟩
  rw [keyed_append_self, keyed_append_self]

theorem rotate_of_dvd {k : Nat} (h : k % 4 = 0) : mask.rotate k = mask := by
  rw [← List.rotate_mod, hmask, h, List.rotate_zero]

theorem unmaskRest_spec (memory : List UInt8) (src n : Nat) (hroom : src + n ≤ memory.length) :
    ∃ memory', unmaskRest src n mask memory = .ok memory' ∧ memory'.length = memory.length ∧
      (memory'.drop src).take n = keyed (· ^^^ ·) mask ((memory.drop src).take n) ∧
      ∀ j, src + n ≤ j → memory'.drop j = memory.drop j := by
  obtain ⟨blocks, hrun, hlen, hdata, hrest⟩ := unmaskInplace_spec hmask memory src (n / 4) (k := n / 4 * 4) (by omega)
    (Nat.le_refl _)
  have htail : ((memory.drop (src + n / 4 * 4)).take (n % 4)).length = n % 4 := length_slice (by omega)
  have hkeyed : (keyed (· ^^^ ·) mask ((memory.drop (src + n / 4 * 4)).take (n % 4))).length = n % 4 := by
    rw [length_keyed, htail]
  have hparts : n = n / 4 * 4 + n % 4 := by omega
  rw [unmaskRest, hrun, ok_bind, loadBytes_of_within (by omega), ok_bind, hrest _ (Nat.le_refl _),
    zipWith_keyed _ _ _ (by omega), storeBytes_of_within (by omega)]
  refine ⟨_, rfl, by rw [length_overwrite (by omega), hlen], ?_, fun j hj => ?_⟩
  · calc ((overwrite blocks (src + n / 4 * 4) _).drop src).take n
      _ = ((overwrite blocks (src + n / 4 * 4) _).drop src).take (n / 4 * 4 + n % 4) := by rw [← hparts]
      _ = keyed (· ^^^ ·) mask ((memory.drop src).take (n / 4 * 4)) ++
          keyed (· ^^^ ·) mask ((memory.drop (src + n / 4 * 4)).take (n % 4)) := by
        rw [slice_append, slice_before (Nat.le_refl _) (by omega), hdata, slice_overwrite (by omega) (by omega),
          List.take_of_length_le (Nat.le_of_eq hkeyed)]
      _ = keyed (· ^^^ ·) mask ((memory.drop src).take (n / 4 * 4 + n % 4)) := by
        rw [slice_append, keyed_append, length_slice (by omega), rotate_of_dvd hmask (Nat.mul_mod_left _ _)]
      _ = keyed (· ^^^ ·) mask ((memory.drop src).take n) := by rw [← hparts]
  · rw [drop_overwrite_of_le (by omega) (by omega), hrest j (by omega)]

theorem unmaskRead_spec (ctx : Context) (memory : List UInt8) (src n : Nat) (hroom : src + n + 16 ≤ memory.length) :
    ∃ memory', unmaskRead ctx src n mask memory = .ok memory' ∧ memory'.length = memory.length ∧
      (memory'.drop src).take n = keyed (· ^^^ ·) mask ((memory.drop src).take n) := by
  rw [unmaskRead]
  by_cases hzero : mask = [0, 0, 0, 0]
  · rw [if_pos hzero]
    refine ⟨memory, rfl, rfl, (keyed_neutral _ ?_ _).symm⟩
    rw [hzero]
    simp
  by_cases hfull : n = ctx.recvBufferLength
  · rw [if_neg hzero, if_pos hfull]
    exact unmaskAll_spec hmask ctx memory (by omega) (by omega)
  · rw [if_neg hzero, if_neg hfull]
    obtain ⟨memory', hrun, hlen, hdata, -⟩ := unmaskInplace_spec hmask memory src (n / 4 + 1) (k := n) (by omega) (by omega)
    exact ⟨memory', hrun, hlen, hdata⟩

theorem rotateMask_eq (k : Nat) : rotateMask (4 - k % 4) mask = mask.rotate k := by
  obtain ⟨a, b, c, e, rfl⟩ : ∃ a b c e, mask = [a, b, c, e] := by
    match mask, hmask with
    | [a, b, c, e], _ => exact ⟨a, b, c, e, rfl⟩
  have hturn : List.rotate [a, b, c, e] k = List.rotate [a, b, c, e] (k % 4) :=
    (List.rotate_mod [a, b, c, e] k).symm
  rw [hturn]
  have hlt : k % 4 < 4 := Nat.mod_lt k (by decide)
  generalize k % 4 = r at hlt
  match r, hlt with
  | 0, _ | 1, _ | 2, _ | 3, _ => rfl

end

theorem unmaskImpreciseCopyMask_spec (memory : List UInt8) (src payLength : Nat) {headerSize : Nat}
    (hsize : headerSize = 6 ∨ headerSize = 8 ∨ headerSize = 14) (hsrc : headerSize ≤ src)
    (hroom : src + payLength + 8 ≤ memory.length) :
    ∃ memory', unmaskImpreciseCopyMask headerSize src payLength memory = .ok memory' ∧
      memory'.length = memory.length ∧
      (memory'.drop (src - headerSize)).take payLength =
        keyed (· ^^^ ·) ((memory.drop (src - 4)).take 4) ((memory.drop src).take payLength) ∧
      ∀ j, src + payLength ≤ j → memory'.drop j = memory.drop j := by
  have hmask : ((memory.drop (src - 4)).take 4).length = 4 := length_slice (by omega)
  have hplace : (src - 4 : Int) = (src - 4 : Nat) := by omega
  rw [unmaskImpreciseCopyMask, hplace, loadBytes_of_within (by omega), ok_bind]
  by_cases hsix : headerSize = 6
  · rw [if_neg (not_not.mpr hsix)]
    obtain ⟨memory', hrun, hlen, hdata, hrest⟩ := unmaskImprecise4_spec hmask memory payLength hsrc (by omega)
      (Nat.le_refl payLength)
    exact ⟨memory', hrun, hlen, hdata, fun j hj => hrest j (by omega)⟩
  · rw [if_pos hsix]
    obtain ⟨memory', hrun, hlen, hdata, hrest⟩ := unmaskImprecise8_spec hmask memory payLength hsrc hroom
      (Nat.le_refl payLength)
    exact ⟨memory', hrun, hlen, hdata, fun j hj => hrest j (by omega)⟩

end TibiaLogin.Unmasking
