import TibiaLogin.ByteOrder
import Mathlib.Logic.Function.Iterate

namespace TibiaLogin.Xtea

open ByteOrder

structure Key where
  k₀ : UInt32
  k₁ : UInt32
  k₂ : UInt32
  k₃ : UInt32
  deriving DecidableEq, Repr

def Key.word (key : Key) (i : UInt32) : UInt32 :=
  if i = 0 then key.k₀ else if i = 1 then key.k₁ else if i = 2 then key.k₂ else key.k₃

structure State where
  v₀ : UInt32
  v₁ : UInt32
  sum : UInt32
  deriving DecidableEq, Repr

def delta : UInt32 := 0x9E3779B9

def mix (v sum word : UInt32) : UInt32 := (((v <<< 4) ^^^ (v >>> 5)) + v) ^^^ (sum + word)

def encryptRound (key : Key) (s : State) : State :=
  let v₀ := s.v₀ + mix s.v₁ s.sum (key.word (s.sum &&& 3))
  let sum := s.sum + delta
  let v₁ := s.v₁ + mix v₀ sum (key.word ((sum >>> 11) &&& 3))
  ⟨v₀, v₁, sum⟩

def decryptRound (key : Key) (s : State) : State :=
  let v₁ := s.v₁ - mix s.v₀ s.sum (key.word ((s.sum >>> 11) &&& 3))
  let sum := s.sum - delta
  let v₀ := s.v₀ - mix v₁ sum (key.word (sum &&& 3))
  ⟨v₀, v₁, sum⟩

def encryptBlock (key : Key) (v₀ v₁ : UInt32) : UInt32 × UInt32 :=
  let s := (encryptRound key)^[32] ⟨v₀, v₁, 0⟩
  (s.v₀, s.v₁)

def decryptBlock (key : Key) (v₀ v₁ : UInt32) : UInt32 × UInt32 :=
  let s := (decryptRound key)^[32] ⟨v₀, v₁, 0xC6EF3720⟩
  (s.v₀, s.v₁)

def mapBlocks (f : UInt32 → UInt32 → UInt32 × UInt32) : List UInt8 → List UInt8
  | b₀ :: b₁ :: b₂ :: b₃ :: b₄ :: b₅ :: b₆ :: b₇ :: data =>
      let v := f (readU32Le [b₀, b₁, b₂, b₃]) (readU32Le [b₄, b₅, b₆, b₇])
      writeU32Le v.1 ++ writeU32Le v.2 ++ mapBlocks f data
  | data => data

def xteaEncrypt (key : Key) : List UInt8 → List UInt8 := mapBlocks (encryptBlock key)

def xteaDecrypt (key : Key) : List UInt8 → List UInt8 := mapBlocks (decryptBlock key)

theorem decryptRound_encryptRound (key : Key) : Function.LeftInverse (decryptRound key) (encryptRound key) := by
  intro s
  simp [decryptRound, encryptRound]

theorem encryptRound_sum (key : Key) (n : Nat) (s : State) :
    ((encryptRound key)^[n] s).sum = s.sum + UInt32.ofNat n * delta := by
  induction n generalizing s with
  | zero => simp
  | succ n ih =>
      rw [Function.iterate_succ_apply, ih, UInt32.ofNat_add, UInt32.add_mul]
      simp only [encryptRound]
      rw [UInt32.add_assoc, UInt32.add_comm delta, show UInt32.ofNat 1 = 1 from rfl, UInt32.one_mul]

theorem encryptRound_decryptRound (key : Key) : Function.LeftInverse (encryptRound key) (decryptRound key) := by
  intro s
  simp [decryptRound, encryptRound]

theorem decryptRound_sum (key : Key) (n : Nat) (s : State) :
    ((decryptRound key)^[n] s).sum + UInt32.ofNat n * delta = s.sum := by
  have h := encryptRound_sum key n ((decryptRound key)^[n] s)
  rw [(encryptRound_decryptRound key).iterate n s] at h
  exact h.symm

theorem decryptBlock_encryptBlock (key : Key) (v₀ v₁ : UInt32) :
    decryptBlock key (encryptBlock key v₀ v₁).1 (encryptBlock key v₀ v₁).2 = (v₀, v₁) := by
  have hsum := encryptRound_sum key 32 ⟨v₀, v₁, 0⟩
  have hback := (decryptRound_encryptRound key).iterate 32 ⟨v₀, v₁, 0⟩
  rw [show (0 : UInt32) + UInt32.ofNat 32 * delta = 0xC6EF3720 from rfl] at hsum
  simp only [decryptBlock, encryptBlock, ← hsum, hback]

theorem encryptBlock_decryptBlock (key : Key) (v₀ v₁ : UInt32) :
    encryptBlock key (decryptBlock key v₀ v₁).1 (decryptBlock key v₀ v₁).2 = (v₀, v₁) := by
  have hsum := decryptRound_sum key 32 ⟨v₀, v₁, 0xC6EF3720⟩
  have hback := (encryptRound_decryptRound key).iterate 32 ⟨v₀, v₁, 0xC6EF3720⟩
  rw [show UInt32.ofNat 32 * delta = 0xC6EF3720 from rfl] at hsum
  rw [encryptBlock, decryptBlock]
  generalize (decryptRound key)^[32] ⟨v₀, v₁, 0xC6EF3720⟩ = s at hsum hback
  have hzero : s.sum = 0 := by
    have h := congrArg (fun x => x - 0xC6EF3720) hsum
    simpa using h
  simp only [← hzero, hback]

theorem mapBlocks_words (f : UInt32 → UInt32 → UInt32 × UInt32) (v₀ v₁ : UInt32) (data : List UInt8) :
    mapBlocks f (writeU32Le v₀ ++ writeU32Le v₁ ++ data) =
      writeU32Le (f v₀ v₁).1 ++ writeU32Le (f v₀ v₁).2 ++ mapBlocks f data := by
  have h₀ := readU32Le_writeU32Le v₀ []
  have h₁ := readU32Le_writeU32Le v₁ []
  simp only [writeU32Le, List.append_nil] at h₀ h₁
  conv_lhs => simp only [writeU32Le, List.cons_append, List.nil_append, mapBlocks, h₀, h₁]
  rfl

@[simp] theorem length_mapBlocks (f : UInt32 → UInt32 → UInt32 × UInt32) (data : List UInt8) :
    (mapBlocks f data).length = data.length := by
  fun_induction mapBlocks f data with
  | case1 b₀ b₁ b₂ b₃ b₄ b₅ b₆ b₇ data v ih =>
      simp only [List.length_append, length_writeU32Le, ih, List.length_cons]
      omega
  | case2 data h => rfl

theorem short_of_no_block {data : List UInt8}
    (h : ∀ b₀ b₁ b₂ b₃ b₄ b₅ b₆ b₇ rest, data = b₀ :: b₁ :: b₂ :: b₃ :: b₄ :: b₅ :: b₆ :: b₇ :: rest → False) :
    data.length < 8 := by
  by_contra hlen
  rcases data with _ | ⟨b₀, _ | ⟨b₁, _ | ⟨b₂, _ | ⟨b₃, _ | ⟨b₄, _ | ⟨b₅, _ | ⟨b₆, _ | ⟨b₇, rest⟩⟩⟩⟩⟩⟩⟩⟩
  case cons.cons.cons.cons.cons.cons.cons.cons => exact h b₀ b₁ b₂ b₃ b₄ b₅ b₆ b₇ rest rfl
  all_goals exact hlen (by simp)

theorem mapBlocks_mapBlocks {f g : UInt32 → UInt32 → UInt32 × UInt32}
    (h : ∀ v₀ v₁, g (f v₀ v₁).1 (f v₀ v₁).2 = (v₀, v₁)) (data : List UInt8) :
    mapBlocks g (mapBlocks f data) = data := by
  fun_induction mapBlocks f data with
  | case1 b₀ b₁ b₂ b₃ b₄ b₅ b₆ b₇ data v ih =>
      rw [mapBlocks_words, ih, h, writeU32Le_readU32Le, writeU32Le_readU32Le]
      rfl
  | case2 data hd => rw [mapBlocks.eq_2 g data hd]

theorem xteaDecrypt_xteaEncrypt (key : Key) (data : List UInt8) :
    xteaDecrypt key (xteaEncrypt key data) = data :=
  mapBlocks_mapBlocks (decryptBlock_encryptBlock key) data

theorem xteaEncrypt_xteaDecrypt (key : Key) (data : List UInt8) :
    xteaEncrypt key (xteaDecrypt key data) = data :=
  mapBlocks_mapBlocks (encryptBlock_decryptBlock key) data

theorem mapBlocks_drop (f : UInt32 → UInt32 → UInt32 × UInt32) (i : Nat) (data : List UInt8) :
    (mapBlocks f data).drop (8 * i) = mapBlocks f (data.drop (8 * i)) := by
  induction i generalizing data with
  | zero => rfl
  | succ i ih =>
      have hone : (mapBlocks f data).drop 8 = mapBlocks f (data.drop 8) := by
        fun_cases mapBlocks f data with
        | case1 b₀ b₁ b₂ b₃ b₄ b₅ b₆ b₇ data v => rfl
        | case2 data hd =>
            have hshort := short_of_no_block hd
            rw [List.drop_eq_nil_of_le (by omega)]
            rfl
      rw [Nat.mul_succ, Nat.add_comm, ← List.drop_drop, hone, ih, List.drop_drop]

theorem mapBlocks_take (f : UInt32 → UInt32 → UInt32 × UInt32) (data : List UInt8) :
    (mapBlocks f data).take 8 = mapBlocks f (data.take 8) := by
  fun_cases mapBlocks f data with
  | case1 b₀ b₁ b₂ b₃ b₄ b₅ b₆ b₇ data v => rfl
  | case2 data hd =>
      have hshort := short_of_no_block hd
      rw [List.take_of_length_le (by omega), mapBlocks.eq_2 f data hd]

theorem mapBlocks_short {f : UInt32 → UInt32 → UInt32 × UInt32} {data : List UInt8} (h : data.length < 8) :
    mapBlocks f data = data := by
  fun_cases mapBlocks f data with
  | case1 b₀ b₁ b₂ b₃ b₄ b₅ b₆ b₇ data v =>
      simp only [List.length_cons] at h
      omega
  | case2 data hd => rfl

theorem mapBlocks_rest (f : UInt32 → UInt32 → UInt32 × UInt32) (data : List UInt8) :
    (mapBlocks f data).drop (8 * (data.length / 8)) = data.drop (8 * (data.length / 8)) := by
  have hshort : (data.drop (8 * (data.length / 8))).length < 8 := by
    rw [List.length_drop]
    omega
  rw [mapBlocks_drop, mapBlocks_short hshort]

def block (i : Nat) (data : List UInt8) : List UInt8 := (data.drop (8 * i)).take 8

theorem block_mapBlocks (f : UInt32 → UInt32 → UInt32 × UInt32) (i : Nat) (data : List UInt8) :
    block i (mapBlocks f data) = mapBlocks f (block i data) := by
  rw [block, mapBlocks_drop, mapBlocks_take]
  rfl

/-- The two ciphers undo each other in both orders on arrays of every length,
work on each block by itself and leave the bytes after the last whole block alone. -/
theorem xtea_blockwise_bijection (key : Key) (d : List UInt8) :
    (xteaDecrypt key (xteaEncrypt key d) = d ∧ xteaEncrypt key (xteaDecrypt key d) = d) ∧
      ((xteaEncrypt key d).length = d.length ∧ (xteaDecrypt key d).length = d.length) ∧
      ((xteaEncrypt key d).drop (d.length - d.length % 8) = d.drop (d.length - d.length % 8) ∧
        (xteaDecrypt key d).drop (d.length - d.length % 8) = d.drop (d.length - d.length % 8)) ∧
      ∀ i, block i (xteaEncrypt key d) = xteaEncrypt key (block i d) ∧
        block i (xteaDecrypt key d) = xteaDecrypt key (block i d) := by
  have hrest : d.length - d.length % 8 = 8 * (d.length / 8) := by omega
  rw [hrest]
  refine ⟨⟨xteaDecrypt_xteaEncrypt key d, xteaEncrypt_xteaDecrypt key d⟩,
    ⟨length_mapBlocks _ d, length_mapBlocks _ d⟩, ⟨mapBlocks_rest _ d, mapBlocks_rest _ d⟩, ?_⟩
  intro i
  exact ⟨block_mapBlocks _ i d, block_mapBlocks _ i d⟩

end TibiaLogin.Xtea
