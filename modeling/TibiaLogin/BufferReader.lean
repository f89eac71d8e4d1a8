import TibiaLogin.ByteOrder
import TibiaLogin.Latin1

namespace TibiaLogin

open MachineInt Memory ByteOrder Utf8 Latin1

/-- The two builds of `CLIENT_ENCODING_UTF8`. -/
inductive ClientEncoding
  | latin1
  | utf8
  deriving DecidableEq, Repr

/-- The buffer is the readable object itself, so its size is the size field. -/
structure BufferReader where
  buffer : List UInt8
  position : Int
  deriving DecidableEq, Repr

namespace BufferReader

def size (r : BufferReader) : Int := r.buffer.length

def canRead (r : BufferReader) (bytes : Int) : Bool := wrap32 (r.position + bytes) ≤ r.size

def overflowed (r : BufferReader) : Bool := r.size < r.position

def advance (r : BufferReader) (bytes : Int) : BufferReader :=
  { r with position := wrap32 (r.position + bytes) }

def readScalar {α : Type} [OfNat α 0] (width : Nat) (decode : List UInt8 → α) (r : BufferReader) :
    Except Fault (α × BufferReader) := do
  let result ← if r.canRead width then decode <$> loadBytes r.buffer r.position width else pure 0
  pure (result, r.advance width)

def readU8 : BufferReader → Except Fault (UInt8 × BufferReader) := readScalar 1 (·.headD 0)

def readFlag (r : BufferReader) : Except Fault (Bool × BufferReader) := do
  let (value, r) ← r.readU8
  pure (value != 0, r)

def readU16 : BufferReader → Except Fault (UInt16 × BufferReader) := readScalar 2 readU16Le

def readU16Be : BufferReader → Except Fault (UInt16 × BufferReader) := readScalar 2 ByteOrder.readU16Be

def readU32 : BufferReader → Except Fault (UInt32 × BufferReader) := readScalar 4 readU32Le

def readU32Be : BufferReader → Except Fault (UInt32 × BufferReader) := readScalar 4 ByteOrder.readU32Be

/-- The length that announces a string; the extended one is cast to a signed value. -/
def readLength (r : BufferReader) : Except Fault (Int × BufferReader) := do
  let (length, r) ← r.readU16
  if length = 0xFFFF then
    let (length, r) ← r.readU32
    pure (wrap32 length.toNat, r)
  else pure (length.toNat, r)

/-- A null destination is one of capacity zero: neither is ever written. -/
def copyString (enc : ClientEncoding) (dest : List UInt8) (length : Int) (r : BufferReader) :
    Except Fault (List UInt8) :=
  let destCapacity : Int := dest.length
  if dest.length = 0 then .ok dest
  else match enc with
    | .utf8 => do
        let (dest, written) ←
          if r.canRead length ∧ length < destCapacity then do
            let bytes ← loadBytes r.buffer r.position (toSize length)
            let dest ← storeBytes dest 0 bytes
            pure (dest, length)
          else pure (dest, 0)
        fillBytes dest written 0 (toSize (wrap32 (destCapacity - written)))
    | .latin1 => do
        let (dest, written) ←
          if r.canRead length then do
            let (dest, written) ← latin1ToUtf8 dest destCapacity r.buffer r.position length
            pure (dest, if destCapacity ≤ written then 0 else written)
          else pure (dest, 0)
        fillBytes dest written 0 (toSize (wrap32 (destCapacity - written)))

def readString (enc : ClientEncoding) (dest : List UInt8) (r : BufferReader) :
    Except Fault (List UInt8 × BufferReader) := do
  let (length, r) ← r.readLength
  let dest ← r.copyString enc dest length
  pure (dest, r.advance length)

def readBytes (dest : List UInt8) (count : Int) (r : BufferReader) :
    Except Fault (List UInt8 × BufferReader) := do
  let dest ←
    if r.canRead count then do
      let bytes ← loadBytes r.buffer r.position (toSize count)
      storeBytes dest 0 bytes
    else pure dest
  pure (dest, r.advance count)

def u16At (buf : List UInt8) (p : Nat) : Nat :=
  if p + 2 ≤ buf.length then (readU16Le (buf.drop p)).toNat else 0

def u32At (buf : List UInt8) (p : Nat) : Nat :=
  if p + 4 ≤ buf.length then (readU32Le (buf.drop p)).toNat else 0

/-- The size of the length field at an offset, and the unsigned length it announces. -/
def headerSize (buf : List UInt8) (p : Nat) : Nat := if u16At buf p = 0xFFFF then 6 else 2

def announced (buf : List UInt8) (p : Nat) : Nat :=
  if u16At buf p = 0xFFFF then u32At buf (p + 2) else u16At buf p

def stringAt (buf : List UInt8) (p : Nat) : Option (List UInt8) :=
  if p + headerSize buf p + announced buf p ≤ buf.length then
    some ((buf.drop (p + headerSize buf p)).take (announced buf p))
  else none

def converted : ClientEncoding → List UInt8 → List UInt8
  | .latin1, text => encodeLatin1 text
  | .utf8, text => text

def field (enc : ClientEncoding) (capacity : Nat) (text : Option (List UInt8)) : List UInt8 :=
  let content := converted enc (text.getD [])
  if content.length < capacity then content ++ List.replicate (capacity - content.length) 0
  else List.replicate capacity 0

theorem canRead_of_lt {buf : List UInt8} {p n : Nat} (h : p + n < 2147483648) :
    canRead ⟨buf, p⟩ n = decide (p + n ≤ buf.length) := by
  simp only [canRead, size, ← Int.natCast_add, wrap32_natCast h, Int.ofNat_le]

theorem advance_of_lt {buf : List UInt8} {p n : Nat} (h : p + n < 2147483648) :
    advance ⟨buf, p⟩ n = ⟨buf, (p + n : Nat)⟩ := by
  simp only [advance, ← Int.natCast_add, wrap32_natCast h]

theorem readScalar_eq {α : Type} [OfNat α 0] (decode : List UInt8 → α) (buf : List UInt8) {p w : Nat}
    (h : p + w < 2147483648) :
    readScalar w decode ⟨buf, p⟩ =
      .ok (if p + w ≤ buf.length then decode ((buf.drop p).take w) else 0, ⟨buf, (p + w : Nat)⟩) := by
  rw [readScalar, canRead_of_lt h, advance_of_lt h]
  by_cases hr : p + w ≤ buf.length
  · rw [if_pos (by simpa using hr), if_pos hr, loadBytes_of_within hr]
    rfl
  · rw [if_neg (by simpa using hr), if_neg hr]
    rfl

theorem readScalar_inside {α : Type} [OfNat α 0] (decode : List UInt8 → α) {buf : List UInt8} {p w : Nat}
    (h : p + w ≤ buf.length) (hb : buf.length < 2147483648) :
    readScalar w decode ⟨buf, p⟩ = .ok (decode ((buf.drop p).take w), ⟨buf, (p + w : Nat)⟩) := by
  rw [readScalar_eq decode buf (by omega), if_pos h]

theorem take_two_le (buf : List UInt8) (p : Nat) (h : p + 2 ≤ buf.length) :
    readU16Le ((buf.drop p).take 2) = readU16Le (buf.drop p) := by
  have hl : 2 ≤ (buf.drop p).length := by rw [List.length_drop]; omega
  match buf.drop p, hl with
  | b₀ :: b₁ :: rest, _ => rfl

theorem take_four_le (buf : List UInt8) (p : Nat) (h : p + 4 ≤ buf.length) :
    readU32Le ((buf.drop p).take 4) = readU32Le (buf.drop p) := by
  have hl : 4 ≤ (buf.drop p).length := by rw [List.length_drop]; omega
  match buf.drop p, hl with
  | b₀ :: b₁ :: b₂ :: b₃ :: rest, _ => rfl

theorem readU16_eq (buf : List UInt8) {p : Nat} (h : p + 2 < 2147483648) :
    ∃ v, readU16 ⟨buf, p⟩ = .ok (v, ⟨buf, (p + 2 : Nat)⟩) ∧ v.toNat = u16At buf p := by
  refine ⟨_, readScalar_eq readU16Le buf h, ?_⟩
  rw [u16At]
  split_ifs with hr
  · rw [take_two_le buf p hr]
  · rfl

theorem readU32_eq (buf : List UInt8) {p : Nat} (h : p + 4 < 2147483648) :
    ∃ v, readU32 ⟨buf, p⟩ = .ok (v, ⟨buf, (p + 4 : Nat)⟩) ∧ v.toNat = u32At buf p := by
  refine ⟨_, readScalar_eq readU32Le buf h, ?_⟩
  rw [u32At]
  split_ifs with hr
  · rw [take_four_le buf p hr]
  · rfl

theorem toNat_eq_ffff {v : UInt16} : v.toNat = 0xFFFF ↔ v = 0xFFFF := by
  rw [← UInt16.toNat_inj]
  rfl

theorem readLength_eq (buf : List UInt8) {p : Nat} (h : p + headerSize buf p < 2147483648) :
    readLength ⟨buf, p⟩ = .ok (wrap32 (announced buf p), ⟨buf, (p + headerSize buf p : Nat)⟩) := by
  have h₂ : p + 2 < 2147483648 := by
    rw [headerSize] at h
    split_ifs at h <;> omega
  obtain ⟨v, hv, hn⟩ := readU16_eq buf h₂
  simp only [readLength, hv, ok_bind]
  by_cases hx : v = 0xFFFF
  · have hu : u16At buf p = 0xFFFF := by rw [← hn, hx]; rfl
    rw [headerSize, if_pos hu] at h
    obtain ⟨w, hw, hm⟩ := readU32_eq buf (p := p + 2) (by omega)
    rw [if_pos hx, hw, ok_bind, headerSize, announced, if_pos hu, if_pos hu, hm]
    rfl
  · have hu : u16At buf p ≠ 0xFFFF := by
      rw [← hn]
      exact fun he => hx (toNat_eq_ffff.mp he)
    have hlt := v.toNat_lt
    rw [if_neg hx, headerSize, announced, if_neg hu, if_neg hu, ← hn, wrap32_natCast (by omega)]
    rfl

theorem fill_content (dest content : List UInt8) (hd : dest.length < 2147483648)
    (hc : content.length ≤ dest.length) :
    fillBytes (overwrite dest 0 content) content.length 0
        (toSize (wrap32 ((dest.length : Int) - (content.length : Int)))) =
      .ok (content ++ List.replicate (dest.length - content.length) 0) := by
  have hl : (overwrite dest 0 content).length = dest.length := length_overwrite (by omega)
  have ho : overwrite (overwrite dest 0 content) (0 + content.length)
        (List.replicate (dest.length - content.length) 0) =
      overwrite dest 0 (content ++ List.replicate (dest.length - content.length) 0) :=
    overwrite_overwrite (by simp only [List.length_replicate]; omega)
  rw [← Int.ofNat_sub hc, wrap32_natCast (by omega), toSize_natCast (by omega),
    fillBytes_of_within (by omega)]
  rw [Nat.zero_add] at ho
  rw [ho, overwrite_all (by simp only [List.length_append, List.length_replicate]; omega)]

theorem fill_empty (dest : List UInt8) (hd : dest.length < 2147483648) :
    fillBytes dest 0 0 (toSize (wrap32 ((dest.length : Int) - 0))) = .ok (List.replicate dest.length 0) := by
  have h := fill_content dest [] hd (by simp)
  simpa [overwrite_nil] using h

theorem field_none (enc : ClientEncoding) (capacity : Nat) :
    field enc capacity none = List.replicate capacity 0 := by
  have hn : converted enc [] = [] := by cases enc <;> rfl
  simp [field, hn]

theorem field_of_lt (enc : ClientEncoding) {capacity : Nat} {text : List UInt8}
    (h : (converted enc text).length < capacity) :
    field enc capacity (some text) =
      converted enc text ++ List.replicate (capacity - (converted enc text).length) 0 :=
  if_pos h

theorem field_of_ge (enc : ClientEncoding) {capacity : Nat} {text : List UInt8}
    (h : ¬(converted enc text).length < capacity) :
    field enc capacity (some text) = List.replicate capacity 0 :=
  if_neg h

theorem copyString_eq (enc : ClientEncoding) (dest buf : List UInt8) {p n : Nat}
    (hd : dest.length < 2147483648) (h : p + n < 2147483648)
    (hw : enc = .latin1 → 0 < dest.length → p + n ≤ buf.length →
      (encodeLatin1 ((buf.drop p).take n)).length < 2147483648) :
    copyString enc dest n ⟨buf, p⟩ =
      .ok (field enc dest.length (if p + n ≤ buf.length then some ((buf.drop p).take n) else none)) := by
  simp only [copyString]
  by_cases hz : dest.length = 0
  · rw [if_pos hz, List.length_eq_zero_iff.mp hz]
    rw [field]
    rfl
  rw [if_neg hz]
  by_cases hr : p + n ≤ buf.length
  · have hlen : ((buf.drop p).take n).length = n := by
      simp only [List.length_take, List.length_drop]
      omega
    rw [if_pos hr]
    cases enc with
    | utf8 =>
        simp only [canRead_of_lt h, hr, decide_true, true_and]
        by_cases hn : n < dest.length
        · have hc : (converted .utf8 ((buf.drop p).take n)).length < dest.length := by
            rw [converted, hlen]
            exact hn
          have hf := fill_content dest ((buf.drop p).take n) hd (by omega)
          have hs : storeBytes dest (0 : Nat) ((buf.drop p).take n) = _ := storeBytes_of_within (by omega)
          rw [hlen] at hf
          simp only [Int.natCast_zero] at hs
          rw [if_pos (by omega), toSize_natCast (by omega), loadBytes_of_within hr, ok_bind, hs, ok_bind,
            pure_bind, field_of_lt .utf8 hc, converted, hlen]
          exact hf
        · have hc : ¬(converted .utf8 ((buf.drop p).take n)).length < dest.length := by
            rw [converted, hlen]
            exact hn
          rw [if_neg (by omega), field_of_ge .utf8 hc, pure_bind]
          exact fill_empty dest hd
    | latin1 =>
        obtain ⟨d, hl, hdl, ho⟩ := latin1ToUtf8_ok buf p n dest hd hr (hw rfl (by omega) hr)
        simp only [canRead_of_lt h, hr, decide_true, if_true, hl, ok_bind]
        by_cases hn : (encodeLatin1 ((buf.drop p).take n)).length < dest.length
        · rw [if_neg (by omega), field_of_lt .latin1 hn, pure_bind, ho (by omega)]
          exact fill_content dest _ hd (by omega)
        · have hf := fill_empty d (by omega)
          rw [hdl] at hf
          rw [if_pos (by omega), field_of_ge .latin1 hn, pure_bind]
          exact hf
  · rw [if_neg hr, field_none]
    cases enc with
    | utf8 =>
        simp only [canRead_of_lt h, hr, decide_false, Bool.false_eq_true, false_and, if_false, pure_bind]
        exact fill_empty dest hd
    | latin1 =>
        simp only [canRead_of_lt h, hr, decide_false, Bool.false_eq_true, if_false, pure_bind]
        exact fill_empty dest hd

theorem readString_eq (enc : ClientEncoding) (dest buf : List UInt8) {p : Nat}
    (hd : dest.length < 2147483648) (h : p + headerSize buf p + announced buf p < 2147483648)
    (hw : enc = .latin1 → 0 < dest.length →
      ∀ text, stringAt buf p = some text → (encodeLatin1 text).length < 2147483648) :
    readString enc dest ⟨buf, p⟩ =
      .ok (field enc dest.length (stringAt buf p), ⟨buf, (p + headerSize buf p + announced buf p : Nat)⟩) := by
  have hcopy := copyString_eq enc dest buf (p := p + headerSize buf p) (n := announced buf p) hd h
    (fun he hz hr => hw he hz _ (by rw [stringAt, if_pos hr]))
  have hlength : announced buf p < 2147483648 := by omega
  rw [readString, readLength_eq buf (by omega), ok_bind]
  simp only [wrap32_natCast hlength, hcopy, ok_bind, advance_of_lt h]
  rfl

theorem length_of_copyString {enc : ClientEncoding} {dest dest' : List UInt8} {length : Int} {r : BufferReader}
    (h : copyString enc dest length r = .ok dest') : dest'.length = dest.length := by
  simp only [copyString] at h
  by_cases hz : dest.length = 0
  · rw [if_pos hz] at h
    cases h
    rfl
  · rw [if_neg hz] at h
    cases enc with
    | utf8 =>
        simp only [pure_bind] at h
        split_ifs at h
        · obtain ⟨bytes, -, h⟩ := bind_eq_ok.mp h
          obtain ⟨d, hd, h⟩ := bind_eq_ok.mp h
          exact (length_of_fillBytes h).trans (length_of_storeBytes hd)
        · exact length_of_fillBytes h
    | latin1 =>
        simp only [pure_bind] at h
        by_cases hc : r.canRead length = true
        · rw [if_pos hc] at h
          obtain ⟨⟨d, w⟩, hd, h⟩ := bind_eq_ok.mp h
          exact (length_of_fillBytes h).trans (length_of_latin1ToUtf8Loop hd)
        · rw [if_neg hc] at h
          exact length_of_fillBytes h

theorem length_of_readString {enc : ClientEncoding} {dest dest' : List UInt8} {r r' : BufferReader}
    (h : readString enc dest r = .ok (dest', r')) : dest'.length = dest.length := by
  obtain ⟨⟨length, r₁⟩, -, h⟩ := bind_eq_ok.mp h
  obtain ⟨d, hd, h⟩ := bind_eq_ok.mp h
  cases h
  exact length_of_copyString hd

theorem readBytes_eq (dest buf : List UInt8) {p n : Nat} (hd : n ≤ dest.length) (h : p + n < 2147483648) :
    readBytes dest n ⟨buf, p⟩ =
      .ok (if p + n ≤ buf.length then overwrite dest 0 ((buf.drop p).take n) else dest, ⟨buf, (p + n : Nat)⟩) := by
  rw [readBytes, canRead_of_lt h, advance_of_lt h]
  by_cases hr : p + n ≤ buf.length
  · have hlen : ((buf.drop p).take n).length = n := by
      simp only [List.length_take, List.length_drop]
      omega
    have hs : storeBytes dest (0 : Nat) ((buf.drop p).take n) = _ := storeBytes_of_within (by omega)
    simp only [Int.natCast_zero] at hs
    rw [if_pos (by simpa using hr), if_pos hr, toSize_natCast (by omega), loadBytes_of_within hr, ok_bind, hs]
    rfl
  · rw [if_neg (by simpa using hr), if_neg hr]
    rfl

end BufferReader

end TibiaLogin
