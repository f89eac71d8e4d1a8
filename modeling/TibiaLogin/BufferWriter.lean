import TibiaLogin.BufferReader
import Mathlib.Data.List.TakeWhile

namespace TibiaLogin

open MachineInt Memory ByteOrder Utf8 Latin1

def cString (str : List UInt8) : List UInt8 := str.takeWhile (· != 0)

theorem length_cString_le (str : List UInt8) : (cString str).length ≤ str.length :=
  (List.takeWhile_sublist _).length_le

theorem cString_cons_zero (str : List UInt8) : cString (0 :: str) = [] := rfl

theorem cString_cons_of_ne {ch : UInt8} (h : ch ≠ 0) (str : List UInt8) : cString (ch :: str) = ch :: cString str :=
  List.takeWhile_cons_of_pos (bne_iff_ne.mpr h)

theorem cString_eq_nil {str : List UInt8} : cString str = [] ↔ str.headD 0 = 0 := by
  cases str with
  | nil => simp [cString]
  | cons ch str =>
      by_cases hz : ch = 0
      · simp [cString, hz]
      · rw [cString_cons_of_ne hz]
        simp [hz]

theorem zero_not_mem_cString (str : List UInt8) : 0 ∉ cString str := by
  intro h
  exact absurd (List.mem_takeWhile_imp h) (by decide)

theorem cString_of_nonzero {str : List UInt8} (h : 0 ∉ str) : cString str = str := by
  refine List.takeWhile_eq_self_iff.mpr fun ch hch => ?_
  rw [bne_iff_ne]
  rintro rfl
  exact h hch

theorem cString_terminated {str : List UInt8} (h : 0 ∉ str) (rest : List UInt8) : cString (str ++ 0 :: rest) = str := by
  have hall : ∀ ch ∈ str, (ch != 0) = true := List.takeWhile_eq_self_iff.mp (cString_of_nonzero h)
  rw [cString, List.takeWhile_append_of_pos hall, List.takeWhile_cons_of_neg (by decide), List.append_nil]

theorem cString_overwrite (dest : List UInt8) {str : List UInt8} (hz : 0 ∉ str) :
    cString (overwrite dest 0 (str ++ [0])) = str := by
  rw [overwrite, List.take_zero, List.nil_append, List.append_assoc]
  exact cString_terminated hz _

/-- The buffer is the writable object itself; the null writer has an empty one. -/
structure BufferWriter where
  buffer : List UInt8
  position : Int
  deriving DecidableEq, Repr

namespace BufferWriter

def size (w : BufferWriter) : Int := w.buffer.length

def canWrite (w : BufferWriter) (bytes : Int) : Bool := wrap32 (w.position + bytes) ≤ w.size

def overflowed (w : BufferWriter) : Bool := w.size < w.position

def writeScalar (bytes : List UInt8) (w : BufferWriter) : Except Fault BufferWriter := do
  let buffer ← if w.canWrite bytes.length then storeBytes w.buffer w.position bytes else pure w.buffer
  pure ⟨buffer, wrap32 (w.position + bytes.length)⟩

def writeU8 (value : UInt8) : BufferWriter → Except Fault BufferWriter := writeScalar [value]

def writeFlag (value : Bool) : BufferWriter → Except Fault BufferWriter := writeU8 (if value then 1 else 0)

def writeU16 (value : UInt16) : BufferWriter → Except Fault BufferWriter := writeScalar (writeU16Le value)

def writeU16Be (value : UInt16) : BufferWriter → Except Fault BufferWriter :=
  writeScalar (ByteOrder.writeU16Be value)

def writeU32 (value : UInt32) : BufferWriter → Except Fault BufferWriter := writeScalar (writeU32Le value)

def writeU32Be (value : UInt32) : BufferWriter → Except Fault BufferWriter :=
  writeScalar (ByteOrder.writeU32Be value)

def writeLength (length : Int) (w : BufferWriter) : Except Fault BufferWriter :=
  if length < 0xFFFF then w.writeU16 (toU16 length)
  else do
    let w ← w.writeU16 0xFFFF
    w.writeU32 (toU32 length)

def writeText (length : Int) (store : BufferWriter → Except Fault (List UInt8)) (w : BufferWriter) :
    Except Fault BufferWriter := do
  let w ← w.writeLength length
  let buffer ← if 0 < length ∧ w.canWrite length then store w else pure w.buffer
  pure ⟨buffer, wrap32 (w.position + length)⟩

def writeString (enc : ClientEncoding) (str : List UInt8) (w : BufferWriter) : Except Fault BufferWriter :=
  let stringLength := wrap32 (cString str).length
  match enc with
  | .utf8 => w.writeText stringLength fun w =>
      storeBytes w.buffer w.position ((cString str).take (toSize stringLength))
  | .latin1 => do
      let src := (cString str).take stringLength.toNat
      let (_, outputLength) ← utf8ToLatin1 [] 0 0 src
      w.writeText outputLength fun w =>
        Prod.fst <$> utf8ToLatin1 w.buffer w.position (wrap32 (w.size - w.position)) src

def rewriteU16 (offset : Int) (value : UInt16) (w : BufferWriter) : Except Fault BufferWriter := do
  if wrap32 (offset + 2) ≤ w.position ∧ w.overflowed = false then
    let buffer ← storeBytes w.buffer offset (writeU16Le value)
    pure { w with buffer }
  else pure w

def insertU32 (offset : Int) (value : UInt32) (w : BufferWriter) : Except Fault BufferWriter := do
  if offset ≤ w.position then
    let buffer ←
      if w.canWrite 4 then do
        let moved ← loadBytes w.buffer offset (toSize (wrap32 (w.position - offset)))
        let buffer ← storeBytes w.buffer (offset + 4) moved
        storeBytes buffer offset (writeU32Le value)
      else pure w.buffer
    pure ⟨buffer, wrap32 (w.position + 4)⟩
  else pure w

/-- The writer stands for the byte list appended so far: the position counts
it whole, and the buffer starts with it unless it has overflowed. -/
structure Holds (n : Nat) (w : BufferWriter) (written : List UInt8) : Prop where
  size_eq : w.buffer.length = n
  position_eq : w.position = written.length
  content : written.length ≤ n → w.buffer.take written.length = written

theorem holds_nil (buffer : List UInt8) : Holds buffer.length ⟨buffer, 0⟩ [] := ⟨rfl, rfl, fun _ => rfl⟩

theorem Holds.overflowed_iff {n : Nat} {w : BufferWriter} {written : List UInt8} (h : Holds n w written) :
    w.overflowed = true ↔ n < written.length := by
  simp only [overflowed, size, h.size_eq, h.position_eq, decide_eq_true_eq, Int.ofNat_lt]

theorem Holds.canWrite_eq {n : Nat} {w : BufferWriter} {written : List UInt8} (h : Holds n w written)
    {k : Nat} (hk : written.length + k < 2147483648) :
    w.canWrite k = decide (written.length + k ≤ n) := by
  simp only [canWrite, size, h.size_eq, h.position_eq, ← Int.natCast_add, wrap32_natCast hk, Int.ofNat_le]

theorem Holds.append {n : Nat} {w : BufferWriter} {written : List UInt8} (h : Holds n w written)
    {bytes : List UInt8} {b : List UInt8}
    (hfit : written.length + bytes.length ≤ n → b = overwrite w.buffer written.length bytes)
    (hlen : b.length = n) : Holds n ⟨b, (written.length + bytes.length : Nat)⟩ (written ++ bytes) := by
  refine ⟨hlen, by simp, fun hle => ?_⟩
  rw [List.length_append] at hle
  rw [hfit hle, List.length_append, take_overwrite (by rw [h.size_eq]; exact hle), h.content (by omega)]

theorem writeScalar_holds {n : Nat} {w : BufferWriter} {written : List UInt8} (h : Holds n w written)
    (bytes : List UInt8) (hk : written.length + bytes.length < 2147483648) :
    ∃ w', writeScalar bytes w = .ok w' ∧ Holds n w' (written ++ bytes) := by
  rw [writeScalar, h.canWrite_eq hk, h.position_eq, ← Int.natCast_add, wrap32_natCast hk]
  by_cases hfit : written.length + bytes.length ≤ n
  · have hb : written.length + bytes.length ≤ w.buffer.length := by rw [h.size_eq]; exact hfit
    refine ⟨⟨overwrite w.buffer written.length bytes, (written.length + bytes.length : Nat)⟩, ?_,
      h.append (fun _ => rfl) ((length_overwrite hb).trans h.size_eq)⟩
    rw [if_pos (by simpa using hfit), storeBytes_of_within hb]
    rfl
  · exact ⟨⟨w.buffer, (written.length + bytes.length : Nat)⟩, by rw [if_neg (by simpa using hfit)]; rfl,
      h.append (fun hle => absurd hle hfit) h.size_eq⟩

def lengthField (n : Nat) : List UInt8 :=
  if n < 0xFFFF then writeU16Le (toU16 n) else writeU16Le 0xFFFF ++ writeU32Le (toU32 n)

def stringBytes (text : List UInt8) : List UInt8 := lengthField text.length ++ text

def outgoing : ClientEncoding → List UInt8 → List UInt8
  | .latin1, str => toLatin1 (cString str)
  | .utf8, str => cString str

theorem cString_field (enc : ClientEncoding) {capacity : Nat} {text : List UInt8} (hz : 0 ∉ BufferReader.converted enc text)
    (hlt : (BufferReader.converted enc text).length < capacity) :
    cString (BufferReader.field enc capacity (some text)) = BufferReader.converted enc text := by
  have hne : ∀ b ∈ BufferReader.converted enc text, (b != 0) = true := by
    intro b hb
    rw [bne_iff_ne]
    rintro rfl
    exact hz hb
  rw [BufferReader.field_of_lt enc hlt, cString, List.takeWhile_append_of_pos hne, List.takeWhile_replicate]
  simp

theorem outgoing_field_latin1 {capacity : Nat} {text : List UInt8} (hz : 0 ∉ text)
    (hlt : (encodeLatin1 text).length < capacity) :
    outgoing .latin1 (BufferReader.field .latin1 capacity (some text)) = text := by
  have hc := cString_field .latin1 (zero_mem_encodeLatin1 hz) hlt
  rw [outgoing, hc, BufferReader.converted, toLatin1_encodeLatin1]

theorem length_lengthField_le (n : Nat) : (lengthField n).length ≤ 6 := by
  rw [lengthField]
  split_ifs <;> simp

theorem length_outgoing_le_cString (enc : ClientEncoding) (str : List UInt8) :
    (outgoing enc str).length ≤ (cString str).length := by
  cases enc with
  | utf8 => exact Nat.le_refl _
  | latin1 => exact Latin1.length_toLatin1_le _

theorem length_outgoing_le (enc : ClientEncoding) (str : List UInt8) : (outgoing enc str).length ≤ str.length :=
  (length_outgoing_le_cString enc str).trans (length_cString_le str)

theorem length_stringBytes_le (text : List UInt8) : (stringBytes text).length ≤ text.length + 6 := by
  have h := length_lengthField_le text.length
  rw [stringBytes, List.length_append]
  omega

theorem writeLength_holds {n : Nat} {w : BufferWriter} {written : List UInt8} (h : Holds n w written)
    (length : Nat) (hk : written.length + (lengthField length).length < 2147483648) :
    ∃ w', writeLength length w = .ok w' ∧ Holds n w' (written ++ lengthField length) := by
  rw [lengthField] at hk ⊢
  by_cases hlt : length < 0xFFFF
  · rw [if_pos hlt] at hk ⊢
    rw [writeLength, if_pos (by omega)]
    exact writeScalar_holds h _ hk
  · rw [if_neg hlt] at hk ⊢
    simp only [List.length_append, length_writeU16Le, length_writeU32Le] at hk
    obtain ⟨w₁, hw₁, h₁⟩ := writeScalar_holds h (writeU16Le 0xFFFF) (by simp only [length_writeU16Le]; omega)
    obtain ⟨w₂, hw₂, h₂⟩ := writeScalar_holds h₁ (writeU32Le (toU32 length))
      (by simp only [List.length_append, length_writeU16Le, length_writeU32Le]; omega)
    refine ⟨w₂, ?_, ?_⟩
    · rw [writeLength, if_neg (by omega), writeU16, hw₁]
      exact hw₂
    · rw [← List.append_assoc]
      exact h₂

theorem writeText_holds {n : Nat} {w : BufferWriter} {written : List UInt8} (h : Holds n w written)
    (text : List UInt8) (store : BufferWriter → Except Fault (List UInt8))
    (hk : written.length + (stringBytes text).length < 2147483648)
    (hstore : ∀ (w' : BufferWriter) (before : List UInt8), Holds n w' before → before.length + text.length ≤ n →
      store w' = .ok (overwrite w'.buffer before.length text)) :
    ∃ w', writeText text.length store w = .ok w' ∧ Holds n w' (written ++ stringBytes text) := by
  rw [stringBytes] at hk ⊢
  rw [List.length_append] at hk
  obtain ⟨w₁, hw₁, h₁⟩ := writeLength_holds h text.length (by omega)
  have hk₁ : (written ++ lengthField text.length).length + text.length < 2147483648 := by
    rw [List.length_append]
    omega
  have hposition : wrap32 (w₁.position + (text.length : Int)) =
      (((written ++ lengthField text.length).length + text.length : Nat) : Int) := by
    rw [h₁.position_eq, ← Int.natCast_add, wrap32_natCast hk₁]
  rw [writeText, hw₁, ok_bind, h₁.canWrite_eq hk₁, ← List.append_assoc, hposition]
  by_cases hfit : (written ++ lengthField text.length).length + text.length ≤ n
  · have hb : (written ++ lengthField text.length).length + text.length ≤ w₁.buffer.length := by
      rw [h₁.size_eq]
      exact hfit
    refine ⟨_, ?_, h₁.append (fun _ => rfl) ((length_overwrite hb).trans h₁.size_eq)⟩
    by_cases hz : text.length = 0
    · rw [if_neg (by omega), List.length_eq_zero_iff.mp hz, overwrite_nil, pure_bind]
      rfl
    · rw [if_pos ⟨by omega, by simpa using hfit⟩, hstore w₁ _ h₁ hfit, ok_bind]
      rfl
  · refine ⟨_, ?_, h₁.append (b := w₁.buffer) (fun hle => absurd hle hfit) h₁.size_eq⟩
    rw [if_neg (fun hc => hfit (by simpa using hc.2)), pure_bind]
    rfl

theorem writeString_eq (enc : ClientEncoding) (str : List UInt8) (hs : (cString str).length < 2147483648) :
    ∃ store : BufferWriter → Except Fault (List UInt8),
      (∀ w, writeString enc str w = writeText (outgoing enc str).length store w) ∧
      ∀ (n : Nat) (w : BufferWriter) (before : List UInt8), n < 2147483648 → Holds n w before →
        before.length + (outgoing enc str).length ≤ n →
        store w = .ok (overwrite w.buffer before.length (outgoing enc str)) := by
  cases enc with
  | utf8 =>
      refine ⟨fun w => storeBytes w.buffer w.position (cString str), fun w => ?_, fun n w before hn h hfit => ?_⟩
      · simp only [writeString, wrap32_natCast hs, toSize_natCast hs, List.take_length, outgoing]
      · simp only [h.position_eq, outgoing]
        exact storeBytes_of_within (by rw [h.size_eq]; exact hfit)
  | latin1 =>
      refine ⟨fun w => Prod.fst <$> utf8ToLatin1 w.buffer w.position (wrap32 (w.size - w.position)) (cString str),
        fun w => ?_, fun n w before hn h hfit => ?_⟩
      · have hmeasure := utf8ToLatin1_eq [] 0 0 (cString str) (Nat.le_refl _)
        simp only [Int.natCast_zero] at hmeasure
        simp only [writeString, wrap32_natCast hs, Int.toNat_natCast, List.take_length, outgoing]
        rw [hmeasure, ok_bind]
      · rw [outgoing] at hfit ⊢
        have hconv := utf8ToLatin1_eq w.buffer before.length (n - before.length) (cString str)
          (by rw [h.size_eq]; omega)
        rw [List.take_of_length_le (by omega)] at hconv
        have hroom : wrap32 (w.size - w.position) = (n - before.length : Nat) := by
          rw [size, h.size_eq, h.position_eq, ← Int.ofNat_sub (by omega), wrap32_natCast (by omega)]
        simp only [hroom]
        rw [h.position_eq, hconv]
        rfl

theorem writeString_holds (enc : ClientEncoding) {n : Nat} {w : BufferWriter} {written : List UInt8}
    (h : Holds n w written) (hn : n < 2147483648) (str : List UInt8)
    (hs : (cString str).length < 2147483648)
    (hk : written.length + (stringBytes (outgoing enc str)).length < 2147483648) :
    ∃ w', writeString enc str w = .ok w' ∧ Holds n w' (written ++ stringBytes (outgoing enc str)) := by
  obtain ⟨store, heq, hstore⟩ := writeString_eq enc str hs
  rw [heq]
  exact writeText_holds h (outgoing enc str) store hk fun w' before h' hfit => hstore n w' before hn h' hfit

theorem rewriteU16_holds {n : Nat} {w : BufferWriter} {written : List UInt8} (h : Holds n w written)
    (offset : Nat) (value : UInt16) (hoff : offset + 2 ≤ written.length) (hle : written.length ≤ n)
    (hn : n < 2147483648) :
    ∃ w', rewriteU16 offset value w = .ok w' ∧ Holds n w' (overwrite written offset (writeU16Le value)) := by
  have hb : offset + (writeU16Le value).length ≤ w.buffer.length := by
    rw [h.size_eq, length_writeU16Le]
    omega
  have hlen : (overwrite written offset (writeU16Le value)).length = written.length := length_overwrite hoff
  refine ⟨{ w with buffer := overwrite w.buffer offset (writeU16Le value) }, ?_, ?_, ?_, fun _ => ?_⟩
  · have ho : w.overflowed = false := by
      rw [← Bool.not_eq_true, h.overflowed_iff]
      omega
    have hp : wrap32 ((offset : Int) + 2) ≤ w.position := by
      rw [h.position_eq, wrap32_of_mem (by omega) (by omega)]
      omega
    rw [rewriteU16, if_pos ⟨hp, ho⟩, storeBytes_of_within hb]
    rfl
  · rw [length_overwrite hb, h.size_eq]
  · rw [hlen]
    exact h.position_eq
  · rw [hlen, overwrite_take (by rw [length_writeU16Le]; omega), h.content hle]

theorem rewriteU16_overflowed {w : BufferWriter} (offset : Int) (value : UInt16) (h : w.overflowed = true) :
    rewriteU16 offset value w = .ok w := by
  rw [rewriteU16, if_neg (by simp [h])]
  rfl

theorem insertU32_holds {n : Nat} {w : BufferWriter} {written : List UInt8} (h : Holds n w written)
    (offset : Nat) (value : UInt32) (hoff : offset ≤ written.length) (hk : written.length + 4 < 2147483648) :
    ∃ w', insertU32 offset value w = .ok w' ∧
      Holds n w' (written.take offset ++ writeU32Le value ++ written.drop offset) := by
  have hlen : (written.take offset ++ writeU32Le value ++ written.drop offset).length = written.length + 4 := by
    simp only [List.length_append, List.length_take, List.length_drop, length_writeU32Le]
    omega
  have hpos : wrap32 (w.position + 4) = ((written.length + 4 : Nat) : Int) := by
    rw [h.position_eq, wrap32_of_mem (by omega) (by omega)]
    rfl
  have hcan : w.canWrite 4 = decide (written.length + 4 ≤ n) := h.canWrite_eq (k := 4) hk
  rw [insertU32, if_pos (by rw [h.position_eq]; omega), hpos, hcan]
  by_cases hfit : written.length + 4 ≤ n
  · have hload : loadBytes w.buffer offset (toSize (wrap32 (w.position - offset))) = .ok (written.drop offset) := by
      rw [h.position_eq, ← Int.ofNat_sub hoff, wrap32_natCast (by omega), toSize_natCast (by omega),
        loadBytes_of_within (by rw [h.size_eq]; omega), ← List.drop_take, h.content (by omega)]
    have hd : (written.drop offset).length = written.length - offset := List.length_drop
    have hb : offset + 4 + (written.drop offset).length ≤ w.buffer.length := by
      rw [h.size_eq]
      omega
    have hl : (overwrite w.buffer (offset + 4) (written.drop offset)).length = w.buffer.length := length_overwrite hb
    have hb' : offset + (writeU32Le value).length ≤
        (overwrite w.buffer (offset + 4) (written.drop offset)).length := by
      rw [hl, h.size_eq, length_writeU32Le]
      omega
    refine ⟨⟨overwrite (overwrite w.buffer (offset + 4) (written.drop offset)) offset (writeU32Le value),
      (written.length + 4 : Nat)⟩, ?_, ?_, by rw [hlen], fun _ => ?_⟩
    · have hstore : storeBytes w.buffer ((offset : Int) + 4) (written.drop offset) =
          .ok (overwrite w.buffer (offset + 4) (written.drop offset)) :=
        storeBytes_of_within (i := offset + 4) hb
      rw [if_pos (by simpa using hfit), hload, ok_bind, hstore, ok_bind, storeBytes_of_within hb']
      rfl
    · rw [length_overwrite hb', hl, h.size_eq]
    · have htake : w.buffer.take offset = written.take offset := by
        rw [← h.content (by omega), List.take_take, Nat.min_eq_left hoff]
      have hwin : (overwrite w.buffer (offset + 4) (written.drop offset)).take
            (offset + 4 + (written.drop offset).length) = w.buffer.take (offset + 4) ++ written.drop offset :=
        take_overwrite hb
      have hend : offset + 4 + (written.drop offset).length = written.length + 4 := by omega
      rw [hend] at hwin
      rw [hlen, overwrite_take (by rw [length_writeU32Le]; omega), hwin, overwrite, length_writeU32Le,
        List.take_append_of_le_length (by rw [List.length_take, h.size_eq]; omega), List.take_take,
        Nat.min_eq_left (by omega), htake]
      congr 1
      exact List.drop_left' (by rw [List.length_take, h.size_eq]; omega)
  · refine ⟨⟨w.buffer, (written.length + 4 : Nat)⟩, by rw [if_neg (by simpa using hfit)]; rfl,
      h.size_eq, by rw [hlen], fun hle => ?_⟩
    rw [hlen] at hle
    omega

end BufferWriter

end TibiaLogin
