import Mathlib.Data.List.TakeWhile
import TibiaLogin.BufferWriter
import TibiaLogin.Wire

namespace TibiaLogin.WireValues

open MachineInt Memory ByteOrder Latin1 BufferReader BufferWriter Wire

/-- A value of the wire format, a string by its text in memory. -/
inductive Value
  | flag (value : Bool)
  | u8 (value : UInt8)
  | u16 (value : UInt16)
  | u16Be (value : UInt16)
  | u32 (value : UInt32)
  | u32Be (value : UInt32)
  | string (text : List UInt8)
  deriving DecidableEq, Repr

/-- What is asked of a reader, a string with the array it goes to. -/
inductive Kind
  | flag
  | u8
  | u16
  | u16Be
  | u32
  | u32Be
  | string (dest : List UInt8)
  deriving DecidableEq, Repr

section

variable (enc : ClientEncoding)

def write : Value → BufferWriter → Except Fault BufferWriter
  | .flag value => writeFlag value
  | .u8 value => writeU8 value
  | .u16 value => writeU16 value
  | .u16Be value => BufferWriter.writeU16Be value
  | .u32 value => writeU32 value
  | .u32Be value => BufferWriter.writeU32Be value
  | .string text => writeString enc text

def writeAll : List Value → BufferWriter → Except Fault BufferWriter
  | [], w => pure w
  | value :: values, w => do
      let w ← write enc value w
      writeAll values w

def read : Kind → BufferReader → Except Fault (Value × BufferReader)
  | .flag, r => do
      let (value, r) ← r.readFlag
      pure (.flag value, r)
  | .u8, r => do
      let (value, r) ← r.readU8
      pure (.u8 value, r)
  | .u16, r => do
      let (value, r) ← r.readU16
      pure (.u16 value, r)
  | .u16Be, r => do
      let (value, r) ← r.readU16Be
      pure (.u16Be value, r)
  | .u32, r => do
      let (value, r) ← r.readU32
      pure (.u32 value, r)
  | .u32Be, r => do
      let (value, r) ← r.readU32Be
      pure (.u32Be value, r)
  | .string dest, r => do
      let (dest, r) ← r.readString enc dest
      pure (.string (cString dest), r)

def readAll : List Kind → BufferReader → Except Fault (List Value × BufferReader)
  | [], r => pure ([], r)
  | kind :: kinds, r => do
      let (value, r) ← read enc kind r
      let (values, r) ← readAll kinds r
      pure (value :: values, r)

/-- A string whose length is an int. -/
def Value.Measured : Value → Prop
  | .string text => (cString text).length < 2147483648
  | _ => True

/-- A value and the read that is to give it back. In the default build a string
is the UTF-8 form of Latin-1 text. -/
inductive Matches : Value → Kind → Prop
  | flag (value : Bool) : Matches (.flag value) .flag
  | u8 (value : UInt8) : Matches (.u8 value) .u8
  | u16 (value : UInt16) : Matches (.u16 value) .u16
  | u16Be (value : UInt16) : Matches (.u16Be value) .u16Be
  | u32 (value : UInt32) : Matches (.u32 value) .u32
  | u32Be (value : UInt32) : Matches (.u32Be value) .u32Be
  | string (text dest : List UInt8) (hz : 0 ∉ text) (henc : enc = .latin1 → ∃ src, text = encodeLatin1 src)
      (hlt : text.length < dest.length) (hd : dest.length < 2147483648) : Matches (.string text) (.string dest)

def wireBytes : Value → List UInt8
  | .flag value => [if value then 1 else 0]
  | .u8 value => [value]
  | .u16 value => writeU16Le value
  | .u16Be value => ByteOrder.writeU16Be value
  | .u32 value => writeU32Le value
  | .u32Be value => ByteOrder.writeU32Be value
  | .string text => stringBytes (outgoing enc text)

end

/-- Neither the buffer nor the int that counts its bytes was overflowed. -/
def NoOverflow (w : BufferWriter) : Prop := 0 ≤ w.position ∧ w.overflowed = false

/-- A position outside the buffer, from which no later write leads back. -/
def Lost (w : BufferWriter) : Prop := (w.position < 0 ∨ w.size < w.position) ∧ w.position < 2147483648

/-- The writer holds everything written, or it is lost. -/
def Kept (n : Nat) (w : BufferWriter) (written : List UInt8) : Prop := (Holds n w written ∧ written.length ≤ n) ∨ Lost w

theorem wrap32_lt (x : Int) : wrap32 x < 2147483648 := by
  rw [wrap32]
  omega

theorem writeScalar_kept {n : Nat} (hn : n < 2147483648) {w w' : BufferWriter} {written bytes : List UInt8}
    (h : Kept n w written) (hpos : 0 < bytes.length) (hw : writeScalar bytes w = .ok w') :
    Kept n w' (written ++ bytes) ∧ 0 ≤ w'.position := by
  by_cases hc : w.canWrite bytes.length = true
  · have hwithin : Within w.buffer.length w.position bytes.length := by
      by_contra hout
      rw [writeScalar, if_pos hc, storeBytes, if_neg hout] at hw
      cases hw
    have hin : 0 ≤ w.position ∧ w.position + bytes.length ≤ w.buffer.length := by
      rcases hwithin with hz | hin
      · omega
      · exact hin
    rcases h with ⟨hh, hle⟩ | ⟨hlost, -⟩
    · have hfit : written.length + bytes.length ≤ n := by
        rw [hh.size_eq, hh.position_eq] at hin
        omega
      obtain ⟨w₁, hw₁, h₁⟩ := writeScalar_holds hh bytes (by omega)
      rw [hw] at hw₁
      cases hw₁
      exact ⟨Or.inl ⟨h₁, by rw [List.length_append]; exact hfit⟩, by rw [h₁.position_eq]; omega⟩
    · simp only [BufferWriter.size] at hlost
      omega
  · have hbehind : w.size < wrap32 (w.position + bytes.length) := by
      rw [canWrite, decide_eq_true_eq] at hc
      omega
    rw [writeScalar, if_neg hc] at hw
    cases hw
    have hsize : 0 ≤ w.size := by
      rw [BufferWriter.size]
      omega
    exact ⟨Or.inr ⟨Or.inr hbehind, wrap32_lt _⟩, by simp only; omega⟩

theorem writeLength_kept {n : Nat} (hn : n < 2147483648) {w w' : BufferWriter} {written : List UInt8} {length : Nat}
    (h : Kept n w written) (hw : writeLength length w = .ok w') :
    Kept n w' (written ++ lengthField length) ∧ 0 ≤ w'.position := by
  rw [lengthField]
  by_cases hlt : length < 0xFFFF
  · rw [writeLength, if_pos (by omega)] at hw
    rw [if_pos hlt]
    exact writeScalar_kept hn h (by simp) hw
  · rw [writeLength, if_neg (by omega)] at hw
    obtain ⟨w₁, hw₁, hw⟩ := bind_eq_ok.mp hw
    rw [if_neg hlt, ← List.append_assoc]
    exact writeScalar_kept hn (writeScalar_kept hn h (by simp) hw₁).1 (by simp) hw

theorem writeText_eq_ok {length : Int} {store : BufferWriter → Except Fault (List UInt8)} {w w' : BufferWriter}
    (h : writeText length store w = .ok w') :
    ∃ w₁ buffer, writeLength length w = .ok w₁ ∧
      (if 0 < length ∧ w₁.canWrite length then store w₁ else pure w₁.buffer) = .ok buffer ∧
      w' = ⟨buffer, wrap32 (w₁.position + length)⟩ := by
  obtain ⟨w₁, hw₁, h⟩ := bind_eq_ok.mp h
  refine ⟨w₁, ?_⟩
  by_cases hc : 0 < length ∧ w₁.canWrite length = true
  · simp only [if_pos hc] at h ⊢
    obtain ⟨buffer, hb, h⟩ := bind_eq_ok.mp h
    cases h
    exact ⟨buffer, hw₁, hb, rfl⟩
  · simp only [if_neg hc] at h ⊢
    cases h
    exact ⟨w₁.buffer, hw₁, rfl, rfl⟩

/-- Text that does not fit leaves the position outside, as the store is not
used unless the sum of the position and the length wraps. -/
theorem lost_of_text {w : BufferWriter} {length : Nat} {buffer : List UInt8}
    {store : BufferWriter → Except Fault (List UInt8)} (hpos : 0 ≤ w.position) (hmax : w.position < 2147483648)
    (hl : length < 2147483648) (hout : w.size < w.position + length)
    (hb : (if 0 < (length : Int) ∧ w.canWrite length then store w else pure w.buffer) = .ok buffer) :
    Lost ⟨buffer, wrap32 (w.position + length)⟩ := by
  refine ⟨?_, wrap32_lt _⟩
  by_cases hwrap : w.position + length < 2147483648
  · have hsum : wrap32 (w.position + length) = w.position + length := wrap32_of_mem (by omega) hwrap
    have hcan : ¬(0 < (length : Int) ∧ w.canWrite length = true) := by
      rintro ⟨-, hc⟩
      rw [canWrite, decide_eq_true_eq, hsum] at hc
      omega
    rw [if_neg hcan] at hb
    cases hb
    rw [hsum]
    exact Or.inr hout
  · refine Or.inl ?_
    simp only [wrap32]
    omega

theorem writeText_kept {n : Nat} (hn : n < 2147483648) {w w' : BufferWriter} {written text : List UInt8}
    {store : BufferWriter → Except Fault (List UInt8)} (h : Kept n w written) (hl : text.length < 2147483648)
    (hstore : ∀ (w : BufferWriter) (before : List UInt8), Holds n w before → before.length + text.length ≤ n →
      store w = .ok (overwrite w.buffer before.length text))
    (hw : writeText text.length store w = .ok w') : Kept n w' (written ++ stringBytes text) := by
  obtain ⟨w₁, buffer, hw₁, hb, rfl⟩ := writeText_eq_ok hw
  obtain ⟨h₁, hpos⟩ := writeLength_kept hn h hw₁
  rcases h₁ with ⟨hh, hle⟩ | ⟨hlost, hmax⟩
  · have hposition := hh.position_eq
    by_cases hfit : (written ++ lengthField text.length).length + text.length ≤ n
    · refine Or.inl ⟨?_, by rw [stringBytes, ← List.append_assoc, List.length_append]; exact hfit⟩
      have hbuffer : buffer = overwrite w₁.buffer (written ++ lengthField text.length).length text := by
        by_cases hz : text.length = 0
        · rw [if_neg (by omega)] at hb
          cases hb
          rw [List.length_eq_zero_iff.mp hz, overwrite_nil]
        · rw [if_pos ⟨by omega, by rw [hh.canWrite_eq (by omega)]; simpa using hfit⟩, hstore w₁ _ hh hfit] at hb
          cases hb
          rfl
      have hroom : (written ++ lengthField text.length).length + text.length ≤ w₁.buffer.length := by
        rw [hh.size_eq]
        exact hfit
      rw [hposition, ← Int.natCast_add, wrap32_natCast (by omega), stringBytes, ← List.append_assoc]
      exact hh.append (fun _ => hbuffer) (by rw [hbuffer, length_overwrite hroom, hh.size_eq])
    · have hsize : w₁.size = n := by rw [BufferWriter.size, hh.size_eq]
      exact Or.inr (lost_of_text hpos (by omega) hl (by omega) hb)
  · exact Or.inr (lost_of_text hpos hmax hl (by omega) hb)

theorem converted_outgoing {enc : ClientEncoding} {text : List UInt8} (hz : 0 ∉ text)
    (henc : enc = .latin1 → ∃ src, text = encodeLatin1 src) : converted enc (outgoing enc text) = text := by
  cases enc with
  | utf8 => rw [converted, outgoing, cString_of_nonzero hz]
  | latin1 =>
      obtain ⟨src, rfl⟩ := henc rfl
      rw [converted, outgoing, cString_of_nonzero hz, toLatin1_encodeLatin1]

theorem wireString_stringBytes {text : List UInt8} (h : text.length < 4294967296) : WireString (stringBytes text) text := by
  rw [stringBytes, lengthField]
  split_ifs with hlt
  · have hlen : readU16Le (writeU16Le (toU16 text.length)) = toU16 text.length := readU16Le_writeU16Le _ []
    have hnat : (toU16 text.length).toNat = text.length := toNat_toU16 (by omega)
    refine .short _ _ text (fun he => ?_) (hnat.symm.trans (congrArg UInt16.toNat hlen.symm))
    have hv : toU16 text.length = 0xFFFF := hlen.symm.trans he
    rw [hv] at hnat
    exact absurd hlt (by rw [← hnat]; decide)
  · have hlen : readU32Le (writeU32Le (toU32 text.length)) = toU32 text.length := readU32Le_writeU32Le _ []
    have hnat : (toU32 text.length).toNat = text.length := toNat_toU32 h
    exact .extended _ _ _ _ _ _ text (readU16Le_writeU16Le 0xFFFF [])
      (hnat.symm.trans (congrArg UInt32.toNat hlen.symm))

section

variable {enc : ClientEncoding} {value : Value} {kind : Kind}

theorem measured_of_matches (hm : Matches enc value kind) : value.Measured := by
  cases hm with
  | flag | u8 | u16 | u16Be | u32 | u32Be => trivial
  | string text dest hz henc hlt hd =>
      have hl := length_cString_le text
      exact hl.trans_lt (hlt.trans hd)

theorem write_kept {n : Nat} (hn : n < 2147483648) {w w' : BufferWriter} {written : List UInt8}
    (hv : value.Measured) (h : Kept n w written) (hw : write enc value w = .ok w') :
    Kept n w' (written ++ wireBytes enc value) := by
  cases value with
  | flag | u8 | u16 | u16Be | u32 | u32Be => exact (writeScalar_kept hn h (by simp) hw).1
  | string text =>
      have hl : (outgoing enc text).length < 2147483648 := (length_outgoing_le_cString enc text).trans_lt hv
      obtain ⟨store, heq, hstore⟩ := writeString_eq enc text hv
      refine writeText_kept hn h hl (fun w before hh hfit => hstore n w before hn hh hfit) ?_
      rw [← heq]
      exact hw

theorem readScalar_value {α : Type} [OfNat α 0] (decode : List UInt8 → α) (bytes : List UInt8)
    {rest buf before : List UInt8} {v : α} (hbuf : buf = before ++ (bytes ++ rest)) (hlen : buf.length < 2147483648) (hv : decode bytes = v) :
    readScalar bytes.length decode ⟨buf, (before.length : Nat)⟩ = .ok (v, ⟨buf, ((before ++ bytes).length : Nat)⟩) := by
  rw [readScalar_bytes decode bytes rest hbuf hlen, hv]

theorem read_bytes {buf before rest : List UInt8} (hm : Matches enc value kind)
    (hbuf : buf = before ++ (wireBytes enc value ++ rest)) (hlen : buf.length < 2147483648) :
    read enc kind ⟨buf, (before.length : Nat)⟩ =
      .ok (value, ⟨buf, ((before ++ wireBytes enc value).length : Nat)⟩) := by
  cases hm with
  | flag value =>
      have hr : readU8 ⟨buf, (before.length : Nat)⟩ = .ok (if value then 1 else 0, _) :=
        readScalar_value (·.headD 0) [if value then 1 else 0] hbuf hlen rfl
      rw [read, readFlag, hr]
      cases value <;> rfl
  | u8 value =>
      have hr : readU8 ⟨buf, (before.length : Nat)⟩ = .ok (value, _) :=
        readScalar_value (·.headD 0) [value] hbuf hlen rfl
      rw [read, hr]
      rfl
  | u16 value =>
      have hr : readU16 ⟨buf, (before.length : Nat)⟩ = .ok (value, _) :=
        readScalar_value readU16Le (writeU16Le value) hbuf hlen (readU16Le_writeU16Le value [])
      rw [read, hr]
      rfl
  | u16Be value =>
      have hr : BufferReader.readU16Be ⟨buf, (before.length : Nat)⟩ = .ok (value, _) :=
        readScalar_value ByteOrder.readU16Be (ByteOrder.writeU16Be value) hbuf hlen (readU16Be_writeU16Be value [])
      rw [read, hr]
      rfl
  | u32 value =>
      have hr : readU32 ⟨buf, (before.length : Nat)⟩ = .ok (value, _) :=
        readScalar_value readU32Le (writeU32Le value) hbuf hlen (readU32Le_writeU32Le value [])
      rw [read, hr]
      rfl
  | u32Be value =>
      have hr : BufferReader.readU32Be ⟨buf, (before.length : Nat)⟩ = .ok (value, _) :=
        readScalar_value ByteOrder.readU32Be (ByteOrder.writeU32Be value) hbuf hlen (readU32Be_writeU32Be value [])
      rw [read, hr]
      rfl
  | string text dest hz henc hlt hd =>
      have hl := length_outgoing_le enc text
      have hconv := converted_outgoing hz henc
      have hr := readString_wire enc hd hbuf hlen (wireString_stringBytes (by omega)) (by rw [hconv]; omega)
      have hz' : 0 ∉ converted enc (outgoing enc text) := by rw [hconv]; exact hz
      have hc := cString_field enc hz' (by rw [hconv]; exact hlt)
      rw [read, hr, ok_bind]
      simp only [hc, hconv]
      rfl

end

section

variable {enc : ClientEncoding} {values : List Value} {kinds : List Kind}

theorem writeAll_kept {n : Nat} (hn : n < 2147483648) {w w' : BufferWriter} {written : List UInt8}
    (hv : ∀ value ∈ values, value.Measured) (h : Kept n w written) (hw : writeAll enc values w = .ok w') :
    Kept n w' (written ++ values.flatMap (wireBytes enc)) := by
  induction values generalizing w written with
  | nil =>
      cases hw
      simpa using h
  | cons value values ih =>
      obtain ⟨hvalue, hrest⟩ := List.forall_mem_cons.mp hv
      obtain ⟨w₁, hw₁, hw⟩ := bind_eq_ok.mp hw
      rw [List.flatMap_cons, ← List.append_assoc]
      exact ih hrest (write_kept hn hvalue h hw₁) hw

theorem Kept.holds {n : Nat} {w : BufferWriter} {written : List UInt8} (h : Kept n w written) (ho : NoOverflow w) :
    Holds n w written ∧ written.length ≤ n := by
  rcases h with h | ⟨hlost, -⟩
  · exact h
  · have hpos := ho.1
    have hin := ho.2
    rw [BufferWriter.overflowed, decide_eq_false_iff_not] at hin
    omega

theorem readAll_bytes {buf before rest : List UInt8} (hm : List.Forall₂ (Matches enc) values kinds)
    (hbuf : buf = before ++ (values.flatMap (wireBytes enc) ++ rest)) (hlen : buf.length < 2147483648) :
    readAll enc kinds ⟨buf, (before.length : Nat)⟩ =
      .ok (values, ⟨buf, ((before ++ values.flatMap (wireBytes enc)).length : Nat)⟩) := by
  induction hm generalizing before with
  | nil =>
      rw [List.flatMap_nil, List.append_nil]
      rfl
  | @cons value kind values kinds hvalue hrest ih =>
      have hfirst : buf = before ++ (wireBytes enc value ++ (values.flatMap (wireBytes enc) ++ rest)) := by
        rw [hbuf, List.flatMap_cons, List.append_assoc]
      have hnext : buf = before ++ wireBytes enc value ++ (values.flatMap (wireBytes enc) ++ rest) := by
        rw [hfirst, List.append_assoc]
      rw [readAll, read_bytes hvalue hfirst hlen, ok_bind]
      simp only
      rw [ih hnext, ok_bind, List.flatMap_cons, ← List.append_assoc]
      rfl

theorem measured_of_all (hm : List.Forall₂ (Matches enc) values kinds) : ∀ value ∈ values, value.Measured := by
  induction hm with
  | nil => simp
  | cons hvalue hrest ih => exact List.forall_mem_cons.mpr ⟨measured_of_matches hvalue, ih⟩

/-- The reader undoes the writer wherever nothing was overflowed. -/
theorem reader_undoes_writer {buffer : List UInt8} {w : BufferWriter} (hn : buffer.length < 2147483648)
    (hm : List.Forall₂ (Matches enc) values kinds) (hw : writeAll enc values ⟨buffer, 0⟩ = .ok w)
    (ho : NoOverflow w) :
    ∃ r, readAll enc kinds ⟨w.buffer.take w.position.toNat, 0⟩ = .ok (values, r) ∧
      r.position = w.position ∧ r.overflowed = false := by
  have hstart : Kept buffer.length ⟨buffer, 0⟩ [] := Or.inl ⟨holds_nil buffer, Nat.zero_le _⟩
  obtain ⟨h, hle⟩ := (writeAll_kept hn (measured_of_all hm) hstart hw).holds ho
  rw [List.nil_append] at h hle
  have htake : w.buffer.take w.position.toNat = values.flatMap (wireBytes enc) := by
    rw [h.position_eq, Int.toNat_natCast, h.content hle]
  have hbuf : values.flatMap (wireBytes enc) = [] ++ (values.flatMap (wireBytes enc) ++ []) := by simp
  have hread := readAll_bytes hm hbuf (by omega)
  rw [htake]
  refine ⟨_, hread, ?_, ?_⟩
  · rw [List.nil_append, h.position_eq]
  · rw [List.nil_append, BufferReader.overflowed, BufferReader.size]
    simp

end

theorem reader_undoes_writer_mixed :
    ∃ w r, writeAll .latin1 [.flag true, .string [0xC3, 0xA9], .u16 513, .u32Be 7] ⟨List.replicate 16 0, 0⟩ = .ok w ∧
      readAll .latin1 [.flag, .string (List.replicate 4 1), .u16, .u32Be] ⟨w.buffer.take w.position.toNat, 0⟩ =
        .ok ([.flag true, .string [0xC3, 0xA9], .u16 513, .u32Be 7], r) ∧
      r.position = w.position ∧ r.overflowed = false := by
  have hrun : ((writeAll .latin1 [.flag true, .string [0xC3, 0xA9], .u16 513, .u32Be 7]
      ⟨List.replicate 16 0, 0⟩).toOption.map fun w => (decide (0 ≤ w.position), w.overflowed)) = some (true, false) := by
    decide +kernel
  have hm : List.Forall₂ (Matches .latin1) [.flag true, .string [0xC3, 0xA9], .u16 513, .u32Be 7]
      [.flag, .string (List.replicate 4 1), .u16, .u32Be] :=
    .cons (.flag true) (.cons (.string _ _ (by decide) (fun _ => ⟨[0xE9], by decide⟩) (by decide) (by decide))
      (.cons (.u16 513) (.cons (.u32Be 7) .nil)))
  cases hw : writeAll .latin1 [.flag true, .string [0xC3, 0xA9], .u16 513, .u32Be 7] ⟨List.replicate 16 0, 0⟩ with
  | error fault =>
      rw [hw] at hrun
      cases hrun
  | ok w =>
      rw [hw] at hrun
      simp only [Except.toOption, Option.map_some, Option.some.injEq, Prod.mk.injEq, decide_eq_true_eq] at hrun
      obtain ⟨r, hr⟩ := reader_undoes_writer (by decide) hm hw hrun
      exact ⟨w, r, rfl, hr⟩

end TibiaLogin.WireValues
