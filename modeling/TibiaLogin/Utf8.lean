import TibiaLogin.Memory

namespace TibiaLogin.Utf8

open MachineInt Memory

def utf8SequenceSize (leadingByte : UInt8) : Nat :=
  if leadingByte &&& 0x80 = 0 then 1
  else if leadingByte &&& 0xE0 = 0xC0 then 2
  else if leadingByte &&& 0xF0 = 0xE0 then 3
  else if leadingByte &&& 0xF8 = 0xF0 then 4
  else 0

def utf8IsTrailingByte (byte : UInt8) : Bool := byte &&& 0xC0 == 0x80

def utf8EncodedSize (codepoint : Int) : Nat :=
  if codepoint < 0 then 0
  else if codepoint ≤ 0x7F then 1
  else if codepoint ≤ 0x07FF then 2
  else if codepoint ≤ 0xFFFF then 3
  else if codepoint ≤ 0x10FFFF then 4
  else 0

def utf8FindNextLeadingByte : List UInt8 → Nat
  | [] => 0
  | _ :: src => 1 + (src.takeWhile utf8IsTrailingByte).length

/-- The code point of a sequence of the given size whose bytes have been checked. -/
def sequenceCodepoint : Nat → List UInt8 → Nat
  | 1, b₀ :: _ => b₀.toNat
  | 2, b₀ :: b₁ :: _ => ((b₀ &&& 0x1F).toNat <<< 6) ||| (b₁ &&& 0x3F).toNat
  | 3, b₀ :: b₁ :: b₂ :: _ =>
      ((b₀ &&& 0x0F).toNat <<< 12) ||| ((b₁ &&& 0x3F).toNat <<< 6) ||| (b₂ &&& 0x3F).toNat
  | 4, b₀ :: b₁ :: b₂ :: b₃ :: _ =>
      ((b₀ &&& 0x07).toNat <<< 18) ||| ((b₁ &&& 0x3F).toNat <<< 12) ||| ((b₂ &&& 0x3F).toNat <<< 6) |||
        (b₃ &&& 0x3F).toNat
  | _, _ => 0

/-- The size and the code point, or none where the source returns 0 and
leaves the code point alone. -/
def utf8DecodeOne : List UInt8 → Option (Nat × Nat)
  | [] => none
  | b₀ :: src =>
      let size := utf8SequenceSize b₀
      if size = 0 ∨ (b₀ :: src).length < size then none
      else if (src.take (size - 1)).all utf8IsTrailingByte then
        some (size, sequenceCodepoint size (b₀ :: src))
      else none

def utf8Bytes (codepoint : Nat) : List UInt8 :=
  match utf8EncodedSize codepoint with
  | 1 => [codepoint.toUInt8]
  | 2 => [(0xC0 ||| (0x1F &&& (codepoint >>> 6))).toUInt8, (0x80 ||| (0x3F &&& codepoint)).toUInt8]
  | 3 => [(0xE0 ||| (0x0F &&& (codepoint >>> 12))).toUInt8, (0x80 ||| (0x3F &&& (codepoint >>> 6))).toUInt8,
      (0x80 ||| (0x3F &&& codepoint)).toUInt8]
  | 4 => [(0xF0 ||| (0x07 &&& (codepoint >>> 18))).toUInt8, (0x80 ||| (0x3F &&& (codepoint >>> 12))).toUInt8,
      (0x80 ||| (0x3F &&& (codepoint >>> 6))).toUInt8, (0x80 ||| (0x3F &&& codepoint)).toUInt8]
  | _ => []

def utf8EncodeOne (dest : List UInt8) (offset destCapacity codepoint : Int) :
    Except Fault (List UInt8 × Int) := do
  let size := utf8EncodedSize codepoint
  if 0 < size ∧ size ≤ destCapacity then
    let dest ← storeBytes dest offset (utf8Bytes codepoint.toNat)
    pure (dest, size)
  else pure (dest, size)

def utf8ToLatin1Next (src : List UInt8) : UInt8 × List UInt8 :=
  match utf8DecodeOne src with
  | some (size, codepoint) => (if codepoint ≤ 0xFF then codepoint.toUInt8 else 63, src.drop size)
  | none => (63, src.drop (utf8FindNextLeadingByte src))

def utf8ToLatin1Loop (offset destCapacity : Int) :
    Nat → List UInt8 → List UInt8 → Nat → Except Fault (List UInt8 × Nat)
  | 0, _, dest, writePos => .ok (dest, writePos)
  | _ + 1, [], dest, writePos => .ok (dest, writePos)
  | fuel + 1, src, dest, writePos => do
      let (ch, rest) := utf8ToLatin1Next src
      let dest ← if writePos < destCapacity then storeBytes dest (offset + writePos) [ch] else pure dest
      utf8ToLatin1Loop offset destCapacity fuel rest dest (writePos + 1)

/-- Every round consumes a byte, so the source length bounds the rounds. The
destination is the object `dest` from `offset` on. -/
def utf8ToLatin1 (dest : List UInt8) (offset destCapacity : Int) (src : List UInt8) :
    Except Fault (List UInt8 × Nat) :=
  utf8ToLatin1Loop offset destCapacity src.length src dest 0

def latin1ToUtf8Loop (destCapacity : Int) (src : List UInt8) (offset : Int) :
    Nat → Nat → List UInt8 → Int → Except Fault (List UInt8 × Int)
  | 0, _, dest, writePos => .ok (dest, writePos)
  | remaining + 1, readPos, dest, writePos => do
      let byte ← loadBytes src (offset + readPos) 1
      let (dest, size) ← utf8EncodeOne dest writePos (wrap32 (destCapacity - writePos)) (byte.headD 0).toNat
      latin1ToUtf8Loop destCapacity src offset remaining (readPos + 1) dest (wrap32 (writePos + size))

def latin1ToUtf8 (dest : List UInt8) (destCapacity : Int) (src : List UInt8) (offset srcLength : Int) :
    Except Fault (List UInt8 × Int) :=
  latin1ToUtf8Loop destCapacity src offset srcLength.toNat 0 dest 0

end TibiaLogin.Utf8
