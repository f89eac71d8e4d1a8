import TibiaLogin.ByteOrder
import TibiaLogin.KeyStream
import TibiaLogin.Memory
import TibiaLogin.Text

namespace TibiaLogin.WebSocketProtocol

open Memory ByteOrder Text KeyStream

def errTooBigMessage : List UInt8 := text "Received too big message"
def errInvalidText : List UInt8 := text "Received invalid UTF-8"
def errInvalidClosePayload : List UInt8 := text "Received invalid close payload"
def errProtocol : List UInt8 := text "Received invalid WebSocket frame"

def recvBufferPadding : Nat := 32

/-- What a socket does for its application and its peer. -/
inductive Event
  | message (opCode : UInt8) (data : List UInt8)
  | pong (data : List UInt8)
  | ended (code : UInt16) (message : List UInt8)
  | forceClosed (reason : List UInt8)
  deriving DecidableEq, Repr

/-- A socket without compression. `opCode` is the stack of the frames that are
open, the last one first. -/
structure Socket where
  wantsHead : Bool
  spill : List UInt8
  opCode : List UInt8
  lastFin : Bool
  remainingBytes : Nat
  mask : List UInt8
  fragmentBuffer : List UInt8
  controlTipLength : Nat
  isShuttingDown : Bool
  isClosed : Bool
  events : List Event
  deriving DecidableEq, Repr

def Socket.initial : Socket := ⟨true, [], [], true, 0, [0, 0, 0, 0], [], 0, false, false, []⟩

/-- The limits of a context, and whether its message handler leaves the socket open. -/
structure Context where
  maxPayloadLength : UInt32
  recvBufferLength : Nat
  keepsOpen : UInt8 → List UInt8 → Bool

def sequence (s : List UInt8) : Option (List UInt8) :=
  let b (i : Nat) : UInt8 := (s[i]?).getD 0
  if b 0 &&& 0x60 = 0x40 then
    if s.length < 2 ∨ b 1 &&& 0xC0 ≠ 0x80 ∨ b 0 &&& 0xFE = 0xC0 then none else some (s.drop 2)
  else if b 0 &&& 0xF0 = 0xE0 then
    if s.length < 3 ∨ b 1 &&& 0xC0 ≠ 0x80 ∨ b 2 &&& 0xC0 ≠ 0x80 ∨ (b 0 = 0xE0 ∧ b 1 &&& 0xE0 = 0x80) ∨
      (b 0 = 0xED ∧ b 1 &&& 0xE0 = 0xA0) then none else some (s.drop 3)
  else if b 0 &&& 0xF8 = 0xF0 then
    if s.length < 4 ∨ b 1 &&& 0xC0 ≠ 0x80 ∨ b 2 &&& 0xC0 ≠ 0x80 ∨ b 3 &&& 0xC0 ≠ 0x80 ∨
      (b 0 = 0xF0 ∧ b 1 &&& 0xF0 = 0x80) ∨ (b 0 = 0xF4 ∧ 0x8F < b 1) ∨ 0xF4 < b 0 then none else some (s.drop 4)
  else none

def isValidUtf8Loop : Nat → List UInt8 → Bool
  | 0, s => s = []
  | _ + 1, [] => true
  | fuel + 1, s =>
      if 16 ≤ s.length ∧ (s.take 16).all (· &&& 0x80 = 0) then isValidUtf8Loop fuel (s.drop 16)
      else match s.dropWhile (· &&& 0x80 = 0) with
        | [] => true
        | rest => match sequence rest with
            | none => false
            | some rest => isValidUtf8Loop fuel rest

def isValidUtf8 (s : List UInt8) : Bool := isValidUtf8Loop s.length s

def parseClosePayload (src : List UInt8) : UInt16 × List UInt8 :=
  if src.length < 2 then (1005, [])
  else
    let code := readU16Be src
    if code < 1000 ∨ 4999 < code ∨ (1011 < code ∧ code < 4000) ∨ (1004 ≤ code ∧ code ≤ 1006) ∨
      isValidUtf8 (src.drop 2) = false then (1006, errInvalidClosePayload)
    else (code, src.drop 2)

def isFin (first : UInt8) : Bool := first &&& 128 ≠ 0
def getOpCode (first : UInt8) : UInt8 := first &&& 15
def payloadLength (second : UInt8) : UInt8 := second &&& 127
def rsv23 (first : UInt8) : Bool := first &&& 48 ≠ 0
def rsv1 (first : UInt8) : Bool := first &&& 64 ≠ 0

/-- Reserved bits, opcodes that are not in use, and control frames that are
fragments or long. A compressed frame is never accepted. -/
def invalidHead (first second : UInt8) : Bool :=
  rsv1 first || rsv23 first || (2 < getOpCode first && getOpCode first < 8) || 10 < getOpCode first ||
    (2 < getOpCode first && (!isFin first || 125 < payloadLength second))

def bigEndian (bytes : List UInt8) : Nat := bytes.foldl (fun n b => n * 256 + b.toNat) 0

def bigEndianBytes : Nat → Nat → List UInt8
  | 0, _ => []
  | k + 1, n => bigEndianBytes k (n / 256) ++ [n.toUInt8]

def formatMessage (mask : Option (List UInt8)) (src : List UInt8) (opCode : UInt8) (reportedLength : Nat)
    (compressed fin : Bool) : List UInt8 :=
  let first : UInt8 := (if fin then 128 else 0) ||| (if compressed ∧ opCode ≠ 0 then 64 else 0) ||| opCode
  let masked : UInt8 := if mask.isSome then 0x80 else 0
  let length :=
    if reportedLength < 126 then [reportedLength.toUInt8 ||| masked]
    else if reportedLength ≤ 65535 then (126 ||| masked) :: bigEndianBytes 2 reportedLength
    else (127 ||| masked) :: bigEndianBytes 8 reportedLength
  first :: (length ++ mask.getD [] ++ keyed (· ^^^ ·) (mask.getD []) src)

def forceClose (reason : List UInt8) (s : Socket) : Socket :=
  { s with isClosed := true, events := s.events ++ [.forceClosed reason] }

def endSocket (code : UInt16) (message : List UInt8) (s : Socket) : Socket :=
  if s.isShuttingDown then s else { s with isShuttingDown := true, events := s.events ++ [.ended code message] }

section

variable (ctx : Context)

def refusePayloadLength (length : Nat) : Bool := ctx.maxPayloadLength.toNat < length

/-- The message event, with the check of texts before it. The flag is that of
`handleFragment`: whether the socket is gone. -/
def emitMessage (opCode : UInt8) (data : List UInt8) (s : Socket) : Bool × Socket :=
  if opCode = 1 ∧ isValidUtf8 data = false then (true, forceClose errInvalidText s)
  else
    let s := { s with isClosed := s.isClosed || !ctx.keepsOpen opCode data, events := s.events ++ [.message opCode data] }
    (s.isClosed || s.isShuttingDown, s)

def handleControl (opCode : UInt8) (data : List UInt8) (s : Socket) : Bool × Socket :=
  if opCode = 8 then (true, endSocket (parseClosePayload data).1 (parseClosePayload data).2 s)
  else if opCode = 9 then (false, { s with events := s.events ++ [.pong data] })
  else (false, s)

def handleFragment (data : List UInt8) (remainingBytes : Nat) (opCode : UInt8) (fin : Bool) (s : Socket) :
    Bool × Socket :=
  if opCode < 3 then
    if remainingBytes = 0 ∧ fin ∧ s.fragmentBuffer.length = 0 then emitMessage ctx opCode data s
    else if refusePayloadLength ctx (data.length + s.fragmentBuffer.length) then (true, forceClose errTooBigMessage s)
    else
      let s := { s with fragmentBuffer := s.fragmentBuffer ++ data }
      if remainingBytes = 0 ∧ fin then
        let (broken, s) := emitMessage ctx opCode s.fragmentBuffer s
        if broken then (true, s) else (false, { s with fragmentBuffer := [] })
      else (false, s)
  else if remainingBytes = 0 ∧ fin ∧ s.controlTipLength = 0 then handleControl opCode data s
  else
    let s := { s with
      fragmentBuffer := s.fragmentBuffer ++ data
      controlTipLength := s.controlTipLength + data.length }
    if remainingBytes = 0 ∧ fin then
      let start := s.fragmentBuffer.length - s.controlTipLength
      let (broken, s) := handleControl opCode (s.fragmentBuffer.drop start) s
      if broken then (true, s) else (false, { s with fragmentBuffer := s.fragmentBuffer.take start, controlTipLength := 0 })
    else (false, s)

/-- All the loops that unmask: blocks as long as the key, each stored the given
distance before the place it is loaded from. -/
def xorBlocks (key : List UInt8) (destination : Nat) : Nat → Nat → List UInt8 → Except Fault (List UInt8)
  | 0, _, memory => .ok memory
  | n + 1, src, memory => do
      let loaded ← loadBytes memory src key.length
      let memory ← storeBytes memory (src - destination : Int) (List.zipWith (· ^^^ ·) loaded key)
      xorBlocks key destination n (src + key.length) memory

def unmaskImprecise8 (destination src : Nat) (mask : List UInt8) (length : Nat) : List UInt8 → Except Fault (List UInt8) :=
  xorBlocks (mask ++ mask) destination (length / 8 + 1) src

def unmaskImprecise4 (destination src : Nat) (mask : List UInt8) (length : Nat) : List UInt8 → Except Fault (List UInt8) :=
  xorBlocks mask destination (length / 4 + 1) src

def unmaskImpreciseCopyMask (headerSize src length : Nat) (memory : List UInt8) : Except Fault (List UInt8) := do
  let mask ← loadBytes memory (src - 4 : Int) 4
  if headerSize ≠ 6 then unmaskImprecise8 headerSize src mask length memory
  else unmaskImprecise4 headerSize src mask length memory

def unmaskInplace (data stop : Nat) (mask : List UInt8) : List UInt8 → Except Fault (List UInt8) :=
  xorBlocks mask 0 ((stop - data + 3) / 4) data

def unmaskAll (data : Nat) (mask : List UInt8) : List UInt8 → Except Fault (List UInt8) :=
  xorBlocks (mask ++ mask ++ (mask ++ mask)) 0 ((ctx.recvBufferLength + 15) / 16) data

def unmaskRest (src remainingBytes : Nat) (mask memory : List UInt8) : Except Fault (List UInt8) := do
  let n := remainingBytes / 4
  let memory ← unmaskInplace src (src + n * 4) mask memory
  let tail ← loadBytes memory (src + n * 4 : Nat) (remainingBytes % 4)
  storeBytes memory (src + n * 4 : Nat) (List.zipWith (· ^^^ ·) tail mask)

def unmaskRead (src length : Nat) (mask memory : List UInt8) : Except Fault (List UInt8) :=
  if mask = [0, 0, 0, 0] then pure memory
  else if length = ctx.recvBufferLength then unmaskAll ctx src mask memory
  else unmaskInplace src (src + (length / 4 + 1) * 4) mask memory

def rotateMask (offset : Nat) (mask : List UInt8) : List UInt8 :=
  let original (i : Nat) := (mask[i]?).getD 0
  (((mask.set ((0 + offset) % 4) (original 0)).set ((1 + offset) % 4) (original 1)).set ((2 + offset) % 4)
    (original 2)).set ((3 + offset) % 4) (original 3)

/-- The receive buffer, what is not parsed of it, and the socket. -/
structure Parse where
  memory : List UInt8
  src : Nat
  length : Nat
  socket : Socket

def byteAt (memory : List UInt8) (i : Nat) : Except Fault UInt8 := do
  let bytes ← loadBytes memory i 1
  pure (bytes.headD 0)

def Socket.current (s : Socket) : UInt8 := s.opCode.headD 0

def consumeWhole (headerSize payLength : Nat) (fin : Bool) (p : Parse) : Except Fault (Bool × Parse) := do
  let memory ← unmaskImpreciseCopyMask headerSize (p.src + headerSize) payLength p.memory
  let data ← loadBytes memory p.src payLength
  let (broken, s) := handleFragment ctx data 0 p.socket.current fin p.socket
  if broken then pure (true, { p with memory, socket := s })
  else
    let s := { s with opCode := if fin then s.opCode.tail else s.opCode, spill := [] }
    pure (false, ⟨memory, p.src + (payLength + headerSize), p.length - (payLength + headerSize), s⟩)

def consumePart (headerSize payLength : Nat) (fin : Bool) (p : Parse) : Except Fault (Bool × Parse) := do
  let mask ← loadBytes p.memory (p.src + headerSize - 4 : Int) 4
  let memory ← unmaskImprecise8 0 (p.src + headerSize) mask p.length p.memory
  let s := { p.socket with
    spill := []
    wantsHead := false
    remainingBytes := payLength + headerSize - p.length
    mask := rotateMask (4 - (p.length - headerSize) % 4) mask }
  let data ← loadBytes memory (p.src + headerSize : Nat) (p.length - headerSize)
  let (_, s) := handleFragment ctx data s.remainingBytes s.current fin s
  pure (true, { p with memory, socket := s })

def consumeMessage (headerSize payLength : Nat) (p : Parse) : Except Fault (Bool × Parse) := do
  let first ← byteAt p.memory p.src
  if getOpCode first ≠ 0 ∧ (p.socket.opCode.length = 2 ∨ (p.socket.lastFin = false ∧ getOpCode first < 2)) then
    pure (true, { p with socket := forceClose errProtocol p.socket })
  else if getOpCode first = 0 ∧ p.socket.opCode = [] then
    pure (true, { p with socket := forceClose errProtocol p.socket })
  else
    let opened := { p with socket := { p.socket with
      opCode := if getOpCode first ≠ 0 then getOpCode first :: p.socket.opCode else p.socket.opCode
      lastFin := isFin first } }
    if refusePayloadLength ctx payLength then
      pure (true, { opened with socket := forceClose errTooBigMessage opened.socket })
    else if payLength + headerSize ≤ p.length then consumeWhole ctx headerSize payLength (isFin first) opened
    else consumePart ctx headerSize payLength (isFin first) opened

def consumeContinuation (p : Parse) : Except Fault (Bool × Parse) := do
  let s := p.socket
  if s.remainingBytes ≤ p.length then
    let memory ← unmaskRest p.src s.remainingBytes s.mask p.memory
    let data ← loadBytes memory p.src s.remainingBytes
    let (broken, s) := handleFragment ctx data 0 s.current s.lastFin s
    if broken then pure (false, { p with memory, socket := s })
    else
      let s := { s with opCode := if s.lastFin then s.opCode.tail else s.opCode, wantsHead := true }
      pure (true, ⟨memory, p.src + s.remainingBytes, p.length - s.remainingBytes, s⟩)
  else
    let memory ← unmaskRead ctx p.src p.length s.mask p.memory
    let s := { s with remainingBytes := s.remainingBytes - p.length }
    let data ← loadBytes memory p.src p.length
    let (broken, s) := handleFragment ctx data s.remainingBytes s.current s.lastFin s
    if broken ∨ p.length % 4 = 0 then pure (false, { p with memory, socket := s })
    else pure (false, { p with memory, socket := { s with mask := rotateMask (4 - p.length % 4) s.mask } })

/-- The loop over whole frames. The flag says that it has returned from
`consume`. Every frame is longer than one byte, so the fuel lasts. -/
def consumeMessages : Nat → Parse → Except Fault (Bool × Parse)
  | 0, p => pure (false, p)
  | fuel + 1, p =>
      if p.length < 6 then pure (false, p)
      else do
        let first ← byteAt p.memory p.src
        let second ← byteAt p.memory (p.src + 1)
        if invalidHead first second then pure (true, { p with socket := forceClose errProtocol p.socket })
        else if payloadLength second < 126 then do
          let (returned, p) ← consumeMessage ctx 6 (payloadLength second).toNat p
          if returned then pure (true, p) else consumeMessages fuel p
        else if payloadLength second = 126 then
          if p.length < 8 then pure (false, p)
          else do
            let size ← loadBytes p.memory (p.src + 2 : Nat) 2
            let (returned, p) ← consumeMessage ctx 8 (bigEndian size) p
            if returned then pure (true, p) else consumeMessages fuel p
        else if p.length < 14 then pure (false, p)
        else do
          let size ← loadBytes p.memory (p.src + 2 : Nat) 8
          let (returned, p) ← consumeMessage ctx 14 (bigEndian size) p
          if returned then pure (true, p) else consumeMessages fuel p

def parseNext (p : Parse) : Except Fault Parse := do
  let (returned, p) ← consumeMessages ctx p.length p
  if returned ∨ p.length = 0 then pure p
  else do
    let bytes ← loadBytes p.memory p.src p.length
    let _ ← storeBytes (List.replicate 13 (0 : UInt8)) 0 bytes
    pure { p with socket := { p.socket with spill := bytes.take (p.length % 16) } }

def consume (p : Parse) : Except Fault Parse := do
  let back := p.socket.spill.length
  let memory ← storeBytes p.memory (p.src - back : Int) p.socket.spill
  let p := { p with memory, src := p.src - back, length := p.length + back }
  if p.socket.wantsHead then parseNext ctx p
  else do
    let (finished, p) ← consumeContinuation ctx p
    if finished then parseNext ctx p else pure p

/-- What one read of the socket puts into the receive buffer, over what is
left there. -/
structure Delivery where
  before : List UInt8
  data : List UInt8
  deriving DecidableEq, Repr

def onData (s : Socket) (d : Delivery) : Except Fault Socket :=
  if s.isClosed ∨ s.isShuttingDown then pure s
  else do
    let memory ← storeBytes d.before recvBufferPadding d.data
    let p ← consume ctx ⟨memory, recvBufferPadding, d.data.length, s⟩
    pure p.socket

end

end TibiaLogin.WebSocketProtocol
