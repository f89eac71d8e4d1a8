import TibiaLogin.WebSocketProtocol

namespace TibiaLogin.FrameDecoder

open KeyStream WebSocketProtocol

inductive Phase
  | head (bytes : List UInt8)
  | body (remaining : Nat) (mask : List UInt8)
  | stopped
  deriving DecidableEq, Repr

/-- What has become of the bytes so far: the open frames, the last one first,
and the parts known of the message and of the control frame within it. -/
structure Decoder where
  phase : Phase
  opCode : List UInt8
  lastFin : Bool
  message : List UInt8
  control : List UInt8
  events : List Event
  deriving DecidableEq, Repr

def Decoder.initial : Decoder := ⟨.head [], [], true, [], [], []⟩

def Decoder.stop (events : List Event) : Decoder := ⟨.stopped, [], true, [], [], events⟩

def Decoder.current (d : Decoder) : UInt8 := d.opCode.headD 0

def headSize (second : UInt8) : Nat :=
  if payloadLength second < 126 then 6 else if payloadLength second = 126 then 8 else 14

def announced (head : List UInt8) : Nat :=
  let second := (head.drop 1).headD 0
  if payloadLength second < 126 then (payloadLength second).toNat
  else bigEndian ((head.drop 2).take (headSize second - 6))

section

variable (ctx : Context)

def complete (d : Decoder) : Decoder :=
  if d.lastFin = false then { d with phase := .head [] }
  else if d.current < 3 then
    if d.current = 1 ∧ isValidUtf8 d.message = false then .stop (d.events ++ [.forceClosed errInvalidText])
    else if ctx.keepsOpen d.current d.message then
      { d with
        phase := .head []
        opCode := d.opCode.tail
        message := []
        events := d.events ++ [.message d.current d.message] }
    else .stop (d.events ++ [.message d.current d.message])
  else if d.current = 8 then
    .stop (d.events ++ [.ended (parseClosePayload d.control).1 (parseClosePayload d.control).2])
  else
    { d with
      phase := .head []
      opCode := d.opCode.tail
      control := []
      events := if d.current = 9 then d.events ++ [.pong d.control] else d.events }

def absorb (d : Decoder) (data : List UInt8) : Option Decoder :=
  if d.current < 3 then
    if refusePayloadLength ctx (d.message.length + data.length) then none
    else some { d with message := d.message ++ data }
  else some { d with control := d.control ++ data }

def tooBig (d : Decoder) : Decoder := .stop (d.events ++ [.forceClosed errTooBigMessage])

def enter (d : Decoder) (head : List UInt8) : Decoder :=
  let op := getOpCode (head.headD 0)
  if (op ≠ 0 ∧ (d.opCode.length = 2 ∨ (d.lastFin = false ∧ op < 2))) ∨ (op = 0 ∧ d.opCode = []) then
    .stop (d.events ++ [.forceClosed errProtocol])
  else
    let d := { d with opCode := if op ≠ 0 then op :: d.opCode else d.opCode, lastFin := isFin (head.headD 0) }
    if refusePayloadLength ctx (announced head) then tooBig d
    else if announced head = 0 then complete ctx d
    else { d with phase := .body (announced head) (head.drop (head.length - 4)) }

def readHead (d : Decoder) (bytes : List UInt8) : Decoder :=
  let second := (bytes.drop 1).headD 0
  if bytes.length < 6 then { d with phase := .head bytes }
  else if invalidHead (bytes.headD 0) second then .stop (d.events ++ [.forceClosed errProtocol])
  else if bytes.length < headSize second then { d with phase := .head bytes }
  else enter ctx d bytes

def step (d : Decoder) (b : UInt8) : Decoder :=
  match d.phase with
  | .stopped => d
  | .head bytes => readHead ctx d (bytes ++ [b])
  | .body remaining mask =>
      match absorb ctx d (keyed (· ^^^ ·) mask [b]) with
      | none => tooBig d
      | some d =>
          if remaining = 1 then complete ctx d else { d with phase := .body (remaining - 1) (mask.rotate 1) }

def decode (d : Decoder) (bytes : List UInt8) : Decoder := bytes.foldl (step ctx) d

def absorbed (d : Decoder) (remaining : Nat) (mask data : List UInt8) : Decoder :=
  match absorb ctx d (keyed (· ^^^ ·) mask data) with
  | none => tooBig d
  | some d =>
      if remaining = data.length then complete ctx d
      else { d with phase := .body (remaining - data.length) (mask.rotate data.length) }

variable {ctx}

theorem decode_append (d : Decoder) (bytes rest : List UInt8) :
    decode ctx d (bytes ++ rest) = decode ctx (decode ctx d bytes) rest :=
  List.foldl_append ..

theorem decode_cons (d : Decoder) (b : UInt8) (bytes : List UInt8) :
    decode ctx d (b :: bytes) = decode ctx (step ctx d b) bytes := rfl

theorem decode_of_stopped {d : Decoder} (h : d.phase = .stopped) (bytes : List UInt8) : decode ctx d bytes = d := by
  induction bytes with
  | nil => rfl
  | cons b bytes ih =>
      have hstep : step ctx d b = d := by rw [step, h]
      rw [decode_cons, hstep, ih]

theorem decode_stopped (events : List Event) (bytes : List UInt8) : decode ctx (.stop events) bytes = .stop events :=
  decode_of_stopped rfl bytes

/-- A head of which more bytes are needed. -/
def Incomplete (bytes : List UInt8) : Prop :=
  bytes.length < 6 ∨ (invalidHead (bytes.headD 0) ((bytes.drop 1).headD 0) = false ∧
    bytes.length < headSize ((bytes.drop 1).headD 0))

theorem headSize_bounds (second : UInt8) : 6 ≤ headSize second ∧ headSize second ≤ 14 := by
  rw [headSize]
  split_ifs <;> decide

theorem Incomplete.length_lt {bytes : List UInt8} (h : Incomplete bytes) : bytes.length < 14 := by
  obtain ⟨-, hle⟩ := headSize_bounds ((bytes.drop 1).headD 0)
  rcases h with h | ⟨-, h⟩ <;> omega

theorem head_take (bytes : List UInt8) {n : Nat} (h : 2 ≤ n) :
    (bytes.take n).headD 0 = bytes.headD 0 ∧ ((bytes.take n).drop 1).headD 0 = (bytes.drop 1).headD 0 := by
  obtain ⟨n, rfl⟩ := Nat.exists_eq_add_of_le h
  cases bytes with
  | nil => simp
  | cons a bytes =>
      rw [Nat.add_comm]
      cases bytes <;> exact ⟨rfl, rfl⟩

theorem Incomplete.take {bytes : List UInt8} (h : Incomplete bytes) (n : Nat) : Incomplete (bytes.take n) := by
  by_cases hn : n < 6
  · exact Or.inl (by rw [List.length_take]; omega)
  · obtain ⟨hfirst, hsecond⟩ := head_take bytes (n := n) (by omega)
    rw [Incomplete, hfirst, hsecond, List.length_take]
    rcases h with h | ⟨hvalid, h⟩
    · exact Or.inl (by omega)
    · exact Or.inr ⟨hvalid, by omega⟩

theorem readHead_incomplete {d : Decoder} {bytes : List UInt8} (h : Incomplete bytes) :
    readHead ctx d bytes = { d with phase := .head bytes } := by
  rw [readHead]
  rcases h with h | ⟨hvalid, h⟩
  · rw [if_pos h]
  · simp only [hvalid, Bool.false_eq_true, if_false, if_pos h, ite_self]

theorem decode_incomplete {d : Decoder} {bytes : List UInt8} (hd : d.phase = .head []) (h : Incomplete bytes) :
    decode ctx d bytes = { d with phase := .head bytes } := by
  induction bytes using List.reverseRecOn with
  | nil => rw [← hd]; rfl
  | append_singleton bytes b ih =>
      have hbefore := h.take bytes.length
      rw [List.take_left] at hbefore
      rw [decode_append, ih hbefore]
      exact readHead_incomplete h

theorem decode_readHead {d : Decoder} {bytes : List UInt8} (hd : d.phase = .head []) {n : Nat} (hn : n < bytes.length)
    (h : Incomplete (bytes.take n)) :
    decode ctx d bytes = decode ctx (readHead ctx d (bytes.take (n + 1))) (bytes.drop (n + 1)) := by
  have hsplit : bytes.take (n + 1) = bytes.take n ++ [bytes[n]] := (List.take_concat_get' bytes n hn).symm
  conv_lhs => rw [← List.take_append_drop (n + 1) bytes, decode_append, hsplit, decode_append, decode_incomplete hd h]
  rw [hsplit]
  rfl

theorem decode_invalid {d : Decoder} {bytes : List UInt8} (hd : d.phase = .head []) (hlen : 6 ≤ bytes.length)
    (h : invalidHead (bytes.headD 0) ((bytes.drop 1).headD 0) = true) :
    decode ctx d bytes = .stop (d.events ++ [.forceClosed errProtocol]) := by
  obtain ⟨hfirst, hsecond⟩ := head_take bytes (n := 6) (by decide)
  have hsix : ¬(bytes.take 6).length < 6 := by
    rw [List.length_take]
    omega
  rw [decode_readHead hd (n := 5) (by omega) (Or.inl (by rw [List.length_take]; omega)), readHead, if_neg hsix, hfirst,
    hsecond, h, if_pos rfl, decode_stopped]

theorem decode_enter {d : Decoder} {bytes : List UInt8} (hd : d.phase = .head [])
    (hvalid : invalidHead (bytes.headD 0) ((bytes.drop 1).headD 0) = false) {size : Nat}
    (hsize : headSize ((bytes.drop 1).headD 0) = size) (hlen : size ≤ bytes.length) :
    decode ctx d bytes = decode ctx (enter ctx d (bytes.take size)) (bytes.drop size) := by
  obtain ⟨hge, -⟩ := headSize_bounds ((bytes.drop 1).headD 0)
  rw [hsize] at hge
  obtain ⟨n, rfl⟩ : ∃ n, size = n + 1 := ⟨size - 1, by omega⟩
  obtain ⟨hfirst, hsecond⟩ := head_take bytes (n := n + 1) (by omega)
  have hfull : (bytes.take (n + 1)).length = n + 1 := by
    rw [List.length_take]
    omega
  have hbefore : Incomplete (bytes.take n) := by
    obtain ⟨hfirst', hsecond'⟩ := head_take bytes (n := n) (by omega)
    refine Or.inr ⟨by rw [hfirst', hsecond']; exact hvalid, ?_⟩
    rw [hsecond', hsize, List.length_take]
    omega
  rw [decode_readHead hd (by omega) hbefore, readHead, hfirst, hsecond, hvalid, hsize, hfull, if_neg (by omega),
    if_neg Bool.false_ne_true, if_neg (Nat.lt_irrefl _)]

theorem absorb_append (d : Decoder) (data more : List UInt8) :
    absorb ctx d (data ++ more) = (absorb ctx d data).bind (absorb ctx · more) := by
  simp only [absorb, refusePayloadLength, decide_eq_true_eq, List.length_append]
  split_ifs with hop h₁ h₂ h₂
  · rfl
  · simp only [Option.bind_some, Decoder.current, List.length_append] at hop ⊢
    rw [if_pos hop, if_pos (by omega)]
  · omega
  · simp only [Option.bind_some, Decoder.current, List.length_append] at hop ⊢
    rw [if_pos hop, if_neg (by omega), List.append_assoc]
  · simp only [Option.bind_some, Decoder.current] at hop ⊢
    rw [if_neg hop, List.append_assoc]

theorem absorb_phase (d : Decoder) (phase : Phase) (data : List UInt8) :
    absorb ctx { d with phase } data = (absorb ctx d data).map fun d => { d with phase } := by
  have hcurrent : { d with phase }.current = d.current := rfl
  rw [absorb, absorb, hcurrent]
  split_ifs <;> rfl

theorem absorbed_phase (d : Decoder) (phase : Phase) (remaining : Nat) (mask data : List UInt8) :
    absorbed ctx { d with phase } remaining mask data = absorbed ctx d remaining mask data := by
  rw [absorbed, absorb_phase, absorbed]
  cases absorb ctx d (keyed (· ^^^ ·) mask data) <;> rfl

theorem absorb_events {d d' : Decoder} {data : List UInt8} (h : absorb ctx d data = some d') : d'.events = d.events := by
  rw [absorb] at h
  split_ifs at h
  · cases h
    rfl
  · cases h
    rfl

theorem absorbed_append {d d' : Decoder} {remaining : Nat} {mask data : List UInt8} (more : List UInt8)
    (h : absorb ctx d (keyed (· ^^^ ·) mask data) = some d') (hlen : data.length < remaining) :
    absorbed ctx d remaining mask (data ++ more) =
      absorbed ctx d' (remaining - data.length) (mask.rotate data.length) more := by
  have hevents := absorb_events h
  have hend : remaining = data.length + more.length ↔ remaining - data.length = more.length := by omega
  simp only [absorbed, keyed_append, absorb_append, h, Option.bind_some, List.length_append, hend, ← Nat.sub_sub,
    List.rotate_rotate]
  cases absorb ctx d' (keyed (· ^^^ ·) (mask.rotate data.length) more) with
  | none => simp only [tooBig, hevents]
  | some d'' => rfl

theorem decode_body {d : Decoder} {remaining : Nat} {mask data : List UInt8} (hd : d.phase = .body remaining mask)
    (hpos : data ≠ []) (hlen : data.length ≤ remaining) :
    decode ctx d data = absorbed ctx d remaining mask data := by
  induction data generalizing d remaining mask with
  | nil => exact absurd rfl hpos
  | cons b data ih =>
      rw [List.length_cons] at hlen
      have hone : decode ctx d (b :: data) = decode ctx (absorbed ctx d remaining mask [b]) data := by
        rw [decode_cons, step, hd]
        rfl
      rw [hone, absorbed, List.length_singleton]
      cases hb : absorb ctx d (keyed (· ^^^ ·) mask [b]) with
      | none =>
          have hall : absorb ctx d (keyed (· ^^^ ·) mask (b :: data)) = none := by
            rw [← List.singleton_append, keyed_append, absorb_append, hb]
            rfl
          simp only [absorbed, hall]
          exact decode_stopped _ _
      | some d' =>
          simp only
          cases data with
          | nil => rw [absorbed, hb]; rfl
          | cons b' data =>
              have hsplit : b :: b' :: data = [b] ++ (b' :: data) := rfl
              rw [List.length_cons] at hlen
              rw [if_neg (by omega), ih rfl (List.cons_ne_nil _ _) (by rw [List.length_cons]; omega), absorbed_phase,
                hsplit, absorbed_append (b' :: data) hb (by rw [List.length_singleton]; omega)]
              rfl

end

end TibiaLogin.FrameDecoder
