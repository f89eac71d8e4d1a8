import TibiaLogin.FrameStream

namespace TibiaLogin.FrameRoundTrip

open KeyStream WebSocketProtocol FrameDecoder FrameParsing FrameStream

section

theorem length_bigEndianBytes (k n : Nat) : (bigEndianBytes k n).length = k := by
  induction k generalizing n with
  | zero => rfl
  | succ k ih => rw [bigEndianBytes, List.length_append, ih, List.length_singleton]

theorem bigEndian_bigEndianBytes (k n : Nat) : bigEndian (bigEndianBytes k n) = n % 256 ^ k := by
  induction k generalizing n with
  | zero => exact (Nat.mod_one n).symm
  | succ k ih =>
      have hlast : n.toUInt8.toNat = n % 256 := rfl
      have hfold : bigEndian (bigEndianBytes (k + 1) n) = bigEndian (bigEndianBytes k (n / 256)) * 256 + n.toUInt8.toNat :=
        List.foldl_append ..
      rw [hfold, ih, hlast, Nat.pow_succ, Nat.mul_comm (256 ^ k), Nat.mod_mul]
      omega

def firstByte (opCode : UInt8) (fin : Bool) : UInt8 := (if fin then 128 else 0) ||| 0 ||| opCode

def opCodes : List UInt8 := [0, 1, 2, 8, 9, 10]

theorem firstByte_fields {opCode : UInt8} (h : opCode ∈ opCodes) (fin : Bool) :
    getOpCode (firstByte opCode fin) = opCode ∧ isFin (firstByte opCode fin) = fin := by
  revert opCode
  cases fin <;> decide +kernel

theorem firstByte_valid {opCode : UInt8} (h : opCode ∈ opCodes) (fin : Bool) (second : UInt8)
    (hcontrol : 2 < opCode → fin = true ∧ payloadLength second ≤ 125) :
    invalidHead (firstByte opCode fin) second = false := by
  have hplain : ∀ op ∈ opCodes, ∀ b, rsv1 (firstByte op b) = false ∧ rsv23 (firstByte op b) = false ∧
      (decide (2 < op) && decide (op < 8)) = false ∧ decide (10 < op) = false := by decide +kernel
  obtain ⟨h₁, h₂₃, hgap, hlast⟩ := hplain opCode h fin
  obtain ⟨hop, hfin⟩ := firstByte_fields h fin
  rw [invalidHead, h₁, h₂₃, hop, hfin, hgap, hlast]
  by_cases hdata : 2 < opCode
  · obtain ⟨rfl, hshort⟩ := hcontrol hdata
    have hfits : ¬125 < payloadLength second := by
      rw [UInt8.le_iff_toNat_le] at hshort
      rw [UInt8.lt_iff_toNat_lt]
      omega
    simp [hfits]
  · simp [hdata]

theorem lengthField (n : Nat) (hn : n < 2 ^ 64) :
    ∃ second extended, (if n < 126 then [n.toUInt8 ||| 0x80]
        else if n ≤ 65535 then (126 ||| 0x80) :: bigEndianBytes 2 n
        else (127 ||| 0x80) :: bigEndianBytes 8 n) = second :: extended ∧
      headSize second = extended.length + 6 ∧ (n ≤ 125 → payloadLength second ≤ 125) ∧
      ∀ first mask, announced (first :: second :: (extended ++ mask)) = n := by
  by_cases hsmall : n < 126
  · have hfields : ∀ n < 126, payloadLength (n.toUInt8 ||| 0x80) < 126 ∧ payloadLength (n.toUInt8 ||| 0x80) ≤ 125 ∧
        (payloadLength (n.toUInt8 ||| 0x80)).toNat = n := by decide +kernel
    obtain ⟨hlt, hle, hvalue⟩ := hfields n hsmall
    rw [if_pos hsmall]
    exact ⟨_, _, rfl, if_pos hlt, fun _ => hle, fun first mask => (if_pos hlt).trans hvalue⟩
  have hextended : ∀ {second : UInt8} {k : Nat}, ¬payloadLength second < 126 → headSize second = k + 6 → n < 256 ^ k →
      ∀ first mask, announced (first :: second :: (bigEndianBytes k n ++ mask)) = n := by
    intro second k hsecond hsize hk first mask
    have hfield : (bigEndianBytes k n ++ mask).take (k + 6 - 6) = bigEndianBytes k n := by
      rw [Nat.add_sub_cancel, List.take_left' (length_bigEndianBytes k n)]
    have hannounced : announced (first :: second :: (bigEndianBytes k n ++ mask)) =
        bigEndian ((bigEndianBytes k n ++ mask).take (headSize second - 6)) := if_neg hsecond
    rw [hannounced, hsize, hfield, bigEndian_bigEndianBytes, Nat.mod_eq_of_lt hk]
  rw [if_neg hsmall]
  by_cases hmedium : n ≤ 65535
  · rw [if_pos hmedium]
    exact ⟨_, _, rfl, by rw [length_bigEndianBytes]; rfl, fun h => absurd h (by omega),
      hextended (by decide) rfl (by omega)⟩
  · rw [if_neg hmedium]
    exact ⟨_, _, rfl, by rw [length_bigEndianBytes]; rfl, fun h => absurd h (by omega),
      hextended (by decide) rfl (by omega)⟩

end

section

variable {ctx : Context} {d : Decoder}

theorem opened_firstByte {opCode : UInt8} (hop : opCode ∈ opCodes) (fin : Bool) :
    opened d (firstByte opCode fin) =
      { d with opCode := if opCode ≠ 0 then opCode :: d.opCode else d.opCode, lastFin := fin } := by
  rw [opened, (firstByte_fields hop fin).1, (firstByte_fields hop fin).2]

theorem decode_formatMessage (hd : d.phase = .head []) (hshort : d.message.length ≤ ctx.maxPayloadLength.toNat)
    {opCode : UInt8} {fin : Bool} {mask data : List UInt8} (hop : opCode ∈ opCodes)
    (hcontrol : 2 < opCode → fin = true ∧ data.length ≤ 125) (hmask : mask.length = 4)
    (hmax : data.length ≤ ctx.maxPayloadLength.toNat)
    (hallowed : ¬((opCode ≠ 0 ∧ (d.opCode.length = 2 ∨ (d.lastFin = false ∧ opCode < 2))) ∨
      (opCode = 0 ∧ d.opCode = []))) (rest : List UInt8) :
    decode ctx d (formatMessage (some mask) data opCode data.length false fin ++ rest) =
      decode ctx (finish ctx (opened d (firstByte opCode fin)) data) rest := by
  have hbound := ctx.maxPayloadLength.toNat_lt
  obtain ⟨second, extended, hfield, hsize, hsmall, hannounced⟩ := lengthField data.length (by omega)
  generalize hhead : firstByte opCode fin :: second :: (extended ++ mask) = head
  have hlength : head.length = extended.length + 6 := by
    rw [← hhead]
    simp only [List.length_cons, List.length_append, hmask]
  have hbytes : formatMessage (some mask) data opCode data.length false fin ++ rest =
      head ++ (keyed (· ^^^ ·) mask data ++ rest) := by
    have hframe : formatMessage (some mask) data opCode data.length false fin =
        firstByte opCode fin :: ((second :: extended) ++ mask ++ keyed (· ^^^ ·) mask data) := by
      rw [← hfield]
      rfl
    rw [hframe, ← hhead]
    simp only [List.cons_append, List.append_assoc]
  have hfirst : (head ++ (keyed (· ^^^ ·) mask data ++ rest)).headD 0 = firstByte opCode fin := by
    rw [← hhead]
    rfl
  have hsecond : ((head ++ (keyed (· ^^^ ·) mask data ++ rest)).drop 1).headD 0 = second := by
    rw [← hhead]
    rfl
  have hvalid := firstByte_valid hop fin second fun h =>
    ⟨(hcontrol h).1, hsmall (hcontrol h).2⟩
  have hmaskEnd : head.drop (head.length - 4) = mask := by
    have hplace : (firstByte opCode fin :: second :: extended).length = head.length - 4 := by
      simp only [List.length_cons, hlength]
      omega
    rw [← hplace, ← hhead]
    exact List.drop_left
  have hheadFirst : head.headD 0 = firstByte opCode fin := by
    rw [← hhead]
    rfl
  have hfits : ¬refusePayloadLength ctx data.length = true := by
    simp only [refusePayloadLength, decide_eq_true_eq]
    omega
  have hwhole := decode_whole (d := opened d (firstByte opCode fin)) hshort mask (keyed (· ^^^ ·) mask data) rest
  rw [keyed_keyed _ fun a k => by rw [UInt8.xor_assoc, UInt8.xor_self, UInt8.xor_zero], length_keyed] at hwhole
  rw [hbytes, decode_enter hd (by rw [hfirst, hsecond]; exact hvalid) (hsecond.symm ▸ hsize) (by simp [hlength]),
    ← hlength, List.take_left, List.drop_left, enter_eq, hheadFirst, (firstByte_fields hop fin).1, if_neg hallowed,
    ← hhead, hannounced, hhead, if_neg hfits, hmaskEnd]
  exact hwhole

end

structure Control where
  ping : Bool
  mask : List UInt8
  data : List UInt8
  mask_length : mask.length = 4
  short : data.length ≤ 125
  deriving DecidableEq

def Control.opCode (c : Control) : UInt8 := if c.ping then 9 else 10

def Control.bytes (c : Control) : List UInt8 := formatMessage (some c.mask) c.data c.opCode c.data.length false true

def Control.events (c : Control) : List Event := if c.ping then [.pong c.data] else []

/-- A part of a message, and the control frames sent before it. -/
structure Fragment where
  controls : List Control
  mask : List UInt8
  data : List UInt8
  mask_length : mask.length = 4
  deriving DecidableEq

def Fragment.bytes (opCode : UInt8) (fin : Bool) (f : Fragment) : List UInt8 :=
  f.controls.flatMap Control.bytes ++ formatMessage (some f.mask) f.data opCode f.data.length false fin

def Fragment.events (f : Fragment) : List Event := f.controls.flatMap Control.events

structure Message where
  isText : Bool
  first : Fragment
  rest : List Fragment
  deriving DecidableEq

def Message.opCode (m : Message) : UInt8 := if m.isText then 1 else 2

def Message.data (m : Message) : List UInt8 := (m.first :: m.rest).flatMap Fragment.data

def fragmentBytes : UInt8 → Fragment → List Fragment → List UInt8
  | opCode, f, [] => f.bytes opCode true
  | opCode, f, next :: rest => f.bytes opCode false ++ fragmentBytes 0 next rest

def Message.bytes (m : Message) : List UInt8 := fragmentBytes m.opCode m.first m.rest

def Message.events (m : Message) : List Event :=
  (m.first :: m.rest).flatMap Fragment.events ++ [.message m.opCode m.data]

section

variable (ctx : Context)

/-- What the handler of a context takes without closing the socket. -/
structure Taken (opCode : UInt8) (data : List UInt8) : Prop where
  fits : data.length ≤ ctx.maxPayloadLength.toNat
  valid : opCode = 1 → isValidUtf8 data = true
  keepsOpen : ctx.keepsOpen opCode data = true

variable {ctx} {d : Decoder}

theorem Control.decode_bytes (c : Control) (hmax : 125 ≤ ctx.maxPayloadLength.toNat) (hd : d.phase = .head [])
    (hshort : d.message.length ≤ ctx.maxPayloadLength.toNat) (hopen : d.opCode.length ≤ 1) (hcontrol : d.control = [])
    (rest : List UInt8) :
    decode ctx d (c.bytes ++ rest) = decode ctx { d with lastFin := true, events := d.events ++ c.events } rest := by
  have hop : c.opCode ∈ opCodes ∧ c.opCode ≠ 0 ∧ ¬c.opCode < 2 ∧ ¬c.opCode < 3 ∧ c.opCode ≠ 8 := by
    rw [Control.opCode]
    cases c.ping <;> decide
  obtain ⟨hmem, hnonzero, htwo, hthree, hclose⟩ := hop
  have hallowed : ¬((c.opCode ≠ 0 ∧ (d.opCode.length = 2 ∨ (d.lastFin = false ∧ c.opCode < 2))) ∨
      (c.opCode = 0 ∧ d.opCode = [])) := by
    rintro (⟨-, hfull | ⟨-, hlow⟩⟩ | ⟨hzero, -⟩)
    · omega
    · exact htwo hlow
    · exact hnonzero hzero
  have hevents : d.events ++ c.events = if c.opCode = 9 then d.events ++ [.pong c.data] else d.events := by
    rw [Control.events, Control.opCode]
    cases c.ping
    · exact List.append_nil _
    · rfl
  have hdone : finish ctx { d with opCode := c.opCode :: d.opCode, lastFin := true } c.data =
      { d with lastFin := true, events := d.events ++ c.events } := by
    rw [finish_control (d := { d with opCode := c.opCode :: d.opCode, lastFin := true }) hthree, hevents]
    simp only [complete, Decoder.current, List.headD_cons, Bool.true_eq_false, if_false, hthree, hclose, List.tail_cons,
      hcontrol, List.nil_append, hd]
  rw [Control.bytes, decode_formatMessage hd hshort hmem (fun _ => ⟨rfl, c.short⟩) c.mask_length
    (c.short.trans hmax) hallowed, opened_firstByte hmem, if_pos hnonzero, hdone]

theorem decode_controls (controls : List Control) (hmax : 125 ≤ ctx.maxPayloadLength.toNat) (hd : d.phase = .head [])
    (hshort : d.message.length ≤ ctx.maxPayloadLength.toNat) (hopen : d.opCode.length ≤ 1) (hcontrol : d.control = [])
    (rest : List UInt8) :
    ∃ lastFin, (d.lastFin = true → lastFin = true) ∧ decode ctx d (controls.flatMap Control.bytes ++ rest) =
      decode ctx { d with lastFin, events := d.events ++ controls.flatMap Control.events } rest := by
  induction controls generalizing d with
  | nil => exact ⟨d.lastFin, id, by rw [List.flatMap_nil, List.flatMap_nil, List.append_nil, List.nil_append]⟩
  | cons c controls ih =>
      obtain ⟨lastFin, hlast, hdecode⟩ := ih (d := { d with lastFin := true, events := d.events ++ c.events }) hd hshort hopen
        hcontrol
      refine ⟨lastFin, fun _ => hlast rfl, ?_⟩
      rw [List.flatMap_cons, List.append_assoc, c.decode_bytes hmax hd hshort hopen hcontrol, hdecode, List.flatMap_cons,
        List.append_assoc]

/-- A part of a message, behind its control frames. The frame has the opcode of
the message, or it goes on with the message that is open. -/
theorem Fragment.decode_bytes (f : Fragment) (hmax : 125 ≤ ctx.maxPayloadLength.toNat) (hd : d.phase = .head [])
    (hcontrol : d.control = []) {op opCode : UInt8} (hdata : op = 1 ∨ op = 2)
    (hopCode : opCode = op ∧ d.opCode = [] ∧ d.lastFin = true ∨ opCode = 0 ∧ d.opCode = [op]) {fin : Bool}
    (hfits : (d.message ++ f.data).length ≤ ctx.maxPayloadLength.toNat) (rest : List UInt8) :
    decode ctx d (f.bytes opCode fin ++ rest) =
      decode ctx (complete ctx { d with
        opCode := [op]
        lastFin := fin
        message := d.message ++ f.data
        events := d.events ++ f.events }) rest := by
  rw [List.length_append] at hfits
  have hopen : d.opCode.length ≤ 1 := by
    rcases hopCode with ⟨-, h, -⟩ | ⟨-, h⟩ <;> simp [h]
  obtain ⟨lastFin, hlast, hdecode⟩ := decode_controls f.controls hmax hd (by omega) hopen hcontrol
    (formatMessage (some f.mask) f.data opCode f.data.length false fin ++ rest)
  have hmem : opCode ∈ opCodes ∧ ¬2 < opCode := by
    rcases hopCode with ⟨rfl, -⟩ | ⟨rfl, -⟩
    · rcases hdata with rfl | rfl <;> decide
    · decide
  have hallowed : ¬((opCode ≠ 0 ∧ (d.opCode.length = 2 ∨ (lastFin = false ∧ opCode < 2))) ∨
      (opCode = 0 ∧ d.opCode = [])) := by
    rcases hopCode with ⟨rfl, hstack, hwhole⟩ | ⟨rfl, hstack⟩
    · have hnonzero : opCode ≠ 0 := by rcases hdata with rfl | rfl <;> decide
      simp [hstack, hlast hwhole, hnonzero]
    · simp [hstack]
  have hstack : (if opCode ≠ 0 then opCode :: d.opCode else d.opCode) = [op] := by
    rcases hopCode with ⟨rfl, hstack, -⟩ | ⟨rfl, hstack⟩
    · rw [if_pos (by rcases hdata with rfl | rfl <;> decide), hstack]
    · exact hstack
  have hroom : ¬refusePayloadLength ctx (d.message.length + f.data.length) = true := by
    simp only [refusePayloadLength, decide_eq_true_eq]
    omega
  have hthree : op < 3 := by rcases hdata with rfl | rfl <;> decide
  rw [Fragment.bytes, List.append_assoc, hdecode, ← Fragment.events, decode_formatMessage
    (d := { d with lastFin, events := d.events ++ f.events }) hd (by dsimp only; omega) hmem.1
    (fun h => absurd h hmem.2) f.mask_length (by omega) hallowed, opened_firstByte hmem.1]
  dsimp only
  rw [hstack, finish_data (d := { d with opCode := [op], lastFin := fin, events := d.events ++ f.events }) hthree,
    if_neg hroom]

theorem decode_fragments (hmax : 125 ≤ ctx.maxPayloadLength.toNat) {op opCode : UInt8} (hdata : op = 1 ∨ op = 2)
    {f : Fragment} {rest : List Fragment} (hd : d.phase = .head []) (hcontrol : d.control = [])
    (hopCode : opCode = op ∧ d.opCode = [] ∧ d.lastFin = true ∨ opCode = 0 ∧ d.opCode = [op])
    (htaken : Taken ctx op (d.message ++ (f :: rest).flatMap Fragment.data)) (bytes : List UInt8) :
    decode ctx d (fragmentBytes opCode f rest ++ bytes) =
      decode ctx { Decoder.initial with
        events := d.events ++ ((f :: rest).flatMap Fragment.events ++
          [.message op (d.message ++ (f :: rest).flatMap Fragment.data)]) } bytes := by
  obtain ⟨hfits, hvalid, hkeeps⟩ := htaken
  induction rest generalizing f d opCode with
  | nil =>
      rw [List.flatMap_singleton] at hfits hvalid hkeeps ⊢
      have hthree : op < 3 := by rcases hdata with rfl | rfl <;> decide
      have htext : ¬(op = 1 ∧ isValidUtf8 (d.message ++ f.data) = false) := by
        rintro ⟨hop, hbad⟩
        rw [hvalid hop] at hbad
        cases hbad
      rw [fragmentBytes, f.decode_bytes hmax hd hcontrol hdata hopCode hfits, List.flatMap_singleton]
      simp only [complete, Decoder.current, List.headD_cons, Bool.true_eq_false, if_false, if_pos hthree, if_neg htext,
        if_pos hkeeps, List.tail_cons, hcontrol, List.append_assoc, Decoder.initial]
  | cons next rest ih =>
      have hsplit : d.message ++ (f :: next :: rest).flatMap Fragment.data =
          (d.message ++ f.data) ++ (next :: rest).flatMap Fragment.data := by
        rw [List.flatMap_cons, List.append_assoc]
      have hevents : (f :: next :: rest).flatMap Fragment.events =
          f.events ++ (next :: rest).flatMap Fragment.events := List.flatMap_cons ..
      rw [hsplit] at hfits hvalid hkeeps ⊢
      have hroom : (d.message ++ f.data).length ≤ ctx.maxPayloadLength.toNat := by
        rw [List.length_append] at hfits
        omega
      have hnext := ih (d := { d with
          phase := .head []
          opCode := [op]
          lastFin := false
          message := d.message ++ f.data
          events := d.events ++ f.events }) (f := next) rfl hcontrol (Or.inr ⟨rfl, rfl⟩) hfits hvalid hkeeps
      rw [fragmentBytes, List.append_assoc, f.decode_bytes hmax hd hcontrol hdata hopCode hroom, complete, if_pos rfl, hnext,
        hevents]
      simp only [List.append_assoc]

theorem Message.decode_bytes (m : Message) (hmax : 125 ≤ ctx.maxPayloadLength.toNat) (htaken : Taken ctx m.opCode m.data)
    (events : List Event) (rest : List UInt8) :
    decode ctx { Decoder.initial with events } (m.bytes ++ rest) =
      decode ctx { Decoder.initial with events := events ++ m.events } rest := by
  have hdata : m.opCode = 1 ∨ m.opCode = 2 := by
    rw [Message.opCode]
    cases m.isText
    · exact Or.inr rfl
    · exact Or.inl rfl
  exact decode_fragments (d := { Decoder.initial with events }) (f := m.first) hmax hdata rfl rfl (Or.inl ⟨rfl, rfl, rfl⟩)
    htaken rest

theorem decode_messages (hmax : 125 ≤ ctx.maxPayloadLength.toNat) {messages : List Message}
    (htaken : ∀ m ∈ messages, Taken ctx m.opCode m.data) (events : List Event) :
    decode ctx { Decoder.initial with events } (messages.flatMap Message.bytes) =
      { Decoder.initial with events := events ++ messages.flatMap Message.events } := by
  induction messages generalizing events with
  | nil => rw [List.flatMap_nil, List.flatMap_nil, List.append_nil]; rfl
  | cons m messages ih =>
      obtain ⟨hm, hrest⟩ := List.forall_mem_cons.mp htaken
      rw [List.flatMap_cons, m.decode_bytes hmax hm, ih hrest, List.flatMap_cons, List.append_assoc]

theorem decode_initial (hmax : 125 ≤ ctx.maxPayloadLength.toNat) {messages : List Message}
    (htaken : ∀ m ∈ messages, Taken ctx m.opCode m.data) :
    decode ctx .initial (messages.flatMap Message.bytes) =
      { Decoder.initial with events := messages.flatMap Message.events } :=
  decode_messages hmax htaken []

/-- Whatever a client sends as messages, split into frames with pings between
them, comes to the handler of the socket as it was sent, where pings are not too
long for the socket. -/
theorem messages_received (ctx : Context) (hmax : 125 ≤ ctx.maxPayloadLength.toNat) {messages : List Message}
    (htaken : ∀ m ∈ messages, Taken ctx m.opCode m.data) {deliveries : List Delivery}
    (hfits : ∀ e ∈ deliveries, Fits ctx e) (hbytes : deliveries.flatMap Delivery.data = messages.flatMap Message.bytes) :
    ∃ s, deliveries.foldlM (onData ctx) Socket.initial = .ok s ∧ s.events = messages.flatMap Message.events ∧
      s.isClosed = false ∧ s.isShuttingDown = false := by
  obtain ⟨s, hrun, hmatches⟩ := reads_spec initial_matches hfits
  rw [hbytes, decode_initial hmax htaken] at hmatches
  have hopen : ¬(s.isClosed = true ∨ s.isShuttingDown = true) := fun hgone => by
    cases hmatches.stopped_iff.mp hgone
  refine ⟨s, hrun, hmatches.events_eq, ?_, ?_⟩
  · simpa using fun h => hopen (Or.inl h)
  · simpa using fun h => hopen (Or.inr h)

end

def cutMessage : Message :=
  ⟨true, ⟨[], [1, 2, 3, 4], [104, 105], rfl⟩, [⟨[⟨true, [9, 9, 9, 9], [7], rfl, by decide⟩], [5, 6, 7, 8], [33], rfl⟩]⟩

theorem messages_received_cut :
    ∃ s, (cutReads.map (freshDelivery 16)).foldlM (onData plainContext) Socket.initial = .ok s ∧
      s.events = [.pong [7], .message 1 [104, 105, 33]] ∧ s.isClosed = false ∧ s.isShuttingDown = false := by
  have htaken : Taken plainContext cutMessage.opCode cutMessage.data := ⟨by decide, by decide, rfl⟩
  have hbytes : (cutReads.map (freshDelivery 16)).flatMap Delivery.data = [cutMessage].flatMap Message.bytes := by decide
  exact messages_received plainContext (by decide) (List.forall_mem_singleton.mpr htaken)
    (fits_fresh plainContext cutReads (by decide)) hbytes

end TibiaLogin.FrameRoundTrip
