import TibiaLogin.FrameDecoder
import TibiaLogin.Unmasking

namespace TibiaLogin.FrameParsing

open Memory KeyStream WebSocketProtocol Unmasking FrameDecoder

/-- The state of a socket that neither a fragment nor its handler touches. -/
structure SameFrame (s s' : Socket) : Prop where
  wantsHead : s'.wantsHead = s.wantsHead
  spill : s'.spill = s.spill
  opCode : s'.opCode = s.opCode
  lastFin : s'.lastFin = s.lastFin
  remainingBytes : s'.remainingBytes = s.remainingBytes
  mask : s'.mask = s.mask

section

variable (ctx : Context)

/-- A socket that is still read, and what a decoder knows of it. -/
structure Agrees (s : Socket) (d : Decoder) : Prop where
  isOpen : s.isClosed = false ∧ s.isShuttingDown = false
  events_eq : s.events = d.events
  opCode_eq : s.opCode = d.opCode
  lastFin_eq : s.lastFin = d.lastFin
  buffer : s.fragmentBuffer = d.message ++ d.control
  tip : s.controlTipLength = d.control.length
  short : d.message.length ≤ ctx.maxPayloadLength.toNat

structure AtHead (s : Socket) (d : Decoder) : Prop extends Agrees ctx s d where
  phase_eq : d.phase = .head []
  control_eq : d.control = []
  messages : ∀ op ∈ d.opCode, op < 3
  wantsHead : s.wantsHead = true

def Gone (s : Socket) (d : Decoder) : Prop :=
  (s.isClosed = true ∨ s.isShuttingDown = true) ∧ d = .stop s.events

/-- Whatever the frame that is open: a part of a message comes without a part of
a control frame, and a control frame is the last one open, and whole. -/
structure InFrame (d : Decoder) : Prop where
  alone : d.current < 3 → d.control = []
  whole : ¬d.current < 3 → d.lastFin = true
  below : ∀ op ∈ d.opCode.tail, op < 3

end

variable {ctx : Context} {s : Socket} {d : Decoder}

def finish (ctx : Context) (d : Decoder) (data : List UInt8) : Decoder :=
  match absorb ctx d data with
  | none => tooBig d
  | some d => complete ctx d

theorem emitMessage_last (ctx : Context) (hopen : s.isClosed = false ∧ s.isShuttingDown = false) (hevents : s.events = d.events)
    (hop : d.current < 3) (hfin : d.lastFin = true) (message : List UInt8) :
    (∃ s', emitMessage ctx d.current message s = (true, s') ∧ SameFrame s s' ∧
        Gone s' (complete ctx { d with message })) ∨
      (emitMessage ctx d.current message s = (false, { s with events := s.events ++ [.message d.current message] }) ∧
        complete ctx { d with message } = { d with
          phase := .head []
          opCode := d.opCode.tail
          message := []
          events := d.events ++ [.message d.current message] }) := by
  have hends : ¬{ d with message }.lastFin = false := by simp [hfin]
  have hcurrent : { d with message }.current = d.current := rfl
  rw [emitMessage, complete, if_neg hends, hcurrent, if_pos hop]
  split_ifs with htext hkeep
  · exact Or.inl ⟨_, rfl, ⟨rfl, rfl, rfl, rfl, rfl, rfl⟩, Or.inl rfl, by rw [forceClose, hevents]⟩
  · refine Or.inr ⟨?_, rfl⟩
    cases s
    simp only at hopen
    simp only [hopen, hkeep, Bool.not_true, Bool.or_self]
  · refine Or.inl ⟨{ s with isClosed := true, events := s.events ++ [.message d.current message] }, ?_,
      ⟨rfl, rfl, rfl, rfl, rfl, rfl⟩, Or.inl rfl, by rw [hevents]⟩
    simp only [hkeep, Bool.not_false, Bool.or_true, Bool.true_or]

theorem handleControl_last (ctx : Context) (hopen : s.isShuttingDown = false) (hevents : s.events = d.events) (hop : ¬d.current < 3)
    (hfin : d.lastFin = true) (control : List UInt8) :
    (∃ s', handleControl d.current control s = (true, s') ∧ SameFrame s s' ∧
        Gone s' (complete ctx { d with control })) ∨
      ∃ events, handleControl d.current control s = (false, { s with events }) ∧
        complete ctx { d with control } =
          { d with phase := .head [], opCode := d.opCode.tail, control := [], events } := by
  have hends : ¬{ d with control }.lastFin = false := by simp [hfin]
  have hcurrent : { d with control }.current = d.current := rfl
  rw [handleControl, complete, if_neg hends, hcurrent, if_neg hop]
  split_ifs
  · rw [endSocket, if_neg (by simp [hopen])]
    exact Or.inl ⟨_, rfl, ⟨rfl, rfl, rfl, rfl, rfl, rfl⟩, Or.inr rfl, by rw [hevents]⟩
  · exact Or.inr ⟨_, rfl, by rw [hevents]⟩
  · exact Or.inr ⟨s.events, rfl, by rw [hevents]⟩

theorem finish_data (hop : d.current < 3) (data : List UInt8) :
    finish ctx d data =
      if refusePayloadLength ctx (d.message.length + data.length) then tooBig d
      else complete ctx { d with message := d.message ++ data } := by
  rw [finish, absorb, if_pos hop]
  split_ifs <;> rfl

theorem finish_control (hop : ¬d.current < 3) (data : List UInt8) :
    finish ctx d data = complete ctx { d with control := d.control ++ data } := by
  rw [finish, absorb, if_neg hop]

/-- What the last part of a frame comes to: the socket is gone, or it is as the
decoder says when the frame is left. -/
abbrev Finished (ctx : Context) (d : Decoder) (data : List UInt8) (s : Socket) (broken : Bool) (s' : Socket) : Prop :=
  SameFrame s s' ∧
    ((broken = true ∧ Gone s' (finish ctx d data)) ∨
      (broken = false ∧ Agrees ctx { s' with opCode := if s.lastFin then s'.opCode.tail else s'.opCode }
          (finish ctx d data) ∧
        (finish ctx d data).phase = .head [] ∧ (finish ctx d data).control = []))

theorem handleFragment_data (h : Agrees ctx s d) (hframe : InFrame d) (hop : d.current < 3) {data : List UInt8}
    (hle : data.length ≤ ctx.maxPayloadLength.toNat) :
    ∃ broken s', handleFragment ctx data 0 d.current s.lastFin s = (broken, s') ∧ Finished ctx d data s broken s' := by
  obtain ⟨hopen, hevents, hopCode, hlastFin, hbuffer, htip, hshort⟩ := h
  have hnone := hframe.alone hop
  rw [hnone, List.append_nil] at hbuffer
  rw [hnone] at htip
  simp only [Finished]
  rw [handleFragment, if_pos hop, hbuffer, finish_data hop]
  by_cases hone : s.lastFin = true ∧ d.message.length = 0
  · obtain ⟨hfin, hempty⟩ := hone
    have hfits : ¬refusePayloadLength ctx (d.message.length + data.length) = true := by
      simp only [refusePayloadLength, decide_eq_true_eq]
      omega
    have hwhole : d.message ++ data = data := by rw [List.length_eq_zero_iff.mp hempty, List.nil_append]
    rw [if_pos ⟨rfl, hfin, hempty⟩, if_neg hfits, hwhole, hfin]
    rcases emitMessage_last ctx hopen hevents hop (hlastFin ▸ hfin) data with
      ⟨s', hrun, hsame, hgone⟩ | ⟨hrun, hdone⟩
    · exact ⟨true, s', hrun, hsame, Or.inl ⟨rfl, hgone⟩⟩
    · refine ⟨false, _, hrun, ⟨rfl, rfl, rfl, rfl, rfl, rfl⟩, Or.inr ⟨rfl, ?_⟩⟩
      rw [hdone]
      refine ⟨⟨hopen, ?_, ?_, hlastFin, ?_, ?_, Nat.zero_le _⟩, rfl, hnone⟩
      · simp only [hevents]
      · simp only [hopCode, if_true]
      · simp only [hbuffer, hnone, List.length_eq_zero_iff.mp hempty, List.append_nil]
      · rw [htip, hnone]
  · rw [if_neg fun h => hone h.2, Nat.add_comm data.length]
    by_cases hlong : refusePayloadLength ctx (d.message.length + data.length) = true
    · rw [if_pos hlong, if_pos hlong]
      exact ⟨true, _, rfl, ⟨rfl, rfl, rfl, rfl, rfl, rfl⟩, Or.inl ⟨rfl, Or.inl rfl, by rw [forceClose, tooBig, hevents]⟩⟩
    · have hroom : d.message.length + data.length ≤ ctx.maxPayloadLength.toNat := by
        simpa only [refusePayloadLength, decide_eq_true_eq, Nat.not_lt] using hlong
      rw [if_neg hlong, if_neg hlong]
      by_cases hfin : s.lastFin = true
      · rw [if_pos ⟨rfl, hfin⟩]
        rcases emitMessage_last ctx (s := { s with fragmentBuffer := d.message ++ data }) hopen hevents hop
          (hlastFin ▸ hfin) (d.message ++ data) with ⟨s', hrun, hsame, hgone⟩ | ⟨hrun, hdone⟩
        · refine ⟨true, s', ?_, ⟨hsame.1, hsame.2, hsame.3, hsame.4, hsame.5, hsame.6⟩, Or.inl ⟨rfl, hgone⟩⟩
          dsimp only
          rw [hrun]
          rfl
        · refine ⟨false, { s with fragmentBuffer := [], events := s.events ++ [.message d.current (d.message ++ data)] },
            ?_, ⟨rfl, rfl, rfl, rfl, rfl, rfl⟩, Or.inr ⟨rfl, ?_⟩⟩
          · dsimp only
            rw [hrun]
            rfl
          · rw [hdone]
            refine ⟨⟨hopen, ?_, ?_, hlastFin, ?_, ?_, Nat.zero_le _⟩, rfl, hnone⟩
            · simp only [hevents]
            · simp only [hopCode, hfin, if_true]
            · simp only [hnone, List.append_nil]
            · rw [htip, hnone]
      · have hmore : d.lastFin = false := by
          rw [← hlastFin]
          simpa using hfin
        rw [if_neg fun h => hfin h.2, complete, if_pos hmore]
        refine ⟨false, _, rfl, ⟨rfl, rfl, rfl, rfl, rfl, rfl⟩, Or.inr ⟨rfl, ?_, rfl, hnone⟩⟩
        refine ⟨hopen, hevents, ?_, hlastFin, ?_, ?_, ?_⟩
        · simp only [if_neg hfin, hopCode]
        · simp only [hnone, List.append_nil]
        · rw [htip, hnone]
        · rw [List.length_append]
          exact hroom

theorem handleFragment_control (h : Agrees ctx s d) (hframe : InFrame d) (hop : ¬d.current < 3) (data : List UInt8) :
    ∃ broken s', handleFragment ctx data 0 d.current s.lastFin s = (broken, s') ∧ Finished ctx d data s broken s' := by
  obtain ⟨hopen, hevents, hopCode, hlastFin, hbuffer, htip, hshort⟩ := h
  have hends := hframe.whole hop
  have hfin : s.lastFin = true := hlastFin.trans hends
  simp only [Finished]
  rw [handleFragment, if_neg hop, finish_control hop]
  by_cases hone : s.controlTipLength = 0
  · have hnone : d.control = [] := List.length_eq_zero_iff.mp (htip ▸ hone)
    rw [if_pos ⟨rfl, hfin, hone⟩, hnone, List.nil_append]
    rcases handleControl_last ctx hopen.2 hevents hop hends data with ⟨s', hrun, hsame, hgone⟩ | ⟨events, hrun, hdone⟩
    · exact ⟨true, s', hrun, hsame, Or.inl ⟨rfl, hgone⟩⟩
    · refine ⟨false, _, hrun, ⟨rfl, rfl, rfl, rfl, rfl, rfl⟩, Or.inr ⟨rfl, ?_⟩⟩
      rw [hdone]
      refine ⟨⟨hopen, rfl, ?_, hlastFin, ?_, hone, hshort⟩, rfl, rfl⟩
      · simp only [hopCode, hfin, if_true]
      · simp only [hbuffer, hnone]
  · have hstart : (s.fragmentBuffer ++ data).length - (s.controlTipLength + data.length) = d.message.length := by
      rw [hbuffer, htip, List.length_append, List.length_append]
      omega
    have hdrop : (s.fragmentBuffer ++ data).drop d.message.length = d.control ++ data := by
      rw [hbuffer, List.append_assoc, List.drop_left]
    have htake : (s.fragmentBuffer ++ data).take d.message.length = d.message := by
      rw [hbuffer, List.append_assoc, List.take_left]
    rw [if_neg fun h => hone h.2.2, if_pos ⟨rfl, hfin⟩]
    dsimp only
    rw [hstart, hdrop]
    rcases handleControl_last ctx (s := { s with
        fragmentBuffer := s.fragmentBuffer ++ data
        controlTipLength := s.controlTipLength + data.length }) hopen.2 hevents hop hends (d.control ++ data) with
      ⟨s', hrun, hsame, hgone⟩ | ⟨events, hrun, hdone⟩
    · refine ⟨true, s', ?_, ⟨hsame.1, hsame.2, hsame.3, hsame.4, hsame.5, hsame.6⟩, Or.inl ⟨rfl, hgone⟩⟩
      rw [hrun]
      rfl
    · refine ⟨false, { s with fragmentBuffer := d.message, controlTipLength := 0, events }, ?_,
        ⟨rfl, rfl, rfl, rfl, rfl, rfl⟩, Or.inr ⟨rfl, ?_⟩⟩
      · rw [hrun]
        simp only [Bool.false_eq_true, if_false, htake]
      · rw [hdone]
        refine ⟨⟨hopen, rfl, ?_, hlastFin, ?_, rfl, hshort⟩, rfl, rfl⟩
        · simp only [hopCode, hfin, if_true]
        · simp only [List.append_nil]

theorem handleFragment_last (h : Agrees ctx s d) (hframe : InFrame d) {data : List UInt8}
    (hle : data.length ≤ ctx.maxPayloadLength.toNat) :
    ∃ broken s', handleFragment ctx data 0 s.current s.lastFin s = (broken, s') ∧ Finished ctx d data s broken s' := by
  have hcurrent : s.current = d.current := by rw [Socket.current, h.opCode_eq, Decoder.current]
  rw [hcurrent]
  by_cases hop : d.current < 3
  · exact handleFragment_data h hframe hop hle
  · exact handleFragment_control h hframe hop data

theorem handleFragment_part (h : Agrees ctx s d) (hframe : InFrame d) (data : List UInt8) (remaining : Nat)
    (hmore : 0 < remaining) :
    ∃ broken s', handleFragment ctx data remaining s.current s.lastFin s = (broken, s') ∧ SameFrame s s' ∧
      ((broken = true ∧ absorb ctx d data = none ∧ Gone s' (tooBig d)) ∨
        (broken = false ∧ ∃ d', absorb ctx d data = some d' ∧ Agrees ctx s' d' ∧ InFrame d')) := by
  obtain ⟨hopen, hevents, hopCode, hlastFin, hbuffer, htip, hshort⟩ := h
  have hcurrent : s.current = d.current := by rw [Socket.current, hopCode, Decoder.current]
  rw [hcurrent, handleFragment, absorb]
  by_cases hop : d.current < 3
  · have hnone := hframe.alone hop
    rw [hnone, List.append_nil] at hbuffer
    rw [hnone] at htip
    rw [if_pos hop, if_pos hop, if_neg (by omega), hbuffer, Nat.add_comm data.length]
    by_cases hlong : refusePayloadLength ctx (d.message.length + data.length) = true
    · rw [if_pos hlong, if_pos hlong]
      exact ⟨true, _, rfl, ⟨rfl, rfl, rfl, rfl, rfl, rfl⟩,
        Or.inl ⟨rfl, rfl, Or.inl rfl, by rw [forceClose, tooBig, hevents]⟩⟩
    · have hroom : d.message.length + data.length ≤ ctx.maxPayloadLength.toNat := by
        simpa only [refusePayloadLength, decide_eq_true_eq, Nat.not_lt] using hlong
      rw [if_neg hlong, if_neg hlong, if_neg (by omega)]
      refine ⟨false, _, rfl, ⟨rfl, rfl, rfl, rfl, rfl, rfl⟩, Or.inr ⟨rfl, _, rfl,
        ⟨hopen, hevents, hopCode, hlastFin, ?_, ?_, ?_⟩, ⟨fun _ => hnone, fun h => absurd hop h, hframe.below⟩⟩⟩
      · simp only [hnone, List.append_nil]
      · simp only [htip, hnone]
      · rw [List.length_append]
        exact hroom
  · rw [if_neg hop, if_neg hop, if_neg (by omega), if_neg (by omega)]
    refine ⟨false, _, rfl, ⟨rfl, rfl, rfl, rfl, rfl, rfl⟩, Or.inr ⟨rfl, _, rfl,
      ⟨hopen, hevents, hopCode, hlastFin, ?_, ?_, hshort⟩, ⟨fun h => absurd h hop, fun _ => hframe.whole hop, hframe.below⟩⟩⟩
    · simp only [hbuffer, List.append_assoc]
    · simp only [htip, List.length_append]

/-- What a decoder stands for in a socket that has nothing left to parse. -/
inductive Matches (ctx : Context) (s : Socket) (d : Decoder) : Prop
  | gone (h : Gone s d)
  | head (h : AtHead ctx s { d with phase := .head [] }) (hphase : d.phase = .head s.spill) (hspill : Incomplete s.spill)
  | body (h : Agrees ctx s d) (hframe : InFrame d) (hphase : d.phase = .body s.remainingBytes s.mask)
      (hpos : 0 < s.remainingBytes) (hmax : s.remainingBytes ≤ ctx.maxPayloadLength.toNat) (hmask : s.mask.length = 4)
      (hspill : s.spill = []) (hwants : s.wantsHead = false)

theorem Matches.events_eq (h : Matches ctx s d) : s.events = d.events := by
  rcases h with ⟨-, rfl⟩ | ⟨hat⟩ | ⟨hagrees⟩
  · rfl
  · exact hat.events_eq
  · exact hagrees.events_eq

theorem Matches.stopped_iff (h : Matches ctx s d) : (s.isClosed = true ∨ s.isShuttingDown = true) ↔ d.phase = .stopped := by
  rcases h with ⟨hgone, rfl⟩ | ⟨hat, hphase⟩ | ⟨hagrees, -, hphase⟩
  · exact iff_of_true hgone rfl
  · have := hat.isOpen
    simp_all
  · have := hagrees.isOpen
    simp_all

def window (p : Parse) : List UInt8 := (p.memory.drop p.src).take p.length

theorem byteAt_eq {memory : List UInt8} {i : Nat} (h : i < memory.length) :
    byteAt memory i = .ok ((memory.drop i).headD 0) := by
  rw [byteAt, loadBytes_of_within (by omega), ok_bind]
  cases memory.drop i <;> rfl

theorem absorb_nil (h : d.message.length ≤ ctx.maxPayloadLength.toNat) : absorb ctx d [] = some d := by
  have hfits : ¬refusePayloadLength ctx (d.message.length + ([] : List UInt8).length) = true := by
    simp only [refusePayloadLength, decide_eq_true_eq, List.length_nil]
    omega
  rw [absorb, if_neg hfits, List.append_nil, List.append_nil]
  split_ifs <;> rfl

theorem absorbed_last (mask data : List UInt8) :
    absorbed ctx d data.length mask data = finish ctx d (keyed (· ^^^ ·) mask data) := by
  rw [absorbed, finish]
  cases absorb ctx d (keyed (· ^^^ ·) mask data) with
  | none => rfl
  | some d' => exact if_pos rfl

theorem decode_whole (hshort : d.message.length ≤ ctx.maxPayloadLength.toNat) (mask payload rest : List UInt8) :
    decode ctx (if payload.length = 0 then complete ctx d else { d with phase := .body payload.length mask })
      (payload ++ rest) = decode ctx (finish ctx d (keyed (· ^^^ ·) mask payload)) rest := by
  cases payload with
  | nil =>
      rw [if_pos List.length_nil, keyed_nil, finish, absorb_nil hshort]
      rfl
  | cons b payload =>
      rw [if_neg (by simp), decode_append, decode_body rfl (List.cons_ne_nil _ _) (Nat.le_refl _), absorbed_phase,
        absorbed_last]

theorem decode_part (hshort : d.message.length ≤ ctx.maxPayloadLength.toNat) (mask payload : List UInt8) {n : Nat}
    (hn : payload.length < n) :
    decode ctx { d with phase := .body n mask } payload =
      match absorb ctx d (keyed (· ^^^ ·) mask payload) with
      | none => tooBig d
      | some d => { d with phase := .body (n - payload.length) (mask.rotate payload.length) } := by
  cases payload with
  | nil =>
      rw [keyed_nil, absorb_nil hshort]
      simp only [List.length_nil, Nat.sub_zero, List.rotate_zero]
      rfl
  | cons b payload =>
      rw [decode_body rfl (List.cons_ne_nil _ _) (Nat.le_of_lt hn), absorbed_phase, absorbed]
      cases absorb ctx d (keyed (· ^^^ ·) mask (b :: payload)) with
      | none => rfl
      | some d' => exact if_neg (Nat.ne_of_gt hn)

def opened (d : Decoder) (first : UInt8) : Decoder :=
  { d with
    opCode := if getOpCode first ≠ 0 then getOpCode first :: d.opCode else d.opCode
    lastFin := isFin first }

theorem opened_inFrame (h : AtHead ctx s d) {first second : UInt8} (hvalid : invalidHead first second = false) :
    InFrame (opened d first) := by
  have hfin : ¬getOpCode first < 3 → isFin first = true := by
    intro hop
    by_contra hmore
    have hcontrol : 2 < getOpCode first := by
      rw [UInt8.lt_iff_toNat_lt] at hop ⊢
      exact Nat.lt_of_succ_le (Nat.le_of_not_lt hop)
    simp [invalidHead, hcontrol, hmore] at hvalid
  by_cases hzero : getOpCode first = 0
  · have hopCode : (opened d first).opCode = d.opCode := if_neg (not_not.mpr hzero)
    refine ⟨fun _ => h.control_eq, fun hop => ?_, fun op hmem => h.messages op (List.mem_of_mem_tail (hopCode ▸ hmem))⟩
    refine absurd ?_ hop
    rw [Decoder.current, hopCode]
    cases hstack : d.opCode with
    | nil => decide
    | cons op opCode => exact h.messages op (by rw [hstack]; exact List.mem_cons_self ..)
  · have hopCode : (opened d first).opCode = getOpCode first :: d.opCode := if_pos hzero
    refine ⟨fun _ => h.control_eq, fun hop => hfin ?_, fun op hmem => h.messages op ?_⟩
    · rwa [Decoder.current, hopCode] at hop
    · rwa [hopCode] at hmem

theorem enter_eq {head : List UInt8} :
    enter ctx d head =
      if (getOpCode (head.headD 0) ≠ 0 ∧ (d.opCode.length = 2 ∨ (d.lastFin = false ∧ getOpCode (head.headD 0) < 2))) ∨
          (getOpCode (head.headD 0) = 0 ∧ d.opCode = []) then .stop (d.events ++ [.forceClosed errProtocol])
      else if refusePayloadLength ctx (announced head) then tooBig d
      else if announced head = 0 then complete ctx (opened d (head.headD 0))
      else { opened d (head.headD 0) with phase := .body (announced head) (head.drop (head.length - 4)) } := rfl

theorem atHead_finished {s' : Socket} {data : List UInt8} (hsame : SameFrame s s') (hframe : InFrame d)
    (hopCode : s.opCode = d.opCode) (hlastFin : s.lastFin = d.lastFin) {wantsHead : Bool} (hwants : wantsHead = true)
    (spill : List UInt8) (h : Agrees ctx { s' with opCode := if s.lastFin then s'.opCode.tail else s'.opCode } (finish ctx d data))
    (hphase : (finish ctx d data).phase = .head []) (hcontrol : (finish ctx d data).control = []) :
    AtHead ctx { s' with
      opCode := if s.lastFin then s'.opCode.tail else s'.opCode
      wantsHead
      spill } (finish ctx d data) := by
  refine ⟨⟨h.isOpen, h.events_eq, h.opCode_eq, h.lastFin_eq, h.buffer, h.tip, h.short⟩, hphase, hcontrol,
    fun op hmem => ?_, hwants⟩
  rw [← h.opCode_eq] at hmem
  simp only [hsame.opCode, hopCode, hlastFin] at hmem
  split_ifs at hmem with hfin
  · exact hframe.below op hmem
  · cases hstack : d.opCode with
    | nil =>
        rw [hstack] at hmem
        cases hmem
    | cons top opCode =>
        rw [hstack] at hmem
        rcases List.mem_cons.mp hmem with rfl | hmem
        · by_contra hop
          refine hfin (hframe.whole ?_)
          rw [Decoder.current, hstack]
          exact hop
        · exact hframe.below op (by rw [hstack]; exact hmem)

theorem Agrees.phase (h : Agrees ctx s d) (phase : Phase) : Agrees ctx s { d with phase } :=
  ⟨h.isOpen, h.events_eq, h.opCode_eq, h.lastFin_eq, h.buffer, h.tip, h.short⟩

theorem InFrame.phase (h : InFrame d) (phase : Phase) : InFrame { d with phase } := ⟨h.alone, h.whole, h.below⟩

theorem consumeWhole_spec {p : Parse} {size payLength : Nat} {fin : Bool} (h : Agrees ctx p.socket d) (hframe : InFrame d)
    (hwants : p.socket.wantsHead = true) (hfin : fin = p.socket.lastFin) (hsizes : size = 6 ∨ size = 8 ∨ size = 14)
    (hroom : p.src + p.length + 8 ≤ p.memory.length) (hlen : payLength + size ≤ p.length)
    (hmax : payLength ≤ ctx.maxPayloadLength.toNat) {mask payload : List UInt8}
    (hmask : (p.memory.drop (p.src + size - 4)).take 4 = mask)
    (hpayload : (p.memory.drop (p.src + size)).take payLength = payload) :
    ∃ returned p', consumeWhole ctx size payLength fin p = .ok (returned, p') ∧
      ((returned = true ∧ Gone p'.socket (finish ctx d (keyed (· ^^^ ·) mask payload))) ∨
        (returned = false ∧ p'.memory.length = p.memory.length ∧ p'.src = p.src + (payLength + size) ∧
          p'.length = p.length - (payLength + size) ∧ p'.memory.drop p'.src = p.memory.drop p'.src ∧
          p'.socket.spill = [] ∧ AtHead ctx p'.socket (finish ctx d (keyed (· ^^^ ·) mask payload)))) := by
  obtain ⟨memory, hrun, hsame, hdata, hrest⟩ := unmaskImpreciseCopyMask_spec p.memory (p.src + size)
    payLength hsizes (by omega) (by omega)
  rw [Nat.add_sub_cancel, hmask, hpayload] at hdata
  rw [consumeWhole, hrun, ok_bind, loadBytes_of_within (by omega), ok_bind, hdata, hfin]
  have hshort : (keyed (· ^^^ ·) mask payload).length ≤ ctx.maxPayloadLength.toNat := by
    rw [length_keyed, ← hpayload, length_slice (by omega)]
    exact hmax
  obtain ⟨broken, s', hhandle, hframe', hdone⟩ := handleFragment_last h hframe hshort
  rw [hhandle]
  rcases hdone with ⟨rfl, hgone⟩ | ⟨rfl, hagrees, hphase, hcontrol⟩
  · exact ⟨true, _, rfl, Or.inl ⟨rfl, hgone⟩⟩
  · refine ⟨false, _, rfl, Or.inr ⟨rfl, hsame, rfl, rfl, hrest _ ?_, rfl, ?_⟩⟩
    · dsimp only
      omega
    · exact atHead_finished hframe' hframe h.opCode_eq h.lastFin_eq (hframe'.wantsHead.trans hwants) [] hagrees hphase
        hcontrol

theorem consumePart_spec {p : Parse} {size payLength : Nat} {fin : Bool} (h : Agrees ctx p.socket d) (hframe : InFrame d)
    (hfin : fin = p.socket.lastFin) (hsize : 4 ≤ size) (hroom : p.src + size + p.length + 8 ≤ p.memory.length)
    (hhead : size ≤ p.length) (hlen : p.length < payLength + size) (hmax : payLength ≤ ctx.maxPayloadLength.toNat)
    {mask payload : List UInt8} (hmask : (p.memory.drop (p.src + size - 4)).take 4 = mask)
    (hpayload : (p.memory.drop (p.src + size)).take (p.length - size) = payload) :
    ∃ p', consumePart ctx size payLength fin p = .ok (true, p') ∧
      Matches ctx p'.socket (decode ctx { d with phase := .body payLength mask } payload) := by
  have hmaskLength : mask.length = 4 := by rw [← hmask, length_slice (by omega)]
  have hplace : (p.src + size - 4 : Int) = (p.src + size - 4 : Nat) := by omega
  have hpayLength : payload.length = p.length - size := by rw [← hpayload, length_slice (by omega)]
  obtain ⟨memory, hrun, hsame, hdata, -⟩ := unmaskImprecise8_spec hmaskLength p.memory p.length (k := p.length - size)
    (Nat.zero_le (p.src + size)) hroom (Nat.sub_le ..)
  rw [Nat.sub_zero, hpayload] at hdata
  rw [consumePart, hplace, loadBytes_of_within (by omega), ok_bind, hmask, hrun, ok_bind, loadBytes_of_within (by omega),
    ok_bind, hdata, hfin, rotateMask_eq hmaskLength, decode_part h.short mask payload (by omega)]
  obtain ⟨broken, s', hhandle, hsame, hdone⟩ := handleFragment_part
    (s := { p.socket with
      spill := []
      wantsHead := false
      remainingBytes := payLength + size - p.length
      mask := mask.rotate (p.length - size) })
    ⟨h.isOpen, h.events_eq, h.opCode_eq, h.lastFin_eq, h.buffer, h.tip, h.short⟩ hframe (keyed (· ^^^ ·) mask payload)
    (payLength + size - p.length) (by omega)
  dsimp only at hhandle ⊢
  rw [hhandle]
  refine ⟨_, rfl, ?_⟩
  rcases hdone with ⟨-, hnone, hgone⟩ | ⟨-, d', hsome, hagrees, hframe'⟩
  · rw [hnone]
    exact .gone hgone
  · rw [hsome]
    refine .body (hagrees.phase _) (hframe'.phase _) ?_ ?_ ?_ ?_ hsame.spill hsame.wantsHead
    · simp only [hsame.remainingBytes, hsame.mask, hpayLength]
      congr 1
      omega
    · rw [hsame.remainingBytes]
      dsimp only
      omega
    · rw [hsame.remainingBytes]
      dsimp only
      omega
    · rw [hsame.mask, List.length_rotate, hmaskLength]

/-- What one frame leaves: a socket with nothing left to parse, or one between two
frames, with the rest of the read. -/
abbrev FrameTaken (ctx : Context) (d : Decoder) (p : Parse) (returned : Bool) (p' : Parse) : Prop :=
  (returned = true ∧ Matches ctx p'.socket d) ∨
    (returned = false ∧ p'.memory.length = p.memory.length ∧ p'.src + p'.length = p.src + p.length ∧
      p'.length < p.length ∧ p'.socket.spill = [] ∧ ∃ d', AtHead ctx p'.socket d' ∧ d = decode ctx d' (window p'))

theorem consumeFrame_spec {p : Parse} {size payLength : Nat} {fin : Bool} (h : Agrees ctx p.socket d) (hframe : InFrame d)
    (hwants : p.socket.wantsHead = true) (hfin : fin = p.socket.lastFin) (hsizes : size = 6 ∨ size = 8 ∨ size = 14)
    (hroom : p.src + p.length + 32 ≤ p.memory.length) (hlen : size ≤ p.length)
    (hmax : payLength ≤ ctx.maxPayloadLength.toNat) {mask : List UInt8}
    (hkey : (p.memory.drop (p.src + size - 4)).take 4 = mask) :
    ∃ returned p', (if payLength + size ≤ p.length then consumeWhole ctx size payLength fin p
        else consumePart ctx size payLength fin p) = .ok (returned, p') ∧
      FrameTaken ctx (decode ctx (if payLength = 0 then complete ctx d else { d with phase := .body payLength mask })
        ((window p).drop size)) p returned p' := by
  have hbody : (window p).drop size = (p.memory.drop (p.src + size)).take (p.length - size) := by
    rw [window, List.drop_take, List.drop_drop]
  by_cases hwhole : payLength + size ≤ p.length
  · have hpayload : ((p.memory.drop (p.src + size)).take payLength).length = payLength := length_slice (by omega)
    have hsplit : (window p).drop size = (p.memory.drop (p.src + size)).take payLength ++
        (p.memory.drop (p.src + (payLength + size))).take (p.length - (payLength + size)) := by
      have hparts : p.length - size = payLength + (p.length - (payLength + size)) := by omega
      rw [hbody, hparts, slice_append, Nat.add_assoc, Nat.add_comm size]
    have hfinish := decode_whole h.short mask ((p.memory.drop (p.src + size)).take payLength)
      ((p.memory.drop (p.src + (payLength + size))).take (p.length - (payLength + size)))
    rw [hpayload] at hfinish
    rw [if_pos hwhole, hsplit, hfinish]
    obtain ⟨returned, p', hrun, hdone⟩ := consumeWhole_spec h hframe hwants hfin hsizes (by omega) hwhole hmax hkey rfl
    refine ⟨returned, p', hrun, ?_⟩
    rcases hdone with ⟨hreturned, hgone⟩ | ⟨hreturned, hsame, hsrc, hlength, hrest, hspill, hat⟩
    · refine Or.inl ⟨hreturned, .gone ?_⟩
      rw [hgone.2, decode_stopped]
      exact ⟨hgone.1, rfl⟩
    · refine Or.inr ⟨hreturned, hsame, by omega, by omega, hspill, _, hat, ?_⟩
      rw [window, hrest, hsrc, hlength]
  · have hpos : payLength ≠ 0 := by omega
    rw [if_neg hwhole, if_neg hpos]
    obtain ⟨p', hrun, hdone⟩ := consumePart_spec h hframe hfin (by omega) (by omega) hlen (by omega) hmax
      hkey hbody.symm
    exact ⟨true, p', hrun, Or.inl ⟨rfl, hdone⟩⟩

theorem consumeMessage_spec {p : Parse} (h : AtHead ctx p.socket d) (hroom : p.src + p.length + 32 ≤ p.memory.length)
    (hvalid : invalidHead ((window p).headD 0) (((window p).drop 1).headD 0) = false) {size payLength : Nat}
    (hsize : headSize (((window p).drop 1).headD 0) = size) (hlen : size ≤ p.length)
    (hpay : announced ((window p).take size) = payLength) :
    ∃ returned p', consumeMessage ctx size payLength p = .ok (returned, p') ∧
      FrameTaken ctx (decode ctx d (window p)) p returned p' := by
  obtain ⟨hge, hle⟩ := headSize_bounds (((window p).drop 1).headD 0)
  have hsizes : size = 6 ∨ size = 8 ∨ size = 14 := by
    rw [← hsize, headSize]
    split_ifs <;> decide
  rw [hsize] at hge hle
  have hwindow : (window p).length = p.length := length_slice (by omega)
  have hhead : ((window p).take size).headD 0 = (window p).headD 0 := (head_take _ (by omega)).1
  have hfirst : (p.memory.drop p.src).headD 0 = (window p).headD 0 := (head_take _ (by omega)).1.symm
  have hheadLength : ((window p).take size).length = size := by
    rw [List.length_take]
    omega
  have hmask : ((window p).take size).drop (size - 4) = (p.memory.drop (p.src + size - 4)).take 4 := by
    rw [window, List.take_take, Nat.min_eq_left hlen, List.drop_take, List.drop_drop]
    congr 2 <;> omega
  rw [decode_enter h.phase_eq hvalid hsize (by omega), enter_eq, hhead, hpay, hheadLength, hmask, consumeMessage,
    byteAt_eq (by omega), ok_bind, hfirst]
  have hinFrame := opened_inFrame h hvalid
  generalize (window p).headD 0 = first at hinFrame hvalid ⊢
  generalize hkey : (p.memory.drop (p.src + size - 4)).take 4 = mask
  by_cases hstack : getOpCode first ≠ 0 ∧
      (p.socket.opCode.length = 2 ∨ (p.socket.lastFin = false ∧ getOpCode first < 2))
  · rw [if_pos hstack, if_pos (Or.inl (by rw [← h.opCode_eq, ← h.lastFin_eq]; exact hstack)), decode_stopped]
    exact ⟨true, _, rfl, Or.inl ⟨rfl, .gone ⟨Or.inl rfl, by rw [forceClose, h.events_eq]⟩⟩⟩
  by_cases hnone : getOpCode first = 0 ∧ p.socket.opCode = []
  · rw [if_neg hstack, if_pos hnone, if_pos (Or.inr (by rw [← h.opCode_eq]; exact hnone)), decode_stopped]
    exact ⟨true, _, rfl, Or.inl ⟨rfl, .gone ⟨Or.inl rfl, by rw [forceClose, h.events_eq]⟩⟩⟩
  have hallowed : ¬((getOpCode first ≠ 0 ∧ (d.opCode.length = 2 ∨ (d.lastFin = false ∧ getOpCode first < 2))) ∨
      (getOpCode first = 0 ∧ d.opCode = [])) := by
    rw [← h.opCode_eq, ← h.lastFin_eq]
    exact not_or.mpr ⟨hstack, hnone⟩
  rw [if_neg hstack, if_neg hnone, if_neg hallowed]
  by_cases hlong : refusePayloadLength ctx payLength = true
  · rw [if_pos hlong, if_pos hlong, tooBig, decode_stopped]
    exact ⟨true, _, rfl, Or.inl ⟨rfl, .gone ⟨Or.inl rfl, by rw [forceClose, ← h.events_eq]⟩⟩⟩
  have hmax : payLength ≤ ctx.maxPayloadLength.toNat := by
    simpa only [refusePayloadLength, decide_eq_true_eq, Nat.not_lt] using hlong
  rw [if_neg hlong, if_neg hlong]
  have hagrees : Agrees ctx { p.socket with
      opCode := if getOpCode first ≠ 0 then getOpCode first :: p.socket.opCode else p.socket.opCode
      lastFin := isFin first } (opened d first) :=
    ⟨h.isOpen, h.events_eq, by rw [opened, ← h.opCode_eq], rfl, h.buffer, h.tip, h.short⟩
  exact consumeFrame_spec (p := { p with socket := _ }) hagrees hinFrame h.wantsHead rfl hsizes hroom hlen hmax hkey

end TibiaLogin.FrameParsing
