import TibiaLogin.FrameParsing

namespace TibiaLogin.FrameStream

open Memory KeyStream WebSocketProtocol Unmasking FrameDecoder FrameParsing

section

variable {ctx : Context} {s : Socket} {d : Decoder}

/-- What the loop may leave behind: the socket between two frames, with the
same bytes to come. -/
structure Left (ctx : Context) (d : Decoder) (p p' : Parse) : Prop where
  sameMemory : p'.memory.length = p.memory.length
  sameEnd : p'.src + p'.length = p.src + p.length
  fewer : p'.length ≤ p.length
  nothing : p'.length = 0 → p'.socket.spill = []
  decoded : ∃ d', AtHead ctx p'.socket d' ∧ decode ctx d (window p) = decode ctx d' (window p')

theorem Left.refl {p : Parse} (h : AtHead ctx p.socket d) (hspill : p.length = 0 → p.socket.spill = []) : Left ctx d p p :=
  ⟨rfl, rfl, Nat.le_refl _, hspill, d, h, rfl⟩

theorem Left.trans {d' : Decoder} {p p' p'' : Parse} (h : Left ctx d p p')
    (hd : decode ctx d (window p) = decode ctx d' (window p')) (h' : Left ctx d' p' p'') : Left ctx d p p'' := by
  obtain ⟨d'', hat, hdecode⟩ := h'.decoded
  exact ⟨h'.sameMemory.trans h.sameMemory, h'.sameEnd.trans h.sameEnd, h'.fewer.trans h.fewer, h'.nothing, d'', hat,
    hd.trans hdecode⟩

theorem consumeContinuation_part {p : Parse} (h : Agrees ctx p.socket d) (hframe : InFrame d)
    (hphase : d.phase = .body p.socket.remainingBytes p.socket.mask)
    (hmax : p.socket.remainingBytes ≤ ctx.maxPayloadLength.toNat) (hmask : p.socket.mask.length = 4)
    (hspill : p.socket.spill = []) (hwants : p.socket.wantsHead = false) (hend : ¬p.socket.remainingBytes ≤ p.length)
    (hroom : p.src + p.length + 32 ≤ p.memory.length) :
    ∃ p', consumeContinuation ctx p = .ok (false, p') ∧ Matches ctx p'.socket (decode ctx d (window p)) := by
  have hd : d = { d with phase := .body p.socket.remainingBytes p.socket.mask } := by rw [← hphase]
  obtain ⟨memory, hrun, hsame, hdata⟩ := unmaskRead_spec hmask ctx p.memory p.src p.length (by omega)
  have hwindow : (window p).length = p.length := length_slice (by omega)
  have hmore := decode_part h.short p.socket.mask (window p) (n := p.socket.remainingBytes) (by omega)
  rw [← hd, hwindow] at hmore
  rw [← window] at hdata
  obtain ⟨broken, s', hhandle, hkept, hdone⟩ := handleFragment_part
    (s := { p.socket with remainingBytes := p.socket.remainingBytes - p.length })
    ⟨h.isOpen, h.events_eq, h.opCode_eq, h.lastFin_eq, h.buffer, h.tip, h.short⟩ hframe
    (keyed (· ^^^ ·) p.socket.mask (window p)) (p.socket.remainingBytes - p.length) (by omega)
  rw [consumeContinuation, if_neg hend, hrun, ok_bind]
  dsimp only at hhandle ⊢
  rw [loadBytes_of_within (by omega), ok_bind, hdata, hhandle]
  dsimp only
  rcases hdone with ⟨rfl, hnone, hgone⟩ | ⟨rfl, d', hsome, hagrees, hframe'⟩
  · rw [if_pos (Or.inl rfl), hmore, hnone]
    exact ⟨_, rfl, .gone hgone⟩
  · have hturned : Matches ctx { s' with mask := p.socket.mask.rotate p.length }
        { d' with phase := .body (p.socket.remainingBytes - p.length) (p.socket.mask.rotate p.length) } := by
      refine .body ⟨hagrees.isOpen, hagrees.events_eq, hagrees.opCode_eq, hagrees.lastFin_eq, hagrees.buffer,
        hagrees.tip, hagrees.short⟩ (hframe'.phase _) ?_ ?_ ?_ ?_ (hkept.spill.trans hspill)
        (hkept.wantsHead.trans hwants)
      · simp only [hkept.remainingBytes]
      · rw [hkept.remainingBytes]
        exact Nat.sub_pos_of_lt (by omega)
      · rw [hkept.remainingBytes]
        exact (Nat.sub_le _ _).trans hmax
      · rw [List.length_rotate, hmask]
    rw [hmore, hsome]
    dsimp only
    by_cases hquarter : p.length % 4 = 0
    · rw [if_pos (Or.inr hquarter)]
      refine ⟨_, rfl, ?_⟩
      have hmask' : s'.mask = p.socket.mask.rotate p.length := by rw [hkept.mask, rotate_of_dvd hmask hquarter]
      rwa [← hmask'] at hturned ⊢
    · rw [if_neg (not_or.mpr ⟨Bool.false_ne_true, hquarter⟩)]
      refine ⟨_, rfl, ?_⟩
      rwa [hkept.mask, rotateMask_eq hmask]

theorem consumeContinuation_spec {p : Parse} (h : Agrees ctx p.socket d) (hframe : InFrame d)
    (hphase : d.phase = .body p.socket.remainingBytes p.socket.mask) (hpos : 0 < p.socket.remainingBytes)
    (hmax : p.socket.remainingBytes ≤ ctx.maxPayloadLength.toNat) (hmask : p.socket.mask.length = 4)
    (hspill : p.socket.spill = []) (hwants : p.socket.wantsHead = false)
    (hroom : p.src + p.length + 32 ≤ p.memory.length) :
    ∃ finished p', consumeContinuation ctx p = .ok (finished, p') ∧
      ((finished = false ∧ Matches ctx p'.socket (decode ctx d (window p))) ∨
        (finished = true ∧ ∃ d', AtHead ctx p'.socket d' ∧ p'.socket.spill = [] ∧
          decode ctx d (window p) = decode ctx d' (window p') ∧
          p'.memory.length = p.memory.length ∧ p'.src + p'.length = p.src + p.length)) := by
  have hd : d = { d with phase := .body p.socket.remainingBytes p.socket.mask } := by rw [← hphase]
  by_cases hend : p.socket.remainingBytes ≤ p.length
  · obtain ⟨memory, hrun, hsame, hdata, hrest⟩ := unmaskRest_spec hmask p.memory p.src
      p.socket.remainingBytes (by omega)
    generalize hpayload : (p.memory.drop p.src).take p.socket.remainingBytes = payload at hdata
    have hlength : payload.length = p.socket.remainingBytes := by rw [← hpayload, length_slice (by omega)]
    have hwindow : window p = payload ++
        (p.memory.drop (p.src + p.socket.remainingBytes)).take (p.length - p.socket.remainingBytes) := by
      have hparts : p.length = p.socket.remainingBytes + (p.length - p.socket.remainingBytes) := by omega
      conv_lhs => rw [window, hparts, slice_append, hpayload]
    have hfinish := decode_whole h.short p.socket.mask payload
      ((p.memory.drop (p.src + p.socket.remainingBytes)).take (p.length - p.socket.remainingBytes))
    rw [hlength, if_neg (by omega), ← hd, ← hwindow] at hfinish
    have hshort : (keyed (· ^^^ ·) p.socket.mask payload).length ≤ ctx.maxPayloadLength.toNat := by
      rw [length_keyed]
      omega
    obtain ⟨broken, s', hhandle, hkept, hdone⟩ := handleFragment_last h hframe hshort
    rw [consumeContinuation, if_pos hend, hrun, ok_bind, loadBytes_of_within (by omega), ok_bind, hdata]
    dsimp only
    rw [hhandle]
    rcases hdone with ⟨rfl, hgone⟩ | ⟨rfl, hagrees, hover, hcontrol⟩
    · refine ⟨false, _, rfl, Or.inl ⟨rfl, .gone ?_⟩⟩
      rw [hfinish, hgone.2, decode_stopped]
      exact ⟨hgone.1, rfl⟩
    · refine ⟨true, _, rfl, Or.inr ⟨rfl, finish ctx d (keyed (· ^^^ ·) p.socket.mask payload), ?_,
        hkept.spill.trans hspill, ?_, hsame, ?_⟩⟩
      · have hat := atHead_finished hkept hframe h.opCode_eq h.lastFin_eq rfl s'.spill hagrees hover hcontrol
        rwa [← hkept.lastFin] at hat
      · rw [hfinish, window]
        dsimp only
        rw [hkept.remainingBytes, hrest _ (Nat.le_refl _)]
      · dsimp only
        rw [hkept.remainingBytes]
        omega
  · obtain ⟨p', hrun, hmatches⟩ := consumeContinuation_part h hframe hphase hmax hmask hspill hwants hend hroom
    exact ⟨false, p', hrun, Or.inl ⟨rfl, hmatches⟩⟩

theorem window_length {p : Parse} (hroom : p.src + p.length + 32 ≤ p.memory.length) : (window p).length = p.length :=
  length_slice (by omega)

theorem window_byte {p : Parse} {i : Nat} (hi : i < p.length) (hroom : p.src + p.length + 32 ≤ p.memory.length) :
    byteAt p.memory (p.src + i) = .ok (((window p).drop i).headD 0) := by
  have hpos : 0 < p.length - i := by omega
  rw [byteAt_eq (by omega), window, List.drop_take, List.drop_drop]
  cases p.memory.drop (p.src + i) with
  | nil => rw [List.take_nil]
  | cons b rest =>
      obtain ⟨n, hn⟩ := Nat.exists_eq_add_of_lt hpos
      rw [hn, Nat.zero_add, List.take_succ_cons]
      rfl

theorem window_slice {p : Parse} {i n size : Nat} (hi : i + n ≤ size) (hsize : size ≤ p.length) :
    (p.memory.drop (p.src + i)).take n = (((window p).take size).drop i).take n := by
  rw [window, List.take_take, Nat.min_eq_left hsize, List.drop_take, List.drop_drop, List.take_take,
    Nat.min_eq_left (by omega)]

theorem announced_take {bytes : List UInt8} {n : Nat} (h : 2 ≤ n) :
    announced (bytes.take n) =
      if payloadLength ((bytes.drop 1).headD 0) < 126 then (payloadLength ((bytes.drop 1).headD 0)).toNat
      else bigEndian (((bytes.take n).drop 2).take (headSize ((bytes.drop 1).headD 0) - 6)) := by
  rw [announced, (head_take bytes h).2]

/-- How the loop over frames ends: it returns, or the next frame has no whole head. -/
abbrev Looped (ctx : Context) (d : Decoder) (p : Parse) (returned : Bool) (p' : Parse) : Prop :=
  (returned = true ∧ Matches ctx p'.socket (decode ctx d (window p))) ∨
    (returned = false ∧ Left ctx d p p' ∧ Incomplete (window p'))

theorem Looped.after {d' : Decoder} {p p' p'' : Parse} {returned : Bool} (h : Looped ctx d' p' returned p'')
    (hd : decode ctx d (window p) = decode ctx d' (window p')) (hleft : Left ctx d p p') : Looped ctx d p returned p'' := by
  rw [Looped, hd]
  rcases h with hmatched | ⟨hreturned, hrest, hincomplete⟩
  · exact Or.inl hmatched
  · exact Or.inr ⟨hreturned, hleft.trans hd hrest, hincomplete⟩

theorem consumeMessages_spec (fuel : Nat) {p : Parse} (h : AtHead ctx p.socket d)
    (hspill : p.length = 0 → p.socket.spill = []) (hfuel : p.length ≤ fuel)
    (hroom : p.src + p.length + 32 ≤ p.memory.length) :
    ∃ returned p', consumeMessages ctx fuel p = .ok (returned, p') ∧ Looped ctx d p returned p' := by
  induction fuel generalizing p d with
  | zero => exact ⟨false, p, rfl, Or.inr ⟨rfl, .refl h hspill, Or.inl (by rw [window_length hroom]; omega)⟩⟩
  | succ fuel ih =>
      rw [consumeMessages]
      by_cases hshort : p.length < 6
      · rw [if_pos hshort]
        exact ⟨false, p, rfl, Or.inr ⟨rfl, .refl h hspill, Or.inl (by rw [window_length hroom]; exact hshort)⟩⟩
      have hfirst := window_byte (i := 0) (by omega) hroom
      rw [Nat.add_zero, List.drop_zero] at hfirst
      rw [if_neg hshort, hfirst, ok_bind, window_byte (by omega) hroom, ok_bind]
      by_cases hinvalid : invalidHead ((window p).headD 0) (((window p).drop 1).headD 0) = true
      · rw [if_pos hinvalid]
        refine ⟨true, _, rfl, Or.inl ⟨rfl, .gone ?_⟩⟩
        rw [decode_invalid h.phase_eq (by rw [window_length hroom]; omega) hinvalid]
        exact ⟨Or.inl rfl, by rw [forceClose, h.events_eq]⟩
      have hvalid : invalidHead ((window p).headD 0) (((window p).drop 1).headD 0) = false := by simpa using hinvalid
      -- a frame with a whole head is taken, and the loop goes on after it
      have hnext : ∀ size payLength, headSize (((window p).drop 1).headD 0) = size → size ≤ p.length →
          announced ((window p).take size) = payLength →
          ∃ returned p', (consumeMessage ctx size payLength p >>= fun result =>
              if result.1 then pure (true, result.2) else consumeMessages ctx fuel result.2) = Except.ok (returned, p') ∧
            Looped ctx d p returned p' := by
        intro size payLength hsize hlen hpay
        obtain ⟨returned, p', hrun, ⟨rfl, hmatches⟩ | ⟨rfl, hmemory, hend, hless, hempty, d', hat, hdecode⟩⟩ :=
          consumeMessage_spec h hroom hvalid hsize hlen hpay
        · exact ⟨true, p', by rw [hrun]; rfl, Or.inl ⟨rfl, hmatches⟩⟩
        · obtain ⟨returned, p'', hrun', hdone⟩ := ih hat (fun _ => hempty) (by omega) (by omega)
          refine ⟨returned, p'', by rw [hrun]; exact hrun', hdone.after hdecode ?_⟩
          exact ⟨hmemory, hend, Nat.le_of_lt hless, fun _ => hempty, d', hat, hdecode⟩
      have hmissing : ∀ size, headSize (((window p).drop 1).headD 0) = size → p.length < size →
          ∃ returned p', (pure (false, p) : Except Fault (Bool × Parse)) = Except.ok (returned, p') ∧
            Looped ctx d p returned p' := fun size hsize hlen =>
        ⟨false, p, rfl, Or.inr ⟨rfl, .refl h hspill, Or.inr ⟨hvalid, by rw [hsize, window_length hroom]; exact hlen⟩⟩⟩
      rw [if_neg hinvalid]
      by_cases hsmall : payloadLength (((window p).drop 1).headD 0) < 126
      · rw [if_pos hsmall]
        exact hnext 6 _ (if_pos hsmall) (by omega) (by rw [announced_take (by decide), if_pos hsmall])
      rw [if_neg hsmall]
      by_cases hmedium : payloadLength (((window p).drop 1).headD 0) = 126
      · have hsize : headSize (((window p).drop 1).headD 0) = 8 := by rw [headSize, if_neg hsmall, if_pos hmedium]
        rw [if_pos hmedium]
        by_cases hlen : p.length < 8
        · rw [if_pos hlen]
          exact hmissing 8 hsize hlen
        · rw [if_neg hlen, loadBytes_of_within (by omega), ok_bind, window_slice (by decide) (Nat.le_of_not_lt hlen)]
          exact hnext 8 _ hsize (by omega) (by rw [announced_take (by decide), if_neg hsmall, hsize])
      · have hsize : headSize (((window p).drop 1).headD 0) = 14 := by rw [headSize, if_neg hsmall, if_neg hmedium]
        rw [if_neg hmedium]
        by_cases hlen : p.length < 14
        · rw [if_pos hlen]
          exact hmissing 14 hsize hlen
        · rw [if_neg hlen, loadBytes_of_within (by omega), ok_bind, window_slice (by decide) (Nat.le_of_not_lt hlen)]
          exact hnext 14 _ hsize (by omega) (by rw [announced_take (by decide), if_neg hsmall, hsize])

theorem parseNext_spec {p : Parse} (h : AtHead ctx p.socket d) (hspill : p.length = 0 → p.socket.spill = [])
    (hroom : p.src + p.length + 32 ≤ p.memory.length) :
    ∃ p', parseNext ctx p = .ok p' ∧ Matches ctx p'.socket (decode ctx d (window p)) := by
  obtain ⟨returned, p', hrun, ⟨rfl, hmatches⟩ | ⟨rfl, hleft, hincomplete⟩⟩ :=
    consumeMessages_spec p.length h hspill (Nat.le_refl _) hroom
  · exact ⟨p', by rw [parseNext, hrun]; rfl, hmatches⟩
  obtain ⟨d', hat, hdecode⟩ := hleft.decoded
  have hroom' : p'.src + p'.length + 32 ≤ p'.memory.length := by
    have := hleft.sameMemory
    have := hleft.sameEnd
    omega
  have hkept : ({ d' with phase := .head [] } : Decoder) = d' := by rw [← hat.phase_eq]
  have hwindow := window_length hroom'
  rw [hdecode, decode_incomplete hat.phase_eq hincomplete, parseNext, hrun, ok_bind]
  by_cases hempty : p'.length = 0
  · have hnothing : window p' = p'.socket.spill := by
      rw [hleft.nothing hempty, List.eq_nil_of_length_eq_zero (hwindow.trans hempty)]
    rw [hnothing] at hincomplete ⊢
    refine ⟨p', ?_, .head (hkept.symm ▸ hat) rfl hincomplete⟩
    dsimp only
    rw [if_pos (Or.inr hempty)]
    rfl
  · have hshort := hincomplete.length_lt
    rw [hwindow] at hshort
    have hall : ((p'.memory.drop p'.src).take p'.length).take (p'.length % 16) = window p' := by
      rw [Nat.mod_eq_of_lt (by omega), List.take_take, Nat.min_self, window]
    have hnext : ¬(false = true ∨ p'.length = 0) := not_or.mpr ⟨Bool.false_ne_true, hempty⟩
    dsimp only
    rw [if_neg hnext, loadBytes_of_within (by omega), ok_bind, ← window]
    have hfits : storeBytes (List.replicate 13 (0 : UInt8)) 0 (window p') = .ok (overwrite _ 0 (window p')) :=
      storeBytes_of_within (i := 0) (by rw [List.length_replicate]; omega)
    rw [hfits, ok_bind, window, hall]
    exact ⟨_, rfl, .head ⟨⟨hat.isOpen, hat.events_eq, hat.opCode_eq, hat.lastFin_eq, hat.buffer, hat.tip, hat.short⟩, rfl,
      hat.control_eq, hat.messages, hat.wantsHead⟩ rfl hincomplete⟩

theorem consume_spec {p : Parse} (h : Matches ctx p.socket d) (hopen : ¬Gone p.socket d) (hpos : 0 < p.length)
    (hback : 14 ≤ p.src) (hroom : p.src + p.length + 32 ≤ p.memory.length) :
    ∃ p', consume ctx p = .ok p' ∧ Matches ctx p'.socket (decode ctx d (window p)) := by
  rcases h with hgone | ⟨hat, hphase, hincomplete⟩ | ⟨hagrees, hframe, hphase, hremaining, hmax, hmask, hspill, hwants⟩
  · exact absurd hgone hopen
  · have hshort := hincomplete.length_lt
    have hplace : (p.src - p.socket.spill.length : Int) = (p.src - p.socket.spill.length : Nat) := by omega
    have hstart : p.src - p.socket.spill.length + p.socket.spill.length = p.src := by omega
    rw [consume, hplace, storeBytes_of_within (by omega), ok_bind]
    dsimp only
    rw [if_pos hat.wantsHead]
    have hwindow : ((overwrite p.memory (p.src - p.socket.spill.length) p.socket.spill).drop
        (p.src - p.socket.spill.length)).take (p.length + p.socket.spill.length) = p.socket.spill ++ window p := by
      rw [Nat.add_comm p.length, slice_append, hstart, slice_overwrite (by omega) (Nat.le_refl _), List.take_length,
        drop_overwrite_of_le (by omega) (by omega), window]
    obtain ⟨p', hrun, hdone⟩ := parseNext_spec (p := ⟨overwrite p.memory (p.src - p.socket.spill.length) p.socket.spill,
      p.src - p.socket.spill.length, p.length + p.socket.spill.length, p.socket⟩) hat
      (fun hnone => absurd hnone (by dsimp only; omega)) (by dsimp only; rw [length_overwrite (by omega)]; omega)
    refine ⟨p', hrun, ?_⟩
    rwa [window, hwindow, decode_append, decode_incomplete rfl hincomplete, ← hphase] at hdone
  · have hplace : (p.src - (0 : Nat) : Int) = p.src := by omega
    have hstart : storeBytes p.memory (p.src - (0 : Nat) : Int) [] = .ok p.memory := by
      rw [hplace, storeBytes_of_within (by rw [List.length_nil]; omega), overwrite_nil]
    rw [consume, hspill, List.length_nil, hstart, ok_bind, Nat.sub_zero, Nat.add_zero]
    dsimp only
    rw [hwants, if_neg Bool.false_ne_true]
    obtain ⟨finished, p', hrun, ⟨rfl, hmatches⟩ | ⟨rfl, d', hat, hempty, hdecode, hmemory, hend⟩⟩ :=
      consumeContinuation_spec hagrees hframe hphase hremaining hmax hmask hspill hwants hroom
    · exact ⟨p', by rw [hrun]; rfl, hmatches⟩
    · obtain ⟨p'', hrun', hmatches⟩ := parseNext_spec hat (fun _ => hempty) (by omega)
      exact ⟨p'', by rw [hrun]; exact hrun', hdecode ▸ hmatches⟩

/-- A read into the middle of the buffer: at least one byte, and no more than
there is room for. -/
structure Fits (ctx : Context) (e : Delivery) : Prop where
  buffer : e.before.length = recvBufferPadding + ctx.recvBufferLength + recvBufferPadding
  some : 0 < e.data.length
  all : e.data.length ≤ ctx.recvBufferLength

theorem onData_spec (h : Matches ctx s d) {e : Delivery} (he : Fits ctx e) :
    ∃ s', onData ctx s e = .ok s' ∧ Matches ctx s' (decode ctx d e.data) := by
  obtain ⟨hbuffer, hsome, hall⟩ := he
  rw [onData]
  by_cases hgone : s.isClosed = true ∨ s.isShuttingDown = true
  · rw [if_pos hgone]
    rcases h with ⟨-, rfl⟩ | ⟨hat⟩ | ⟨hagrees⟩
    · exact ⟨s, rfl, .gone ⟨hgone, decode_stopped _ _⟩⟩
    · simp [hat.isOpen] at hgone
    · simp [hagrees.isOpen] at hgone
  · have hfits : recvBufferPadding + e.data.length ≤ e.before.length := by omega
    have hpadding : recvBufferPadding = 32 := rfl
    have hwindow : window ⟨overwrite e.before recvBufferPadding e.data, recvBufferPadding, e.data.length, s⟩ = e.data := by
      rw [window, slice_overwrite (by dsimp only; omega) (Nat.le_refl _), List.take_length]
    obtain ⟨p', hrun, hdone⟩ := consume_spec
      (p := ⟨overwrite e.before recvBufferPadding e.data, recvBufferPadding, e.data.length, s⟩) h
      (fun hdone => hgone hdone.1) hsome (by dsimp only; omega) (by dsimp only; rw [length_overwrite hfits]; omega)
    rw [if_neg hgone, storeBytes_of_within hfits, ok_bind, hrun]
    exact ⟨p'.socket, rfl, hwindow ▸ hdone⟩

theorem initial_matches : Matches ctx Socket.initial Decoder.initial :=
  .head ⟨⟨⟨rfl, rfl⟩, rfl, rfl, rfl, rfl, rfl, Nat.zero_le _⟩, rfl, rfl, fun op hmem => (List.not_mem_nil hmem).elim, rfl⟩ rfl
    (Or.inl (by decide))

theorem reads_spec (h : Matches ctx s d) {deliveries : List Delivery} (hfits : ∀ e ∈ deliveries, Fits ctx e) :
    ∃ s', deliveries.foldlM (onData ctx) s = .ok s' ∧ Matches ctx s' (decode ctx d (deliveries.flatMap Delivery.data)) := by
  induction deliveries generalizing s d with
  | nil => exact ⟨s, rfl, h⟩
  | cons e deliveries ih =>
      obtain ⟨he, hrest⟩ := List.forall_mem_cons.mp hfits
      obtain ⟨s₁, hrun, hmatches⟩ := onData_spec h he
      obtain ⟨s', hruns, hdone⟩ := ih hmatches hrest
      refine ⟨s', by rw [List.foldlM_cons, hrun]; exact hruns, ?_⟩
      rwa [List.flatMap_cons, decode_append]

/-- The parser never leaves its buffers, and does what a decoder does that is
given the bytes one by one, however the reads cut them. -/
theorem reads_decoded (ctx : Context) {deliveries : List Delivery} (hfits : ∀ e ∈ deliveries, Fits ctx e) :
    ∃ s, deliveries.foldlM (onData ctx) Socket.initial = .ok s ∧
      s.events = (decode ctx .initial (deliveries.flatMap Delivery.data)).events ∧
      ((s.isClosed = true ∨ s.isShuttingDown = true) ↔
        (decode ctx .initial (deliveries.flatMap Delivery.data)).phase = .stopped) := by
  obtain ⟨s, hrun, hmatches⟩ := reads_spec initial_matches hfits
  exact ⟨s, hrun, hmatches.events_eq, hmatches.stopped_iff⟩

end

def freshDelivery (recvBufferLength : Nat) (data : List UInt8) : Delivery :=
  ⟨List.replicate (recvBufferPadding + recvBufferLength + recvBufferPadding) 0, data⟩

theorem fits_fresh (ctx : Context) (reads : List (List UInt8))
    (h : ∀ data ∈ reads, 0 < data.length ∧ data.length ≤ ctx.recvBufferLength) :
    ∀ e ∈ reads.map (freshDelivery ctx.recvBufferLength), Fits ctx e := by
  intro e he
  obtain ⟨data, hdata, rfl⟩ := List.mem_map.mp he
  exact ⟨List.length_replicate .., (h data hdata).1, (h data hdata).2⟩

def cutReads : List (List UInt8) :=
  [[0x01, 0x82, 1], [2, 3, 4, 105, 107, 0x89, 0x81, 9, 9, 9, 9, 14], [0x80, 0x81, 5, 6, 7, 8, 36]]

def plainContext : Context := ⟨125, 16, fun _ _ => true⟩

theorem reads_decoded_cut :
    ∃ s, (cutReads.map (freshDelivery 16)).foldlM (onData plainContext) Socket.initial = .ok s ∧
      s.events = [.pong [7], .message 1 [104, 105, 33]] := by
  obtain ⟨s, hrun, hevents, -⟩ := reads_decoded plainContext (fits_fresh plainContext cutReads (by decide))
  exact ⟨s, hrun, hevents.trans (by decide +kernel)⟩

end TibiaLogin.FrameStream
