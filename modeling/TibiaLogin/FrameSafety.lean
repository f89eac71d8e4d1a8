import TibiaLogin.FrameStream

namespace TibiaLogin.FrameSafety

open KeyStream WebSocketProtocol FrameDecoder FrameParsing FrameStream

def IsData (opCode : UInt8) : Prop := opCode = 1 ∨ opCode = 2

section

variable (ctx : Context)

/-- What may happen on a socket that stays open. -/
def Goes : Event → Prop
  | .message opCode data => IsData opCode ∧ data.length ≤ ctx.maxPayloadLength.toNat ∧
      (opCode = 1 → isValidUtf8 data = true) ∧ ctx.keepsOpen opCode data = true
  | .pong data => data.length ≤ 125
  | _ => False

/-- What may happen last. -/
def Ends : Event → Prop
  | .message opCode data => IsData opCode ∧ data.length ≤ ctx.maxPayloadLength.toNat ∧
      (opCode = 1 → isValidUtf8 data = true) ∧ ctx.keepsOpen opCode data = false
  | .ended code message => (code = 1005 ∧ message = []) ∨ (code = 1006 ∧ message = errInvalidClosePayload) ∨
      ((1000 ≤ code ∧ code ≤ 1003 ∨ 1007 ≤ code ∧ code ≤ 1011 ∨ 4000 ≤ code ∧ code ≤ 4999) ∧
        message.length ≤ 123 ∧ isValidUtf8 message = true)
  | .forceClosed reason => reason ∈ [errProtocol, errTooBigMessage, errInvalidText]
  | .pong _ => False

/-- A history that has come to its end. -/
def Ended (events : List Event) : Prop := ∃ before last, events = before ++ [last] ∧ (∀ e ∈ before, Goes ctx e) ∧ Ends ctx last

/-- A frame that is open, with so many bytes to come: a part of a message, or a
control frame within one or between two. -/
structure OpenFrame (d : Decoder) (remaining : Nat) : Prop where
  goes : ∀ e ∈ d.events, Goes ctx e
  fits : d.message.length ≤ ctx.maxPayloadLength.toNat
  stack : ∃ opCode outer, d.opCode = opCode :: outer ∧ (∀ op ∈ outer, IsData op) ∧
    ((IsData opCode ∧ d.control = []) ∨
      ((opCode = 8 ∨ opCode = 9 ∨ opCode = 10) ∧ d.lastFin = true ∧ d.control.length + remaining ≤ 125))

inductive Sound : Decoder → Prop
  | head {d : Decoder} {bytes : List UInt8} (hphase : d.phase = .head bytes) (hgoes : ∀ e ∈ d.events, Goes ctx e)
      (hfits : d.message.length ≤ ctx.maxPayloadLength.toNat) (hstack : ∀ op ∈ d.opCode, IsData op) (hcontrol : d.control = []) :
      Sound d
  | body {d : Decoder} {remaining : Nat} {mask : List UInt8} (hphase : d.phase = .body (remaining + 1) mask)
      (hframe : OpenFrame ctx d (remaining + 1)) : Sound d
  | stopped {d : Decoder} (hphase : d.phase = .stopped) (hends : Ended ctx d.events) : Sound d

end

variable {ctx : Context} {d : Decoder}

theorem IsData.lt {opCode : UInt8} (h : IsData opCode) : opCode < 3 := by
  rcases h with rfl | rfl <;> decide

theorem stop_sound (h : ∀ e ∈ d.events, Goes ctx e) {last : Event} (hlast : Ends ctx last) :
    Sound ctx (.stop (d.events ++ [last])) := .stopped rfl ⟨d.events, last, rfl, h, hlast⟩

theorem parseClosePayload_ends {src : List UInt8} (h : src.length ≤ 125) :
    Ends ctx (.ended (parseClosePayload src).1 (parseClosePayload src).2) := by
  rw [parseClosePayload]
  dsimp only
  split_ifs with hshort hbad
  · exact Or.inl ⟨rfl, rfl⟩
  · exact Or.inr (Or.inl ⟨rfl, rfl⟩)
  · have hlength : (src.drop 2).length ≤ 123 := by
      rw [List.length_drop]
      omega
    simp only [not_or, not_and, Bool.not_eq_false] at hbad
    obtain ⟨hlow, hhigh, hgap, hreserved, hvalid⟩ := hbad
    refine Or.inr (Or.inr ⟨?_, hlength, hvalid⟩)
    dsimp only
    simp only [UInt16.lt_iff_toNat_lt, UInt16.le_iff_toNat_le, UInt16.reduceToNat] at hlow hhigh hgap hreserved ⊢
    omega

theorem complete_sound (h : OpenFrame ctx d 0) : Sound ctx (complete ctx d) := by
  obtain ⟨hgoes, hfits, opCode, outer, hstack, houter, hkind⟩ := h
  have hcurrent : d.current = opCode := by rw [Decoder.current, hstack]; rfl
  have htail : d.opCode.tail = outer := by rw [hstack]; rfl
  rw [complete]
  rcases hkind with ⟨hdata, hcontrol⟩ | ⟨hop, hfin, hshort⟩
  · have hall : ∀ op ∈ d.opCode, IsData op := by
      rw [hstack]
      exact List.forall_mem_cons.mpr ⟨hdata, houter⟩
    rw [hcurrent, htail, if_pos hdata.lt]
    split_ifs with hmore htext hkeeps
    · exact .head rfl hgoes hfits hall hcontrol
    · exact stop_sound hgoes (by simp [Ends])
    · refine .head rfl (List.forall_mem_append.mpr ⟨hgoes, List.forall_mem_singleton.mpr ?_⟩) (Nat.zero_le _) houter hcontrol
      exact ⟨hdata, hfits, fun h => by simpa using fun hbad => htext ⟨h, hbad⟩, hkeeps⟩
    · refine stop_sound hgoes ⟨hdata, hfits, fun h => by simpa using fun hbad => htext ⟨h, hbad⟩, ?_⟩
      simpa using hkeeps
  · have hthree : ¬opCode < 3 := by rcases hop with rfl | rfl | rfl <;> decide
    rw [hcurrent, htail, if_neg (by simp [hfin]), if_neg hthree]
    split_ifs with hclose hping
    · exact stop_sound hgoes (parseClosePayload_ends (by omega))
    · refine .head rfl (List.forall_mem_append.mpr ⟨hgoes, List.forall_mem_singleton.mpr ?_⟩) hfits houter rfl
      exact (Nat.le_add_right _ _).trans hshort
    · exact .head rfl hgoes hfits houter rfl

theorem absorb_openFrame {d' : Decoder} {remaining : Nat} {b : UInt8} (h : OpenFrame ctx d (remaining + 1))
    (habsorb : absorb ctx d [b] = some d') : OpenFrame ctx d' remaining := by
  obtain ⟨hgoes, hfits, opCode, outer, hstack, houter, hkind⟩ := h
  have hcurrent : d.current = opCode := by rw [Decoder.current, hstack]; rfl
  rw [absorb, hcurrent] at habsorb
  rcases hkind with ⟨hdata, hcontrol⟩ | ⟨hop, hfin, hshort⟩
  · rw [if_pos hdata.lt] at habsorb
    split_ifs at habsorb with hlong
    cases habsorb
    refine ⟨hgoes, ?_, opCode, outer, hstack, houter, Or.inl ⟨hdata, hcontrol⟩⟩
    simpa [refusePayloadLength] using hlong
  · rw [if_neg (by rcases hop with rfl | rfl | rfl <;> decide)] at habsorb
    cases habsorb
    refine ⟨hgoes, hfits, opCode, outer, hstack, houter, Or.inr ⟨hop, hfin, ?_⟩⟩
    rw [List.length_append, List.length_singleton]
    omega

theorem valid_head {first second : UInt8} (h : invalidHead first second = false) :
    getOpCode first = 0 ∨ IsData (getOpCode first) ∨
      ((getOpCode first = 8 ∨ getOpCode first = 9 ∨ getOpCode first = 10) ∧ isFin first = true ∧
        (payloadLength second).toNat ≤ 125) := by
  simp only [invalidHead, Bool.or_eq_false_iff, Bool.and_eq_false_iff, decide_eq_false_iff_not, UInt8.lt_iff_toNat_lt,
    Bool.not_eq_false'] at h
  obtain ⟨⟨⟨-, hgap⟩, hlast⟩, hcontrol⟩ := h
  simp only [IsData, ← UInt8.toNat_inj, UInt8.reduceToNat] at hgap hlast hcontrol ⊢
  by_cases hop : (getOpCode first).toNat ≤ 2
  · omega
  · obtain ⟨hfin, hshort⟩ := hcontrol.resolve_left (by omega)
    exact Or.inr (Or.inr ⟨by omega, hfin, by omega⟩)

theorem opened_openFrame {bytes : List UInt8} (hgoes : ∀ e ∈ d.events, Goes ctx e)
    (hfits : d.message.length ≤ ctx.maxPayloadLength.toNat) (hstack : ∀ op ∈ d.opCode, IsData op) (hcontrol : d.control = [])
    (hvalid : invalidHead (bytes.headD 0) ((bytes.drop 1).headD 0) = false)
    (hopen : ¬(getOpCode (bytes.headD 0) = 0 ∧ d.opCode = [])) :
    OpenFrame ctx (opened d (bytes.headD 0)) (announced bytes) := by
  refine ⟨hgoes, hfits, ?_⟩
  rcases valid_head hvalid with hzero | hdata | ⟨hop, hfin, hshort⟩
  · obtain ⟨opCode, outer, hd⟩ := List.exists_cons_of_ne_nil fun hnone => hopen ⟨hzero, hnone⟩
    rw [hd] at hstack
    obtain ⟨hdata, houter⟩ := List.forall_mem_cons.mp hstack
    exact ⟨opCode, outer, (if_neg (not_not.mpr hzero)).trans hd, houter, Or.inl ⟨hdata, hcontrol⟩⟩
  · have hnonzero : getOpCode (bytes.headD 0) ≠ 0 := by
      intro hzero
      rw [hzero] at hdata
      rcases hdata with hop | hop <;> cases hop
    exact ⟨_, d.opCode, if_pos hnonzero, hstack, Or.inl ⟨hdata, hcontrol⟩⟩
  · have hnonzero : getOpCode (bytes.headD 0) ≠ 0 := by
      intro hzero
      rw [hzero] at hop
      rcases hop with hop | hop | hop <;> cases hop
    refine ⟨_, d.opCode, if_pos hnonzero, hstack, Or.inr ⟨hop, hfin, ?_⟩⟩
    have hsmall : payloadLength ((bytes.drop 1).headD 0) < 126 := by
      rw [UInt8.lt_iff_toNat_lt]
      exact Nat.lt_succ_of_le hshort
    have hannounced : announced bytes = (payloadLength ((bytes.drop 1).headD 0)).toNat := if_pos hsmall
    have hnothing : (opened d (bytes.headD 0)).control = [] := hcontrol
    rw [hannounced, hnothing, List.length_nil]
    omega

theorem enter_sound {bytes : List UInt8} (hgoes : ∀ e ∈ d.events, Goes ctx e)
    (hfits : d.message.length ≤ ctx.maxPayloadLength.toNat) (hstack : ∀ op ∈ d.opCode, IsData op) (hcontrol : d.control = [])
    (hvalid : invalidHead (bytes.headD 0) ((bytes.drop 1).headD 0) = false) : Sound ctx (enter ctx d bytes) := by
  rw [enter_eq]
  split_ifs with hwrong hlong hnone
  · exact stop_sound hgoes (by simp [Ends])
  · exact stop_sound hgoes (by simp [Ends])
  all_goals
    have hframe := opened_openFrame hgoes hfits hstack hcontrol hvalid fun hnothing => hwrong (Or.inr hnothing)
  · exact complete_sound (hnone ▸ hframe)
  · obtain ⟨n, hn⟩ := Nat.exists_eq_succ_of_ne_zero hnone
    rw [hn] at hframe ⊢
    exact .body rfl ⟨hframe.goes, hframe.fits, hframe.stack⟩

theorem step_sound (h : Sound ctx d) (b : UInt8) : Sound ctx (step ctx d b) := by
  rw [step]
  cases h with
  | head hphase hgoes hfits hstack hcontrol =>
      rw [hphase]
      dsimp only
      rw [readHead]
      split_ifs with hshort hbad hmore
      · exact .head rfl hgoes hfits hstack hcontrol
      · exact stop_sound hgoes (by simp [Ends])
      · exact .head rfl hgoes hfits hstack hcontrol
      · exact enter_sound hgoes hfits hstack hcontrol (by simpa using hbad)
  | @body remaining mask hphase hframe =>
      obtain ⟨b', hb⟩ : ∃ b', keyed (· ^^^ ·) mask [b] = [b'] := List.length_eq_one_iff.mp (length_keyed _ mask [b])
      rw [hphase]
      dsimp only
      rw [hb]
      cases habsorb : absorb ctx d [b'] with
      | none => exact stop_sound hframe.goes (by simp [Ends])
      | some d' =>
          have hnext := absorb_openFrame hframe habsorb
          dsimp only
          split_ifs with hlast
          · rw [Nat.succ.inj hlast] at hnext
            exact complete_sound hnext
          · obtain ⟨n, rfl⟩ := Nat.exists_eq_succ_of_ne_zero fun hzero => hlast (congrArg (· + 1) hzero)
            exact .body rfl ⟨hnext.goes, hnext.fits, hnext.stack⟩
  | stopped hphase hends =>
      rw [hphase]
      exact .stopped hphase hends

theorem decode_sound (h : Sound ctx d) (bytes : List UInt8) : Sound ctx (decode ctx d bytes) := by
  induction bytes generalizing d with
  | nil => exact h
  | cons b bytes ih => exact ih (step_sound h b)

theorem initial_sound : Sound ctx Decoder.initial :=
  .head rfl (fun _ hmem => (List.not_mem_nil hmem).elim) (Nat.zero_le _) (fun _ hmem => (List.not_mem_nil hmem).elim) rfl

theorem complete_events (ctx : Context) (d : Decoder) : ∃ new, (complete ctx d).events = d.events ++ new := by
  rw [complete]
  split_ifs <;> first | exact ⟨_, rfl⟩ | exact ⟨[], (List.append_nil _).symm⟩

theorem step_events (ctx : Context) (d : Decoder) (b : UInt8) : ∃ new, (step ctx d b).events = d.events ++ new := by
  rw [step]
  cases d.phase with
  | stopped => exact ⟨[], (List.append_nil _).symm⟩
  | head bytes =>
      dsimp only
      rw [readHead, enter_eq]
      split_ifs with hshort hbad hmore hwrong hlong hnone
      · exact ⟨[], (List.append_nil _).symm⟩
      · exact ⟨_, rfl⟩
      · exact ⟨[], (List.append_nil _).symm⟩
      · exact ⟨_, rfl⟩
      · exact ⟨_, rfl⟩
      · exact complete_events ctx (opened d _)
      · exact ⟨[], (List.append_nil _).symm⟩
  | body remaining mask =>
      dsimp only
      cases habsorb : absorb ctx d (keyed (· ^^^ ·) mask [b]) with
      | none => exact ⟨_, rfl⟩
      | some d' =>
          have hevents := absorb_events habsorb
          dsimp only
          split_ifs
          · rw [← hevents]
            exact complete_events ctx d'
          · exact ⟨[], by rw [List.append_nil, ← hevents]⟩

theorem decode_events (ctx : Context) (d : Decoder) (bytes : List UInt8) : ∃ new, (decode ctx d bytes).events = d.events ++ new := by
  induction bytes generalizing d with
  | nil => exact ⟨[], (List.append_nil _).symm⟩
  | cons b bytes ih =>
      obtain ⟨new, hnew⟩ := step_events ctx d b
      obtain ⟨more, hmore⟩ := ih (step ctx d b)
      exact ⟨new ++ more, by rw [decode_cons, hmore, hnew, List.append_assoc]⟩

theorem Sound.goes (h : Sound ctx d) (hopen : d.phase ≠ .stopped) : ∀ e ∈ d.events, Goes ctx e := by
  rcases h with ⟨-, hgoes⟩ | ⟨-, hframe⟩ | ⟨hphase, -⟩
  · exact hgoes
  · exact hframe.goes
  · exact absurd hphase hopen

theorem Sound.ended (h : Sound ctx d) (hover : d.phase = .stopped) : Ended ctx d.events := by
  rcases h with ⟨hphase⟩ | ⟨hphase⟩ | ⟨-, hends⟩
  · rw [hphase] at hover
    cases hover
  · rw [hphase] at hover
    cases hover
  · exact hends

theorem Ends.not_goes {e : Event} (h : Ends ctx e) : ¬Goes ctx e := by
  intro hgoes
  cases e with
  | message => simp_all [Ends, Goes]
  | pong => exact h
  | ended => exact hgoes
  | forceClosed => exact hgoes

theorem Ended.of_append {old new : List Event} (h : Ended ctx (old ++ new)) (hold : ∀ e ∈ old, Goes ctx e) :
    Ended ctx new := by
  obtain ⟨before, last, hevents, hbefore, hlast⟩ := h
  rcases List.append_eq_append_iff.mp hevents with ⟨middle, rfl, rfl⟩ | ⟨middle, rfl, hmiddle⟩
  · exact ⟨middle, last, rfl, fun e hmem => hbefore e (List.mem_append_right _ hmem), hlast⟩
  · cases middle with
    | nil =>
        exact ⟨[], last, hmiddle.symm, fun _ hmem => (List.not_mem_nil hmem).elim, hlast⟩
    | cons e middle =>
        rw [List.cons_append, List.cons.injEq] at hmiddle
        refine absurd (hold last ?_) hlast.not_goes
        rw [hmiddle.1]
        exact List.mem_append_right _ (List.mem_cons_self ..)

theorem onData_new {s : Socket} {heard : List UInt8} (h : Matches ctx s (decode ctx .initial heard))
    (hopen : s.isClosed = false ∧ s.isShuttingDown = false) {e : Delivery} (he : Fits ctx e) :
    ∃ s' new, onData ctx s e = .ok s' ∧ Matches ctx s' (decode ctx .initial (heard ++ e.data)) ∧
      (decode ctx .initial (heard ++ e.data)).events = (decode ctx .initial heard).events ++ new ∧
      s'.events.drop s.events.length = new ∧
      ((s'.isClosed = false ∧ s'.isShuttingDown = false ∧ ∀ e ∈ new, Goes ctx e) ∨
        ((s'.isClosed = true ∨ s'.isShuttingDown = true) ∧ Ended ctx new)) := by
  obtain ⟨s', hrun, hmatches⟩ := onData_spec h he
  obtain ⟨new, hnew⟩ := decode_events ctx (decode ctx .initial heard) e.data
  rw [← decode_append] at hmatches hnew
  have hsound : Sound ctx (decode ctx .initial heard) := decode_sound initial_sound heard
  have hsound' : Sound ctx (decode ctx .initial (heard ++ e.data)) := decode_sound initial_sound _
  refine ⟨s', new, hrun, hmatches, hnew, by rw [hmatches.events_eq, h.events_eq, hnew, List.drop_left], ?_⟩
  by_cases hgone : s'.isClosed = true ∨ s'.isShuttingDown = true
  · have hended := hsound'.ended (hmatches.stopped_iff.mp hgone)
    rw [hnew] at hended
    have hbefore : (decode ctx .initial heard).phase ≠ .stopped := fun hover => by
      rcases h.stopped_iff.mpr hover with hclosed | hclosed
      · rw [hopen.1] at hclosed
        cases hclosed
      · rw [hopen.2] at hclosed
        cases hclosed
    exact Or.inr ⟨hgone, hended.of_append (hsound.goes hbefore)⟩
  · have hkept := not_or.mp hgone
    have hgoes := hsound'.goes fun hover => hgone (hmatches.stopped_iff.mpr hover)
    rw [hnew] at hgoes
    exact Or.inl ⟨by simpa using hkept.1, by simpa using hkept.2, (List.forall_mem_append.mp hgoes).2⟩

/-- Whatever comes in, the handler of a socket only gets messages that are not
too long, with valid texts, and nothing after the socket is gone. -/
theorem events_sound (ctx : Context) {deliveries : List Delivery} (hfits : ∀ e ∈ deliveries, Fits ctx e) :
    ∃ s, deliveries.foldlM (onData ctx) Socket.initial = .ok s ∧
      ((s.isClosed = false ∧ s.isShuttingDown = false ∧ ∀ e ∈ s.events, Goes ctx e) ∨
        ((s.isClosed = true ∨ s.isShuttingDown = true) ∧ Ended ctx s.events)) := by
  obtain ⟨s, hrun, hmatches⟩ := reads_spec initial_matches hfits
  refine ⟨s, hrun, ?_⟩
  have hsound : Sound ctx (decode ctx .initial (deliveries.flatMap Delivery.data)) := decode_sound initial_sound _
  rw [hmatches.events_eq]
  by_cases hgone : s.isClosed = true ∨ s.isShuttingDown = true
  · exact Or.inr ⟨hgone, hsound.ended (hmatches.stopped_iff.mp hgone)⟩
  · have hopen := not_or.mp hgone
    exact Or.inl ⟨by simpa using hopen.1, by simpa using hopen.2,
      hsound.goes fun hphase => hgone (hmatches.stopped_iff.mpr hphase)⟩

theorem events_sound_cut :
    ∃ s, (cutReads.map (freshDelivery 16)).foldlM (onData plainContext) Socket.initial = .ok s ∧
      ((s.isClosed = false ∧ s.isShuttingDown = false ∧ ∀ e ∈ s.events, Goes plainContext e) ∨
        ((s.isClosed = true ∨ s.isShuttingDown = true) ∧ Ended plainContext s.events)) :=
  events_sound plainContext (fits_fresh plainContext cutReads (by decide))

end TibiaLogin.FrameSafety
