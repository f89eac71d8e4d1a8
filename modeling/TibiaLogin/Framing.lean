import TibiaLogin.ConnectionTable
import TibiaLogin.InputDelivery

namespace TibiaLogin.Framing

open MachineInt Memory Query LoginHandler Server ConnectionInput ConnectionTable InputDelivery

structure Dispatch where
  size : Int
  data : List UInt8
  deriving DecidableEq, Repr

def dispatched (c : Connection) : List Dispatch :=
  if c.socket ≠ -1 ∧ c.state = .processing then [⟨c.rwSize, c.buffer.take c.rwSize.toNat⟩] else []

def request (s : List UInt8) : Dispatch := ⟨announcedSize s, (s.drop 2).take (announcedSize s)⟩

/-- The three stages of a connection between two cycles. -/
inductive Stage (start : Int) (s : List UInt8) (c : Connection) : List UInt8 → List Dispatch → Prop
  | reading {rest : List UInt8} (h : Reading start s c rest) : Stage start s c rest []
  | answered (hstate : c.state ≠ .reading) (hgood : 1 ≤ announcedSize s ∧ announcedSize s ≤ 2048)
      (hle : 2 + announcedSize s ≤ s.length) : Stage start s c (s.drop (2 + announcedSize s)) [request s]
  | refused (hfree : c.state = .free) (hbad : announcedSize s = 0 ∨ 2048 < announcedSize s) (hle : 2 ≤ s.length) :
      Stage start s c (s.drop 2) []

/-- No hang-up, no failure of the socket and no timeout. -/
structure Quiet (config : ServerConfig) (start : Int) (visit : Visit) : Prop where
  pollerr : visit.pollerr = false
  pollhup : visit.pollhup = false
  calm : ∀ a ∈ visit.arrivals, a ≠ .failed ∧ a ≠ .eof
  timely : ¬(0 < config.connectionTimeout ∧ config.connectionTimeout ≤ wrap32 (visit.checkTime - start))

theorem checkConnection_quiet {config : ServerConfig} {visit : Visit} {c : Connection}
    (h : Quiet config c.startTime visit) (hopen : c.socket ≠ -1) : checkConnection config visit c = c := by
  have hp : ¬(visit.pollerr = true ∨ visit.pollhup = true) := by
    rw [h.pollerr, h.pollhup]
    decide
  simp only [checkConnection, if_neg hp, if_neg h.timely, if_neg hopen]

theorem checkConnection_closed (config : ServerConfig) (visit : Visit) {c : Connection} (hclosed : c.socket = -1)
    (hpolled : c.state ≠ .free) : checkConnection config visit c = .zeroed := by
  have hclose : closeConnection c = c := by
    rw [closeConnection, if_neg (not_not.mpr hclosed)]
  simp only [checkConnection, hclose, ite_self]
  rw [if_pos hclosed, releaseConnection, if_pos hpolled]

theorem checkConnection_not_reading (config : ServerConfig) (visit : Visit) {c : Connection} (h : Answering c) :
    SlotOk (checkConnection config visit c) ∧ (checkConnection config visit c).state ≠ .reading := by
  refine ⟨checkConnection_slotOk config visit h.settled, ?_⟩
  have hstate : ∀ (p : Prop) [Decidable p] (d : Connection), d.state ≠ .reading →
      (if p then closeConnection d else d).state ≠ .reading := by
    intro p _ d hd
    split_ifs
    · rw [closeConnection_eq]
      exact hd
    · exact hd
  have hlast : ∀ d : Connection, d.state ≠ .reading →
      (if d.socket = -1 then releaseConnection d else d).state ≠ .reading := by
    intro d hd
    split_ifs
    · rw [releaseConnection]
      split_ifs
      · exact fun hf => by cases hf
      · exact hd
    · exact hd
  refine hlast _ (hstate _ _ (hstate _ _ ?_))
  rcases h.replied with he | he <;> simp [he]

section

variable {σ : Type} (build : Build) (rsa : RsaKey) (randR : UInt32 → Int × UInt32) (exchange : Exchange σ)
  (statusString : Session σ → List UInt8 × Session σ) (config : ServerConfig)

theorem visitConnection_answering {visit : Visit} {c c₁ c₂ : Connection} {stream stream' : List UInt8}
    {shared shared' : Shared σ} (h₁ : checkConnectionInput visit c stream = .ok (c₁, stream'))
    (h₂ : checkConnectionRequest build rsa randR exchange statusString config visit c₁ shared = .ok (c₂, shared'))
    (ha : Answering c₂) :
    ∃ c', visitConnection build rsa randR exchange statusString config visit c stream shared =
      .ok (c', stream', shared') ∧ SlotOk c' ∧ c'.state ≠ .reading := by
  obtain ⟨c₃, h₃, ha'⟩ := checkConnectionOutput_answering visit ha
  exact ⟨_, visitConnection_ok build rsa randR exchange statusString config h₁ h₂ h₃,
    checkConnection_not_reading config visit ha'⟩

theorem visitConnection_idle {visit : Visit} {c c₁ : Connection} {stream stream' : List UInt8}
    (h₁ : checkConnectionInput visit c stream = .ok (c₁, stream')) (hidle : c₁.socket = -1 ∨ c₁.state = .reading)
    (shared : Shared σ) :
    visitConnection build rsa randR exchange statusString config visit c stream shared =
      .ok (checkConnection config visit c₁, stream', shared) := by
  have h₂ := checkConnectionRequest_idle build rsa randR exchange statusString config visit
    (hidle.imp_right fun hs => by rw [hs]; simp) shared
  have h₃ : checkConnectionOutput visit c₁ = .ok c₁ :=
    checkConnectionOutput_idle (hidle.imp_right fun hs => by rw [hs]; simp)
  exact visitConnection_ok build rsa randR exchange statusString config h₁ h₂ h₃

theorem visitConnection_reading {visit : Visit} {start : Int} {s rest : List UInt8} {c : Connection}
    (h : Reading start s c rest) (hq : Quiet config start visit) (shared : Shared σ) :
    ∃ c₁ c' rest' shared', checkConnectionInput visit c rest = .ok (c₁, rest') ∧
      visitConnection build rsa randR exchange statusString config visit c rest shared = .ok (c', rest', shared') ∧
      Stage start s c' rest' (dispatched c₁) := by
  obtain ⟨c₁, rest', hin, hd⟩ := checkConnectionInput_delivered h hq.calm
  cases hd with
  | reading hr =>
      have hv := visitConnection_idle build rsa randR exchange statusString config hin (Or.inr hr.shape.1) shared
      rw [← hr.started] at hq
      rw [checkConnection_quiet hq hr.slot.socket] at hv
      refine ⟨c₁, c₁, rest', shared, hin, hv, ?_⟩
      rw [dispatched, if_neg (by simp [hr.shape.1])]
      exact .reading hr
  | request hb hopen hr hsize hle hdata hrest =>
      obtain ⟨c₂, shared', hreq, ha⟩ := dispatch_responded build rsa randR exchange statusString config visit hb hr
        shared
      obtain ⟨c', hv, -, hstate⟩ := visitConnection_answering build rsa randR exchange statusString config hin hreq
        ha.toAnswering
      refine ⟨c₁, c', rest', shared', hin, hv, ?_⟩
      have hlo := hr.2.1
      have hhi := hr.2.2
      rw [dispatched, if_pos ⟨hopen, hr.1⟩, hsize, Int.toNat_natCast, hdata, hrest]
      exact .answered hstate ⟨by omega, by omega⟩ hle
  | refused hb hclosed hpolled hbad hle hrest =>
      have hv := visitConnection_idle build rsa randR exchange statusString config hin (Or.inl hclosed) shared
      rw [checkConnection_closed config visit hclosed hpolled] at hv
      refine ⟨c₁, .zeroed, rest', shared, hin, hv, ?_⟩
      rw [dispatched, if_neg (by simp [hclosed]), hrest]
      exact .refused rfl hbad hle

theorem visitConnection_answered (visit : Visit) {c : Connection} (hslot : SlotOk c) (hbusy : c.state ≠ .free)
    (hstate : c.state ≠ .reading) (rest : List UInt8) (shared : Shared σ) :
    ∃ c₁ c' shared', checkConnectionInput visit c rest = .ok (c₁, rest) ∧ dispatched c₁ = [] ∧
      visitConnection build rsa randR exchange statusString config visit c rest shared = .ok (c', rest, shared') ∧
      c'.state ≠ .reading := by
  have hw : WritingOk c := by
    rcases hslot.shape with hf | hr | hw
    · exact absurd hf.1 hbusy
    · exact absurd hr.1 hstate
    · exact hw
  obtain ⟨c₁, hin, hc₁⟩ := checkConnectionInput_busy visit hstate rest
  have ha : Answering c₁ ∧ c₁.state = .writing := by
    rcases hc₁ with rfl | rfl
    · exact ⟨⟨hslot.sized, Or.inr hw.1, fun _ => hw⟩, hw.1⟩
    · refine ⟨answering_closed hslot.sized (Or.inr hw.1), ?_⟩
      rw [closeConnection_eq]
      exact hw.1
  have hnot : c₁.state ≠ .processing := by
    rw [ha.2]
    simp
  have hreq := checkConnectionRequest_idle build rsa randR exchange statusString config visit (Or.inr hnot) shared
  obtain ⟨c', hv, -, hstate'⟩ := visitConnection_answering build rsa randR exchange statusString config hin hreq ha.1
  refine ⟨c₁, c', shared, hin, ?_, hv, hstate'⟩
  rw [dispatched, if_neg (by simp [ha.2])]

theorem visitConnection_stage {visit : Visit} {start : Int} {s rest : List UInt8} {c : Connection}
    {dispatches : List Dispatch} (hslot : SlotOk c) (hbusy : c.state ≠ .free) (h : Stage start s c rest dispatches)
    (hq : Quiet config start visit) (shared : Shared σ) :
    ∃ c₁ c' rest' shared', checkConnectionInput visit c rest = .ok (c₁, rest') ∧
      visitConnection build rsa randR exchange statusString config visit c rest shared = .ok (c', rest', shared') ∧
      Stage start s c' rest' (dispatches ++ dispatched c₁) := by
  cases h with
  | reading hr => exact visitConnection_reading build rsa randR exchange statusString config hr hq shared
  | answered hstate hgood hle =>
      obtain ⟨c₁, c', shared', hin, hd, hv, hstate'⟩ := visitConnection_answered build rsa randR exchange statusString
        config visit hslot hbusy hstate (s.drop (2 + announcedSize s)) shared
      refine ⟨c₁, c', _, shared', hin, hv, ?_⟩
      rw [hd]
      exact .answered hstate' hgood hle
  | refused hfree hbad hle => exact absurd hfree hbusy

/-- A cycle, followed from the place of one connection: the stream that its
client sends, the requests dispatched from it, and whether it is released. -/
structure Watch (σ : Type) where
  state : State σ
  stream : List UInt8
  dispatches : List Dispatch
  released : Bool

def watchCycle (i : Nat) (w : Watch σ) (cycle : Cycle) : Except Stop (Watch σ) := do
  let state ← processConnections build rsa randR exchange statusString config w.state
    { cycle with streams := Function.update cycle.streams i w.stream }
  if w.released ∨ cycle.pollFailed then pure { w with state }
  else
    let (c, stream) ← checkConnectionInput (cycle.visits i) (w.state.connections.getD i .zeroed) w.stream
    pure ⟨state, stream, w.dispatches ++ dispatched c, (state.connections.getD i .zeroed).state = .free⟩

structure Watching (start : Int) (s : List UInt8) (i : Nat) (w : Watch σ) : Prop where
  slots : ∀ c ∈ w.state.connections, SlotOk c
  place : ∃ c, Stage start s c w.stream w.dispatches ∧ ((w.released = true ∧ c.state = .free) ∨
    (w.released = false ∧ w.state.connections[i]? = some c ∧ c.state ≠ .free))

theorem watchCycle_watching {start : Int} {s : List UInt8} {i : Nat} (w : Watch σ) (cycle : Cycle)
    (h : Watching start s i w) (hq : Quiet config start (cycle.visits i)) :
    ∃ w', watchCycle build rsa randR exchange statusString config i w cycle = .ok w' ∧ Watching start s i w' := by
  obtain ⟨hslots, c, hstage, hplace⟩ := h
  rw [watchCycle]
  rcases hplace with ⟨hover, hfree⟩ | ⟨hover, hc, hbusy⟩
  · obtain ⟨state, hrun, -, hslots'⟩ := processConnections_tableOk build rsa randR exchange statusString config w.state
      { cycle with streams := Function.update cycle.streams i w.stream } rfl hslots
    refine ⟨{ w with state }, ?_, hslots', c, hstage, Or.inl ⟨hover, hfree⟩⟩
    rw [hrun, ok_bind, if_pos (Or.inl hover)]
    rfl
  · by_cases hpoll : cycle.pollFailed = true
    · refine ⟨w, ?_, hslots, c, hstage, Or.inr ⟨hover, hc, hbusy⟩⟩
      rw [processConnections, if_pos hpoll, ok_bind, if_pos (Or.inr hpoll)]
      rfl
    · obtain ⟨state, c', rest', shared, shared', hrun, hslots', hc', hvisit⟩ :=
        processConnections_visits build rsa randR exchange statusString config w.state
          { cycle with streams := Function.update cycle.streams i w.stream } hslots hc hbusy (by simpa using hpoll)
      obtain ⟨c₁, c₂, rest₂, shared₂, hin, hv, hstage'⟩ :=
        visitConnection_stage build rsa randR exchange statusString config (hslots c (List.mem_of_getElem? hc)) hbusy
          hstage hq shared
      simp only [Function.update_self] at hvisit
      rw [hv] at hvisit
      cases hvisit
      have hget : w.state.connections.getD i .zeroed = c := by
        rw [List.getD_eq_getElem?_getD, hc, Option.getD_some]
      have hget' : state.connections.getD i .zeroed = c' := by
        rw [List.getD_eq_getElem?_getD, hc', Option.getD_some]
      refine ⟨⟨state, rest', w.dispatches ++ dispatched c₁, c'.state = .free⟩, ?_, hslots', c', hstage', ?_⟩
      · rw [hrun, ok_bind, if_neg (by simp [hover, hpoll]), hget, hin, ok_bind]
        simp only
        rw [hget']
        rfl
      · by_cases hfree : c'.state = .free
        · exact Or.inl ⟨decide_eq_true hfree, hfree⟩
        · exact Or.inr ⟨decide_eq_false hfree, hc', hfree⟩

/-- What the framing promises once some of the stream has been consumed. -/
def Framed (s : List UInt8) (w : Watch σ) : Prop :=
  ∃ consumed, consumed ≤ s.length ∧ w.stream = s.drop consumed ∧
    (consumed < 2 → w.dispatches = [] ∧ w.released = false) ∧
    (2 ≤ consumed → (announcedSize s = 0 ∨ 2048 < announcedSize s) →
      consumed = 2 ∧ w.dispatches = [] ∧ w.released = true) ∧
    (2 ≤ consumed → 1 ≤ announcedSize s → announcedSize s ≤ 2048 → consumed ≤ 2 + announcedSize s ∧
      w.dispatches = if consumed = 2 + announcedSize s then [request s] else [])

omit build rsa randR exchange statusString config in
theorem framed_of_watching {start : Int} {s : List UInt8} {i : Nat} {w : Watch σ} (h : Watching start s i w) :
    Framed s w := by
  obtain ⟨state, stream, dispatches, released⟩ := w
  obtain ⟨-, c, hstage, hplace⟩ := h
  cases hstage with
  | reading hr =>
      have hover : released = false := by
        rcases hplace with ⟨-, hfree⟩ | ⟨hover, -⟩
        · exact absurd (hr.shape.1.symm.trans hfree) (by simp)
        · exact hover
      have hshape := hr.shape.2
      rcases hr.progress with ⟨hz, pos, hw⟩ | ⟨hn, hgood, h2, pos, hw⟩
      · have hpos := hw.position
        exact ⟨pos, hw.le, hw.rest_eq, fun _ => ⟨rfl, hover⟩, fun _ => by omega, fun _ => by omega⟩
      · have hpos := hw.position
        have hle := hw.le
        rw [List.length_drop] at hle
        refine ⟨2 + pos, by omega, ?_, fun _ => by omega, fun _ hbad => by omega, fun _ _ _ => ⟨by omega, ?_⟩⟩
        · rw [hw.rest_eq, List.drop_drop]
        · rw [if_neg (by omega)]
  | answered hstate hgood hle =>
      refine ⟨_, hle, rfl, fun _ => by omega, fun _ hbad => by omega, fun _ _ _ => ⟨Nat.le_refl _, ?_⟩⟩
      rw [if_pos rfl]
  | refused hfree hbad hle =>
      have hover : released = true := by
        rcases hplace with ⟨hover, -⟩ | ⟨-, -, hne⟩
        · exact hover
        · exact absurd hfree hne
      exact ⟨2, hle, rfl, fun _ => by omega, fun _ _ => ⟨rfl, rfl, hover⟩, fun _ _ _ => by omega⟩

theorem reached_slotOk (session : Session σ) {cycles : List Cycle} {state : State σ}
    (h : cycles.foldlM (processConnections build rsa randR exchange statusString config)
      (initConnections config session) = .ok state) : ∀ c ∈ state.connections, SlotOk c := by
  obtain ⟨state', hrun, hslots⟩ := foldlM_invariant (fun _ (st : State σ) => ∀ c ∈ st.connections, SlotOk c)
    (fun cycle _ st hst => by
      obtain ⟨st', hrun, -, hst'⟩ := processConnections_tableOk build rsa randR exchange statusString config st cycle
        rfl hst
      exact ⟨st', hrun, hst'⟩) (l := cycles) (b := initConnections config session) (fun c hc => by
      rw [List.eq_of_mem_replicate hc]
      exact slotOk_zeroed)
  rw [h] at hrun
  cases hrun
  exact hslots

/-- However the kernel splits what a client sends, and whatever the other
connections do, the same request is dispatched at the same place of the stream. -/
theorem framing_ignores_chunks (session : Session σ) (before cycles : List Cycle) {state : State σ} {i : Nat}
    {c : Connection} (hreach : before.foldlM (processConnections build rsa randR exchange statusString config)
      (initConnections config session) = .ok state) (hc : state.connections[i]? = some c)
    (hstate : c.state = .reading) (hsize : c.rwSize = 0) (hposition : c.rwPosition = 0)
    (hquiet : ∀ cycle ∈ cycles, Quiet config c.startTime (cycle.visits i)) (s : List UInt8) :
    ∃ w, cycles.foldlM (watchCycle build rsa randR exchange statusString config i) ⟨state, s, [], false⟩ = .ok w ∧
      Framed s w := by
  have hslots := reached_slotOk build rsa randR exchange statusString config session hreach
  have hslot := hslots c (List.mem_of_getElem? hc)
  have hreading : Reading c.startTime s c s :=
    ⟨hslot, ⟨hstate, Or.inl ⟨hsize, Or.inl hposition⟩⟩, rfl, Or.inl ⟨hsize, 0, hposition, Nat.zero_le _, rfl, rfl⟩⟩
  have hstart : Watching c.startTime s i (⟨state, s, [], false⟩ : Watch σ) :=
    ⟨hslots, c, .reading hreading, Or.inr ⟨rfl, hc, by simp [hstate]⟩⟩
  obtain ⟨w, hrun, hw, -⟩ := foldlM_invariant
    (fun l (w : Watch σ) => Watching c.startTime s i w ∧ ∀ cycle ∈ l, Quiet config c.startTime (cycle.visits i))
    (fun cycle l w hw => by
      obtain ⟨hq, hrest⟩ := List.forall_mem_cons.mp hw.2
      obtain ⟨w', hrun, hw'⟩ := watchCycle_watching build rsa randR exchange statusString config w cycle hw.1 hq
      exact ⟨w', hrun, hw', hrest⟩) (l := cycles) (b := ⟨state, s, [], false⟩) ⟨hstart, hquiet⟩
  exact ⟨w, hrun, framed_of_watching hw⟩

end

def deliver (accepted : List Accepted) (arrivals : List Arrival) : Cycle :=
  ⟨false, true, accepted, fun _ => ⟨true, false, false, arrivals, [], 0, 0, default, (false, [])⟩, fun _ => []⟩

def oneConnection : ServerConfig := { (default : ServerConfig) with maxConnections := 1 }

def justAccepted : State Unit :=
  ⟨[{ Connection.zeroed with state := .reading, socket := 5 }], ⟨⟨(), []⟩, []⟩⟩

theorem justAccepted_reached :
    [deliver [.socket 5 0 0 0] []].foldlM (processConnections ⟨.latin1, false⟩ default (fun seed => (0, seed))
      (answering []) (fun s => ([], s)) oneConnection) (initConnections oneConnection ⟨(), []⟩) =
        .ok justAccepted := by
  have haccept : acceptConnections [.socket 5 0 0 0] (List.replicate 1 .zeroed) = justAccepted.connections := by
    decide +kernel
  have hpolled : polledIndices (List.replicate 1 .zeroed) = [] := by decide
  rw [List.foldlM_cons]
  simp only [processConnections, deliver, initConnections, oneConnection, haccept, hpolled]
  rfl

def splitStream : List UInt8 := 145 :: 0 :: 1 :: (List.replicate 144 0 ++ [9])

theorem framing_ignores_chunks_split :
    ∃ w, [deliver [] [.bytes 0, .again], deliver [] [.bytes 0, .bytes 99], deliver [] [.bytes 99]].foldlM
        (watchCycle ⟨.latin1, false⟩ default (fun seed => (0, seed)) (answering []) (fun s => ([], s)) oneConnection 0)
        ⟨justAccepted, splitStream, [], false⟩ = .ok w ∧
      Framed splitStream w ∧ w.dispatches = [⟨145, 1 :: List.replicate 144 0⟩] ∧ w.stream = [9] := by
  have hquiet : ∀ arrivals : List Arrival, (∀ a ∈ arrivals, a ≠ .failed ∧ a ≠ .eof) →
      Quiet oneConnection 0 ((deliver [] arrivals).visits 0) :=
    fun arrivals h => ⟨rfl, rfl, h, fun ht => absurd ht.1 (by decide)⟩
  obtain ⟨w, hrun, hframed⟩ := framing_ignores_chunks ⟨.latin1, false⟩ default (fun seed => (0, seed)) (answering [])
    (fun s => ([], s)) oneConnection ⟨(), []⟩ [deliver [.socket 5 0 0 0] []]
    [deliver [] [.bytes 0, .again], deliver [] [.bytes 0, .bytes 99], deliver [] [.bytes 99]] justAccepted_reached
    (i := 0) rfl rfl rfl rfl (by simpa using ⟨hquiet _ (by decide), hquiet _ (by decide), hquiet _ (by decide)⟩)
    splitStream
  have hends : ([deliver [] [.bytes 0, .again], deliver [] [.bytes 0, .bytes 99], deliver [] [.bytes 99]].foldlM
      (watchCycle ⟨.latin1, false⟩ default (fun seed => (0, seed)) (answering []) (fun s => ([], s)) oneConnection 0)
      ⟨justAccepted, splitStream, [], false⟩).toOption.map (fun w => (w.dispatches, w.stream)) =
        some ([⟨145, 1 :: List.replicate 144 0⟩], [9]) := by decide +kernel
  rw [hrun] at hends
  refine ⟨w, hrun, hframed, ?_⟩
  simpa [Except.toOption] using hends

end TibiaLogin.Framing
