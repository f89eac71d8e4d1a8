import TibiaLogin.Framing
import TibiaLogin.LoginOutcome
import TibiaLogin.SocketOwnership

namespace TibiaLogin.Deadline

open MachineInt Memory BufferWriter Query LoginQuery LoginResponse LoginHandler LoginOutcome Server ConnectionInput
  ConnectionTable Framing Observation SocketOwnership

/-- What a connection keeps from when it was accepted. -/
structure SameOrigin (c c' : Connection) : Prop where
  ipAddress : c'.ipAddress = c.ipAddress
  startTime : c'.startTime = c.startTime

@[refl] theorem SameOrigin.refl (c : Connection) : SameOrigin c c := ⟨rfl, rfl⟩

theorem SameOrigin.trans {a b c : Connection} (h : SameOrigin a b) (h' : SameOrigin b c) : SameOrigin a c :=
  ⟨h'.ipAddress.trans h.ipAddress, h'.startTime.trans h.startTime⟩

theorem SameOrigin.closed {c c' : Connection} (h : SameOrigin c c') : SameOrigin c (closeConnection c') := by
  rw [closeConnection_eq]
  exact ⟨h.ipAddress, h.startTime⟩

/-- A connection that is still the accepted one. -/
structure SameConnection (c c' : Connection) : Prop extends SameOrigin c c' where
  socket : c'.socket = c.socket

theorem SameConnection.refl (c : Connection) : SameConnection c c := ⟨.refl c, rfl⟩

theorem SameConnection.trans {a b c : Connection} (h : SameConnection a b) (h' : SameConnection b c) :
    SameConnection a c :=
  ⟨h.toSameOrigin.trans h'.toSameOrigin, h'.socket.trans h.socket⟩

/-- While it reads, a connection also keeps its seed. -/
structure SamePeer (c c' : Connection) : Prop extends SameOrigin c c' where
  randomSeed : c'.randomSeed = c.randomSeed

theorem SamePeer.trans {a b c : Connection} (h : SamePeer a b) (h' : SamePeer b c) : SamePeer a c :=
  ⟨h.toSameOrigin.trans h'.toSameOrigin, h'.randomSeed.trans h.randomSeed⟩

theorem SamePeer.closed {c c' : Connection} (h : SamePeer c c') : SamePeer c (closeConnection c') := by
  refine ⟨h.toSameOrigin.closed, ?_⟩
  rw [closeConnection_eq]
  exact h.randomSeed

theorem samePeer_of_outcome {arrival : Arrival} {c : Connection} {stream : List UInt8}
    {r : Bool × Connection × List UInt8} (h : InputOutcome arrival c stream r) : SamePeer c r.2.1 := by
  cases h with
  | idle | partly | complete | header => exact ⟨⟨rfl, rfl⟩, rfl⟩
  | closed | refused => exact SamePeer.closed ⟨⟨rfl, rfl⟩, rfl⟩

theorem inputLoop_peer (arrivals : List Arrival) {c c' : Connection} {stream stream' : List UInt8} (ha : Active c)
    (h : ReadingOk c) (hrun : inputLoop arrivals c stream = .ok (c', stream')) : SamePeer c c' := by
  induction arrivals generalizing c stream with
  | nil =>
      cases hrun
      exact ⟨⟨rfl, rfl⟩, rfl⟩
  | cons arrival arrivals ih =>
      obtain ⟨⟨more, c₁, stream₁⟩, hstep, ho⟩ := inputStep_outcome ha.sized h arrival stream
      obtain ⟨ha₁, hr₁⟩ := active_of_outcome ha h ho
      have hsame := samePeer_of_outcome ho
      simp only [inputLoop] at hrun
      rw [hstep, ok_bind] at hrun
      cases more with
      | true => exact hsame.trans (ih ha₁ (hr₁ rfl) hrun)
      | false =>
          cases hrun
          exact hsame

theorem checkConnectionInput_peer {visit : Visit} {c c' : Connection} {stream stream' : List UInt8} (hslot : SlotOk c)
    (hbusy : c.state ≠ .free) (hrun : checkConnectionInput visit c stream = .ok (c', stream')) : SamePeer c c' := by
  rw [checkConnectionInput] at hrun
  split_ifs at hrun with hidle hstate
  · cases hrun
    exact ⟨⟨rfl, rfl⟩, rfl⟩
  · cases hrun
    exact SamePeer.closed ⟨⟨rfl, rfl⟩, rfl⟩
  · have hreading : ReadingOk c := by
      rcases hslot.shape with hf | hr | hw
      · exact absurd hf.1 hbusy
      · exact hr
      · exact absurd hw.1 (by simp [not_not.mp hstate])
    exact inputLoop_peer visit.arrivals ⟨hslot.sized, hbusy, fun _ => Or.inl hreading⟩ hreading hrun

section

variable (enc : ClientEncoding) (randR : UInt32 → Int × UInt32)

theorem prepareXteaResponse_origin {c : Connection} {r : Connection × BufferWriter}
    (h : prepareXteaResponse c = .ok r) : SameOrigin c r.1 := by
  rw [prepareXteaResponse] at h
  split_ifs at h
  · cases h
    exact (SameOrigin.refl c).closed
  · obtain ⟨w, -, h⟩ := bind_eq_ok.mp h
    obtain ⟨w', -, h⟩ := bind_eq_ok.mp h
    cases h
    rfl

theorem sendXteaResponse_origin {c c' : Connection} {w : BufferWriter} (h : sendXteaResponse randR c w = .ok c') :
    SameOrigin c c' := by
  rw [sendXteaResponse] at h
  split_ifs at h
  · cases h
    exact (SameOrigin.refl c).closed
  · obtain ⟨⟨encryptedSize, seed, w₁⟩, -, h⟩ := bind_eq_ok.mp h
    simp only at h
    split_ifs at h
    · cases h
      exact SameOrigin.closed ⟨rfl, rfl⟩
    · obtain ⟨w₂, -, h⟩ := bind_eq_ok.mp h
      obtain ⟨w₃, -, h⟩ := bind_eq_ok.mp h
      obtain ⟨data, -, h⟩ := bind_eq_ok.mp h
      obtain ⟨buffer, -, h⟩ := bind_eq_ok.mp h
      cases h
      exact ⟨rfl, rfl⟩

theorem answer_origin (config : ServerConfig) {outcome : Outcome} {c c' : Connection}
    (h : answer enc randR config outcome c = .ok c') : SameOrigin c c' := by
  cases outcome with
  | closed =>
      cases h
      exact (SameOrigin.refl c).closed
  | error message =>
      obtain ⟨⟨c₁, w⟩, h₁, h⟩ := bind_eq_ok.mp h
      obtain ⟨w₁, -, h⟩ := bind_eq_ok.mp h
      obtain ⟨w₂, -, h⟩ := bind_eq_ok.mp h
      exact (prepareXteaResponse_origin h₁).trans (sendXteaResponse_origin randR h)
  | list characters premiumDays =>
      obtain ⟨⟨c₁, w⟩, h₁, h⟩ := bind_eq_ok.mp h
      obtain ⟨w₁, -, h⟩ := bind_eq_ok.mp h
      obtain ⟨w₂, -, h⟩ := bind_eq_ok.mp h
      obtain ⟨w₃, -, h⟩ := bind_eq_ok.mp h
      obtain ⟨w₄, -, h⟩ := bind_eq_ok.mp h
      obtain ⟨w₅, -, h⟩ := bind_eq_ok.mp h
      exact (prepareXteaResponse_origin h₁).trans (sendXteaResponse_origin randR h)

end

section

variable {σ : Type} {build : Build} {rsa : RsaKey} {randR : UInt32 → Int × UInt32} {exchange : Exchange σ}
  {statusString : Session σ → List UInt8 × Session σ} {config : ServerConfig}

theorem processLoginRequest_origin {stray : Stray} {c c' : Connection} (hb : c.buffer.length = 2048)
    {s s' : Session σ} (h : processLoginRequest build rsa randR exchange config stray c s = .ok (c', s')) :
    SameOrigin c c' := by
  obtain ⟨key, decoded, hd, -⟩ := decodeLogin_spec build rsa stray hb
  rw [processLoginRequest_eq, hd, ok_bind] at h
  obtain ⟨⟨outcome, s₁⟩, -, h⟩ := bind_eq_ok.mp h
  obtain ⟨c₁, h₁, h⟩ := bind_eq_ok.mp h
  cases h
  obtain ⟨hip, hstart⟩ := answer_origin build.encoding randR config h₁
  exact ⟨hip, hstart⟩

theorem processStatusRequest_origin {visit : Visit} {c c' : Connection} {shared shared' : Shared σ}
    (h : processStatusRequest statusString config visit c shared = .ok (c', shared')) : SameOrigin c c' := by
  simp only [processStatusRequest] at h
  split_ifs at h
  · cases h
    exact (SameOrigin.refl c).closed
  · obtain ⟨⟨command, r₁⟩, -, h⟩ := bind_eq_ok.mp h
    obtain ⟨⟨format, r₂⟩, -, h⟩ := bind_eq_ok.mp h
    simp only at h
    split_ifs at h
    · obtain ⟨⟨request, r₃⟩, -, h⟩ := bind_eq_ok.mp h
      simp only at h
      split_ifs at h
      · cases h
        rw [sendStatusString]
        split_ifs
        · exact (SameOrigin.refl c).closed
        · exact ⟨rfl, rfl⟩
      · cases h
        exact (SameOrigin.refl c).closed
    · cases h
      exact (SameOrigin.refl c).closed

theorem checkConnectionRequest_origin {visit : Visit} {c c' : Connection} (hb : c.buffer.length = 2048)
    {shared shared' : Shared σ}
    (h : checkConnectionRequest build rsa randR exchange statusString config visit c shared = .ok (c', shared')) :
    SameOrigin c c' := by
  rw [checkConnectionRequest] at h
  simp only at h
  split_ifs at h
  · cases h
    rfl
  · cases h
    rfl
  · split at h
    · next hrun =>
        cases h
        exact processLoginRequest_origin hb hrun
    · cases h
  · split at h
    · next hrun =>
        cases h
        exact processStatusRequest_origin hrun
    · cases h
  · cases h
    exact (SameOrigin.refl c).closed

end

theorem outputLoop_origin (departures : List Departure) {c c' : Connection} (h : outputLoop departures c = .ok c') :
    SameOrigin c c' := by
  induction departures generalizing c with
  | nil =>
      cases h
      rfl
  | cons departure departures ih =>
      simp only [outputLoop] at h
      split_ifs at h
      cases departure with
      | again =>
          cases h
          rfl
      | failed =>
          cases h
          exact (SameOrigin.refl c).closed
      | bytes more =>
          simp only at h
          split_ifs at h
          · cases h
            exact SameOrigin.closed ⟨rfl, rfl⟩
          · obtain ⟨hip, hstart⟩ := ih h
            exact ⟨hip, hstart⟩

theorem checkConnectionOutput_origin {visit : Visit} {c c' : Connection} (h : checkConnectionOutput visit c = .ok c') :
    SameOrigin c c' := by
  rw [checkConnectionOutput] at h
  split_ifs at h
  · cases h
    rfl
  · cases h
    rfl
  · exact outputLoop_origin visit.departures h

/-- The check at the end of a visit comes too late for the connection. -/
def Overdue (config : ServerConfig) (visit : Visit) (c : Connection) : Prop :=
  0 < config.connectionTimeout ∧ config.connectionTimeout ≤ wrap32 (visit.checkTime - c.startTime)

theorem expire_overdue {config : ServerConfig} {visit : Visit} {c : Connection} (h : Overdue config visit c) :
    (expire config visit c).socket = -1 := by
  have hlost : SameOrigin c (if visit.pollerr ∨ visit.pollhup then closeConnection c else c) := by
    split_ifs
    · exact (SameOrigin.refl c).closed
    · rfl
  rw [Overdue, ← hlost.startTime] at h
  rw [expire, if_pos h, closeConnection_eq]

theorem expire_in_time {config : ServerConfig} {visit : Visit} {c : Connection} (h : expire config visit c = c)
    (hopen : c.socket ≠ -1) : ¬Overdue config visit c := by
  intro hover
  rw [← h] at hopen
  exact hopen (expire_overdue hover)

section

variable {σ : Type} {build : Build} {rsa : RsaKey} {randR : UInt32 → Int × UInt32} {exchange : Exchange σ}
  {statusString : Session σ → List UInt8 × Session σ} {config : ServerConfig}

theorem visitStages_origin {visit : Visit} {c : Connection} (hslot : SlotOk c) (hbusy : c.state ≠ .free)
    {stream stream' : List UInt8} {shared shared' : Shared σ} {st : Stages}
    (h : visitStages build rsa randR exchange statusString config visit c stream shared = .ok (st, stream', shared')) :
    SameOrigin c st.sent := by
  obtain ⟨⟨read, stream₁⟩, h₁, h⟩ := bind_eq_ok.mp h
  obtain ⟨⟨handled, shared₁⟩, h₂, h⟩ := bind_eq_ok.mp h
  obtain ⟨sent, h₃, h⟩ := bind_eq_ok.mp h
  cases h
  obtain ⟨read', stream₂, h₁', hactive⟩ := checkConnectionInput_active visit hslot hbusy stream
  rw [h₁] at h₁'
  cases h₁'
  have hread := (checkConnectionInput_peer hslot hbusy h₁).toSameOrigin
  have hhandled := checkConnectionRequest_origin hactive.sized h₂
  exact hread.trans (hhandled.trans (checkConnectionOutput_origin h₃))

theorem visitConnection_in_time {visit : Visit} {c c' : Connection} (hslot : SlotOk c) (hbusy : c.state ≠ .free)
    {stream stream' : List UInt8} {shared shared' : Shared σ}
    (h : visitConnection build rsa randR exchange statusString config visit c stream shared = .ok (c', stream', shared')) :
    c' = .zeroed ∨ (c'.state ≠ .free ∧ SameConnection c c' ∧ ¬Overdue config visit c) := by
  obtain ⟨st, hst, rfl⟩ := stages_of_visitConnection build rsa randR exchange statusString config h
  obtain ⟨hvisited, hexpired⟩ := visited_of_stages build rsa randR exchange statusString config hslot hbusy hst
  have hsame := visitStages_origin hslot hbusy hst
  obtain ⟨hread, hhandled, hsent, hpolled⟩ := kept_of_visited hvisited
  rw [hexpired]
  rcases settle_expire config visit hpolled with ⟨hz, -⟩ | ⟨hkept, hexpire, hopen⟩
  · exact Or.inl hz
  · have hintime := expire_in_time hexpire hopen
    rw [Overdue, hsame.startTime] at hintime
    have hsocket := (hread.trans (hhandled.trans hsent)).resolve_right hopen
    rw [hkept]
    exact Or.inr ⟨hpolled, ⟨hsame, hsocket⟩, hintime⟩

variable (build rsa randR exchange statusString config) in
theorem processConnections_in_time (cycle : Cycle) {s : State σ} (hslots : ∀ c ∈ s.connections, SlotOk c) {i : Nat}
    {c : Connection} (hc : s.connections[i]? = some c) (hbusy : c.state ≠ .free) :
    ∃ s' c', processConnections build rsa randR exchange statusString config s cycle = .ok s' ∧
      (∀ c ∈ s'.connections, SlotOk c) ∧ s'.connections[i]? = some c' ∧
      (c' = .zeroed ∨ (c'.state ≠ .free ∧ SameConnection c c' ∧
        (cycle.pollFailed = false → ¬Overdue config (cycle.visits i) c))) := by
  cases hpoll : cycle.pollFailed with
  | true => exact ⟨s, c, if_pos hpoll, hslots, hc, Or.inr ⟨hbusy, .refl c, nofun⟩⟩
  | false =>
      obtain ⟨s', c', stream', shared, shared', hrun, hslots', hc', hvisit⟩ := processConnections_visits build rsa randR
        exchange statusString config s cycle hslots hc hbusy hpoll
      exact ⟨s', c', hrun, hslots', hc', (visitConnection_in_time (hslots c (List.mem_of_getElem? hc)) hbusy hvisit).imp_right
        fun h => ⟨h.1, h.2.1, fun _ => h.2.2⟩⟩

theorem processConnections_free {cycle : Cycle} {s s' : State σ} (hslots : ∀ c ∈ s.connections, SlotOk c)
    (hnobody : cycle.listenerPollin = false) {i : Nat} {c : Connection} (hc : s.connections[i]? = some c)
    (hfree : c.state = .free)
    (hrun : processConnections build rsa randR exchange statusString config s cycle = .ok s') :
    s'.connections[i]? = some c := by
  rw [processConnections] at hrun
  split_ifs at hrun with hpoll hpollin
  · cases hrun
    exact hc
  · rw [hnobody] at hpollin
    cases hpollin
  · have hout : i ∉ polledIndices s.connections := by
      rw [polledIndices, List.mem_filter, hc]
      simp [hfree]
    obtain ⟨t, ht, -, -, hkept⟩ := foldlM_invariant
      (fun l (st : State σ) => Visiting s.connections.length l st.connections ∧ i ∉ l ∧ st.connections[i]? = some c)
      (fun j l st hst => by
        obtain ⟨d, d', stream', shared', -, -, hvisit, hv⟩ := visitIndex_visiting build rsa randR exchange statusString
          config cycle j l st hst.1
        obtain ⟨hne, hnot⟩ := not_or.mp (mt List.mem_cons.mpr hst.2.1)
        exact ⟨_, hvisit, hv, hnot, by rw [List.getElem?_set_ne (Ne.symm hne), hst.2.2]⟩)
      (b := ⟨s.connections, s.shared⟩) ⟨visiting_polled hslots, hout, hc⟩
    have hsame : Except.ok t = Except.ok s' := ht.symm.trans hrun
    cases hsame
    exact hkept

/-- As long as its place is never free, a connection stays the one that was
accepted, and every check on it has come before its deadline. -/
theorem held_in_time {session : Session σ} {before cycles : List Cycle} {s : State σ}
    (hreach : before.foldlM (processConnections build rsa randR exchange statusString config)
      (initConnections config session) = .ok s) {i : Nat} {c : Connection} (hc : s.connections[i]? = some c)
    (hheld : ∀ k s', (cycles.take k).foldlM (processConnections build rsa randR exchange statusString config) s =
      .ok s' → ∃ c', s'.connections[i]? = some c' ∧ c'.state ≠ .free) :
    ∃ s' c', cycles.foldlM (processConnections build rsa randR exchange statusString config) s = .ok s' ∧
      s'.connections[i]? = some c' ∧ SameConnection c c' ∧
      ∀ cycle ∈ cycles, cycle.pollFailed = false → ¬Overdue config (cycle.visits i) c := by
  have hslots := reached_slotOk build rsa randR exchange statusString config session hreach
  clear hreach
  induction cycles generalizing s c with
  | nil => exact ⟨s, c, rfl, hc, .refl c, by simp⟩
  | cons cycle cycles ih =>
      have hbusy : c.state ≠ .free := by
        obtain ⟨d, hd, hbusy⟩ := hheld 0 s rfl
        rw [hc, Option.some.injEq] at hd
        rwa [hd]
      obtain ⟨s₁, c₁, hstep, hslots₁, hc₁, hvisited⟩ := processConnections_in_time build rsa randR exchange
        statusString config cycle hslots hc hbusy
      have hheld₁ : ∀ k s', (cycles.take k).foldlM (processConnections build rsa randR exchange statusString config) s₁ =
          .ok s' → ∃ c', s'.connections[i]? = some c' ∧ c'.state ≠ .free := by
        intro k s' hrun
        refine hheld (k + 1) s' ?_
        rw [List.take_succ_cons, List.foldlM_cons, hstep]
        exact hrun
      obtain ⟨-, hsame, hintime⟩ := hvisited.resolve_left fun hz => by
        obtain ⟨d, hd, hbusy₁⟩ := hheld₁ 0 s₁ rfl
        rw [hc₁, Option.some.injEq] at hd
        rw [← hd, hz] at hbusy₁
        exact hbusy₁ rfl
      obtain ⟨s', c', hrun, hc', hsame', hrest⟩ := ih hc₁ hheld₁ hslots₁
      refine ⟨s', c', ?_, hc', hsame.trans hsame', List.forall_mem_cons.mpr ⟨hintime, fun later hmem hpoll => ?_⟩⟩
      · rw [List.foldlM_cons, hstep]
        exact hrun
      · have hover := hrest later hmem hpoll
        rw [Overdue, hsame.startTime] at hover
        exact hover

/-- Nothing that clients do keeps a place: a cycle past all deadlines, with
nobody new, leaves the whole table free. -/
theorem table_drains {session : Session σ} {before : List Cycle} {s : State σ}
    (hreach : before.foldlM (processConnections build rsa randR exchange statusString config)
      (initConnections config session) = .ok s) {cycle : Cycle} (hpoll : cycle.pollFailed = false)
    (hnobody : cycle.listenerPollin = false)
    (hlate : ∀ (i : Nat) (c : Connection), s.connections[i]? = some c → c.state ≠ .free →
      Overdue config (cycle.visits i) c) :
    ∃ s', processConnections build rsa randR exchange statusString config s cycle = .ok s' ∧
      s'.connections.length = config.maxConnections ∧ ∀ c ∈ s'.connections, c.state = .free := by
  obtain ⟨s₀, hrun₀, hlen, hslots⟩ := connection_table_invariant build rsa randR exchange statusString config session
    before
  rw [hreach] at hrun₀
  cases hrun₀
  obtain ⟨s', hrun, hlen', -⟩ := processConnections_tableOk build rsa randR exchange statusString config s cycle hlen
    hslots
  refine ⟨s', hrun, hlen', fun c' hmem => ?_⟩
  obtain ⟨i, hlt, hget⟩ := List.mem_iff_getElem.mp hmem
  have hc' : s'.connections[i]? = some c' := by
    rw [List.getElem?_eq_getElem hlt, hget]
  obtain ⟨c, hc⟩ : ∃ c, s.connections[i]? = some c := ⟨_, List.getElem?_eq_getElem (by omega)⟩
  by_cases hfree : c.state = .free
  · rw [processConnections_free hslots hnobody hc hfree hrun, Option.some.injEq] at hc'
    rw [← hc', hfree]
  · obtain ⟨s₁, c₁, hrun₁, -, hc₁, hvisited⟩ := processConnections_in_time build rsa randR exchange
      statusString config cycle hslots hc hfree
    rw [hrun] at hrun₁
    cases hrun₁
    rw [hc', Option.some.injEq] at hc₁
    rcases hvisited with hz | ⟨-, -, hintime⟩
    · rw [hc₁, hz]
      rfl
    · exact absurd (hlate i c hc hfree) (hintime hpoll)

end

def fifteenSeconds : ServerConfig := { oneConnection with connectionTimeout := 15 }

theorem justAccepted_timed :
    [deliver [.socket 5 0 0 0] []].foldlM (processConnections ⟨.latin1, false⟩ default (fun seed => (0, seed))
      (answering []) (fun s => ([], s)) fifteenSeconds) (initConnections fifteenSeconds ⟨(), []⟩) =
        .ok justAccepted := by
  have haccept : acceptConnections [.socket 5 0 0 0] (List.replicate 1 .zeroed) = justAccepted.connections := by
    decide +kernel
  have hpolled : polledIndices (List.replicate 1 .zeroed) = [] := by decide
  rw [List.foldlM_cons]
  simp only [processConnections, deliver, initConnections, fifteenSeconds, oneConnection, haccept, hpolled]
  rfl

def checkAt (time : Int) : Cycle :=
  ⟨false, false, [], fun _ => ⟨false, false, false, [], [], 0, time, default, (false, [])⟩, fun _ => []⟩

theorem held_in_time_fourteen :
    ∃ s' c', [checkAt 14].foldlM (processConnections ⟨.latin1, false⟩ default (fun seed => (0, seed)) (answering [])
        (fun s => ([], s)) fifteenSeconds) justAccepted = .ok s' ∧ s'.connections[0]? = some c' ∧
      SameConnection { Connection.zeroed with state := .reading, socket := 5 } c' ∧
      ∀ cycle ∈ [checkAt 14], cycle.pollFailed = false →
        ¬Overdue fifteenSeconds (cycle.visits 0) { Connection.zeroed with state := .reading, socket := 5 } := by
  refine held_in_time justAccepted_timed rfl fun k s' hrun => ?_
  cases k with
  | zero =>
      cases hrun
      exact ⟨_, rfl, by decide⟩
  | succ k =>
      rw [List.take_of_length_le (Nat.le_add_left 1 k)] at hrun
      cases hrun
      exact ⟨_, rfl, by decide⟩

theorem table_drains_fifteen :
    ∃ s', processConnections ⟨.latin1, false⟩ default (fun seed => (0, seed)) (answering []) (fun s => ([], s))
        fifteenSeconds justAccepted (checkAt 15) = .ok s' ∧
      s'.connections.length = 1 ∧ ∀ c ∈ s'.connections, c.state = .free := by
  refine table_drains justAccepted_timed rfl rfl fun i c hc hbusy => ?_
  cases i with
  | zero =>
      cases hc
      exact ⟨by decide, by decide⟩
  | succ i => cases hc

end TibiaLogin.Deadline
