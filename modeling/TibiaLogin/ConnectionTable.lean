import TibiaLogin.ConnectionInput

namespace TibiaLogin.ConnectionTable

open MachineInt Memory BufferReader Query LoginQuery LoginResponse LoginHandler StatusRecords Server ConnectionInput

/-- After its request a connection is not processing any more, unless closed. -/
structure Settled (c : Connection) : Prop where
  sized : c.buffer.length = 2048
  polled : c.state ≠ .free
  shape : c.socket ≠ -1 → ReadingOk c ∨ WritingOk c

/-- A connection whose request has been answered. -/
structure Answering (c : Connection) : Prop where
  sized : c.buffer.length = 2048
  replied : c.state = .processing ∨ c.state = .writing
  shape : c.socket ≠ -1 → WritingOk c

/-- A connection after its request: a response starts at its first byte on the
same socket, and without one the socket is closed. -/
structure Responded (c c' : Connection) : Prop extends Answering c' where
  outcome : (c'.state = .writing ∧ c'.rwPosition = 0 ∧ c'.socket = c.socket) ∨ (c'.state = .processing ∧ c'.socket = -1)

theorem Answering.settled {c : Connection} (h : Answering c) : Settled c := by
  refine ⟨h.sized, ?_, fun hs => Or.inr (h.shape hs)⟩
  rcases h.replied with he | he <;> simp [he]

theorem answering_closed {c : Connection} (hb : c.buffer.length = 2048)
    (hp : c.state = .processing ∨ c.state = .writing) : Answering (closeConnection c) := by
  rw [closeConnection_eq]
  exact ⟨hb, hp, fun h => absurd rfl h⟩

theorem responded_closed {c : Connection} (hb : c.buffer.length = 2048) (hp : c.state = .processing) :
    Responded c (closeConnection c) := by
  refine ⟨answering_closed hb (Or.inl hp), Or.inr ?_⟩
  rw [closeConnection_eq]
  exact ⟨hp, rfl⟩

theorem responded_of_answered {data : List UInt8} {c c' : Connection} (h : Answered data c c') : Responded c c' := by
  rcases h.outcome with ⟨hs, -, hq⟩ | ⟨hp, hs⟩
  · obtain ⟨pad, -, -, hsize, hfit, -⟩ := hq.content
    have hpos := hq.position_eq
    exact ⟨⟨h.sized, Or.inr hq.state_eq, fun _ => ⟨hq.state_eq, by omega⟩⟩, Or.inl ⟨hq.state_eq, hpos, hs⟩⟩
  · exact ⟨⟨h.sized, Or.inl hp, fun hne => absurd hs hne⟩, Or.inr ⟨hp, hs⟩⟩

section

variable {σ : Type} (build : Build) (rsa : RsaKey) (randR : UInt32 → Int × UInt32) (exchange : Exchange σ)
  (statusString : Session σ → List UInt8 × Session σ) (config : ServerConfig) {c : Connection}
  (hb : c.buffer.length = 2048) (hs : c.state = .processing)

include hb hs

theorem requestCharacters_responded (stray : Stray) {cred : Credentials} (hcred : cred.Fits) (s : Session σ) :
    ∃ c' s', requestCharacters build randR exchange config stray cred c s = .ok (c', s') ∧ Responded c c' := by
  generalize hr : exchange s.client (requestFrame (resolveRequest build.encoding cred.email)) 1024 = outcome
  by_cases hcode : (resolveOutcome (replyOf outcome)).1 = 0
  · obtain ⟨c', code, characters, premiumDays, hc', ha, -⟩ := requestCharacters_granted build randR exchange config
      stray hcred hs hb s rfl hr hcode rfl rfl
    exact ⟨c', _, hc', responded_of_answered ha.toAnswered⟩
  · obtain ⟨c', hc', ha⟩ := requestCharacters_refused build randR exchange config stray hcred hs hb s rfl hr hcode
    exact ⟨c', _, hc', responded_of_answered ha.toAnswered⟩

theorem processLoginRequest_responded (stray : Stray) (s : Session σ) :
    ∃ c' s', processLoginRequest build rsa randR exchange config stray c s = .ok (c', s') ∧ Responded c c' := by
  cases hq : queryCredentials build rsa stray c with
  | none =>
      obtain ⟨key, c', hp, hc⟩ := processLoginRequest_settled build rsa randR exchange config stray hb s hs hq
      refine ⟨c', s, hp, ?_⟩
      rcases hc with rfl | ⟨message, ha⟩
      · obtain ⟨hclosed, hout⟩ := responded_closed (c := { c with xtea := key }) hb hs
        exact ⟨hclosed, hout⟩
      · obtain ⟨ha', hout⟩ := responded_of_answered ha.toAnswered
        exact ⟨ha', hout⟩
  | some cred =>
      obtain ⟨data, hfits, -, hp⟩ := processLoginRequest_asked build rsa randR exchange config stray hb s hq
      obtain ⟨c', s', hc', ha, hout⟩ := requestCharacters_responded build randR exchange config
        (c := { c with xtea := keyOf data }) hb hs stray hfits s
      exact ⟨c', s', by rw [hp, hc'], ha, hout⟩

omit hs in
theorem sendStatusString_responded (status : List UInt8) (hp : c.state = .processing) :
    Responded c (sendStatusString status c) := by
  rw [sendStatusString]
  split_ifs with h
  · exact responded_closed hb hp
  · refine ⟨⟨?_, Or.inr rfl, fun _ => ⟨rfl, ?_⟩⟩, Or.inl ⟨rfl, rfl, rfl⟩⟩
    · rw [length_overwrite, hb]
      rw [List.length_take, hb]
      omega
    · simp only
      omega

theorem processStatusRequest_responded (visit : Visit) (shared : Shared σ) :
    ∃ c' shared', processStatusRequest statusString config visit c shared = .ok (c', shared') ∧ Responded c c' := by
  have hclosed := responded_closed hb hs
  obtain ⟨command, h₁⟩ : ∃ v, readU8 ⟨c.buffer.take c.rwSize.toNat, 0⟩ =
      .ok (v, ⟨c.buffer.take c.rwSize.toNat, 1⟩) := ⟨_, readScalar_eq _ _ (p := 0) (w := 1) (by omega)⟩
  obtain ⟨format, h₂⟩ : ∃ v, readU8 ⟨c.buffer.take c.rwSize.toNat, 1⟩ =
      .ok (v, ⟨c.buffer.take c.rwSize.toNat, 2⟩) := ⟨_, readScalar_eq _ _ (p := 1) (w := 1) (by omega)⟩
  obtain ⟨request, h₃⟩ : ∃ v, readBytes (List.replicate 5 0) 4 ⟨c.buffer.take c.rwSize.toNat, 2⟩ =
      .ok (v, ⟨c.buffer.take c.rwSize.toNat, 6⟩) :=
    ⟨_, readBytes_eq (List.replicate 5 0) _ (p := 2) (n := 4) (by simp) (by omega)⟩
  simp only [processStatusRequest]
  split_ifs
  · exact ⟨_, _, rfl, hclosed⟩
  · rw [h₁, ok_bind]
    simp only
    rw [h₂, ok_bind]
    simp only
    split_ifs with hformat
    · rw [h₃, ok_bind]
      simp only
      split_ifs
      · exact ⟨_, _, rfl, sendStatusString_responded hb _ hs⟩
      · exact ⟨_, _, rfl, hclosed⟩
    · exact ⟨_, _, rfl, hclosed⟩

end

theorem outputLoop_answering (departures : List Departure) {c : Connection} (hb : c.buffer.length = 2048)
    (h : WritingOk c) : ∃ c', outputLoop departures c = .ok c' ∧ Answering c' := by
  induction departures generalizing c with
  | nil => exact ⟨c, rfl, hb, Or.inr h.1, fun _ => h⟩
  | cons departure departures ih =>
      obtain ⟨hstate, h0, h1, h2⟩ := h
      have hroom : 0 ≤ c.rwSize - c.rwPosition := by omega
      obtain ⟨count, hcount⟩ := Int.eq_ofNat_of_zero_le hroom
      have hsize : toSize (c.rwSize - c.rwPosition) = count := by
        rw [hcount]
        exact toSize_natCast (by omega)
      have hw : Within c.buffer.length c.rwPosition count := Or.inr (by omega)
      simp only [outputLoop, hsize]
      rw [if_pos hw]
      cases departure with
      | again => exact ⟨c, rfl, hb, Or.inr hstate, fun _ => ⟨hstate, h0, h1, h2⟩⟩
      | failed => exact ⟨_, rfl, answering_closed hb (Or.inr hstate)⟩
      | bytes more =>
          by_cases hdone : c.rwSize ≤ c.rwPosition + (min (more + 1) count : Nat)
          · exact ⟨_, if_pos hdone, answering_closed hb (Or.inr hstate)⟩
          · simp only
            rw [if_neg hdone]
            exact ih hb ⟨hstate, by simp only; omega, by simp only; omega, h2⟩

theorem checkConnectionOutput_idle {visit : Visit} {c : Connection} (h : c.socket = -1 ∨ c.state ≠ .writing) :
    checkConnectionOutput visit c = .ok c := by
  rw [checkConnectionOutput]
  rcases h with hs | hs
  · rw [if_pos hs]
  · rw [if_pos hs, ite_self]

theorem checkConnectionOutput_answering (visit : Visit) {c : Connection} (h : Answering c) :
    ∃ c', checkConnectionOutput visit c = .ok c' ∧ Answering c' := by
  by_cases hs : c.socket = -1
  · exact ⟨c, checkConnectionOutput_idle (Or.inl hs), h⟩
  · have hw := h.shape hs
    rw [checkConnectionOutput, if_neg hs, if_neg (not_not.mpr hw.1)]
    exact outputLoop_answering visit.departures h.sized hw

theorem checkConnectionOutput_settled (visit : Visit) {c : Connection} (h : Settled c) :
    ∃ c', checkConnectionOutput visit c = .ok c' ∧ Settled c' := by
  by_cases hs : c.socket = -1
  · exact ⟨c, checkConnectionOutput_idle (Or.inl hs), h⟩
  · rcases h.shape hs with hr | hw
    · exact ⟨c, checkConnectionOutput_idle (Or.inr (by simp [hr.1])), h⟩
    · obtain ⟨c', hc', ha⟩ := checkConnectionOutput_answering visit ⟨h.sized, Or.inr hw.1, fun _ => hw⟩
      exact ⟨c', hc', ha.settled⟩

theorem settled_ite_close {c : Connection} (h : Settled c) (p : Prop) [Decidable p] :
    Settled (if p then closeConnection c else c) := by
  split_ifs
  · rw [closeConnection_eq]
    exact ⟨h.sized, h.polled, fun hne => absurd rfl hne⟩
  · exact h

theorem slotOk_zeroed : SlotOk .zeroed :=
  ⟨List.length_replicate, show (0 : Int) ≠ -1 by decide, Or.inl ⟨rfl, rfl, rfl⟩⟩

theorem checkConnection_slotOk (config : ServerConfig) (visit : Visit) {c : Connection} (h : Settled c) :
    SlotOk (checkConnection config visit c) := by
  have hlast : ∀ {c : Connection}, Settled c → SlotOk (if c.socket = -1 then releaseConnection c else c) := by
    intro c h
    split_ifs with hs
    · rw [releaseConnection, if_pos h.polled]
      exact slotOk_zeroed
    · exact ⟨h.sized, hs, Or.inr (h.shape hs)⟩
  exact hlast (settled_ite_close (settled_ite_close h _) _)

section

variable {σ : Type} (build : Build) (rsa : RsaKey) (randR : UInt32 → Int × UInt32) (exchange : Exchange σ)
  (statusString : Session σ → List UInt8 × Session σ) (config : ServerConfig)

theorem checkConnectionRequest_idle (visit : Visit) {c : Connection} (h : c.socket = -1 ∨ c.state ≠ .processing)
    (shared : Shared σ) :
    checkConnectionRequest build rsa randR exchange statusString config visit c shared = .ok (c, shared) := by
  rw [checkConnectionRequest]
  rcases h with hs | hs
  · rw [if_pos hs]
  · rw [if_pos hs, ite_self]

theorem dispatch_responded (visit : Visit) {c : Connection} (hb : c.buffer.length = 2048) (h : Requesting c)
    (shared : Shared σ) :
    ∃ c' shared', checkConnectionRequest build rsa randR exchange statusString config visit c shared =
      .ok (c', shared') ∧ Responded c c' := by
  obtain ⟨hp, hlo, -⟩ := h
  rw [checkConnectionRequest]
  by_cases hs : c.socket = -1
  · exact ⟨c, shared, if_pos hs, ⟨hb, Or.inl hp, fun hne => absurd hs hne⟩, Or.inr ⟨hp, hs⟩⟩
  · obtain ⟨c₁, session, hlogin, h₁⟩ := processLoginRequest_responded build rsa randR exchange config hb hp
      visit.stray shared.session
    obtain ⟨c₂, shared', hstatus, h₂⟩ := processStatusRequest_responded statusString config hb hp visit shared
    rw [if_neg hs, if_neg (not_not.mpr hp), if_neg (by omega)]
    simp only [hlogin, hstatus]
    split_ifs
    · exact ⟨c₁, _, rfl, h₁⟩
    · exact ⟨c₂, shared', rfl, h₂⟩
    · exact ⟨_, shared, rfl, responded_closed hb hp⟩

theorem checkConnectionRequest_settled (visit : Visit) {c : Connection} (h : Active c) (shared : Shared σ) :
    ∃ c' shared', checkConnectionRequest build rsa randR exchange statusString config visit c shared =
      .ok (c', shared') ∧ Settled c' := by
  have hidle (hi : c.socket = -1 ∨ c.state ≠ .processing) :=
    checkConnectionRequest_idle build rsa randR exchange statusString config visit hi shared
  by_cases hs : c.socket = -1
  · exact ⟨c, shared, hidle (Or.inl hs), h.sized, h.polled, fun hne => absurd hs hne⟩
  · rcases h.shape hs with hr | hw | hq
    · exact ⟨c, shared, hidle (Or.inr (by simp [hr.1])), h.sized, h.polled, fun _ => Or.inl hr⟩
    · exact ⟨c, shared, hidle (Or.inr (by simp [hw.1])), h.sized, h.polled, fun _ => Or.inr hw⟩
    · obtain ⟨c', shared', hc', ha⟩ := dispatch_responded build rsa randR exchange statusString config visit h.sized hq
        shared
      exact ⟨c', shared', hc', ha.toAnswering.settled⟩

theorem visitConnection_ok {visit : Visit} {c c₁ c₂ c₃ : Connection} {stream stream' : List UInt8}
    {shared shared' : Shared σ} (h₁ : checkConnectionInput visit c stream = .ok (c₁, stream'))
    (h₂ : checkConnectionRequest build rsa randR exchange statusString config visit c₁ shared = .ok (c₂, shared'))
    (h₃ : checkConnectionOutput visit c₂ = .ok c₃) :
    visitConnection build rsa randR exchange statusString config visit c stream shared =
      .ok (checkConnection config visit c₃, stream', shared') := by
  rw [visitConnection, h₁, ok_bind]
  simp only
  rw [h₂, ok_bind]
  simp only
  rw [h₃, ok_bind]
  rfl

theorem visitConnection_slotOk (visit : Visit) {c : Connection} (h : SlotOk c) (hp : c.state ≠ .free)
    (stream : List UInt8) (shared : Shared σ) :
    ∃ c' stream' shared', visitConnection build rsa randR exchange statusString config visit c stream shared =
      .ok (c', stream', shared') ∧ SlotOk c' := by
  obtain ⟨c₁, stream', h₁, ha⟩ := checkConnectionInput_active visit h hp stream
  obtain ⟨c₂, shared', h₂, hs⟩ :=
    checkConnectionRequest_settled build rsa randR exchange statusString config visit ha shared
  obtain ⟨c₃, h₃, hs'⟩ := checkConnectionOutput_settled visit hs
  exact ⟨_, stream', shared', visitConnection_ok build rsa randR exchange statusString config h₁ h₂ h₃,
    checkConnection_slotOk config visit hs'⟩

end

theorem assignConnection_slotOk (fd : Nat) (addr : UInt32) (uptime : Int) (seed : UInt32)
    {connections : List Connection} (h : ∀ c ∈ connections, SlotOk c) :
    ∀ c ∈ assignConnection fd addr uptime seed connections, SlotOk c := by
  induction connections with
  | nil => exact h
  | cons d connections ih =>
      obtain ⟨hd, hrest⟩ := List.forall_mem_cons.mp h
      rw [assignConnection]
      split_ifs with hfree
      · refine List.forall_mem_cons.mpr ⟨⟨hd.sized, by simp only; omega, Or.inr (Or.inl ⟨rfl, Or.inl ?_⟩)⟩, hrest⟩
        rcases hd.shape with hf | hr | hw
        · exact ⟨hf.2.1, Or.inl hf.2.2⟩
        · exact absurd (hr.1.symm.trans hfree) (by simp)
        · exact absurd (hw.1.symm.trans hfree) (by simp)
      · exact List.forall_mem_cons.mpr ⟨hd, ih hrest⟩

theorem assignConnection_busy (fd : Nat) (addr : UInt32) (uptime : Int) (seed : UInt32)
    {connections : List Connection} {i : Nat} {c : Connection} (hc : connections[i]? = some c)
    (hbusy : c.state ≠ .free) : (assignConnection fd addr uptime seed connections)[i]? = some c := by
  induction connections generalizing i with
  | nil => simp at hc
  | cons d connections ih =>
      rw [assignConnection]
      cases i with
      | zero =>
          rw [List.getElem?_cons_zero, Option.some.injEq] at hc
          rw [hc, if_neg hbusy, List.getElem?_cons_zero]
      | succ i =>
          rw [List.getElem?_cons_succ] at hc
          split_ifs
          · rw [List.getElem?_cons_succ, hc]
          · rw [List.getElem?_cons_succ, ih hc]

theorem length_assignConnection (fd : Nat) (addr : UInt32) (uptime : Int) (seed : UInt32)
    (connections : List Connection) :
    (assignConnection fd addr uptime seed connections).length = connections.length := by
  induction connections with
  | nil => rfl
  | cons d connections ih =>
      rw [assignConnection]
      split_ifs
      · rfl
      · rw [List.length_cons, ih, List.length_cons]

theorem acceptConnections_spec (accepted : List Accepted) {connections : List Connection}
    (h : ∀ c ∈ connections, SlotOk c) :
    (acceptConnections accepted connections).length = connections.length ∧
      (∀ c ∈ acceptConnections accepted connections, SlotOk c) ∧
      ∀ (i : Nat) (c : Connection), connections[i]? = some c → c.state ≠ .free →
        (acceptConnections accepted connections)[i]? = some c := by
  induction accepted generalizing connections with
  | nil => exact ⟨rfl, h, fun _ _ hc _ => hc⟩
  | cons result accepted ih =>
      cases result with
      | none => exact ⟨rfl, h, fun _ _ hc _ => hc⟩
      | unusable => exact ih h
      | socket fd addr uptime seed =>
          obtain ⟨hlen, hok, hbusy⟩ := ih (assignConnection_slotOk fd addr uptime seed h)
          refine ⟨hlen.trans (length_assignConnection fd addr uptime seed connections), hok, fun i c hc hne => ?_⟩
          exact hbusy i c (assignConnection_busy fd addr uptime seed hc hne) hne

/-- Within a cycle: the connections still to be visited are not free. -/
structure Visiting (n : Nat) (indices : List Nat) (connections : List Connection) : Prop where
  length_eq : connections.length = n
  slots : ∀ c ∈ connections, SlotOk c
  nodup : indices.Nodup
  busy : ∀ i ∈ indices, ∃ c, connections[i]? = some c ∧ c.state ≠ .free

section

variable {σ : Type} (build : Build) (rsa : RsaKey) (randR : UInt32 → Int × UInt32) (exchange : Exchange σ)
  (statusString : Session σ → List UInt8 × Session σ) (config : ServerConfig)

omit σ in
theorem visiting_polled {connections : List Connection} (h : ∀ c ∈ connections, SlotOk c) :
    Visiting connections.length (polledIndices connections) connections := by
  refine ⟨rfl, h, List.nodup_range.filter _, fun i hi => ?_⟩
  obtain ⟨hlt, hne⟩ := List.mem_filter.mp hi
  rw [List.mem_range] at hlt
  refine ⟨connections[i], List.getElem?_eq_getElem hlt, ?_⟩
  simpa [List.getElem?_eq_getElem hlt] using hne

omit σ in
theorem visiting_accepted {connections : List Connection} (accepted : List Accepted)
    (h : ∀ c ∈ connections, SlotOk c) :
    Visiting connections.length (polledIndices connections) (acceptConnections accepted connections) := by
  obtain ⟨hlen, hok, hbusy⟩ := acceptConnections_spec accepted h
  have hv := visiting_polled h
  refine ⟨hlen, hok, hv.nodup, fun i hi => ?_⟩
  obtain ⟨c, hc, hne⟩ := hv.busy i hi
  exact ⟨c, hbusy i c hc hne, hne⟩

theorem visitIndex_visiting {n : Nat} (cycle : Cycle) (i : Nat) (indices : List Nat) (s : State σ)
    (h : Visiting n (i :: indices) s.connections) :
    ∃ c c' stream' shared', s.connections[i]? = some c ∧
      visitConnection build rsa randR exchange statusString config (cycle.visits i) c (cycle.streams i) s.shared =
        .ok (c', stream', shared') ∧
      visitIndex build rsa randR exchange statusString config cycle s i =
        .ok ⟨s.connections.set i c', shared'⟩ ∧
      Visiting n indices (s.connections.set i c') := by
  obtain ⟨c, hc, hbusy⟩ := h.busy i (List.mem_cons_self ..)
  obtain ⟨hnot, hnodup⟩ := List.nodup_cons.mp h.nodup
  obtain ⟨c', stream', shared', hv, hok⟩ := visitConnection_slotOk build rsa randR exchange statusString config
    (cycle.visits i) (h.slots c (List.mem_of_getElem? hc)) hbusy (cycle.streams i) s.shared
  refine ⟨c, c', stream', shared', hc, hv, ?_, ?_, ?_, hnodup, fun j hj => ?_⟩
  · rw [visitIndex, hc]
    simp only
    rw [hv]
    rfl
  · rw [List.length_set, h.length_eq]
  · intro d hd
    rcases List.mem_or_eq_of_mem_set hd with hd | rfl
    · exact h.slots d hd
    · exact hok
  · obtain ⟨d, hd, hne⟩ := h.busy j (List.mem_cons_of_mem _ hj)
    have hij : i ≠ j := fun he => hnot (he ▸ hj)
    exact ⟨d, by rw [List.getElem?_set_ne hij, hd], hne⟩

omit σ in
theorem visiting_start (cycle : Cycle) {connections : List Connection} (h : ∀ c ∈ connections, SlotOk c) :
    Visiting connections.length (polledIndices connections)
      (if cycle.listenerPollin then acceptConnections cycle.accepted connections else connections) := by
  split_ifs
  · exact visiting_accepted cycle.accepted h
  · exact visiting_polled h

theorem processConnections_tableOk {n : Nat} (s : State σ) (cycle : Cycle) (hlen : s.connections.length = n)
    (h : ∀ c ∈ s.connections, SlotOk c) :
    ∃ s', processConnections build rsa randR exchange statusString config s cycle = .ok s' ∧
      s'.connections.length = n ∧ ∀ c ∈ s'.connections, SlotOk c := by
  rw [processConnections]
  by_cases hf : cycle.pollFailed = true
  · exact ⟨s, if_pos hf, hlen, h⟩
  · rw [if_neg hf]
    have hstart := visiting_start cycle h
    rw [hlen] at hstart
    obtain ⟨s', hrun, hv⟩ := foldlM_invariant (fun l (s : State σ) => Visiting n l s.connections) (fun i l s hv => by
      obtain ⟨-, c', -, shared', -, -, hrun, hv'⟩ :=
        visitIndex_visiting build rsa randR exchange statusString config cycle i l s hv
      exact ⟨_, hrun, hv'⟩) (b := ⟨_, s.shared⟩) hstart
    exact ⟨s', hrun, hv.length_eq, hv.slots⟩

/-- Within a cycle, the visit to a connection is still to come or is done. -/
def Turn (cycle : Cycle) (i : Nat) (c : Connection) (indices : List Nat) (s : State σ) : Prop :=
  (i ∈ indices ∧ s.connections[i]? = some c) ∨
    (i ∉ indices ∧ ∃ c' stream' shared shared', s.connections[i]? = some c' ∧
      visitConnection build rsa randR exchange statusString config (cycle.visits i) c (cycle.streams i) shared =
        .ok (c', stream', shared'))

theorem visitIndex_turn {n : Nat} (cycle : Cycle) {i : Nat} {c : Connection} (j : Nat) (indices : List Nat)
    (s : State σ) (h : Visiting n (j :: indices) s.connections)
    (hturn : Turn build rsa randR exchange statusString config cycle i c (j :: indices) s) :
    ∃ s', visitIndex build rsa randR exchange statusString config cycle s j = .ok s' ∧
      Visiting n indices s'.connections ∧ Turn build rsa randR exchange statusString config cycle i c indices s' := by
  obtain ⟨hnot, -⟩ := List.nodup_cons.mp h.nodup
  obtain ⟨d, d', stream', shared', hd, hvisit, hrun, hv'⟩ :=
    visitIndex_visiting build rsa randR exchange statusString config cycle j indices s h
  refine ⟨_, hrun, hv', ?_⟩
  by_cases hij : j = i
  · subst hij
    rcases hturn with ⟨-, hc⟩ | ⟨hout, -⟩
    · rw [hd, Option.some.injEq] at hc
      subst hc
      have hlt : j < s.connections.length := (List.getElem?_eq_some_iff.mp hd).1
      exact Or.inr ⟨hnot, d', stream', s.shared, shared', List.getElem?_set_self hlt, hvisit⟩
    · exact absurd (List.mem_cons_self ..) hout
  · have hmem : i ∈ j :: indices ↔ i ∈ indices := by
      rw [List.mem_cons]
      exact or_iff_right (Ne.symm hij)
    have hget : (s.connections.set j d')[i]? = s.connections[i]? := List.getElem?_set_ne hij
    rw [Turn, hmem] at hturn
    rw [Turn]
    simp only [hget]
    exact hturn

theorem processConnections_visits (s : State σ) (cycle : Cycle) (h : ∀ c ∈ s.connections, SlotOk c) {i : Nat}
    {c : Connection} (hc : s.connections[i]? = some c) (hbusy : c.state ≠ .free) (hpoll : cycle.pollFailed = false) :
    ∃ s' c' stream' shared shared',
      processConnections build rsa randR exchange statusString config s cycle = .ok s' ∧
      (∀ c ∈ s'.connections, SlotOk c) ∧ s'.connections[i]? = some c' ∧
      visitConnection build rsa randR exchange statusString config (cycle.visits i) c (cycle.streams i) shared =
        .ok (c', stream', shared') := by
  have hpolled : i ∈ polledIndices s.connections := by
    rw [polledIndices, List.mem_filter, List.mem_range, hc]
    exact ⟨(List.getElem?_eq_some_iff.mp hc).1, by simpa using hbusy⟩
  have hstart : Turn build rsa randR exchange statusString config cycle i c (polledIndices s.connections)
      ⟨if cycle.listenerPollin then acceptConnections cycle.accepted s.connections else s.connections, s.shared⟩ := by
    refine Or.inl ⟨hpolled, ?_⟩
    simp only
    split_ifs
    · exact (acceptConnections_spec cycle.accepted h).2.2 i c hc hbusy
    · exact hc
  obtain ⟨s', hrun, hv, hturn⟩ := foldlM_invariant
    (fun l (st : State σ) => Visiting s.connections.length l st.connections ∧
      Turn build rsa randR exchange statusString config cycle i c l st)
    (fun j l st hst => visitIndex_turn build rsa randR exchange statusString config cycle j l st hst.1 hst.2)
    (b := ⟨_, s.shared⟩) ⟨visiting_start cycle h, hstart⟩
  rcases hturn with ⟨hin, -⟩ | ⟨-, c', stream', shared, shared', hc', hvisit⟩
  · cases hin
  · refine ⟨s', c', stream', shared, shared', ?_, hv.slots, hc', hvisit⟩
    rw [processConnections, if_neg (by simp [hpoll])]
    exact hrun

/-- In every reachable state the table is in order, and no cycle ends in a
panic, a failed assertion or an access outside a buffer. -/
theorem connection_table_invariant (session : Session σ) (cycles : List Cycle) :
    ∃ s, cycles.foldlM (processConnections build rsa randR exchange statusString config)
        (initConnections config session) = .ok s ∧
      s.connections.length = config.maxConnections ∧ ∀ c ∈ s.connections, SlotOk c := by
  refine foldlM_invariant (fun _ (s : State σ) => s.connections.length = config.maxConnections ∧
    ∀ c ∈ s.connections, SlotOk c) (fun cycle _ s h => ?_) ⟨?_, ?_⟩
  · exact processConnections_tableOk build rsa randR exchange statusString config s cycle h.1 h.2
  · exact List.length_replicate
  · intro c hc
    rw [List.eq_of_mem_replicate hc]
    exact slotOk_zeroed

end

end TibiaLogin.ConnectionTable
