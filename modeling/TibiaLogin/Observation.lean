import TibiaLogin.ConnectionTable

namespace TibiaLogin.Observation

open MachineInt Memory Query LoginHandler Server ConnectionInput ConnectionTable

/-- What `accept` gives, with the descriptor of a socket that cannot be made
non-blocking. -/
inductive AcceptResult
  | none
  | unusable (fd : Nat)
  | socket (fd : Nat) (addr : UInt32) (uptime : Int) (seed : UInt32)
  deriving DecidableEq, Repr

def AcceptResult.toAccepted : AcceptResult → Accepted
  | .none => .none
  | .unusable _ => .unusable
  | .socket fd addr uptime seed => .socket fd addr uptime seed

structure KernelCycle where
  pollFailed : Bool
  listenerPollin : Bool
  accepted : List AcceptResult
  visits : Nat → Visit
  streams : Nat → List UInt8

def KernelCycle.toCycle (k : KernelCycle) : Cycle :=
  ⟨k.pollFailed, k.listenerPollin, k.accepted.map AcceptResult.toAccepted, k.visits, k.streams⟩

def expire (config : ServerConfig) (visit : Visit) (c : Connection) : Connection :=
  let c := if visit.pollerr ∨ visit.pollhup then closeConnection c else c
  if 0 < config.connectionTimeout ∧ config.connectionTimeout ≤ wrap32 (visit.checkTime - c.startTime) then
    closeConnection c
  else c

def settle (c : Connection) : Connection := if c.socket = -1 then releaseConnection c else c

theorem checkConnection_eq (config : ServerConfig) (visit : Visit) (c : Connection) :
    checkConnection config visit c = settle (expire config visit c) := rfl

/-- A connection after its input, its request, its output and the check that
may end it. -/
structure Stages where
  read : Connection
  handled : Connection
  sent : Connection
  expired : Connection

/-- The input loop closes the socket or leaves it, with a request or on the way
to one. -/
def InputHeld (c c' : Connection) : Prop :=
  (c'.socket = -1 ∧ c'.state = .reading) ∨ (c'.socket = c.socket ∧ (c'.state = .reading ∨ c'.state = .processing))

theorem inputHeld_closed {c c' : Connection} (h : c'.state = .reading) : InputHeld c (closeConnection c') := by
  rw [closeConnection_eq]
  exact Or.inl ⟨rfl, h⟩

theorem inputHeld_of_outcome {arrival : Arrival} {c : Connection} {stream : List UInt8}
    {r : Bool × Connection × List UInt8} (h : c.state = .reading) (ho : InputOutcome arrival c stream r) :
    InputHeld c r.2.1 ∧ (r.1 = true → r.2.1.socket = c.socket) := by
  cases ho with
  | idle => exact ⟨Or.inr ⟨rfl, Or.inl h⟩, nofun⟩
  | closed | refused => exact ⟨inputHeld_closed h, nofun⟩
  | partly | header => exact ⟨Or.inr ⟨rfl, Or.inl h⟩, fun _ => rfl⟩
  | complete => exact ⟨Or.inr ⟨rfl, Or.inr rfl⟩, nofun⟩

theorem inputLoop_held (arrivals : List Arrival) {c c' : Connection} {stream stream' : List UInt8} (ha : Active c)
    (h : ReadingOk c) (hrun : inputLoop arrivals c stream = .ok (c', stream')) : InputHeld c c' := by
  induction arrivals generalizing c stream with
  | nil =>
      cases hrun
      exact Or.inr ⟨rfl, Or.inl h.1⟩
  | cons arrival arrivals ih =>
      obtain ⟨⟨more, c₁, stream₁⟩, hstep, ho⟩ := inputStep_outcome ha.sized h arrival stream
      obtain ⟨ha₁, hr₁⟩ := active_of_outcome ha h ho
      obtain ⟨hheld, hsame⟩ := inputHeld_of_outcome h.1 ho
      simp only [inputLoop] at hrun
      rw [hstep, ok_bind] at hrun
      cases more with
      | true =>
          have hrest := ih ha₁ (hr₁ rfl) hrun
          rw [InputHeld, show c₁.socket = c.socket from hsame rfl] at hrest
          exact hrest
      | false =>
          cases hrun
          exact hheld

theorem checkConnectionInput_held {visit : Visit} {c c' : Connection} {stream stream' : List UInt8} (hslot : SlotOk c)
    (h : ReadingOk c) (hrun : checkConnectionInput visit c stream = .ok (c', stream')) : InputHeld c c' := by
  have ha : Active c := ⟨hslot.sized, by rw [h.1]; simp, fun _ => Or.inl h⟩
  rw [checkConnectionInput, if_neg (not_not.mpr h.1)] at hrun
  split_ifs at hrun
  · cases hrun
    exact Or.inr ⟨rfl, Or.inl h.1⟩
  · exact inputLoop_held visit.arrivals ha h hrun

theorem expire_cases (config : ServerConfig) (visit : Visit) (c : Connection) :
    expire config visit c = c ∨ expire config visit c = closeConnection c := by
  have htwice : closeConnection (closeConnection c) = closeConnection c := by
    rw [closeConnection_eq, closeConnection_eq]
  simp only [expire]
  split_ifs
  · exact Or.inr htwice
  · exact Or.inr rfl
  · exact Or.inr rfl
  · exact Or.inl rfl

theorem settle_expire (config : ServerConfig) (visit : Visit) {c : Connection} (h : c.state ≠ .free) :
    (settle (expire config visit c) = .zeroed ∧ (expire config visit c).socket = -1) ∨
      (settle (expire config visit c) = c ∧ expire config visit c = c ∧ c.socket ≠ -1) := by
  have hstate : (expire config visit c).state = c.state := by
    rcases expire_cases config visit c with he | he
    · rw [he]
    · rw [he, closeConnection_eq]
  by_cases hs : (expire config visit c).socket = -1
  · refine Or.inl ⟨?_, hs⟩
    rw [settle, if_pos hs, releaseConnection, if_pos (by rw [hstate]; exact h)]
  · have hsame : expire config visit c = c := by
      rcases expire_cases config visit c with he | he
      · exact he
      · rw [he, closeConnection_eq] at hs
        exact absurd rfl hs
    refine Or.inr ⟨?_, hsame, ?_⟩
    · rw [settle, if_neg hs, hsame]
    · rwa [hsame] at hs

theorem settle_kept {config : ServerConfig} {visit : Visit} {c : Connection} (h : c.state ≠ .free)
    (hbusy : (settle (expire config visit c)).state ≠ .free) : settle (expire config visit c) = c ∧ c.socket ≠ -1 := by
  rcases settle_expire config visit h with ⟨hz, -⟩ | ⟨hsame, -, hopen⟩
  · rw [hz] at hbusy
    exact absurd rfl hbusy
  · exact ⟨hsame, hopen⟩

/-- What a visit to an occupied place can do: wait for a request or lose the
connection before it, answer a request, or go on with a response. -/
inductive Visited (visit : Visit) (c : Connection) (st : Stages) : Prop
  | waiting (hstate : c.state = .reading) (hread : st.read.state = .reading)
      (hopen : st.read.socket = -1 ∨ (st.read.socket = c.socket ∧ ReadingOk st.read)) (hhandled : st.handled = st.read)
      (hsent : st.sent = st.read)
  | requested (hstate : c.state = .reading) (hsocket : st.read.socket = c.socket) (hrequest : Requesting st.read)
      (hresponded : Responded st.read st.handled) (hsent : checkConnectionOutput visit st.handled = .ok st.sent)
  | writing (hw : WritingOk c) (hread : st.read = c ∨ st.read = closeConnection c) (hhandled : st.handled = st.read)
      (hsent : checkConnectionOutput visit st.handled = .ok st.sent)

def firstFree (connections : List Connection) : Option Nat := connections.findIdx? fun c => c.state = .free

theorem assignConnection_cases (fd : Nat) (addr : UInt32) (uptime : Int) (seed : UInt32) (connections : List Connection) :
    (firstFree connections = none ∧ assignConnection fd addr uptime seed connections = connections) ∨
      ∃ j c, firstFree connections = some j ∧ connections[j]? = some c ∧ c.state = .free ∧
        assignConnection fd addr uptime seed connections = connections.set j
          { c with
            state := .reading
            socket := fd
            ipAddress := wrap32 addr.toNat
            startTime := uptime
            randomSeed := seed } := by
  induction connections with
  | nil => exact Or.inl ⟨rfl, rfl⟩
  | cons d connections ih =>
      rw [assignConnection, firstFree, List.findIdx?_cons]
      by_cases hfree : d.state = .free
      · refine Or.inr ⟨0, d, ?_, rfl, hfree, ?_⟩
        · rw [if_pos (by simpa using hfree)]
        · rw [if_pos hfree]
          rfl
      · rw [if_neg hfree, if_neg (by simpa using hfree), ← firstFree]
        rcases ih with ⟨hnone, heq⟩ | ⟨j, c, hj, hc, hstate, heq⟩
        · exact Or.inl ⟨by rw [hnone]; rfl, by rw [heq]⟩
        · refine Or.inr ⟨j + 1, c, by rw [hj]; rfl, hc, hstate, ?_⟩
          rw [heq, List.set_cons_succ]

/-- What is noted of a run: a socket closed as it could not be made
non-blocking, one accepted with the table as it was, and a visit. -/
structure Observer (ω : Type) where
  refused : Nat → ω → ω
  assigned : Nat → List Connection → ω → ω
  visited : Nat → Visit → Connection → Stages → ω → ω

section

variable {ω : Type} (obs : Observer ω)

def observeAccept : List AcceptResult → List Connection → ω → List Connection × ω
  | [], connections, w => (connections, w)
  | .none :: _, connections, w => (connections, w)
  | .unusable fd :: accepted, connections, w => observeAccept accepted connections (obs.refused fd w)
  | .socket fd addr uptime seed :: accepted, connections, w =>
      observeAccept accepted (assignConnection fd addr uptime seed connections) (obs.assigned fd connections w)

def observeListener (cycle : KernelCycle) (connections : List Connection) (w : ω) : List Connection × ω :=
  if cycle.listenerPollin then observeAccept obs cycle.accepted connections w else (connections, w)

theorem observeAccept_fst (accepted : List AcceptResult) (connections : List Connection) (w : ω) :
    (observeAccept obs accepted connections w).1 =
      acceptConnections (accepted.map AcceptResult.toAccepted) connections := by
  induction accepted generalizing connections w with
  | nil => rfl
  | cons result accepted ih =>
      cases result with
      | none => rfl
      | unusable fd => exact ih connections _
      | socket fd addr uptime seed => exact ih _ _

theorem observeListener_fst (cycle : KernelCycle) (connections : List Connection) (w : ω) :
    (observeListener obs cycle connections w).1 =
      if cycle.toCycle.listenerPollin then acceptConnections cycle.toCycle.accepted connections else connections := by
  rw [observeListener, show cycle.toCycle.listenerPollin = cycle.listenerPollin from rfl]
  split_ifs
  · exact observeAccept_fst obs cycle.accepted connections w
  · rfl

variable {σ : Type} (build : Build) (rsa : RsaKey) (randR : UInt32 → Int × UInt32) (exchange : Exchange σ)
  (statusString : Session σ → List UInt8 × Session σ) (config : ServerConfig)

def visitStages (visit : Visit) (c : Connection) (stream : List UInt8) (shared : Shared σ) :
    Except Stop (Stages × List UInt8 × Shared σ) := do
  let (read, stream) ← checkConnectionInput visit c stream
  let (handled, shared) ← checkConnectionRequest build rsa randR exchange statusString config visit read shared
  let sent ← checkConnectionOutput visit handled
  pure (⟨read, handled, sent, expire config visit sent⟩, stream, shared)

theorem visited_of_stages {visit : Visit} {c : Connection} {stream : List UInt8} {shared : Shared σ} {st : Stages}
    {stream' : List UInt8} {shared' : Shared σ} (hslot : SlotOk c) (hbusy : c.state ≠ .free)
    (h : visitStages build rsa randR exchange statusString config visit c stream shared = .ok (st, stream', shared')) :
    Visited visit c st ∧ st.expired = expire config visit st.sent := by
  obtain ⟨⟨read, stream₁⟩, h₁, h⟩ := bind_eq_ok.mp h
  obtain ⟨⟨handled, shared₁⟩, h₂, h⟩ := bind_eq_ok.mp h
  obtain ⟨sent, h₃, h⟩ := bind_eq_ok.mp h
  cases h
  refine ⟨?_, rfl⟩
  obtain ⟨read', stream₂, h₁', hactive⟩ := checkConnectionInput_active visit hslot hbusy stream
  rw [h₁] at h₁'
  cases h₁'
  have hidle : read.socket = -1 ∨ read.state = .reading → handled = read ∧ sent = read := by
    intro hi
    rw [checkConnectionRequest_idle build rsa randR exchange statusString config visit
      (hi.imp_right fun hs => by rw [hs]; simp)] at h₂
    cases h₂
    rw [checkConnectionOutput_idle (hi.imp_right fun hs => by rw [hs]; simp)] at h₃
    cases h₃
    exact ⟨rfl, rfl⟩
  rcases hslot.shape with hf | hr | hw
  · exact absurd hf.1 hbusy
  · rcases checkConnectionInput_held hslot hr h₁ with ⟨hclosed, hstate⟩ | ⟨hsame, hstate⟩
    · obtain ⟨hhandled, hsent⟩ := hidle (Or.inl hclosed)
      exact .waiting hr.1 hstate (Or.inl hclosed) hhandled hsent
    · rcases hactive.shape (by rw [hsame]; exact hslot.socket) with hreading | hwriting | hrequest
      · obtain ⟨hhandled, hsent⟩ := hidle (Or.inr hreading.1)
        exact .waiting hr.1 hreading.1 (Or.inr ⟨hsame, hreading⟩) hhandled hsent
      · rw [hwriting.1] at hstate
        exact absurd hstate (by simp)
      · obtain ⟨handled', shared₂, h₂', hresponded⟩ := dispatch_responded build rsa randR exchange statusString config
          visit hactive.sized hrequest shared
        rw [h₂] at h₂'
        cases h₂'
        exact .requested hr.1 hsame hrequest hresponded h₃
  · have hread : read = c ∨ read = closeConnection c := by
      obtain ⟨c₁, hinput, hc₁⟩ := checkConnectionInput_busy visit (show c.state ≠ .reading by rw [hw.1]; simp) stream
      rw [h₁] at hinput
      cases hinput
      exact hc₁
    have hstate : read.state = .writing := by
      rcases hread with rfl | rfl
      · exact hw.1
      · rw [closeConnection_eq]
        exact hw.1
    rw [checkConnectionRequest_idle build rsa randR exchange statusString config visit
      (Or.inr (by rw [hstate]; simp))] at h₂
    cases h₂
    exact .writing hw hread rfl h₃

def observeVisit (cycle : KernelCycle) (t : State σ × ω) (i : Nat) : Except Stop (State σ × ω) :=
  match t.1.connections[i]? with
  | none => .ok t
  | some c => do
      let (st, _, shared) ← visitStages build rsa randR exchange statusString config (cycle.visits i) c
        (cycle.streams i) t.1.shared
      pure (⟨t.1.connections.set i (settle st.expired), shared⟩, obs.visited i (cycle.visits i) c st t.2)

def observeCycle (t : State σ × ω) (cycle : KernelCycle) : Except Stop (State σ × ω) :=
  if cycle.pollFailed then .ok t
  else
    let start := observeListener obs cycle t.1.connections t.2
    (polledIndices t.1.connections).foldlM (observeVisit obs build rsa randR exchange statusString config cycle)
      (⟨start.1, t.1.shared⟩, start.2)

/-- What holds of the table and the notes through every step. -/
structure Preserved (P : List Connection → ω → Prop) : Prop where
  refused : ∀ fd connections w, P connections w → P connections (obs.refused fd w)
  assigned : ∀ fd addr uptime seed connections w, (∀ c ∈ connections, SlotOk c) → P connections w →
    P (assignConnection fd addr uptime seed connections) (obs.assigned fd connections w)
  visited : ∀ i visit c st connections w, connections[i]? = some c → SlotOk c → c.state ≠ .free →
    Visited visit c st → st.expired = expire config visit st.sent → P connections w →
    P (connections.set i (settle st.expired)) (obs.visited i visit c st w)

theorem stages_of_visitConnection {visit : Visit} {c c' : Connection} {stream stream' : List UInt8}
    {shared shared' : Shared σ}
    (h : visitConnection build rsa randR exchange statusString config visit c stream shared = .ok (c', stream', shared')) :
    ∃ st, visitStages build rsa randR exchange statusString config visit c stream shared = .ok (st, stream', shared') ∧
      c' = settle st.expired := by
  obtain ⟨⟨read, stream₁⟩, h₁, h⟩ := bind_eq_ok.mp h
  obtain ⟨⟨handled, shared₁⟩, h₂, h⟩ := bind_eq_ok.mp h
  obtain ⟨sent, h₃, h⟩ := bind_eq_ok.mp h
  cases h
  refine ⟨⟨read, handled, sent, expire config visit sent⟩, ?_, checkConnection_eq config visit sent⟩
  rw [visitStages, h₁, ok_bind]
  simp only
  rw [h₂, ok_bind]
  simp only
  rw [h₃, ok_bind]
  rfl

section

variable {obs config} {P : List Connection → ω → Prop} (hp : Preserved obs config P)

include hp

theorem Preserved.accept (accepted : List AcceptResult) {connections : List Connection} {w : ω}
    (hslots : ∀ c ∈ connections, SlotOk c) (h : P connections w) :
    P (observeAccept obs accepted connections w).1 (observeAccept obs accepted connections w).2 := by
  induction accepted generalizing connections w with
  | nil => exact h
  | cons result accepted ih =>
      cases result with
      | none => exact h
      | unusable fd => exact ih hslots (hp.refused fd connections w h)
      | socket fd addr uptime seed =>
          exact ih (assignConnection_slotOk fd addr uptime seed hslots)
            (hp.assigned fd addr uptime seed connections w hslots h)

theorem Preserved.visit {n : Nat} (cycle : KernelCycle) (i : Nat) (indices : List Nat) (t : State σ × ω)
    (hv : Visiting n (i :: indices) t.1.connections) (h : P t.1.connections t.2) :
    ∃ t', observeVisit obs build rsa randR exchange statusString config cycle t i = .ok t' ∧
      visitIndex build rsa randR exchange statusString config cycle.toCycle t.1 i = .ok t'.1 ∧
      Visiting n indices t'.1.connections ∧ P t'.1.connections t'.2 := by
  obtain ⟨c, c', stream', shared', hc, hvisit, hindex, hv'⟩ :=
    visitIndex_visiting build rsa randR exchange statusString config cycle.toCycle i indices t.1 hv
  obtain ⟨d, hd, hbusy⟩ := hv.busy i (List.mem_cons_self ..)
  obtain rfl : c = d := by rwa [hc, Option.some.injEq] at hd
  obtain ⟨st, hstages, rfl⟩ := stages_of_visitConnection build rsa randR exchange statusString config hvisit
  have hslot := hv.slots c (List.mem_of_getElem? hc)
  obtain ⟨hvisited, hexpired⟩ := visited_of_stages build rsa randR exchange statusString config hslot hbusy hstages
  refine ⟨(⟨t.1.connections.set i (settle st.expired), shared'⟩, obs.visited i (cycle.visits i) c st t.2), ?_, hindex,
    hv', ?_⟩
  · rw [observeVisit, hc]
    simp only
    rw [show visitStages build rsa randR exchange statusString config (cycle.visits i) c (cycle.streams i) t.1.shared = _
      from hstages]
    rfl
  · exact hp.visited i _ c st _ _ hc hslot hbusy hvisited hexpired h

theorem Preserved.visits {n : Nat} (cycle : KernelCycle) {indices : List Nat} {t : State σ × ω}
    (hv : Visiting n indices t.1.connections) (h : P t.1.connections t.2) :
    ∃ t', indices.foldlM (observeVisit obs build rsa randR exchange statusString config cycle) t = .ok t' ∧
      indices.foldlM (visitIndex build rsa randR exchange statusString config cycle.toCycle) t.1 = .ok t'.1 ∧
      (∀ c ∈ t'.1.connections, SlotOk c) ∧ P t'.1.connections t'.2 := by
  induction indices generalizing t with
  | nil => exact ⟨t, rfl, rfl, hv.slots, h⟩
  | cons i indices ih =>
      obtain ⟨t₁, hobserve, hvisit, hv₁, h₁⟩ := hp.visit build rsa randR exchange statusString cycle i indices t hv h
      obtain ⟨t', hobserve', hvisit', hslots, h'⟩ := ih hv₁ h₁
      refine ⟨t', ?_, ?_, hslots, h'⟩
      · rw [List.foldlM_cons, hobserve]
        exact hobserve'
      · rw [List.foldlM_cons, hvisit]
        exact hvisit'

theorem Preserved.cycle (cycle : KernelCycle) {t : State σ × ω} (hslots : ∀ c ∈ t.1.connections, SlotOk c)
    (h : P t.1.connections t.2) :
    ∃ t', observeCycle obs build rsa randR exchange statusString config t cycle = .ok t' ∧
      processConnections build rsa randR exchange statusString config t.1 cycle.toCycle = .ok t'.1 ∧
      (∀ c ∈ t'.1.connections, SlotOk c) ∧ P t'.1.connections t'.2 := by
  by_cases hpoll : cycle.pollFailed = true
  · exact ⟨t, if_pos hpoll, if_pos hpoll, hslots, h⟩
  · have hstart : P (observeListener obs cycle t.1.connections t.2).1 (observeListener obs cycle t.1.connections t.2).2 := by
      rw [observeListener]
      split_ifs
      · exact hp.accept cycle.accepted hslots h
      · exact h
    have hv := visiting_start cycle.toCycle hslots
    rw [← observeListener_fst obs cycle t.1.connections t.2] at hv
    obtain ⟨t', hobserve, hvisit, hslots', h'⟩ := hp.visits build rsa randR exchange statusString cycle
      (t := (⟨(observeListener obs cycle t.1.connections t.2).1, t.1.shared⟩, _)) hv hstart
    refine ⟨t', ?_, ?_, hslots', h'⟩
    · rw [observeCycle, if_neg hpoll]
      exact hobserve
    · rw [processConnections, if_neg (show ¬cycle.toCycle.pollFailed = true from hpoll), ← observeListener_fst obs]
      exact hvisit

theorem Preserved.run (session : Session σ) (cycles : List KernelCycle) {w : ω}
    (h : P (initConnections config session).connections w) :
    ∃ t, cycles.foldlM (observeCycle obs build rsa randR exchange statusString config)
        (initConnections config session, w) = .ok t ∧
      (cycles.map KernelCycle.toCycle).foldlM (processConnections build rsa randR exchange statusString config)
        (initConnections config session) = .ok t.1 ∧
      (∀ c ∈ t.1.connections, SlotOk c) ∧ P t.1.connections t.2 := by
  have hslots : ∀ c ∈ (initConnections config session).connections, SlotOk c := by
    intro c hc
    rw [List.eq_of_mem_replicate hc]
    exact slotOk_zeroed
  generalize initConnections config session = s at h hslots ⊢
  induction cycles generalizing s w with
  | nil => exact ⟨(s, w), rfl, rfl, hslots, h⟩
  | cons cycle cycles ih =>
      obtain ⟨t₁, hobserve, hprocess, hslots₁, h₁⟩ := hp.cycle build rsa randR exchange statusString cycle (t := (s, w)) hslots h
      obtain ⟨t', hobserve', hprocess', hslots', h'⟩ := ih t₁.1 h₁ hslots₁
      refine ⟨t', ?_, ?_, hslots', h'⟩
      · rw [List.foldlM_cons, hobserve]
        exact hobserve'
      · rw [List.map_cons, List.foldlM_cons, show processConnections _ _ _ _ _ _ s _ = _ from hprocess]
        exact hprocess'

end

end

def serve (accepted : List AcceptResult) (stream : List UInt8) (arrivals : List Arrival) (departures : List Departure) :
    KernelCycle :=
  ⟨false, true, accepted, fun _ => ⟨stream ≠ [], false, false, arrivals, departures, 0, 0, default, (false, [])⟩,
    fun _ => stream⟩

end TibiaLogin.Observation
