import TibiaLogin.Ledger
import TibiaLogin.Observation

namespace TibiaLogin.SocketOwnership

open MachineInt Memory Query LoginHandler Server ConnectionInput ConnectionTable Observation Ledger

/-- The calls of `close` in a stage. Only `closeConnection` closes a socket and
writes -1 to its field, and a second call of it does neither. -/
def closeCalls (before after : Connection) : List (Event Int) :=
  if before.socket ≠ -1 ∧ after.socket = -1 then [.released before.socket] else []

def releaseCalls (c : Connection) : List (Event Int) :=
  if c.state ≠ .free then closeCalls c (closeConnection c) else []

def visitCalls (c : Connection) (st : Stages) : List (Event Int) :=
  closeCalls c st.read ++ (closeCalls st.read st.handled ++ (closeCalls st.handled st.sent ++
    (closeCalls st.sent st.expired ++ if st.expired.socket = -1 then releaseCalls st.expired else [])))

def held (c : Connection) : List Int := if c.state ≠ .free then [c.socket] else []

def occupied (connections : List Connection) : List Int := connections.flatMap held

/-- The descriptors accepted and closed, and whether one was ever assigned that
another place held. -/
structure Descriptors where
  log : List (Event Int)
  clash : Bool
  deriving DecidableEq, Repr

def socketObserver : Observer Descriptors where
  refused fd w := { w with log := w.log ++ [.acquired fd, .released fd] }
  assigned fd connections w :=
    match firstFree connections with
    | none => { w with log := w.log ++ [.acquired fd, .released fd] }
    | some _ => ⟨w.log ++ [.acquired fd], w.clash || (fd : Int) ∈ occupied connections⟩
  visited _ _ c st w := { w with log := w.log ++ visitCalls c st }

/-- `acceptConnections` with its calls of `accept` and `close`: a socket that
cannot be used or finds no place is closed at once. -/
def acceptCalls : List AcceptResult → List Connection → List Connection × List (Event Int)
  | [], connections => (connections, [])
  | .none :: _, connections => (connections, [])
  | .unusable fd :: accepted, connections =>
      let (connections, calls) := acceptCalls accepted connections
      (connections, .acquired fd :: .released fd :: calls)
  | .socket fd addr uptime seed :: accepted, connections =>
      let rejected := match firstFree connections with
        | none => [.released fd]
        | some _ => []
      let (connections, calls) := acceptCalls accepted (assignConnection fd addr uptime seed connections)
      (connections, .acquired fd :: (rejected ++ calls))

theorem acceptCalls_fst (accepted : List AcceptResult) (connections : List Connection) :
    (acceptCalls accepted connections).1 = acceptConnections (accepted.map AcceptResult.toAccepted) connections := by
  induction accepted generalizing connections with
  | nil => rfl
  | cons result accepted ih =>
      cases result with
      | none => rfl
      | unusable fd => exact ih connections
      | socket fd addr uptime seed => exact ih _

theorem observeAccept_log (accepted : List AcceptResult) (connections : List Connection) (w : Descriptors) :
    (observeAccept socketObserver accepted connections w).2.log = w.log ++ (acceptCalls accepted connections).2 := by
  induction accepted generalizing connections w with
  | nil => exact (List.append_nil _).symm
  | cons result accepted ih =>
      cases result with
      | none => exact (List.append_nil _).symm
      | unusable fd =>
          rw [observeAccept, ih, acceptCalls]
          simp [socketObserver]
      | socket fd addr uptime seed =>
          rw [observeAccept, ih, acceptCalls]
          cases hfree : firstFree connections <;> simp [socketObserver, hfree]

def exitCalls (listener : Nat) (connections : List Connection) : List (Event Int) :=
  .released listener :: connections.flatMap releaseCalls

/-- A socket is left or closed. -/
def Kept (c c' : Connection) : Prop := c'.socket = c.socket ∨ c'.socket = -1

theorem Kept.trans {c c' c'' : Connection} (h : Kept c c') (h' : Kept c' c'') : Kept c c'' := by
  rcases h' with h' | h'
  · rw [Kept, h']
    exact h
  · exact Or.inr h'

theorem kept_closed {c c' : Connection} (h : c' = c ∨ c' = closeConnection c) : Kept c c' := by
  rcases h with rfl | rfl
  · exact Or.inl rfl
  · rw [closeConnection_eq]
    exact Or.inr rfl

theorem closeCalls_trans {c c' c'' : Connection} (h : Kept c c') (h' : Kept c' c'') :
    closeCalls c c' ++ closeCalls c' c'' = closeCalls c c'' := by
  by_cases hc : c'.socket = -1
  · have hc'' : c''.socket = -1 := by
      rcases h' with h' | h'
      · rw [h', hc]
      · exact h'
    rw [closeCalls, closeCalls, closeCalls, hc, hc'', if_neg (show ¬((-1 : Int) ≠ -1 ∧ _) by simp), List.append_nil]
  · have hsame : c'.socket = c.socket := h.resolve_right hc
    rw [closeCalls, if_neg (fun hn => hc hn.2), closeCalls, closeCalls, hsame, List.nil_append]

theorem outputLoop_kept (departures : List Departure) {c c' : Connection} (h : outputLoop departures c = .ok c') :
    Kept c c' ∧ c'.state = c.state := by
  have hclosed : ∀ d : Connection, Kept d (closeConnection d) ∧ (closeConnection d).state = d.state := by
    intro d
    refine ⟨kept_closed (Or.inr rfl), ?_⟩
    rw [closeConnection_eq]
  induction departures generalizing c with
  | nil =>
      cases h
      exact ⟨Or.inl rfl, rfl⟩
  | cons departure departures ih =>
      simp only [outputLoop] at h
      split_ifs at h
      cases departure with
      | again =>
          cases h
          exact ⟨Or.inl rfl, rfl⟩
      | failed =>
          cases h
          exact hclosed c
      | bytes more =>
          simp only at h
          split_ifs at h
          · cases h
            exact hclosed _
          · obtain ⟨hkept, hstate⟩ := ih h
            exact ⟨hkept, hstate⟩

theorem checkConnectionOutput_kept {visit : Visit} {c c' : Connection} (h : checkConnectionOutput visit c = .ok c') :
    Kept c c' ∧ c'.state = c.state := by
  rw [checkConnectionOutput] at h
  split_ifs at h
  · cases h
    exact ⟨Or.inl rfl, rfl⟩
  · cases h
    exact ⟨Or.inl rfl, rfl⟩
  · exact outputLoop_kept visit.departures h

theorem kept_of_visited {visit : Visit} {c : Connection} {st : Stages} (h : Visited visit c st) :
    Kept c st.read ∧ Kept st.read st.handled ∧ Kept st.handled st.sent ∧ st.sent.state ≠ .free := by
  cases h with
  | waiting hstate hread hopen hhandled hsent =>
      rw [hhandled, hsent]
      refine ⟨?_, Or.inl rfl, Or.inl rfl, by rw [hread]; simp⟩
      rcases hopen with hclosed | ⟨hsame, -⟩
      · exact Or.inr hclosed
      · exact Or.inl hsame
  | requested hstate hsocket hrequest hresponded hsent =>
      obtain ⟨hkept, hsame⟩ := checkConnectionOutput_kept hsent
      rw [hsame]
      rcases hresponded.outcome with ⟨hw, -, hs⟩ | ⟨hp, hs⟩
      · exact ⟨Or.inl hsocket, Or.inl hs, hkept, by rw [hw]; simp⟩
      · exact ⟨Or.inl hsocket, Or.inr hs, hkept, by rw [hp]; simp⟩
  | writing hw hread hhandled hsent =>
      obtain ⟨hkept, hsame⟩ := checkConnectionOutput_kept hsent
      refine ⟨kept_closed hread, by rw [hhandled]; exact Or.inl rfl, hkept, ?_⟩
      have hstate : st.read.state = .writing := by
        rcases hread with he | he
        · rw [he]
          exact hw.1
        · rw [he, closeConnection_eq]
          exact hw.1
      rw [hsame, hhandled, hstate]
      simp

theorem visitCalls_cases {config : ServerConfig} {visit : Visit} {c : Connection} {st : Stages} (hslot : SlotOk c)
    (hbusy : c.state ≠ .free) (h : Visited visit c st) (hexpired : st.expired = expire config visit st.sent) :
    (visitCalls c st = [.released c.socket] ∧ held (settle st.expired) = []) ∨
      (visitCalls c st = [] ∧ held (settle st.expired) = held c) := by
  obtain ⟨hread, hhandled, hsent, hstate⟩ := kept_of_visited h
  have hlast : Kept st.sent st.expired := by
    rw [hexpired]
    exact kept_closed (expire_cases config visit st.sent)
  have hrelease : (if st.expired.socket = -1 then releaseCalls st.expired else []) = [] := by
    split_ifs with hs
    · have hnone : closeCalls st.expired (closeConnection st.expired) = [] := if_neg fun hn => hn.1 hs
      rw [releaseCalls, hnone, ite_self]
    · rfl
  have hcalls : visitCalls c st = closeCalls c st.expired := by
    rw [visitCalls, hrelease, List.append_nil, closeCalls_trans hsent hlast,
      closeCalls_trans hhandled (hsent.trans hlast), closeCalls_trans hread (hhandled.trans (hsent.trans hlast))]
  have hkept : Kept c st.sent := hread.trans (hhandled.trans hsent)
  rw [hcalls, closeCalls, hexpired]
  rcases settle_expire config visit hstate with ⟨hz, hs⟩ | ⟨hsame, he, hs⟩
  · refine Or.inl ⟨if_pos ⟨hslot.socket, hs⟩, ?_⟩
    rw [hz]
    rfl
  · refine Or.inr ⟨if_neg (fun hn => hs (he ▸ hn.2)), ?_⟩
    rw [hsame, held, if_pos hstate, held, if_pos hbusy, hkept.resolve_right hs]

theorem occupied_set {connections : List Connection} {i : Nat} {c : Connection} (hc : connections[i]? = some c)
    (c' : Connection) : (held c ++ occupied (connections.set i c')).Perm (held c' ++ occupied connections) := by
  induction connections generalizing i with
  | nil => simp at hc
  | cons d connections ih =>
      cases i with
      | zero =>
          rw [List.getElem?_cons_zero, Option.some.injEq] at hc
          rw [hc]
          exact List.perm_append_comm_assoc ..
      | succ i =>
          rw [List.getElem?_cons_succ] at hc
          have hfirst : (held c ++ (held d ++ occupied (connections.set i c'))).Perm
              (held d ++ (held c ++ occupied (connections.set i c'))) := List.perm_append_comm_assoc ..
          have hlast : (held d ++ (held c' ++ occupied connections)).Perm
              (held c' ++ (held d ++ occupied connections)) := List.perm_append_comm_assoc ..
          exact hfirst.trans (((ih hc).append_left (held d)).trans hlast)

/-- Only what is held was closed, no place was given the socket of another, and
what is open is the listener and the sockets of the occupied places. -/
structure Accounted (listener : Nat) (connections : List Connection) (w : Descriptors) : Prop where
  owned : Along Owned [(listener : Int)] w.log
  clash : w.clash = false
  nodup : ((listener : Int) :: occupied connections).Nodup
  opened : (heldAfter [(listener : Int)] w.log).Perm (listener :: occupied connections)

/-- The same where `accept` never gives a descriptor that is open. -/
def SocketsOk (listener : Nat) (connections : List Connection) (w : Descriptors) : Prop :=
  Along Fresh [(listener : Int)] w.log → Accounted listener connections w

theorem accounted_rejected {listener : Nat} {connections : List Connection} {w : Descriptors}
    (h : Accounted listener connections w) (fd : Int) :
    Accounted listener connections { w with log := w.log ++ [.acquired fd, .released fd] } := by
  refine ⟨along_append.mpr ⟨h.owned, trivial, List.mem_cons_self .., trivial⟩, h.clash, h.nodup, ?_⟩
  rw [heldAfter_append]
  simp only [heldAfter, List.foldl_cons, List.foldl_nil, Event.apply, List.erase_cons_head]
  exact h.opened

theorem accounted_assigned {listener : Nat} {connections connections' : List Connection} {w : Descriptors}
    (h : Accounted listener connections w) {fd : Int} (hfresh : fd ∉ heldAfter [(listener : Int)] w.log)
    (htaken : (occupied connections').Perm (fd :: occupied connections)) :
    Accounted listener connections' ⟨w.log ++ [.acquired fd], w.clash || fd ∈ occupied connections⟩ := by
  rw [h.opened.mem_iff] at hfresh
  have hout : fd ∉ occupied connections := fun hm => hfresh (List.mem_cons_of_mem _ hm)
  have hswap : ((listener : Int) :: occupied connections').Perm (fd :: listener :: occupied connections) :=
    (htaken.cons _).trans (List.Perm.swap ..)
  refine ⟨along_append.mpr ⟨h.owned, trivial, trivial⟩, ?_, ?_, ?_⟩
  · simp [h.clash, hout]
  · exact hswap.nodup_iff.mpr (List.nodup_cons.mpr ⟨hfresh, h.nodup⟩)
  · rw [heldAfter_append]
    exact (h.opened.cons fd).trans hswap.symm

theorem accounted_closed {listener : Nat} {connections connections' : List Connection} {w : Descriptors}
    (h : Accounted listener connections w) {fd : Int} (hfreed : (fd :: occupied connections').Perm (occupied connections)) :
    Accounted listener connections' { w with log := w.log ++ [.released fd] } := by
  have hswap : (fd :: (listener : Int) :: occupied connections').Perm (listener :: occupied connections) :=
    (List.Perm.swap ..).trans (hfreed.cons _)
  have hopened := h.opened.trans hswap.symm
  refine ⟨along_append.mpr ⟨h.owned, hopened.mem_iff.mpr (List.mem_cons_self ..), trivial⟩, h.clash, ?_, ?_⟩
  · exact (List.nodup_cons.mp (hswap.nodup_iff.mpr h.nodup)).2
  · rw [heldAfter_append]
    have herase := hopened.erase fd
    rwa [List.erase_cons_head] at herase

theorem socketsOk_assigned {listener : Nat} (fd : Nat) (addr : UInt32) (uptime : Int) (seed : UInt32)
    {connections : List Connection} {w : Descriptors} (h : SocketsOk listener connections w) :
    SocketsOk listener (assignConnection fd addr uptime seed connections) (socketObserver.assigned fd connections w) := by
  rcases assignConnection_cases fd addr uptime seed connections with ⟨hnone, heq⟩ | ⟨j, c, hj, hc, hfree, heq⟩
  · simp only [socketObserver, hnone, heq]
    intro hfresh
    exact accounted_rejected (h (along_append.mp hfresh).1) fd
  · simp only [socketObserver, hj, heq]
    intro hfresh
    obtain ⟨hbefore, hnew, -⟩ := along_append.mp hfresh
    refine accounted_assigned (h hbefore) hnew ?_
    have hset := occupied_set hc
      { c with
        state := .reading
        socket := fd
        ipAddress := wrap32 addr.toNat
        startTime := uptime
        randomSeed := seed }
    rwa [held, if_neg (not_not.mpr hfree), List.nil_append] at hset

theorem socketsOk_visited {listener : Nat} {config : ServerConfig} {i : Nat} {visit : Visit} {c : Connection}
    {st : Stages} {connections : List Connection} {w : Descriptors} (hc : connections[i]? = some c) (hslot : SlotOk c)
    (hbusy : c.state ≠ .free) (hv : Visited visit c st) (hexpired : st.expired = expire config visit st.sent)
    (h : SocketsOk listener connections w) :
    SocketsOk listener (connections.set i (settle st.expired)) (socketObserver.visited i visit c st w) := by
  intro hfresh
  have hbefore := h (along_append.mp hfresh).1
  have hset := occupied_set hc (settle st.expired)
  simp only [socketObserver]
  rcases visitCalls_cases hslot hbusy hv hexpired with ⟨hcalls, hheld⟩ | ⟨hcalls, hheld⟩
  · rw [hheld, held, if_pos hbusy] at hset
    rw [hcalls]
    exact accounted_closed hbefore hset
  · rw [hheld] at hset
    have hsame := (List.perm_append_left_iff (held c)).mp hset
    rw [hcalls, List.append_nil]
    exact ⟨hbefore.owned, hbefore.clash, (hsame.cons _).nodup_iff.mpr hbefore.nodup,
      hbefore.opened.trans (hsame.cons _).symm⟩

theorem socketsOk_preserved (listener : Nat) (config : ServerConfig) :
    Preserved socketObserver config (SocketsOk listener) where
  refused fd _ _ h := fun hfresh => accounted_rejected (h (along_append.mp hfresh).1) fd
  assigned fd addr uptime seed _ _ _ h := socketsOk_assigned fd addr uptime seed h
  visited _ _ _ _ _ _ hc hslot hbusy hv hexpired h := socketsOk_visited hc hslot hbusy hv hexpired h

theorem exitCalls_eq (listener : Nat) {connections : List Connection} (h : ∀ c ∈ connections, SlotOk c) :
    exitCalls listener connections = ((listener : Int) :: occupied connections).map .released := by
  rw [exitCalls, List.map_cons, occupied, List.map_flatMap]
  congr 1
  refine List.flatMap_congr fun c hc => ?_
  rw [releaseCalls, held]
  split_ifs
  · rw [closeCalls, closeConnection_eq, if_pos ⟨(h c hc).socket, rfl⟩]
    rfl
  · rfl

/-- In every run the table and the listener own what is open, and after the exit
every descriptor was closed as often as it was opened. -/
theorem sockets_closed_once {σ : Type} (build : Build) (rsa : RsaKey) (randR : UInt32 → Int × UInt32)
    (exchange : Exchange σ) (statusString : Session σ → List UInt8 × Session σ) (config : ServerConfig)
    (session : Session σ) (listener : Nat) (cycles : List KernelCycle) :
    ∃ s w, cycles.foldlM (observeCycle socketObserver build rsa randR exchange statusString config)
        (initConnections config session, ⟨[], false⟩) = .ok (s, w) ∧
      (cycles.map KernelCycle.toCycle).foldlM (processConnections build rsa randR exchange statusString config)
        (initConnections config session) = .ok s ∧
      (Along Fresh [(listener : Int)] w.log →
        Accounted listener s.connections w ∧
        Along Owned [(listener : Int)] (w.log ++ exitCalls listener s.connections) ∧
        heldAfter [(listener : Int)] (w.log ++ exitCalls listener s.connections) = [] ∧
        ∀ fd : Int, (w.log ++ exitCalls listener s.connections).count (.acquired fd) + [(listener : Int)].count fd =
          (w.log ++ exitCalls listener s.connections).count (.released fd)) ∧
      ∀ (accepted : List AcceptResult) (connections : List Connection) (w : Descriptors),
        (acceptCalls accepted connections).1 =
          acceptConnections (accepted.map AcceptResult.toAccepted) connections ∧
        (observeAccept socketObserver accepted connections w).2.log = w.log ++ (acceptCalls accepted connections).2 := by
  have hempty : occupied (initConnections config session).connections = [] := by
    refine List.flatMap_eq_nil_iff.mpr fun c hc => ?_
    rw [List.eq_of_mem_replicate hc]
    rfl
  have hstart : SocketsOk listener (initConnections config session).connections ⟨[], false⟩ := by
    intro _
    refine ⟨trivial, rfl, ?_, ?_⟩
    · rw [hempty]
      exact List.nodup_singleton _
    · rw [hempty]
      exact List.Perm.refl _
  obtain ⟨⟨s, w⟩, hobserve, hprocess, hslots, hok⟩ := (socketsOk_preserved listener config).run build rsa randR exchange
    statusString session cycles hstart
  refine ⟨s, w, hobserve, hprocess, fun hfresh => ?_, fun accepted connections w =>
    ⟨acceptCalls_fst accepted connections, observeAccept_log accepted connections w⟩⟩
  have haccounted := hok hfresh
  obtain ⟨hreleased, hnone⟩ := release_all haccounted.opened
  rw [← exitCalls_eq listener hslots] at hreleased hnone
  have howned := along_append.mpr ⟨haccounted.owned, hreleased⟩
  rw [← heldAfter_append] at hnone
  refine ⟨haccounted, howned, hnone, fun fd => ?_⟩
  have hcount := count_acquired howned fd
  rwa [hnone] at hcount

def descriptorRun : Except Stop (State Unit × Descriptors) :=
  [serve [.socket 5 0 0 0, .socket 7 0 0 0, .unusable 7] [] [] [], serve [] [0, 0] [.bytes 1] [],
      serve [.socket 5 0 0 0] [] [] []].foldlM
    (observeCycle socketObserver ⟨.latin1, false⟩ default (fun seed => (0, seed)) (answering []) (fun s => ([], s))
      { (default : ServerConfig) with maxConnections := 1 })
    (initConnections { (default : ServerConfig) with maxConnections := 1 } ⟨(), []⟩, ⟨[], false⟩)

theorem sockets_closed_once_reused :
    ∃ s w, descriptorRun = .ok (s, w) ∧
      w.log = [.acquired 5, .acquired 7, .released 7, .acquired 7, .released 7, .released 5, .acquired 5] ∧
      occupied s.connections = [5] ∧ heldAfter [3] (w.log ++ exitCalls 3 s.connections) = [] := by
  have hlog : descriptorRun.toOption.map (fun t => (t.2.log, occupied t.1.connections)) =
      some ([.acquired 5, .acquired 7, .released 7, .acquired 7, .released 7, .released 5, .acquired 5], [5]) := by
    decide +kernel
  obtain ⟨s, w, hrun, -, h, -⟩ := sockets_closed_once ⟨.latin1, false⟩ default (fun seed => (0, seed)) (answering [])
    (fun s => ([], s)) { (default : ServerConfig) with maxConnections := 1 } ⟨(), []⟩ 3
    [serve [.socket 5 0 0 0, .socket 7 0 0 0, .unusable 7] [] [] [], serve [] [0, 0] [.bytes 1] [],
      serve [.socket 5 0 0 0] [] [] []]
  rw [← descriptorRun] at hrun
  rw [hrun, Except.toOption, Option.map_some, Option.some.injEq, Prod.mk.injEq] at hlog
  obtain ⟨hlog, hoccupied⟩ := hlog
  refine ⟨s, w, hrun, hlog, hoccupied, (h ?_).2.2.1⟩
  rw [hlog]
  decide

end TibiaLogin.SocketOwnership
