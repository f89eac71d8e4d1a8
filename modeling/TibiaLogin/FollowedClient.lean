import TibiaLogin.ClientExchange
import TibiaLogin.ConnectionLife
import TibiaLogin.SharedRun
import TibiaLogin.SocketOwnership

namespace TibiaLogin.FollowedClient

open MachineInt Memory Query LoginHandler Server ConnectionInput ConnectionTable InputDelivery Framing Observation
  ConnectionLife

/-- A client as the server meets it: the bytes not yet read from it, what its
connection has done, and whether the connection is released. -/
structure Peer where
  unread : List UInt8
  life : Life
  released : Bool
  deriving DecidableEq, Repr

section

variable {σ : Type} (build : Build) (rsa : RsaKey) (randR : UInt32 → Int × UInt32) (exchange : Exchange σ)
  (statusString : Session σ → List UInt8 × Session σ) (config : ServerConfig)

def followVisit (i : Nat) (cycle : Cycle) (t : State σ × Peer) (j : Nat) : Except Stop (State σ × Peer) :=
  match t.1.connections[j]? with
  | none => .ok t
  | some c =>
      if j = i ∧ t.2.released = false then do
        let (st, unread, shared) ← visitStages build rsa randR exchange statusString config (cycle.visits j) c
          t.2.unread t.1.shared
        pure (⟨t.1.connections.set j (settle st.expired), shared⟩,
          ⟨unread, t.2.life.visit (cycle.visits j) st, (settle st.expired).state = .free⟩)
      else do
        let (c, _, shared) ← visitConnection build rsa randR exchange statusString config (cycle.visits j) c
          (cycle.streams j) t.1.shared
        pure (⟨t.1.connections.set j c, shared⟩, t.2)

def followCycle (i : Nat) (t : State σ × Peer) (cycle : Cycle) : Except Stop (State σ × Peer) :=
  if cycle.pollFailed then .ok t
  else
    let connections :=
      if cycle.listenerPollin then acceptConnections cycle.accepted t.1.connections else t.1.connections
    (polledIndices t.1.connections).foldlM
      (followVisit build rsa randR exchange statusString config i cycle) (⟨connections, t.1.shared⟩, t.2)

end

theorem inputStep_lost {arrival : Arrival} (h : arrival = .failed ∨ arrival = .eof) {c : Connection}
    {stream : List UInt8} {r : Bool × Connection × List UInt8} (hrun : inputStep arrival c stream = .ok r) :
    r = (false, closeConnection c, stream) := by
  rcases h with rfl | rfl
  · simp only [inputStep, readSocket] at hrun
    split_ifs at hrun
    cases hrun
    rfl
  · simp only [inputStep, readSocket, List.length_nil, if_true] at hrun
    split_ifs at hrun
    cases hrun
    rfl

theorem inputLoop_followed (arrivals : List Arrival) {start : Int} {s rest rest' : List UInt8} {c c' : Connection}
    (h : Reading start s c rest) (hrun : inputLoop arrivals c rest = .ok (c', rest')) :
    Delivered start s c' rest' ∨ c'.socket = -1 := by
  induction arrivals generalizing c rest with
  | nil =>
      cases hrun
      exact Or.inl (.reading h)
  | cons arrival arrivals ih =>
      obtain ⟨⟨more, c₁, rest₁⟩, hstep, ho⟩ := inputStep_outcome h.slot.sized h.shape arrival rest
      simp only [inputLoop] at hrun
      rw [hstep, ok_bind] at hrun
      by_cases hlost : arrival = .failed ∨ arrival = .eof
      · cases inputStep_lost hlost hstep
        cases hrun
        exact Or.inr (by rw [closeConnection_eq])
      · obtain ⟨hd, hr⟩ := inputStep_delivered h (not_or.mp hlost) ho
        cases more with
        | true => exact ih (hr rfl) hrun
        | false =>
            cases hrun
            exact Or.inl hd

theorem checkConnectionInput_followed {visit : Visit} {start : Int} {s rest rest' : List UInt8} {c c' : Connection}
    (h : Reading start s c rest) (hrun : checkConnectionInput visit c rest = .ok (c', rest')) :
    Delivered start s c' rest' ∨ c'.socket = -1 := by
  rw [checkConnectionInput, if_neg (not_not.mpr h.shape.1)] at hrun
  split_ifs at hrun
  · cases hrun
    exact Or.inl (.reading h)
  · exact inputLoop_followed visit.arrivals h hrun

/-- A server with what its query client keeps through every query. -/
structure Host (σ : Type) where
  exchange : Exchange σ
  P : σ → Prop
  keeps : ∀ {client body}, P client → body ≠ [] → ∀ capacity, P (exchange client (requestFrame body) capacity).2
  build : Build
  rsa : RsaKey
  config : ServerConfig
  randR : UInt32 → Int × UInt32
  statusString : Session σ → List UInt8 × Session σ
  status_keeps : ∀ s : Session σ, P s.client → P (statusString s).2.client
  status_logs : ∀ s : Session σ, P s.client → s.queries <+: (statusString s).2.queries

section

variable {σ : Type} (host : Host σ)

theorem visitConnection_keeps {visit : Visit} {c c' : Connection} (hslot : SlotOk c) (hbusy : c.state ≠ .free)
    {stream stream' : List UInt8} {shared shared' : Shared σ} (h : host.P shared.session.client)
    (hrun : visitConnection host.build host.rsa host.randR host.exchange host.statusString host.config visit c
      stream shared = .ok (c', stream', shared')) : host.P shared'.session.client :=
  ClientExchange.visitConnection_keeps host.build host.rsa host.randR host.config (P := host.P)
    (fun _ _ capacity hne h => host.keeps h hne capacity) host.status_keeps visit hslot hbusy h hrun

theorem visitStages_logs {visit : Visit} {c : Connection} (hslot : SlotOk c) (hbusy : c.state ≠ .free)
    {stream stream' : List UInt8} {shared shared' : Shared σ} {st : Stages} (hP : host.P shared.session.client)
    (hst : visitStages host.build host.rsa host.randR host.exchange host.statusString host.config visit c stream
      shared = .ok (st, stream', shared')) : shared.session.queries <+: shared'.session.queries :=
  (SharedRun.visitStages_shared hslot hbusy hst).logs (host.status_logs shared.session hP)

omit host in
theorem answering_not_reading {visit : Visit} {c c' : Connection} (h : Answering c)
    (hrun : checkConnectionOutput visit c = .ok c') : c'.state ≠ .reading := by
  obtain ⟨c₁, hc₁, ha⟩ := checkConnectionOutput_answering visit h
  rw [hrun] at hc₁
  cases hc₁
  rcases ha.replied with hs | hs
  · rw [hs]
    simp
  · rw [hs]
    simp

theorem visitStages_reading {visit : Visit} {c : Connection} {st : Stages} {stream unread unread' : List UInt8}
    {shared shared' : Shared σ} (hslot : SlotOk c) (hbusy : c.state ≠ .free)
    (hreading : c.state = .reading → Reading c.startTime stream c unread)
    (hst : visitStages host.build host.rsa host.randR host.exchange host.statusString host.config visit c unread
      shared = .ok (st, unread', shared')) (hstate : (settle st.expired).state = .reading) :
    c.state = .reading ∧ settle st.expired = st.read ∧
      Reading (settle st.expired).startTime stream (settle st.expired) unread' := by
  obtain ⟨hvisited, hexpired⟩ := visited_of_stages host.build host.rsa host.randR host.exchange
    host.statusString host.config hslot hbusy hst
  obtain ⟨-, -, -, hpolled⟩ := SocketOwnership.kept_of_visited hvisited
  rw [hexpired] at hstate ⊢
  obtain ⟨hsame, hopen⟩ := settle_kept hpolled (by rw [hstate]; simp)
  rw [hsame] at hstate ⊢
  obtain ⟨⟨read, stream₁⟩, h₁, h⟩ := bind_eq_ok.mp hst
  obtain ⟨⟨handled, shared₁⟩, h₂, h⟩ := bind_eq_ok.mp h
  obtain ⟨sent, h₃, h⟩ := bind_eq_ok.mp h
  cases h
  cases hvisited with
  | requested _ _ _ hresponded hsent =>
      exact absurd hstate (answering_not_reading hresponded.toAnswering hsent)
  | writing hw hread hhandled hsent =>
      have hanswering : Answering handled := by
        simp only at hhandled hread
        rw [hhandled]
        rcases hread with rfl | rfl
        · exact ⟨hslot.sized, Or.inr hw.1, fun _ => hw⟩
        · exact answering_closed hslot.sized (Or.inr hw.1)
      exact absurd hstate (answering_not_reading hanswering hsent)
  | waiting hstate' hread hopen' hhandled hsent =>
      simp only at hsent hopen hread ⊢
      subst hsent
      refine ⟨hstate', rfl, ?_⟩
      cases (checkConnectionInput_followed (hreading hstate') h₁).resolve_right hopen with
      | reading hr =>
          rw [← hr.started] at hr
          exact hr
      | request _ _ hr => exact absurd (hr.1.symm.trans hread) (by simp)
      | refused _ hclosed => exact absurd hclosed hopen

def feed (i : Nat) (stream : List UInt8) (cycle : Cycle) : Cycle :=
  { cycle with streams := Function.update cycle.streams i stream }

def arriving (i : Nat) (cycle : Cycle) (peer : Peer) : List UInt8 :=
  if peer.released then cycle.streams i else peer.unread

/-- A visit as it is noted of the client, with the log of the queries made before
its cycle and after it. -/
structure Noted (visit : Visit) (i : Nat) (c : Connection) (peer : Peer) (log : List Executed) (st : Stages)
    (unread : List UInt8) (t : State σ × Peer) : Prop where
  stages : ∃ shared shared', host.P shared.session.client ∧ log <+: shared.session.queries ∧
    shared'.session.queries <+: t.1.shared.session.queries ∧
    visitStages host.build host.rsa host.randR host.exchange host.statusString host.config visit c peer.unread
      shared = .ok (st, unread, shared')
  place : t.1.connections[i]? = some (settle st.expired)
  peer_eq : t.2 = ⟨unread, peer.life.visit visit st, (settle st.expired).state = .free⟩

/-- Within a cycle: the client is gone, its visit is still to come, or it is noted. -/
inductive Seen (cycle : Cycle) (i : Nat) (t₀ : State σ × Peer) (indices : List Nat) (t : State σ × Peer) : Prop
  | gone (h : t₀.2.released = true) (hpeer : t.2 = t₀.2)
  | ahead (h : t₀.2.released = false) (hmem : i ∈ indices) (hpeer : t.2 = t₀.2)
      (hplace : t.1.connections[i]? = t₀.1.connections[i]?)
  | done (h : t₀.2.released = false) (hout : i ∉ indices) {c : Connection} {st : Stages} {unread : List UInt8}
      (hc : t₀.1.connections[i]? = some c) (hnoted : Noted host (cycle.visits i) i c t₀.2 t₀.1.shared.session.queries st unread t)

theorem followVisit_seen {n : Nat} (cycle : Cycle) {i : Nat} {t₀ : State σ × Peer} (j : Nat) (indices : List Nat)
    {t : State σ × Peer} (hv : Visiting n (j :: indices) t.1.connections) (hP : host.P t.1.shared.session.client)
    (hlog : t₀.1.shared.session.queries <+: t.1.shared.session.queries) (hseen : Seen host cycle i t₀ (j :: indices) t) :
    ∃ t', followVisit host.build host.rsa host.randR host.exchange host.statusString host.config i cycle t j =
        .ok t' ∧
      visitIndex host.build host.rsa host.randR host.exchange host.statusString host.config
        (feed i (arriving i cycle t₀.2) cycle) t.1 j = .ok t'.1 ∧
      Visiting n indices t'.1.connections ∧ host.P t'.1.shared.session.client ∧
      t.1.shared.session.queries <+: t'.1.shared.session.queries ∧ Seen host cycle i t₀ indices t' := by
  obtain ⟨hnot, -⟩ := List.nodup_cons.mp hv.nodup
  obtain ⟨c, c', stream', shared', hc, hvisit, hindex, hv'⟩ := visitIndex_visiting host.build host.rsa host.randR
    host.exchange host.statusString host.config (feed i (arriving i cycle t₀.2) cycle) j indices t.1 hv
  obtain ⟨d, hd, hbusy⟩ := hv.busy j (List.mem_cons_self ..)
  obtain rfl : c = d := by rwa [hc, Option.some.injEq] at hd
  have hslot := hv.slots c (List.mem_of_getElem? hc)
  have hkept := visitConnection_keeps host hslot hbusy hP hvisit
  obtain ⟨st, hst, hsettled⟩ := stages_of_visitConnection host.build host.rsa host.randR host.exchange
    host.statusString host.config hvisit
  have hgrows := visitStages_logs host hslot hbusy hP hst
  by_cases hmine : j = i ∧ t₀.2.released = false
  · obtain ⟨rfl, hover⟩ := hmine
    cases hseen with
    | gone hgone => exact absurd (hgone.symm.trans hover) (by simp)
    | done _ hout => exact absurd (List.mem_cons_self ..) hout
    | ahead _ _ hpeer hplace =>
        subst hsettled
        simp only [feed, Function.update_self, arriving, hover, Bool.false_eq_true, if_false] at hst
        refine ⟨(⟨t.1.connections.set j (settle st.expired), shared'⟩, ⟨stream', t₀.2.life.visit (cycle.visits j) st,
          (settle st.expired).state = .free⟩), ?_, hindex, hv', hkept, hgrows, .done hover hnot (hplace ▸ hc)
            ⟨⟨t.1.shared, shared', hP, hlog, List.prefix_rfl, hst⟩, List.getElem?_set_self (List.getElem?_eq_some_iff.mp hc).1, rfl⟩⟩
        rw [followVisit, hc]
        simp only
        rw [if_pos ⟨trivial, by rw [hpeer, hover]⟩, hpeer, hst]
        rfl
  · have hother : ¬(j = i ∧ t.2.released = false) := by
      rintro ⟨rfl, hnow⟩
      cases hseen with
      | gone hgone hpeer => exact absurd (hgone.symm.trans (hpeer ▸ hnow)) (by simp)
      | ahead hover => exact hmine ⟨rfl, hover⟩
      | done _ hout => exact hout (List.mem_cons_self ..)
    have hown : (feed i (arriving i cycle t₀.2) cycle).streams j = cycle.streams j := by
      simp only [feed]
      by_cases hj : j = i
      · subst hj
        have hgone : t₀.2.released = true := by simpa using hmine
        rw [Function.update_self, arriving, if_pos hgone]
      · rw [Function.update_of_ne hj]
    rw [hown] at hvisit
    have hrun : visitConnection host.build host.rsa host.randR host.exchange host.statusString host.config
        (cycle.visits j) c (cycle.streams j) t.1.shared = .ok (c', stream', shared') := hvisit
    refine ⟨(⟨t.1.connections.set j c', shared'⟩, t.2), ?_, hindex, hv', hkept, hgrows, ?_⟩
    · rw [followVisit, hc]
      simp only
      rw [if_neg hother, hrun]
      rfl
    · have hset : t₀.2.released = false → (t.1.connections.set j c')[i]? = t.1.connections[i]? := fun hover =>
        List.getElem?_set_ne fun hj => hmine ⟨hj, hover⟩
      cases hseen with
      | gone hgone hpeer => exact .gone hgone hpeer
      | ahead hover hmem hpeer hplace =>
          have hrest := (List.mem_cons.mp hmem).resolve_left fun hi => hmine ⟨hi.symm, hover⟩
          exact .ahead hover hrest hpeer ((hset hover).trans hplace)
      | done hover hout hc₀ hnoted =>
          obtain ⟨shared₀, shared₁, hP₀, hbefore, hafter, hst₀⟩ := hnoted.stages
          exact .done hover (fun hmem => hout (List.mem_cons_of_mem j hmem)) hc₀
            ⟨⟨shared₀, shared₁, hP₀, hbefore, hafter.trans hgrows, hst₀⟩, (hset hover).trans hnoted.place, hnoted.peer_eq⟩

theorem followVisits_seen {n : Nat} (cycle : Cycle) {i : Nat} {t₀ : State σ × Peer} {indices : List Nat}
    {t : State σ × Peer} (hv : Visiting n indices t.1.connections) (hP : host.P t.1.shared.session.client)
    (hlog : t₀.1.shared.session.queries <+: t.1.shared.session.queries) (hseen : Seen host cycle i t₀ indices t) :
    ∃ t', indices.foldlM (followVisit host.build host.rsa host.randR host.exchange host.statusString host.config
        i cycle) t = .ok t' ∧
      indices.foldlM (visitIndex host.build host.rsa host.randR host.exchange host.statusString host.config
        (feed i (arriving i cycle t₀.2) cycle)) t.1 = .ok t'.1 ∧
      (∀ c ∈ t'.1.connections, SlotOk c) ∧ host.P t'.1.shared.session.client ∧
      t.1.shared.session.queries <+: t'.1.shared.session.queries ∧ Seen host cycle i t₀ [] t' := by
  induction indices generalizing t with
  | nil => exact ⟨t, rfl, rfl, hv.slots, hP, List.prefix_rfl, hseen⟩
  | cons j indices ih =>
      obtain ⟨t₁, hfollow, hvisit, hv₁, hP₁, hgrows₁, h₁⟩ := followVisit_seen host cycle j indices hv hP hlog hseen
      obtain ⟨t', hfollow', hvisit', hslots, hP', hgrows, h'⟩ := ih hv₁ hP₁ (hlog.trans hgrows₁) h₁
      refine ⟨t', ?_, ?_, hslots, hP', hgrows₁.trans hgrows, h'⟩
      · rw [List.foldlM_cons, hfollow]
        exact hfollow'
      · rw [List.foldlM_cons, hvisit]
        exact hvisit'

/-- A followed cycle is one of the server; a client that is not gone is visited
once in it, at any state of the others. -/
theorem followCycle_seen (cycle : Cycle) (i : Nat) {t : State σ × Peer} (hslots : ∀ c ∈ t.1.connections, SlotOk c)
    (hP : host.P t.1.shared.session.client)
    (hheld : t.2.released = false → ∃ c, t.1.connections[i]? = some c ∧ c.state ≠ .free) :
    ∃ t', followCycle host.build host.rsa host.randR host.exchange host.statusString host.config i t cycle =
        .ok t' ∧
      processConnections host.build host.rsa host.randR host.exchange host.statusString host.config t.1
        (feed i (arriving i cycle t.2) cycle) = .ok t'.1 ∧
      (∀ c ∈ t'.1.connections, SlotOk c) ∧ host.P t'.1.shared.session.client ∧
      t.1.shared.session.queries <+: t'.1.shared.session.queries ∧
      ((cycle.pollFailed = true ∧ t' = t) ∨ (t.2.released = true ∧ t'.2 = t.2) ∨
        (cycle.pollFailed = false ∧ t.2.released = false ∧
          ∃ c st unread, t.1.connections[i]? = some c ∧
            Noted host (cycle.visits i) i c t.2 t.1.shared.session.queries st unread t')) := by
  by_cases hpoll : cycle.pollFailed = true
  · exact ⟨t, if_pos hpoll, if_pos hpoll, hslots, hP, List.prefix_rfl, Or.inl ⟨hpoll, rfl⟩⟩
  · generalize hstart : (⟨if cycle.listenerPollin then acceptConnections cycle.accepted t.1.connections
      else t.1.connections, t.1.shared⟩ : State σ) = start
    have hplace : ∀ c, t.1.connections[i]? = some c → c.state ≠ .free → start.connections[i]? = some c := by
      intro c hc hbusy
      rw [← hstart]
      simp only
      split_ifs
      · exact (acceptConnections_spec cycle.accepted hslots).2.2 i c hc hbusy
      · exact hc
    have hseen : Seen host cycle i (start, t.2) (polledIndices t.1.connections) (start, t.2) := by
      cases hover : t.2.released with
      | true => exact .gone hover rfl
      | false =>
          obtain ⟨c, hc, hbusy⟩ := hheld hover
          refine .ahead hover ?_ rfl rfl
          rw [polledIndices, List.mem_filter, List.mem_range, hc]
          exact ⟨(List.getElem?_eq_some_iff.mp hc).1, by simpa using hbusy⟩
    have hv : Visiting t.1.connections.length (polledIndices t.1.connections) start.connections := by
      rw [← hstart]
      exact visiting_start cycle hslots
    have hshared : start.shared = t.1.shared := by rw [← hstart]
    obtain ⟨t', hfollow, hvisit, hslots', hP', hgrows, hend⟩ := followVisits_seen host cycle (t := (start, t.2)) hv
      (by rw [hshared]; exact hP) List.prefix_rfl hseen
    rw [← hstart] at hfollow hvisit
    simp only [hshared] at hgrows
    refine ⟨t', ?_, ?_, hslots', hP', hgrows, Or.inr ?_⟩
    · rw [followCycle, if_neg hpoll]
      exact hfollow
    · rw [processConnections, if_neg (show ¬(feed i (arriving i cycle t.2) cycle).pollFailed = true from hpoll)]
      exact hvisit
    · cases hend with
      | gone hgone hpeer => exact Or.inl ⟨hgone, hpeer⟩
      | ahead _ hmem => cases hmem
      | done hover _ hc hnoted =>
          obtain ⟨d, hd, hbusy⟩ := hheld hover
          have hsame := hplace d hd hbusy
          rw [hc, Option.some.injEq] at hsame
          simp only [hshared] at hnoted
          exact Or.inr ⟨Bool.not_eq_true _ ▸ hpoll, hover, _, _, _, hsame ▸ hd, hnoted⟩

/-- As the connection stands when it is accepted. -/
structure JustAccepted (c : Connection) : Prop where
  reading : c.state = .reading
  size : c.rwSize = 0
  position : c.rwPosition = 0

omit host in
theorem JustAccepted.reads {c : Connection} (h : JustAccepted c) (hslot : SlotOk c) (stream : List UInt8) :
    Reading c.startTime stream c stream := by
  refine ⟨hslot, ⟨h.reading, Or.inl ⟨h.size, Or.inl h.position⟩⟩, rfl, Or.inl ⟨h.size, 0, ?_⟩⟩
  exact ⟨by simp [h.position], Nat.zero_le _, rfl, rfl⟩

theorem reached_host {session : Session σ} (hP : host.P session.client) {before : List Cycle} {state : State σ}
    (hreach : before.foldlM (processConnections host.build host.rsa host.randR host.exchange host.statusString
      host.config) (initConnections host.config session) = .ok state) :
    (∀ c ∈ state.connections, SlotOk c) ∧ host.P state.shared.session.client := by
  obtain ⟨s, hrun, hkept⟩ := ClientExchange.run_keeps host.build host.rsa host.randR host.config (P := host.P)
    (fun _ _ capacity hne h => host.keeps h hne capacity) host.status_keeps hP before
  rw [hreach] at hrun
  cases hrun
  exact ⟨reached_slotOk host.build host.rsa host.randR host.exchange host.statusString host.config session hreach, hkept⟩

end

end TibiaLogin.FollowedClient
