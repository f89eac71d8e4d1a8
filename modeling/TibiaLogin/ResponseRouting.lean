import Mathlib.Data.List.Perm.Basic
import TibiaLogin.WebSocket

namespace TibiaLogin.ResponseRouting

open Query LoginHandler WebSocket

/-- The keys of the pending requests are the ids of the open sockets, and no id
is issued twice. -/
structure TableOk (s : Acceptor) : Prop where
  next_eq : s.nextRequestId.toNat = s.issued.length
  issued_le : ∀ id ∈ s.issued, id.toNat ≤ s.issued.length
  nodup : s.issued.Nodup
  own : ∀ address data, s.sockets address = some data → data.requestId.toNat = data.number ∧
    data.number ≤ s.issued.length ∧ s.pendingRequests data.requestId = some address
  pending : ∀ id address, s.pendingRequests id = some address →
    ∃ data, s.sockets address = some data ∧ data.requestId = id

structure RequestsOk (s : Acceptor) : Prop where
  workers : ∀ w ∈ s.workers, w.requestId.toNat = w.origin ∧ w.message.bytes.length ≤ 2048
  deferred : ∀ d ∈ s.deferred, d.requestId.toNat = d.origin
  counted : ∀ n, s.sent n + s.deferred.countP (·.origin = n) + s.workers.countP (·.origin = n) ≤ s.received n

theorem TableOk.frame {s : Acceptor} (h : TableOk s) (workers : List Worker) (deferred : List Deferred)
    (received sent : Nat → Nat) : TableOk { s with workers, deferred, received, sent } :=
  ⟨h.next_eq, h.issued_le, h.nodup, h.own, h.pending⟩

theorem tableOk_initial : TableOk .initial := by
  refine ⟨rfl, fun id hid => ?_, List.nodup_nil, fun address data hd => ?_, fun id address hp => ?_⟩
  · cases hid
  · cases hd
  · cases hp

theorem requestsOk_initial : RequestsOk .initial := by
  refine ⟨fun w hw => ?_, fun d hd => ?_, fun n => Nat.le_refl _⟩
  · cases hw
  · cases hd

theorem openSocket_tableOk {s : Acceptor} (h : TableOk s) {address : Nat} (hfree : s.sockets address = none)
    (hfew : s.issued.length + 1 < 18446744073709551616) : TableOk (openSocket address s) := by
  have hid : (s.nextRequestId + 1).toNat = s.issued.length + 1 := by
    rw [UInt64.toNat_add, h.next_eq]
    exact Nat.mod_eq_of_lt hfew
  have hnew : ∀ a data, s.sockets a = some data → data.requestId ≠ s.nextRequestId + 1 := by
    intro a data hd he
    obtain ⟨hnum, hle, -⟩ := h.own a data hd
    rw [he, hid] at hnum
    omega
  refine ⟨hid, fun id hmem => ?_, List.nodup_cons.mpr ⟨fun hmem => ?_, h.nodup⟩, fun a data hd => ?_, fun id a hp => ?_⟩
  · rw [openSocket, List.length_cons]
    rcases List.mem_cons.mp hmem with rfl | hmem
    · omega
    · exact Nat.le_succ_of_le (h.issued_le id hmem)
  · have hle := h.issued_le _ hmem
    omega
  · simp only [openSocket, List.length_cons] at hd ⊢
    by_cases ha : a = address
    · subst ha
      rw [Function.update_self, Option.some.injEq] at hd
      subst hd
      exact ⟨hid, Nat.le_refl _, Function.update_self ..⟩
    · rw [Function.update_of_ne ha] at hd
      obtain ⟨hnum, hle, hp⟩ := h.own a data hd
      refine ⟨hnum, Nat.le_succ_of_le hle, ?_⟩
      rw [Function.update_of_ne (hnew a data hd), hp]
  · simp only [openSocket] at hp ⊢
    by_cases hi : id = s.nextRequestId + 1
    · subst hi
      rw [Function.update_self, Option.some.injEq] at hp
      subst hp
      exact ⟨_, Function.update_self .., rfl⟩
    · rw [Function.update_of_ne hi] at hp
      obtain ⟨data, hd, he⟩ := h.pending id a hp
      have ha : a ≠ address := by
        rintro rfl
        rw [hfree] at hd
        cases hd
      exact ⟨data, by rw [Function.update_of_ne ha, hd], he⟩

theorem closeSocket_tableOk {s : Acceptor} (h : TableOk s) (address : Nat) : TableOk (closeSocket address s) := by
  rw [closeSocket]
  cases hs : s.sockets address with
  | none => exact h
  | some data =>
      obtain ⟨-, -, hown⟩ := h.own address data hs
      refine ⟨h.next_eq, h.issued_le, h.nodup, fun a d hd => ?_, fun id a hp => ?_⟩
      · simp only at hd ⊢
        by_cases ha : a = address
        · rw [ha, Function.update_self] at hd
          cases hd
        · rw [Function.update_of_ne ha] at hd
          obtain ⟨hnum, hle, hp⟩ := h.own a d hd
          have hne : d.requestId ≠ data.requestId := by
            intro he
            rw [he, hown, Option.some.injEq] at hp
            exact ha hp.symm
          exact ⟨hnum, hle, by rw [Function.update_of_ne hne, hp]⟩
      · simp only at hp ⊢
        by_cases hi : id = data.requestId
        · rw [hi, Function.update_self] at hp
          cases hp
        · rw [Function.update_of_ne hi] at hp
          obtain ⟨d, hd, he⟩ := h.pending id a hp
          have ha : a ≠ address := by
            rintro rfl
            rw [hs, Option.some.injEq] at hd
            exact hi (by rw [← he, hd])
          exact ⟨d, by rw [Function.update_of_ne ha, hd], he⟩

theorem closeSocket_requestsOk {s : Acceptor} (h : RequestsOk s) (address : Nat) :
    RequestsOk (closeSocket address s) := by
  rw [closeSocket]
  cases s.sockets address with
  | none => exact h
  | some data => exact ⟨h.workers, h.deferred, h.counted⟩

theorem countP_eraseIdx {α : Type} (p : α → Bool) {l : List α} {i : Nat} {a : α} (h : l[i]? = some a) :
    l.countP p = (l.eraseIdx i).countP p + if p a then 1 else 0 := by
  obtain ⟨hlt, rfl⟩ := List.getElem?_eq_some_iff.mp h
  rw [← (List.getElem_cons_eraseIdx_perm hlt).countP_eq, List.countP_cons]

structure RoutingOk (s : Acceptor) : Prop extends TableOk s, RequestsOk s

theorem closeSocket_routingOk {s : Acceptor} (h : RoutingOk s) (address : Nat) : RoutingOk (closeSocket address s) :=
  ⟨closeSocket_tableOk h.toTableOk address, closeSocket_requestsOk h.toRequestsOk address⟩

theorem receiveMessage_routingOk {s : Acceptor} (h : RoutingOk s) {address : Nat} {data : PerSocketData}
    (hdata : s.sockets address = some data) (binary : Bool) (bytes : List UInt8) (ipAddress : Int) :
    RoutingOk (receiveMessage address data binary bytes ipAddress s) := by
  simp only [receiveMessage]
  split_ifs with _ hsize hlogin
  · exact h
  · exact closeSocket_routingOk h address
  · refine ⟨h.toTableOk.frame .., fun w hw => ?_, h.deferred, fun n => ?_⟩
    · rcases List.mem_append.mp hw with hw | hw
      · exact h.workers w hw
      · rw [List.mem_singleton.mp hw]
        refine ⟨(h.own address data hdata).1, ?_⟩
        simp only [List.length_drop]
        omega
    · have hcount := h.counted n
      simp only [List.countP_append, List.countP_singleton]
      by_cases hn : n = data.number
      · subst hn
        rw [Function.update_self]
        simp only [decide_true, if_true]
        omega
      · rw [Function.update_of_ne hn, if_neg (by simpa using Ne.symm hn)]
        exact hcount
  · exact closeSocket_routingOk h address

theorem removeWorker_counted {s : Acceptor} (h : RoutingOk s) {index : Nat} {worker : Worker}
    (hworker : s.workers[index]? = some worker) (n : Nat) :
    s.sent n + s.deferred.countP (·.origin = n) +
      ((s.workers.eraseIdx index).countP (·.origin = n) + if worker.origin = n then 1 else 0) ≤ s.received n := by
  have hcount := h.counted n
  rw [countP_eraseIdx _ hworker] at hcount
  simpa using hcount

theorem removeWorker_routingOk {s : Acceptor} (h : RoutingOk s) {index : Nat} {worker : Worker}
    (hworker : s.workers[index]? = some worker) : RoutingOk (removeWorker index s) := by
  refine ⟨h.toTableOk.frame .., fun w hw => h.workers w (List.mem_of_mem_eraseIdx hw), h.deferred, fun n => ?_⟩
  have hcount := removeWorker_counted h hworker n
  simp only [removeWorker]
  omega

theorem deferAction_routingOk {s : Acceptor} (h : RoutingOk s) {index : Nat} {worker : Worker}
    (hworker : s.workers[index]? = some worker) (action : Action) :
    RoutingOk (deferAction worker action (removeWorker index s)) := by
  have hrest := removeWorker_routingOk h hworker
  refine ⟨hrest.toTableOk.frame .., hrest.workers, fun d hd => ?_, fun n => ?_⟩
  · rcases List.mem_append.mp hd with hd | hd
    · exact h.deferred d hd
    · rw [List.mem_singleton.mp hd]
      exact (h.workers worker (List.mem_of_getElem? hworker)).1
  · have hcount := removeWorker_counted h hworker n
    simp only [deferAction, removeWorker, List.countP_append, List.countP_singleton, decide_eq_true_eq]
    omega

/-- A callback acts on the socket its message came from while that is open,
and on nothing afterwards, whatever socket has taken its address. -/
structure ActsOnOrigin (d : Deferred) (s : Acceptor) : Prop where
  still_open : ∀ address data, s.sockets address = some data → data.number = d.origin → executeDeferred d s =
    match d.action with
    | .send _ => { s with sent := Function.update s.sent d.origin (s.sent d.origin + 1) }
    | .close => closeSocket address s
  gone : (∀ address data, s.sockets address = some data → data.number ≠ d.origin) → executeDeferred d s = s

theorem actsOnOrigin {s : Acceptor} (h : TableOk s) {d : Deferred} (hd : d.requestId.toNat = d.origin) :
    ActsOnOrigin d s := by
  refine ⟨fun address data hdata hnumber => ?_, fun hgone => ?_⟩
  · obtain ⟨hnum, -, hpending⟩ := h.own address data hdata
    have hid : data.requestId = d.requestId := UInt64.toNat_inj.mp (by omega)
    rw [hid] at hpending
    rw [executeDeferred, target, hpending]
    cases d.action with
    | send response => simp only [hdata, hnumber]
    | close => rfl
  · rw [executeDeferred]
    cases hp : s.pendingRequests d.requestId with
    | none => rfl
    | some address =>
        obtain ⟨data, hdata, hid⟩ := h.pending d.requestId address hp
        refine absurd ?_ (hgone address data hdata)
        rw [← (h.own address data hdata).1, hid, hd]

theorem executeDeferred_routingOk {s : Acceptor} (h : RoutingOk s) {index : Nat} {d : Deferred}
    (hd : s.deferred[index]? = some d) :
    RoutingOk (executeDeferred d { s with deferred := s.deferred.eraseIdx index }) := by
  have hid := h.deferred d (List.mem_of_getElem? hd)
  have hcounted : ∀ n, s.sent n + ((s.deferred.eraseIdx index).countP (·.origin = n) +
      if d.origin = n then 1 else 0) + s.workers.countP (·.origin = n) ≤ s.received n := by
    intro n
    have hcount := h.counted n
    rw [countP_eraseIdx _ hd] at hcount
    simpa using hcount
  have hrest : RoutingOk { s with deferred := s.deferred.eraseIdx index } := by
    refine ⟨h.toTableOk.frame .., h.workers, fun e he => h.deferred e (List.mem_of_mem_eraseIdx he), fun n => ?_⟩
    have hcount := hcounted n
    simp only
    omega
  have hacts := actsOnOrigin hrest.toTableOk hid
  by_cases hopen : ∃ address data, s.sockets address = some data ∧ data.number = d.origin
  · obtain ⟨address, data, hdata, hnumber⟩ := hopen
    rw [hacts.still_open address data hdata hnumber]
    cases d.action with
    | close => exact closeSocket_routingOk hrest address
    | send response =>
        refine ⟨hrest.toTableOk.frame .., hrest.workers, hrest.deferred, fun n => ?_⟩
        have hcount := hcounted n
        simp only
        by_cases hn : n = d.origin
        · subst hn
          rw [Function.update_self]
          rw [if_pos rfl] at hcount
          omega
        · rw [Function.update_of_ne hn]
          omega
  · rw [hacts.gone fun address data hdata hnumber => hopen ⟨address, data, hdata, hnumber⟩]
    exact hrest

theorem closeSocket_issued (address : Nat) (s : Acceptor) : (closeSocket address s).issued = s.issued := by
  rw [closeSocket]
  split <;> rfl

theorem receiveMessage_issued (address : Nat) (data : PerSocketData) (binary : Bool) (bytes : List UInt8)
    (ipAddress : Int) (s : Acceptor) : (receiveMessage address data binary bytes ipAddress s).issued = s.issued := by
  simp only [receiveMessage]
  split_ifs
  · rfl
  · exact closeSocket_issued address s
  · rfl
  · exact closeSocket_issued address s

theorem executeDeferred_issued (d : Deferred) (s : Acceptor) : (executeDeferred d s).issued = s.issued := by
  rw [executeDeferred]
  split
  · rfl
  · split
    · split <;> rfl
    · exact closeSocket_issued _ s

section

variable {σ : Type} (build : Build) (rsa : RsaKey) (randR : UInt32 → Int × UInt32) (exchange : Exchange σ)
  (config : ServerConfig)

theorem step_issued {s s' : Acceptor} {event : Event σ}
    (h : step build rsa randR exchange config s event = some s') : s.issued.length ≤ s'.issued.length := by
  rcases step_cases build rsa randR exchange config h with ⟨address, -, rfl⟩ | ⟨address, data, binary, bytes, ip, -, rfl⟩ |
    ⟨address, rfl⟩ | ⟨index, worker, action, -, rfl | rfl⟩ | ⟨index, d, -, rfl⟩
  · exact Nat.le_succ _
  · rw [receiveMessage_issued]
  · rw [closeSocket_issued]
  · exact Nat.le_refl _
  · exact Nat.le_refl _
  · rw [executeDeferred_issued]

theorem step_routingOk {s s' : Acceptor} {event : Event σ} (h : RoutingOk s)
    (hfew : s'.issued.length < 18446744073709551616)
    (hstep : step build rsa randR exchange config s event = some s') : RoutingOk s' := by
  rcases step_cases build rsa randR exchange config hstep with ⟨address, hfree, rfl⟩ |
    ⟨address, data, binary, bytes, ip, hdata, rfl⟩ | ⟨address, rfl⟩ | ⟨index, worker, action, hworker, rfl | rfl⟩ |
    ⟨index, d, hd, rfl⟩
  · exact ⟨openSocket_tableOk h.toTableOk hfree hfew, h.workers, h.deferred, h.counted⟩
  · exact receiveMessage_routingOk h hdata binary bytes ip
  · exact closeSocket_routingOk h address
  · exact removeWorker_routingOk h hworker
  · exact deferAction_routingOk h hworker action
  · exact executeDeferred_routingOk h hd

theorem reachable_routingOk {s : Acceptor} (h : Reachable build rsa randR exchange config s)
    (hfew : s.issued.length < 18446744073709551616) : RoutingOk s := by
  induction h with
  | refl => exact ⟨tableOk_initial, requestsOk_initial⟩
  | tail hbefore hlast ih =>
      obtain ⟨event, hstep⟩ := hlast
      have hle := step_issued build rsa randR exchange config hstep
      exact step_routingOk build rsa randR exchange config (ih (by omega)) hfew hstep

theorem worker_completes {s : Acceptor} (h : RoutingOk s) {index : Nat} {worker : Worker}
    (hworker : s.workers[index]? = some worker) (run : WorkerRun σ) :
    ∃ s', step build rsa randR exchange config s (.completed index run) = some s' := by
  obtain ⟨action, haction⟩ := processWsLogin_ok build rsa randR exchange config
    (h.workers worker (List.mem_of_getElem? hworker)).2 run
  rw [step, hworker]
  simp only [Option.bind_eq_bind, Option.bind_some]
  rw [haction]
  exact ⟨_, rfl⟩

/-- While fewer than 2^64 sockets have been opened, the pending requests are
those of the open sockets, no id is reused, every callback acts on the socket
its message came from or on none, and no socket gets more responses than it
sent login messages. -/
theorem response_routing {s : Acceptor} (h : Reachable build rsa randR exchange config s)
    (hfew : s.issued.length < 18446744073709551616) :
    (∀ id address, s.pendingRequests id = some address ↔
        ∃ data, s.sockets address = some data ∧ data.requestId = id) ∧
      s.issued.Nodup ∧ (∀ d ∈ s.deferred, ActsOnOrigin d s) ∧ ∀ n, s.sent n ≤ s.received n := by
  have hr := reachable_routingOk build rsa randR exchange config h hfew
  refine ⟨fun id address => ⟨hr.pending id address, ?_⟩, hr.nodup, fun d hd => ?_, fun n => ?_⟩
  · rintro ⟨data, hdata, rfl⟩
    exact (hr.own address data hdata).2.2
  · exact actsOnOrigin hr.toTableOk (hr.deferred d hd)
  · have hcount := hr.counted n
    omega

end

theorem reachable_of_foldlM {σ : Type} {build : Build} {rsa : RsaKey} {randR : UInt32 → Int × UInt32}
    {exchange : Exchange σ} {config : ServerConfig} {events : List (Event σ)} {s t : Acceptor}
    (h : Reachable build rsa randR exchange config s)
    (hrun : events.foldlM (step build rsa randR exchange config) s = some t) :
    Reachable build rsa randR exchange config t :=
  Relation.ReflTransGen.trans h (reflTransGen_of_foldlM (fun event _ _ _ hstep => ⟨event, hstep⟩) hrun)

/-- A socket is closed and its address taken by another one; both have sent a login. -/
def reopenedEvents : List (Event Unit) :=
  [.opened 7, .message 7 true ([145, 0, 1] ++ List.replicate 144 0) 0, .closed 7, .opened 7,
    .message 7 true ([145, 0, 1] ++ List.replicate 144 0) 0, .completed 0 ⟨false, ⟨(), []⟩, default, 0, false⟩,
    .completed 0 ⟨true, ⟨(), []⟩, default, 0, false⟩]

theorem response_routing_reopened :
    ∃ (s : Acceptor) (response : List UInt8),
      Reachable ⟨.latin1, false⟩ default (fun seed => (0, seed)) (answering []) default s ∧
      s.issued.length < 18446744073709551616 ∧ s.sockets 7 = some ⟨2, 2⟩ ∧
      s.deferred = [⟨1, .close, 1⟩, ⟨2, .send response, 2⟩] ∧ executeDeferred ⟨1, .close, 1⟩ s = s ∧
      executeDeferred ⟨2, .send response, 2⟩ s = { s with sent := Function.update s.sent 2 (s.sent 2 + 1) } := by
  have hends : (reopenedEvents.foldlM (step ⟨.latin1, false⟩ default (fun seed => (0, seed)) (answering []) default)
      .initial).map (fun s => ((s.issued.length, s.sockets 7), s.pendingRequests 1,
        s.deferred.map fun d => (d.requestId, d.origin, decide (d.action = .close)))) =
        some ((2, some ⟨2, 2⟩), none, [(1, 1, true), (2, 2, false)]) := by
    decide +kernel
  rw [Option.map_eq_some_iff] at hends
  obtain ⟨s, hrun, hnotes⟩ := hends
  simp only [Prod.mk.injEq] at hnotes
  obtain ⟨⟨hissued, hsocket⟩, hpending, hdeferred⟩ := hnotes
  obtain ⟨⟨id₁, action₁, origin₁⟩, rest, hs, h₁, hrest⟩ := List.map_eq_cons_iff.mp hdeferred
  obtain ⟨⟨id₂, action₂, origin₂⟩, rest, rfl, h₂, hrest⟩ := List.map_eq_cons_iff.mp hrest
  obtain rfl := List.map_eq_nil_iff.mp hrest
  simp only [Prod.mk.injEq, decide_eq_true_eq, decide_eq_false_iff_not] at h₁ h₂
  obtain ⟨rfl, rfl, rfl⟩ := h₁
  obtain ⟨rfl, rfl, hsend⟩ := h₂
  cases action₂ with
  | close => exact absurd rfl hsend
  | send response =>
      have hreach := reachable_of_foldlM .refl hrun
      obtain ⟨-, -, hacts, -⟩ := response_routing ⟨.latin1, false⟩ default (fun seed => (0, seed)) (answering []) default
        hreach (by omega)
      refine ⟨s, response, hreach, by omega, hsocket, hs, ?_, ?_⟩
      · rw [executeDeferred, hpending]
      · exact (hacts ⟨2, .send response, 2⟩ (by rw [hs]; simp)).still_open 7 ⟨2, 2⟩ hsocket rfl

end TibiaLogin.ResponseRouting
