import TibiaLogin.LoginService
import TibiaLogin.Provenance
import TibiaLogin.ResponseRouting
import TibiaLogin.TransportAgreement

namespace TibiaLogin.SocketService

open MachineInt Memory ByteOrder Query LoginResponse LoginHandler WebSocket ResponseRouting Provenance ClientReader
  AccountService LoginService
open TransportAgreement (wsLogin processWsLogin_eq)

/-- What has passed over the sockets, each with the number of its socket: the
login messages given to workers, and the responses. -/
structure Passed where
  asked : List (Nat × LoginMessage)
  told : List (Nat × List UInt8)
  deriving DecidableEq, Repr

def loginMessage (binary : Bool) (bytes : List UInt8) (ipAddress : Int) : Option LoginMessage :=
  if !binary then none
  else if bytes.length < 3 ∨ 2048 < bytes.length then none
  else if (bytes.drop 2).headD 0 = 1 then some ⟨bytes.drop 2, ipAddress⟩
  else none

section

variable {σ : Type}

def askedBy (s : Acceptor) : Event σ → List (Nat × LoginMessage)
  | .message address binary bytes ipAddress =>
      match s.sockets address with
      | none => []
      | some data => (loginMessage binary bytes ipAddress).toList.map (Prod.mk data.number)
  | _ => []

def toldBy (s : Acceptor) (d : Deferred) : List (Nat × List UInt8) :=
  match d.action, target s d.requestId with
  | .send response, .socket number => [(number, response)]
  | _, _ => []

def toldOn (s : Acceptor) : Event σ → List (Nat × List UInt8)
  | .executed index => (s.deferred[index]?.map (toldBy s)).getD []
  | _ => []

end

/-- Whatever is on its way from a message to a response. -/
inductive Item
  | started (worker : Worker)
  | deferred (d : Deferred)
  | told (response : Nat × List UInt8)

def items (workers : List Worker) (deferred : List Deferred) (told : List (Nat × List UInt8)) : List Item :=
  workers.map .started ++ (deferred.map .deferred ++ told.map .told)

section

variable {workers : List Worker} {deferred : List Deferred} {told : List (Nat × List UInt8)}

theorem items_start (w : Worker) :
    (items (workers ++ [w]) deferred told).Perm (.started w :: items workers deferred told) := by
  rw [items, List.map_append, List.append_assoc]
  exact List.perm_middle

theorem items_finish {index : Nat} {w : Worker} (h : workers[index]? = some w) :
    (items workers deferred told).Perm (.started w :: items (workers.eraseIdx index) deferred told) := by
  obtain ⟨hlt, rfl⟩ := List.getElem?_eq_some_iff.mp h
  exact ((List.getElem_cons_eraseIdx_perm hlt).symm.map _).append_right _

theorem items_defer (d : Deferred) :
    (items workers (deferred ++ [d]) told).Perm (.deferred d :: items workers deferred told) := by
  rw [items, List.map_append, List.append_assoc]
  exact (List.perm_middle.append_left _).trans List.perm_middle

theorem items_execute {index : Nat} {d : Deferred} (h : deferred[index]? = some d) :
    (items workers deferred told).Perm (.deferred d :: items workers (deferred.eraseIdx index) told) := by
  obtain ⟨hlt, rfl⟩ := List.getElem?_eq_some_iff.mp h
  refine List.Perm.trans ?_ List.perm_middle
  exact ((((List.getElem_cons_eraseIdx_perm hlt).symm.map _).append_right _)).append_left _

theorem items_tell (response : Nat × List UInt8) :
    (items workers deferred (told ++ [response])).Perm (.told response :: items workers deferred told) := by
  rw [items, List.map_append, ← List.append_assoc, ← List.append_assoc]
  exact (List.perm_append_singleton _ _).trans (by rw [List.append_assoc]; exact List.Perm.refl _)

end

/-- Nothing is started, deferred, received or sent. -/
structure SameTraffic (s s' : Acceptor) : Prop where
  workers : s'.workers = s.workers
  deferred : s'.deferred = s.deferred
  received : s'.received = s.received
  sent : s'.sent = s.sent

theorem closeSocket_same (address : Nat) (s : Acceptor) : SameTraffic s (closeSocket address s) := by
  rw [closeSocket]
  split <;> exact ⟨rfl, rfl, rfl, rfl⟩

theorem receiveMessage_cases (address : Nat) (data : PerSocketData) (binary : Bool) (bytes : List UInt8)
    (ipAddress : Int) (s : Acceptor) :
    (loginMessage binary bytes ipAddress = none ∧
        SameTraffic s (receiveMessage address data binary bytes ipAddress s)) ∨
      ∃ message, loginMessage binary bytes ipAddress = some message ∧
        receiveMessage address data binary bytes ipAddress s =
          { s with
            workers := s.workers ++ [⟨data.requestId, message, data.number⟩]
            received := Function.update s.received data.number (s.received data.number + 1) } := by
  simp only [receiveMessage, loginMessage]
  split_ifs
  · exact Or.inl ⟨rfl, rfl, rfl, rfl, rfl⟩
  · exact Or.inl ⟨rfl, closeSocket_same address s⟩
  · exact Or.inr ⟨_, rfl, rfl⟩
  · exact Or.inl ⟨rfl, closeSocket_same address s⟩

theorem update_countP (f : Nat → Nat) (number n : Nat) {β : Type} (b : β) :
    Function.update f number (f number + 1) n = f n + [(number, b)].countP (·.1 = n) := by
  simp only [List.countP_singleton, decide_eq_true_eq]
  by_cases hn : n = number
  · rw [hn, Function.update_self, if_pos rfl]
  · rw [Function.update_of_ne hn, if_neg (Ne.symm hn), Nat.add_zero]

theorem toldBy_cases {s : Acceptor} (h : TableOk s) {d : Deferred} (hd : d.requestId.toNat = d.origin) :
    toldBy s d = [] ∨ ∃ response, d.action = .send response ∧ toldBy s d = [(d.origin, response)] := by
  rw [toldBy]
  cases d.action with
  | close => exact Or.inl rfl
  | send response =>
      simp only [target]
      cases hp : s.pendingRequests d.requestId with
      | none => exact Or.inl rfl
      | some address =>
          obtain ⟨data, hdata, hid⟩ := h.pending d.requestId address hp
          have hnumber := (h.own address data hdata).1
          rw [hid, hd] at hnumber
          simp only [hdata]
          exact Or.inr ⟨response, rfl, by rw [hnumber]⟩

theorem executeDeferred_told (d : Deferred) (s : Acceptor) :
    (executeDeferred d s).workers = s.workers ∧ (executeDeferred d s).deferred = s.deferred ∧
      (executeDeferred d s).received = s.received ∧
      ∀ n, (executeDeferred d s).sent n = s.sent n + (toldBy s d).countP (·.1 = n) := by
  rw [executeDeferred, toldBy]
  cases hp : s.pendingRequests d.requestId with
  | none =>
      have htarget : target s d.requestId = .nothing := by rw [target, hp]
      rw [htarget]
      cases d.action <;> exact ⟨rfl, rfl, rfl, fun _ => rfl⟩
  | some address =>
      cases haction : d.action with
      | close =>
          obtain ⟨hworkers, hdeferred, hreceived, hsent⟩ := closeSocket_same address s
          exact ⟨hworkers, hdeferred, hreceived, fun n => congrFun hsent n⟩
      | send response =>
          cases htarget : target s d.requestId with
          | nothing | dangling => exact ⟨rfl, rfl, rfl, fun _ => rfl⟩
          | socket number => exact ⟨rfl, rfl, rfl, fun n => update_countP s.sent number n response⟩

section

variable {σ : Type} (build : Build) (rsa : RsaKey) (randR : UInt32 → Int × UInt32) (exchange : Exchange σ)
  (config : ServerConfig) (Q : WorkerRun σ → Prop)

/-- What can have come of a message: a worker that has it, or the action or the
response that a worker makes of it. -/
def Comes (m : Nat × LoginMessage) : Item → Prop
  | .started w => w.origin = m.1 ∧ w.message = m.2
  | .deferred d =>
      d.origin = m.1 ∧ ∃ run, Q run ∧ processWsLogin build rsa randR exchange config m.2 run = .ok d.action
  | .told r => r.1 = m.1 ∧ ∃ run, Q run ∧ processWsLogin build rsa randR exchange config m.2 run = .ok (.send r.2)

def noteStep (t : Acceptor × Passed) (event : Event σ) : Option (Acceptor × Passed) := do
  let s ← step build rsa randR exchange config t.1 event
  pure (s, ⟨t.2.asked ++ askedBy t.1 event, t.2.told ++ toldOn t.1 event⟩)

/-- The run of a worker meets a condition. -/
def Meets : Event σ → Prop
  | .completed _ run => Q run
  | _ => True

/-- Any interleaving, with the notes taken of it. -/
def Run (t : Acceptor × Passed) : Prop :=
  Relation.ReflTransGen
    (fun t t' => ∃ event : Event σ, Meets Q event ∧ noteStep build rsa randR exchange config t event = some t')
    (.initial, ⟨[], []⟩) t

structure Passing (t : Acceptor × Passed) : Prop where
  origins : From (Comes build rsa randR exchange config Q) t.2.asked (items t.1.workers t.1.deferred t.2.told)
  received_eq : ∀ n, t.1.received n = t.2.asked.countP (·.1 = n)
  sent_eq : ∀ n, t.1.sent n = t.2.told.countP (·.1 = n)

variable {build rsa randR exchange config Q}

theorem noteStep_step {t t' : Acceptor × Passed} {event : Event σ}
    (h : noteStep build rsa randR exchange config t event = some t') :
    step build rsa randR exchange config t.1 event = some t'.1 ∧
      t'.2 = ⟨t.2.asked ++ askedBy t.1 event, t.2.told ++ toldOn t.1 event⟩ := by
  simp only [noteStep, Option.bind_eq_bind, Option.pure_def, Option.bind_eq_some_iff, Option.some.injEq] at h
  obtain ⟨s, hs, rfl⟩ := h
  exact ⟨hs, rfl⟩

theorem passing_same {t t' : Acceptor × Passed} (h : Passing build rsa randR exchange config Q t)
    (hsame : SameTraffic t.1 t'.1) (hnotes : t'.2 = t.2) : Passing build rsa randR exchange config Q t' := by
  obtain ⟨hworkers, hdeferred, hreceived, hsent⟩ := hsame
  obtain ⟨horigins, hreceived_eq, hsent_eq⟩ := h
  refine ⟨?_, fun n => ?_, fun n => ?_⟩
  · rw [hnotes, hworkers, hdeferred]
    exact horigins
  · rw [hnotes, hreceived]
    exact hreceived_eq n
  · rw [hnotes, hsent]
    exact hsent_eq n

theorem notes_nil (p : Passed) : (⟨p.asked ++ [], p.told ++ []⟩ : Passed) = p := by
  rw [List.append_nil, List.append_nil]

theorem passing_message {s : Acceptor} {p : Passed} (h : Passing build rsa randR exchange config Q (s, p))
    (address : Nat) (data : PerSocketData) (binary : Bool) (bytes : List UInt8) (ipAddress : Int) :
    Passing build rsa randR exchange config Q (receiveMessage address data binary bytes ipAddress s,
      ⟨p.asked ++ (loginMessage binary bytes ipAddress).toList.map (Prod.mk data.number), p.told ++ []⟩) := by
  rcases receiveMessage_cases address data binary bytes ipAddress s with ⟨hnone, hsame⟩ | ⟨message, hmessage, hstarted⟩
  · refine passing_same h hsame ?_
    rw [hnone]
    exact notes_nil p
  · have hcomes : Comes build rsa randR exchange config Q (data.number, message)
        (.started ⟨data.requestId, message, data.number⟩) := ⟨rfl, rfl⟩
    rw [hstarted, hmessage, List.append_nil]
    refine ⟨(h.origins.feed hcomes).perm (items_start _).symm, fun n => ?_, h.sent_eq⟩
    simp only [Option.toList_some, List.map_singleton]
    rw [List.countP_append, ← h.received_eq n]
    exact update_countP s.received data.number n message

theorem comes_completed {worker : Worker} {run : WorkerRun σ} (hQ : Q run) {action : Action}
    (haction : processWsLogin build rsa randR exchange config worker.message run = .ok action) (m : Nat × LoginMessage)
    (h : Comes build rsa randR exchange config Q m (.started worker)) :
    Comes build rsa randR exchange config Q m (.deferred ⟨worker.requestId, action, worker.origin⟩) := by
  obtain ⟨horigin, hmessage⟩ := h
  rw [hmessage] at haction
  exact ⟨horigin, run, hQ, haction⟩

theorem passing_completed {s : Acceptor} {p : Passed} (h : Passing build rsa randR exchange config Q (s, p))
    {index : Nat} {worker : Worker} (hworker : s.workers[index]? = some worker) {run : WorkerRun σ} (hQ : Q run)
    {action : Action} (haction : processWsLogin build rsa randR exchange config worker.message run = .ok action) :
    Passing build rsa randR exchange config Q
      (if run.shuttingDown then removeWorker index s else deferAction worker action (removeWorker index s), p) := by
  have hrest := h.origins.perm (items_finish hworker)
  split_ifs
  · exact ⟨hrest.drop, h.received_eq, h.sent_eq⟩
  · exact ⟨(hrest.step (comes_completed hQ haction)).perm (items_defer _).symm, h.received_eq, h.sent_eq⟩

theorem passing_executed {s : Acceptor} {p : Passed} (h : Passing build rsa randR exchange config Q (s, p))
    (hr : RoutingOk s) {index : Nat} {d : Deferred} (hd : s.deferred[index]? = some d) :
    Passing build rsa randR exchange config Q
      (executeDeferred d { s with deferred := s.deferred.eraseIdx index }, ⟨p.asked ++ [], p.told ++ toldBy s d⟩) := by
  have hrest := h.origins.perm (items_execute hd)
  obtain ⟨hworkers, hdeferred, hreceived, hsent⟩ :=
    executeDeferred_told d { s with deferred := s.deferred.eraseIdx index }
  rw [List.append_nil]
  refine ⟨?_, fun n => ?_, fun n => ?_⟩
  · simp only [hworkers, hdeferred]
    rcases toldBy_cases hr.toTableOk (hr.deferred d (List.mem_of_getElem? hd)) with hnone | ⟨response, haction, hone⟩
    · rw [hnone, List.append_nil]
      exact hrest.drop
    · have hcomes : ∀ m, Comes build rsa randR exchange config Q m (.deferred d) →
          Comes build rsa randR exchange config Q m (.told (d.origin, response)) := by
        rintro m ⟨horigin, run, hrun, hresult⟩
        exact ⟨horigin, run, hrun, haction ▸ hresult⟩
      rw [hone]
      exact (hrest.step hcomes).perm (items_tell _).symm
  · rw [hreceived]
    exact h.received_eq n
  · rw [hsent n, List.countP_append]
    exact congrArg (· + _) (h.sent_eq n)

theorem noteStep_passing {t t' : Acceptor × Passed} {event : Event σ} (h : Passing build rsa randR exchange config Q t)
    (hr : RoutingOk t.1) (hQ : Meets Q event) (hstep : noteStep build rsa randR exchange config t event = some t') :
    Passing build rsa randR exchange config Q t' := by
  obtain ⟨hstep, hnotes⟩ := noteStep_step hstep
  obtain ⟨s, p⟩ := t
  obtain ⟨s', p'⟩ := t'
  obtain rfl : p' = _ := hnotes
  simp only at hstep hr
  cases event with
  | opened address =>
      simp only [step] at hstep
      split at hstep
      · cases hstep
        exact passing_same h ⟨rfl, rfl, rfl, rfl⟩ (notes_nil p)
      · cases hstep
  | closed address =>
      simp only [step, Option.bind_eq_bind, Option.pure_def, Option.bind_eq_some_iff, Option.some.injEq] at hstep
      obtain ⟨data, -, rfl⟩ := hstep
      exact passing_same h (closeSocket_same address s) (notes_nil p)
  | message address binary bytes ipAddress =>
      simp only [step, Option.bind_eq_bind, Option.pure_def, Option.bind_eq_some_iff, Option.some.injEq] at hstep
      obtain ⟨data, hdata, rfl⟩ := hstep
      simp only [askedBy, hdata]
      exact passing_message h address data binary bytes ipAddress
  | completed index run =>
      simp only [step, Option.bind_eq_bind, Option.pure_def, Option.bind_eq_some_iff, Option.some.injEq] at hstep
      obtain ⟨worker, hworker, action, haction, rfl⟩ := hstep
      have hresult : processWsLogin build rsa randR exchange config worker.message run = .ok action := by
        cases hresult : processWsLogin build rsa randR exchange config worker.message run with
        | error fault =>
            rw [hresult] at haction
            cases haction
        | ok result =>
            rw [hresult] at haction
            cases haction
            rfl
      simp only [askedBy, toldOn]
      rw [notes_nil p]
      exact passing_completed h hworker hQ hresult
  | executed index =>
      simp only [step, Option.bind_eq_bind, Option.pure_def, Option.bind_eq_some_iff, Option.some.injEq] at hstep
      obtain ⟨d, hd, rfl⟩ := hstep
      simp only [askedBy, toldOn, hd, Option.map_some, Option.getD_some]
      exact passing_executed h hr hd

theorem run_reachable {t : Acceptor × Passed} (h : Run build rsa randR exchange config Q t) :
    Reachable build rsa randR exchange config t.1 := by
  induction h with
  | refl => exact .refl
  | tail _ hlast ih =>
      obtain ⟨event, -, hstep⟩ := hlast
      exact ih.tail ⟨event, (noteStep_step hstep).1⟩

theorem run_passing {t : Acceptor × Passed} (h : Run build rsa randR exchange config Q t)
    (hfew : t.1.issued.length < 18446744073709551616) : Passing build rsa randR exchange config Q t := by
  induction h with
  | refl => exact ⟨from_nil, fun _ => rfl, fun _ => rfl⟩
  | tail hbefore hlast ih =>
      obtain ⟨event, hQ, hstep⟩ := hlast
      have hle := step_issued build rsa randR exchange config (noteStep_step hstep).1
      have hfew' : _ < 18446744073709551616 := Nat.lt_of_le_of_lt hle hfew
      exact noteStep_passing (ih hfew') (reachable_routingOk build rsa randR exchange config (run_reachable hbefore) hfew')
        hQ hstep

/-- In any interleaving, the responses sent on the sockets answer login messages
of the same sockets, each one of its own, by runs of their workers. -/
theorem responses_answer_messages {t : Acceptor × Passed} (h : Run build rsa randR exchange config Q t)
    (hfew : t.1.issued.length < 18446744073709551616) :
    (∀ n, t.1.received n = t.2.asked.countP (·.1 = n)) ∧ (∀ n, t.1.sent n = t.2.told.countP (·.1 = n)) ∧
      From (fun m r => r.1 = m.1 ∧ ∃ run, Q run ∧
        processWsLogin build rsa randR exchange config m.2 run = .ok (.send r.2)) t.2.asked t.2.told := by
  obtain ⟨horigins, hreceived, hsent⟩ := run_passing h hfew
  exact ⟨hreceived, hsent, from_map.mp horigins.of_append.of_append⟩

end

section

variable {σ : Type} {accounts : Accounts} {exchange : Exchange σ} {P : σ → Prop} (hserves : Serves accounts exchange P)
  {build : Build} (henc : build.encoding = .latin1) {rsa : RsaKey} (publicKey : PublicKey rsa)
  (randR : UInt32 → Int × UInt32) (config : ServerConfig) (form : LoginForm)

omit hserves henc randR config in
theorem loginMessage_packet (ipAddress : Int) :
    loginMessage true (LoginForm.stream form publicKey []) ipAddress = some ⟨form.request publicKey, ipAddress⟩ := by
  have hlen := length_request form publicKey
  have hstream : LoginForm.stream form publicKey [] = writeU16Le 145 ++ form.request publicKey := by
    rw [LoginForm.stream, List.append_nil]
  have hdrop : (LoginForm.stream form publicKey []).drop 2 = form.request publicKey := by
    rw [hstream, List.drop_left' (length_writeU16Le 145)]
  rw [loginMessage, if_neg (by simp), if_neg (by rw [hstream, List.length_append, length_writeU16Le, hlen]; omega), hdrop]
  exact if_pos rfl

omit hserves henc randR config in
theorem holding_wsConnection (ipAddress : Int) (seed : UInt32) :
    Holding publicKey form (wsConnection ⟨form.request publicKey, ipAddress⟩ seed) := by
  have hlen := length_request form publicKey
  obtain ⟨hsized, htake⟩ := TransportAgreement.wsConnection_sized ⟨form.request publicKey, ipAddress⟩
    (by simp only [hlen]; omega) seed
  simp only [hlen] at htake
  refine ⟨hsized, rfl, ?_, htake⟩
  simp only [wsConnection, hlen]
  rfl

include hserves henc

/-- A worker with the request of a form answers as the accounts have it, if it
has a query client and the answer is not too long. -/
theorem wsLogin_answer (ipAddress : Int) (run : WorkerRun σ) (hP : run.connected = true → P run.session.client) :
    (run.connected = false ∧ wsLogin build rsa randR exchange config ⟨form.request publicKey, ipAddress⟩ run =
        .ok (.close, run.session)) ∨
      ∃ answer session queries,
        wsLogin build rsa randR exchange config ⟨form.request publicKey, ipAddress⟩ run =
          .ok (if answer.bytes.length ≤ 2038 then .send (responseBytes randR form.key run.randomSeed answer.bytes)
            else .close, session) ∧
        session.queries = run.session.queries ++ queries ∧
        Expected accounts exchange P build config.motd form (ipString ipAddress) queries answer := by
  cases hconnected : run.connected with
  | false =>
      refine Or.inl ⟨rfl, ?_⟩
      rw [wsLogin, hconnected]
      rfl
  | true =>
      obtain ⟨answer, c', s', queries, hrun, -, hlog, hexpected, hreplied⟩ := processLoginRequest_answer hserves config
        run.stray henc (holding_wsConnection publicKey form ipAddress run.randomSeed) randR
        (s := run.session) (hP hconnected)
      refine Or.inr ⟨answer, s', queries, ?_, hlog, hexpected⟩
      rw [wsLogin, hconnected, if_neg (by simp), hrun, ok_bind]
      simp only
      by_cases hfits : answer.bytes.length ≤ 2038
      · have hwriting := hreplied.fits.mpr hfits
        have hbytes := hreplied.bytes_eq hwriting
        have hsize := hreplied.size_eq hwriting
        have hpos : 0 < c'.rwSize := by
          rw [hsize, length_responseBytes]
          omega
        rw [if_pos ⟨hwriting, hpos⟩, if_pos hfits, hbytes]
        rfl
      · rw [if_neg fun hs => hfits (hreplied.fits.mp hs.1), if_neg hfits]
        rfl

end

theorem run_of_foldlM {σ : Type} {build : Build} {rsa : RsaKey} {randR : UInt32 → Int × UInt32}
    {exchange : Exchange σ} {config : ServerConfig} {Q : WorkerRun σ → Prop} {events : List (Event σ)}
    (hevents : ∀ event ∈ events, Meets Q event) {t t' : Acceptor × Passed} (h : Run build rsa randR exchange config Q t)
    (hrun : events.foldlM (noteStep build rsa randR exchange config) t = some t') :
    Run build rsa randR exchange config Q t' :=
  Relation.ReflTransGen.trans h
    (reflTransGen_of_foldlM (fun event hevent _ _ hstep => ⟨event, hevents event hevent, hstep⟩) hrun)

def loginEvents : List (Event Unit) :=
  [.opened 7, .message 7 true (LoginForm.stream plainForm plainKey []) 0,
    .completed 0 ⟨true, ⟨(), []⟩, default, 0, false⟩, .executed 0]

theorem loginEvents_run :
    ∃ t, Run ⟨.latin1, false⟩ default (fun seed => (0, seed)) oneAccount.exchange Framing.oneConnection
        (fun run => run.connected = true → True) t ∧ t.1.issued.length < 18446744073709551616 ∧
      t.2.asked = [(1, ⟨plainForm.request plainKey, 0⟩)] ∧ t.2.told.map (·.1) = [1] := by
  have hends : (loginEvents.foldlM (noteStep ⟨.latin1, false⟩ default (fun seed => (0, seed)) oneAccount.exchange
      Framing.oneConnection) (.initial, ⟨[], []⟩)).map (fun t => (t.1.issued.length, t.2.asked, t.2.told.map (·.1))) =
        some (1, [(1, ⟨plainForm.request plainKey, 0⟩)], [1]) := by
    decide +kernel
  rw [Option.map_eq_some_iff] at hends
  obtain ⟨t, hrun, hnotes⟩ := hends
  simp only [Prod.mk.injEq] at hnotes
  obtain ⟨hissued, hasked, htold⟩ := hnotes
  refine ⟨t, run_of_foldlM ?_ .refl hrun, by omega, hasked, htold⟩
  rintro event -
  cases event with
  | completed index run => exact fun _ => trivial
  | opened | message | closed | executed => trivial

theorem responses_answer_messages_one :
    ∃ t : Acceptor × Passed, t.2.told.map (·.1) = [1] ∧
      From (fun m r => r.1 = m.1 ∧ ∃ run : WorkerRun Unit, (run.connected = true → True) ∧
        processWsLogin ⟨.latin1, false⟩ default (fun seed => (0, seed)) oneAccount.exchange Framing.oneConnection m.2 run =
          .ok (.send r.2)) t.2.asked t.2.told := by
  obtain ⟨t, hrun, hfew, -, htold⟩ := loginEvents_run
  exact ⟨t, htold, (responses_answer_messages hrun hfew).2.2⟩

end TibiaLogin.SocketService
