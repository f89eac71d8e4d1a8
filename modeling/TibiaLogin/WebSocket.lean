import Mathlib.Logic.Function.Basic
import TibiaLogin.ConnectionTable

namespace TibiaLogin.WebSocket

open Memory Query LoginHandler

/-- What a worker hands to the event loop for the socket of its request. -/
inductive Action
  | send (response : List UInt8)
  | close
  deriving DecidableEq, Repr

/-- A message without its size prefix, on its way to a worker. -/
structure LoginMessage where
  bytes : List UInt8
  ipAddress : Int
  deriving DecidableEq, Repr

/-- What a worker meets: the query client it connects, the random seed, and
whether the server is shutting down when it has finished. -/
structure WorkerRun (σ : Type) where
  connected : Bool
  session : Session σ
  stray : Stray
  randomSeed : UInt32
  shuttingDown : Bool

def wsConnection (message : LoginMessage) (randomSeed : UInt32) : Connection :=
  { Connection.zeroed with
    state := .processing
    socket := -1
    ipAddress := message.ipAddress
    rwSize := message.bytes.length
    randomSeed
    buffer := overwrite (List.replicate 2048 0) 0 message.bytes }

section

variable {σ : Type} (build : Build) (rsa : RsaKey) (randR : UInt32 → Int × UInt32) (exchange : Exchange σ)
  (config : ServerConfig)

def processWsLogin (message : LoginMessage) (run : WorkerRun σ) : Except Fault Action := do
  if !run.connected then pure .close
  else
    let (c, _) ← processLoginRequest build rsa randR exchange config run.stray
      (wsConnection message run.randomSeed) run.session
    if c.state = .writing ∧ 0 < c.rwSize then pure (.send (c.buffer.take c.rwSize.toNat)) else pure .close

theorem processWsLogin_ok {message : LoginMessage} (h : message.bytes.length ≤ 2048) (run : WorkerRun σ) :
    ∃ action, processWsLogin build rsa randR exchange config message run = .ok action := by
  have hb : (wsConnection message run.randomSeed).buffer.length = 2048 := by
    have hfit : 0 + message.bytes.length ≤ (List.replicate 2048 (0 : UInt8)).length := by
      rw [List.length_replicate]
      omega
    rw [wsConnection, length_overwrite hfit, List.length_replicate]
  rw [processWsLogin]
  split_ifs
  · exact ⟨_, rfl⟩
  · obtain ⟨c, s, hc, -⟩ := ConnectionTable.processLoginRequest_responded build rsa randR exchange config hb rfl
      run.stray run.session
    rw [hc, ok_bind]
    simp only
    split_ifs
    · exact ⟨_, rfl⟩
    · exact ⟨_, rfl⟩

end

/-- The data of an open socket. Its number is its place in the order of all
sockets ever opened. -/
structure PerSocketData where
  requestId : UInt64
  number : Nat
  deriving DecidableEq, Repr

/-- A worker thread, with the number of the socket that its message came from. -/
structure Worker where
  requestId : UInt64
  message : LoginMessage
  origin : Nat
  deriving DecidableEq, Repr

structure Deferred where
  requestId : UInt64
  action : Action
  origin : Nat
  deriving DecidableEq, Repr

/-- The acceptor: which socket lives at which address, the table of pending
requests, the workers and the callbacks deferred to the loop. The last three
fields record the ids issued, the login messages received from and the
responses sent on each socket. -/
structure Acceptor where
  nextRequestId : UInt64
  pendingRequests : UInt64 → Option Nat
  sockets : Nat → Option PerSocketData
  workers : List Worker
  deferred : List Deferred
  issued : List UInt64
  received : Nat → Nat
  sent : Nat → Nat

def Acceptor.initial : Acceptor := ⟨0, fun _ => none, fun _ => none, [], [], [], fun _ => 0, fun _ => 0⟩

inductive Event (σ : Type)
  | opened (address : Nat)
  | message (address : Nat) (binary : Bool) (bytes : List UInt8) (ipAddress : Int)
  | closed (address : Nat)
  | completed (index : Nat) (run : WorkerRun σ)
  | executed (index : Nat)

def openSocket (address : Nat) (s : Acceptor) : Acceptor :=
  let requestId := s.nextRequestId + 1
  { s with
    nextRequestId := requestId
    pendingRequests := Function.update s.pendingRequests requestId (some address)
    sockets := Function.update s.sockets address (some ⟨requestId, s.issued.length + 1⟩)
    issued := requestId :: s.issued }

/-- The close handler runs when the socket goes away, whoever closes it. -/
def closeSocket (address : Nat) (s : Acceptor) : Acceptor :=
  match s.sockets address with
  | none => s
  | some data =>
      { s with
        pendingRequests := Function.update s.pendingRequests data.requestId none
        sockets := Function.update s.sockets address none }

def receiveMessage (address : Nat) (data : PerSocketData) (binary : Bool) (bytes : List UInt8) (ipAddress : Int)
    (s : Acceptor) : Acceptor :=
  if !binary then s
  else if bytes.length < 3 ∨ 2048 < bytes.length then closeSocket address s
  else
    let message := bytes.drop 2
    if message.headD 0 = 1 then
      { s with
        workers := s.workers ++ [⟨data.requestId, ⟨message, ipAddress⟩, data.number⟩]
        received := Function.update s.received data.number (s.received data.number + 1) }
    else closeSocket address s

def removeWorker (index : Nat) (s : Acceptor) : Acceptor := { s with workers := s.workers.eraseIdx index }

def deferAction (worker : Worker) (action : Action) (s : Acceptor) : Acceptor :=
  { s with deferred := s.deferred ++ [⟨worker.requestId, action, worker.origin⟩] }

inductive Target
  | nothing
  | socket (number : Nat)
  | dangling
  deriving DecidableEq, Repr

def target (s : Acceptor) (requestId : UInt64) : Target :=
  match s.pendingRequests requestId with
  | none => .nothing
  | some address =>
      match s.sockets address with
      | none => .dangling
      | some data => .socket data.number

def executeDeferred (d : Deferred) (s : Acceptor) : Acceptor :=
  match s.pendingRequests d.requestId with
  | none => s
  | some address =>
      match d.action with
      | .send _ =>
          match target s d.requestId with
          | .socket number => { s with sent := Function.update s.sent number (s.sent number + 1) }
          | _ => s
      | .close => closeSocket address s

section

variable {σ : Type} (build : Build) (rsa : RsaKey) (randR : UInt32 → Int × UInt32) (exchange : Exchange σ)
  (config : ServerConfig)

/-- One atomic step, where it is possible: a socket is opened at an address
that is not in use, and only open sockets get messages or are closed. -/
def step (s : Acceptor) : Event σ → Option Acceptor
  | .opened address =>
      match s.sockets address with
      | none => some (openSocket address s)
      | some _ => none
  | .message address binary bytes ipAddress => do
      let data ← s.sockets address
      pure (receiveMessage address data binary bytes ipAddress s)
  | .closed address => do
      let _ ← s.sockets address
      pure (closeSocket address s)
  | .completed index run => do
      let worker ← s.workers[index]?
      let action ← (processWsLogin build rsa randR exchange config worker.message run).toOption
      pure (if run.shuttingDown then removeWorker index s else deferAction worker action (removeWorker index s))
  | .executed index => do
      let d ← s.deferred[index]?
      pure (executeDeferred d { s with deferred := s.deferred.eraseIdx index })

theorem step_cases {s s' : Acceptor} {event : Event σ}
    (h : step build rsa randR exchange config s event = some s') :
    (∃ address, s.sockets address = none ∧ s' = openSocket address s) ∨
      (∃ address data binary bytes ipAddress, s.sockets address = some data ∧
        s' = receiveMessage address data binary bytes ipAddress s) ∨
      (∃ address, s' = closeSocket address s) ∨
      (∃ index worker action, s.workers[index]? = some worker ∧
        (s' = removeWorker index s ∨ s' = deferAction worker action (removeWorker index s))) ∨
      ∃ index d, s.deferred[index]? = some d ∧
        s' = executeDeferred d { s with deferred := s.deferred.eraseIdx index } := by
  cases event with
  | opened address =>
      simp only [step] at h
      cases hs : s.sockets address with
      | some data => simp [hs] at h
      | none =>
          rw [hs, Option.some.injEq] at h
          exact Or.inl ⟨address, hs, h.symm⟩
  | message address binary bytes ipAddress =>
      simp only [step, Option.bind_eq_bind, Option.pure_def, Option.bind_eq_some_iff, Option.some.injEq] at h
      obtain ⟨data, hdata, rfl⟩ := h
      exact Or.inr (Or.inl ⟨address, data, binary, bytes, ipAddress, hdata, rfl⟩)
  | closed address =>
      simp only [step, Option.bind_eq_bind, Option.pure_def, Option.bind_eq_some_iff, Option.some.injEq] at h
      obtain ⟨data, -, rfl⟩ := h
      exact Or.inr (Or.inr (Or.inl ⟨address, rfl⟩))
  | completed index run =>
      simp only [step, Option.bind_eq_bind, Option.pure_def, Option.bind_eq_some_iff, Option.some.injEq] at h
      obtain ⟨worker, hworker, action, -, rfl⟩ := h
      refine Or.inr (Or.inr (Or.inr (Or.inl ⟨index, worker, action, hworker, ?_⟩)))
      split_ifs
      · exact Or.inl rfl
      · exact Or.inr rfl
  | executed index =>
      simp only [step, Option.bind_eq_bind, Option.pure_def, Option.bind_eq_some_iff, Option.some.injEq] at h
      obtain ⟨d, hd, rfl⟩ := h
      exact Or.inr (Or.inr (Or.inr (Or.inr ⟨index, d, hd, rfl⟩)))

/-- The states of any interleaving. -/
def Reachable (s : Acceptor) : Prop :=
  Relation.ReflTransGen (fun s s' => ∃ event : Event σ, step build rsa randR exchange config s event = some s')
    .initial s

end

theorem reflTransGen_of_foldlM {α ε : Type} {f : α → ε → Option α} {R : α → α → Prop} {events : List ε}
    (hstep : ∀ event ∈ events, ∀ s t, f s event = some t → R s t) {s t : α} (hrun : events.foldlM f s = some t) :
    Relation.ReflTransGen R s t := by
  induction events generalizing s with
  | nil =>
      cases hrun
      exact .refl
  | cons event events ih =>
      obtain ⟨hfirst, hrest⟩ := List.forall_mem_cons.mp hstep
      rw [List.foldlM_cons, Option.bind_eq_bind, Option.bind_eq_some_iff] at hrun
      obtain ⟨s₁, hs₁, hrun⟩ := hrun
      exact (ih hrest hrun).head (hfirst s s₁ hs₁)

end TibiaLogin.WebSocket
