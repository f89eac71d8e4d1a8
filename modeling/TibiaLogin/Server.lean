import TibiaLogin.LoginHandler
import TibiaLogin.StatusRecords

namespace TibiaLogin.Server

open MachineInt Memory Text ByteOrder BufferReader Query LoginHandler StatusRecords

inductive Stop
  | range (offset : Int) (count : Nat)
  | panic
  | assertion
  | fault (f : Fault)
  deriving DecidableEq, Repr

/-- What `read` meets: nothing yet, an error, the end of the stream, or some
bytes of it, at least one. -/
inductive Arrival
  | again
  | failed
  | eof
  | bytes (more : Nat)
  deriving DecidableEq, Repr

inductive Departure
  | again
  | failed
  | bytes (more : Nat)
  deriving DecidableEq, Repr

inductive ReadResult
  | again
  | failed
  | bytes (data : List UInt8)
  deriving DecidableEq, Repr

def readSocket (count : Nat) : Arrival → List UInt8 → ReadResult × List UInt8
  | .again, stream => (.again, stream)
  | .failed, stream => (.failed, stream)
  | .eof, stream => (.bytes [], stream)
  | .bytes _, [] => (.again, [])
  | .bytes more, stream => (.bytes (stream.take (min (more + 1) count)), stream.drop (min (more + 1) count))

/-- The events of a connection in one cycle, with the results of its calls. -/
structure Visit where
  pollin : Bool
  pollerr : Bool
  pollhup : Bool
  arrivals : List Arrival
  departures : List Departure
  requestTime : Int
  checkTime : Int
  stray : Stray
  strayStatus : Bool × List StatusRecord

def readSize (c : Connection) : Int := if 0 < c.rwSize then c.rwSize else 2

def storeInput (data : List UInt8) (c : Connection) : Connection :=
  { c with buffer := overwrite c.buffer c.rwPosition.toNat data, rwPosition := c.rwPosition + data.length }

def inputStep (arrival : Arrival) (c : Connection) (stream : List UInt8) :
    Except Stop (Bool × Connection × List UInt8) :=
  let count := toSize (readSize c - c.rwPosition)
  if Within c.buffer.length c.rwPosition count then
    match readSocket count arrival stream with
    | (.again, stream) => .ok (false, c, stream)
    | (.failed, stream) => .ok (false, closeConnection c, stream)
    | (.bytes data, stream) =>
        if data.length = 0 then .ok (false, closeConnection c, stream)
        else
          let full := readSize c
          let c := storeInput data c
          if full ≤ c.rwPosition then
            if c.rwSize ≠ 0 then .ok (false, { c with state := .processing }, stream)
            else if c.rwPosition = 2 then
              let payloadSize : Int := (readU16Le c.buffer).toNat
              if payloadSize ≤ 0 ∨ 2048 < payloadSize then .ok (false, closeConnection c, stream)
              else .ok (true, { c with rwSize := payloadSize, rwPosition := 0 }, stream)
            else .error .panic
          else .ok (true, c, stream)
  else .error (.range c.rwPosition count)

def inputLoop : List Arrival → Connection → List UInt8 → Except Stop (Connection × List UInt8)
  | [], c, stream => .ok (c, stream)
  | arrival :: arrivals, c, stream => do
      let (more, c, stream) ← inputStep arrival c stream
      if more then inputLoop arrivals c stream else .ok (c, stream)

def checkConnectionInput (visit : Visit) (c : Connection) (stream : List UInt8) :
    Except Stop (Connection × List UInt8) :=
  if c.socket = -1 ∨ visit.pollin = false then .ok (c, stream)
  else if c.state ≠ .reading then .ok (closeConnection c, stream)
  else inputLoop visit.arrivals c stream

def outputLoop : List Departure → Connection → Except Stop Connection
  | [], c => .ok c
  | departure :: departures, c =>
      let count := toSize (c.rwSize - c.rwPosition)
      if Within c.buffer.length c.rwPosition count then
        match departure with
        | .again => .ok c
        | .failed => .ok (closeConnection c)
        | .bytes more =>
            let c := { c with rwPosition := c.rwPosition + min (more + 1) count }
            if c.rwSize ≤ c.rwPosition then .ok (closeConnection c) else outputLoop departures c
      else .error (.range c.rwPosition count)

def checkConnectionOutput (visit : Visit) (c : Connection) : Except Stop Connection :=
  if c.socket = -1 then .ok c
  else if c.state ≠ .writing then .ok c
  else outputLoop visit.departures c

def releaseConnection (c : Connection) : Connection := if c.state ≠ .free then .zeroed else c

def checkConnection (config : ServerConfig) (visit : Visit) (c : Connection) : Connection :=
  let c := if visit.pollerr ∨ visit.pollhup then closeConnection c else c
  let c :=
    if 0 < config.connectionTimeout ∧ config.connectionTimeout ≤ wrap32 (visit.checkTime - c.startTime) then
      closeConnection c
    else c
  if c.socket = -1 then releaseConnection c else c

def toLower (b : UInt8) : UInt8 := if 65 ≤ b ∧ b ≤ 90 then b + 32 else b

def stringEqualsIgnoreCase : List UInt8 → List UInt8 → Bool
  | [], b => toLower 0 = toLower (b.headD 0)
  | x :: a, b =>
      if x ≠ 0 ∧ toLower x = toLower (b.headD 0) then stringEqualsIgnoreCase a b.tail
      else toLower x = toLower (b.headD 0)

def sendStatusString (statusString : List UInt8) (c : Connection) : Connection :=
  if c.state ≠ .processing then closeConnection c
  else
    let length := min (cString statusString).length 2048
    { c with
      rwSize := length
      rwPosition := 0
      buffer := overwrite c.buffer 0 ((cString statusString).take length)
      state := .writing }

structure Shared (σ : Type) where
  session : Session σ
  records : List StatusRecord

section

variable {σ : Type} (build : Build) (rsa : RsaKey) (randR : UInt32 → Int × UInt32) (exchange : Exchange σ)
  (statusString : Session σ → List UInt8 × Session σ) (config : ServerConfig)

def processStatusRequest (visit : Visit) (c : Connection) (shared : Shared σ) :
    Except Fault (Connection × Shared σ) := do
  let (allowed, records) := orStray
    (allowStatusRequest config.minStatusInterval shared.records c.ipAddress visit.requestTime) visit.strayStatus
  let shared := { shared with records }
  if !allowed then pure (closeConnection c, shared)
  else
    let (_, r) ← readU8 ⟨c.buffer.take c.rwSize.toNat, 0⟩
    let (format, r) ← r.readU8
    if format = 255 then
      let (request, _) ← r.readBytes (List.replicate 5 0) 4
      if stringEqualsIgnoreCase request (text "info") then
        let (status, session) := statusString shared.session
        pure (sendStatusString status c, { shared with session })
      else pure (closeConnection c, shared)
    else pure (closeConnection c, shared)

def checkConnectionRequest (visit : Visit) (c : Connection) (shared : Shared σ) :
    Except Stop (Connection × Shared σ) :=
  if c.socket = -1 then .ok (c, shared)
  else if c.state ≠ .processing then .ok (c, shared)
  else if ¬0 < c.rwSize then .error .assertion
  else
    let command := c.buffer.headD 0
    if command = 1 then
      match processLoginRequest build rsa randR exchange config visit.stray c shared.session with
      | .ok (c, session) => .ok (c, { shared with session })
      | .error f => .error (.fault f)
    else if command = 255 then
      match processStatusRequest statusString config visit c shared with
      | .ok result => .ok result
      | .error f => .error (.fault f)
    else .ok (closeConnection c, shared)

def visitConnection (visit : Visit) (c : Connection) (stream : List UInt8) (shared : Shared σ) :
    Except Stop (Connection × List UInt8 × Shared σ) := do
  let (c, stream) ← checkConnectionInput visit c stream
  let (c, shared) ← checkConnectionRequest build rsa randR exchange statusString config visit c shared
  let c ← checkConnectionOutput visit c
  pure (checkConnection config visit c, stream, shared)

end

/-- What `accept` gives: a socket that cannot be made non-blocking is closed
and the next one is tried. -/
inductive Accepted
  | none
  | unusable
  | socket (fd : Nat) (addr : UInt32) (uptime : Int) (seed : UInt32)
  deriving DecidableEq, Repr

def assignConnection (fd : Nat) (addr : UInt32) (uptime : Int) (seed : UInt32) :
    List Connection → List Connection
  | [] => []
  | c :: connections =>
      if c.state = .free then
        { c with
          state := .reading
          socket := fd
          ipAddress := wrap32 addr.toNat
          startTime := uptime
          randomSeed := seed } :: connections
      else c :: assignConnection fd addr uptime seed connections

def acceptConnections : List Accepted → List Connection → List Connection
  | [], connections => connections
  | .none :: _, connections => connections
  | .unusable :: accepted, connections => acceptConnections accepted connections
  | .socket fd addr uptime seed :: accepted, connections =>
      acceptConnections accepted (assignConnection fd addr uptime seed connections)

/-- A cycle as the kernel and the outside world shape it. -/
structure Cycle where
  pollFailed : Bool
  listenerPollin : Bool
  accepted : List Accepted
  visits : Nat → Visit
  streams : Nat → List UInt8

structure State (σ : Type) where
  connections : List Connection
  shared : Shared σ

def initConnections {σ : Type} (config : ServerConfig) (session : Session σ) : State σ :=
  ⟨List.replicate config.maxConnections .zeroed, ⟨session, List.replicate config.maxStatusRecords ⟨0, 0⟩⟩⟩

/-- The connections that were not free when the descriptors were collected. -/
def polledIndices (connections : List Connection) : List Nat :=
  (List.range connections.length).filter fun i => (connections[i]?.map (·.state)).getD .free ≠ .free

section

variable {σ : Type} (build : Build) (rsa : RsaKey) (randR : UInt32 → Int × UInt32) (exchange : Exchange σ)
  (statusString : Session σ → List UInt8 × Session σ) (config : ServerConfig)

def visitIndex (cycle : Cycle) (s : State σ) (i : Nat) : Except Stop (State σ) :=
  match s.connections[i]? with
  | none => .ok s
  | some c => do
      let (c, _, shared) ← visitConnection build rsa randR exchange statusString config (cycle.visits i) c
        (cycle.streams i) s.shared
      pure ⟨s.connections.set i c, shared⟩

/-- The listener is the first descriptor, so new connections are assigned
before the polled ones are visited. -/
def processConnections (s : State σ) (cycle : Cycle) : Except Stop (State σ) :=
  if cycle.pollFailed then .ok s
  else
    let connections :=
      if cycle.listenerPollin then acceptConnections cycle.accepted s.connections else s.connections
    (polledIndices s.connections).foldlM (visitIndex build rsa randR exchange statusString config cycle)
      { s with connections }

end

end TibiaLogin.Server
