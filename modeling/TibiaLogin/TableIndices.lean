import TibiaLogin.CheckedTable
import TibiaLogin.ReadConfig

namespace TibiaLogin.TableIndices

open MachineInt Memory Text BufferReader Query LoginHandler StatusRecords Server ReadConfig CheckedTable

inductive TableName
  | connections
  | pollFds
  | connectionIndices
  | statusRecords
  deriving DecidableEq, Repr

/-- The ends of a run that are not an index outside of its table: the server
does not start, a vector refuses its length, or a cycle stops. -/
inductive Reason
  | refused
  | length
  | stop (s : Stop)
  deriving DecidableEq, Repr

abbrev Checked := Except (Halt TableName Reason)

def stopping {α : Type} : Except Stop α → Checked α
  | .ok a => .ok a
  | .error s => .error (.other (.stop s))

def faulting {α : Type} : Except Fault α → Checked α
  | .ok a => .ok a
  | .error f => .error (.other (.stop (.fault f)))

def serverConfig (config : Config) : ServerConfig where
  connectionTimeout := config.connectionTimeout
  maxConnections := config.maxConnections.toNat
  maxStatusRecords := config.maxStatusRecords.toNat
  minStatusInterval := config.minStatusInterval
  motd := config.motd.take 256
  motd_fits := List.length_take_le 256 config.motd

/-- The globals of the server. The limits are copies that `init_connections` makes. -/
structure State (σ : Type) where
  listener : Int
  maxConnections : Int
  connections : Table Connection maxConnections
  maxStatusRecords : Int
  records : Table StatusRecord maxStatusRecords
  session : Session σ

def initRound {limit : Int} (i : Nat) (connections : Table Connection limit) :
    Checked (Bool × Table Connection limit) := do
  let c ← connections.read .connections i
  let connections ← connections.write .connections i { c with state := .free }
  pure (true, connections)

def initConnections {σ : Type} (config : Config) (listener : Int) (session : Session σ) : Checked (State σ) :=
  if listener = -1 then .error (.other .refused)
  else do
    let maxConnections := config.maxConnections
    let connections ← forLoop initRound maxConnections.toNat 0 (.replicate maxConnections .zeroed)
    let maxStatusRecords := config.maxStatusRecords
    pure ⟨listener, maxConnections, connections, maxStatusRecords, .replicate maxStatusRecords ⟨0, 0⟩, session⟩

/-- The scan as it goes: the index of the address once it is found, and the
least recently used record. -/
structure Scan where
  found : Option Nat
  lruIndex : Nat
  lruTime : Int

def scanRound {limit : Int} (records : Table StatusRecord limit) (ipAddress : Int) (i : Nat) (scan : Scan) :
    Checked (Bool × Scan) := do
  let record ← records.read .statusRecords i
  let scan := if record.timestamp < scan.lruTime then { scan with lruIndex := i, lruTime := record.timestamp } else scan
  if record.ipAddress = ipAddress then pure (false, { scan with found := some i }) else pure (true, scan)

def allowStatusRequest {limit : Int} (config : Config) (maxStatusRecords : Int) (records : Table StatusRecord limit)
    (ipAddress timeNow : Int) : Checked (Bool × Table StatusRecord limit) := do
  let first ← records.read .statusRecords 0
  let scan ← forLoop (scanRound records ipAddress) maxStatusRecords.toNat 0 ⟨none, 0, first.timestamp⟩
  match scan.found with
  | none => do
      let records ← records.write .statusRecords scan.lruIndex ⟨ipAddress, timeNow⟩
      pure (true, records)
  | some i => do
      let record ← records.read .statusRecords i
      if config.minStatusInterval ≤ timeNow - record.timestamp then do
        let records ← records.write .statusRecords i { record with timestamp := timeNow }
        pure (true, records)
      else pure (false, records)

def freeRound {limit : Int} (connections : Table Connection limit) (i : Nat) (index : Int) : Checked (Bool × Int) := do
  let c ← connections.read .connections i
  if c.state = .free then pure (false, (i : Int)) else pure (true, index)

def assignConnection {limit : Int} (config : Config) (fd : Nat) (addr : UInt32) (uptime : Int) (seed : UInt32)
    (connections : Table Connection limit) : Checked (Table Connection limit) := do
  let index ← forLoop (freeRound connections) config.maxConnections.toNat 0 (-1)
  if index ≠ -1 then do
    let c ← connections.read .connections index
    connections.write .connections index
      { c with
        state := .reading
        socket := fd
        ipAddress := wrap32 addr.toNat
        startTime := uptime
        randomSeed := seed }
  else pure connections

def acceptConnections {limit : Int} (config : Config) :
    List Accepted → Table Connection limit → Checked (Table Connection limit)
  | [], connections => .ok connections
  | .none :: _, connections => .ok connections
  | .unusable :: accepted, connections => acceptConnections config accepted connections
  | .socket fd addr uptime seed :: accepted, connections => do
      let connections ← assignConnection config fd addr uptime seed connections
      acceptConnections config accepted connections

/-- The vectors of a cycle: descriptors and indices side by side, and how many
entries are in use. -/
structure Polled (maxFds : Int) where
  fds : Table Int maxFds
  indices : Table Int maxFds
  numFds : Int

def addPolled {maxFds : Int} (fd index : Int) (polled : Polled maxFds) : Checked (Polled maxFds) := do
  let fds ← polled.fds.write .pollFds polled.numFds fd
  let indices ← polled.indices.write .connectionIndices polled.numFds index
  pure ⟨fds, indices, polled.numFds + 1⟩

def addListener {maxFds : Int} (listener : Int) (polled : Polled maxFds) : Checked (Polled maxFds) :=
  if listener ≠ -1 then addPolled listener (-1) polled else pure polled

def collectRound {limit maxFds : Int} (connections : Table Connection limit) (i : Nat) (polled : Polled maxFds) :
    Checked (Bool × Polled maxFds) := do
  let c ← connections.read .connections i
  if c.state = .free then pure (true, polled)
  else do
    let polled ← addPolled c.socket i polled
    pure (true, polled)

section

variable {σ : Type} (build : Build) (rsa : RsaKey) (randR : UInt32 → Int × UInt32) (exchange : Exchange σ)
  (statusString : Session σ → List UInt8 × Session σ) (config : Config)

def processStatusRequest (visit : Visit) (c : Connection) (s : State σ) : Checked (Connection × State σ) := do
  let (allowed, records) ← allowStatusRequest config s.maxStatusRecords s.records c.ipAddress visit.requestTime
  let s := { s with records }
  if !allowed then pure (closeConnection c, s)
  else do
    let (_, r) ← faulting (readU8 ⟨c.buffer.take c.rwSize.toNat, 0⟩)
    let (format, r) ← faulting r.readU8
    if format = 255 then do
      let (request, _) ← faulting (r.readBytes (List.replicate 5 0) 4)
      if stringEqualsIgnoreCase request (text "info") then
        let (status, session) := statusString s.session
        pure (sendStatusString status c, { s with session })
      else pure (closeConnection c, s)
    else pure (closeConnection c, s)

def checkConnectionRequest (visit : Visit) (c : Connection) (s : State σ) : Checked (Connection × State σ) :=
  if c.socket = -1 then pure (c, s)
  else if c.state ≠ .processing then pure (c, s)
  else if ¬0 < c.rwSize then .error (.other (.stop .assertion))
  else
    let command := c.buffer.headD 0
    if command = 1 then do
      let (c, session) ← faulting
        (processLoginRequest build rsa randR exchange (serverConfig config) visit.stray c s.session)
      pure (c, { s with session })
    else if command = 255 then processStatusRequest statusString config visit c s
    else pure (closeConnection c, s)

def visitConnection (visit : Visit) (c : Connection) (stream : List UInt8) (s : State σ) :
    Checked (Connection × State σ) := do
  let (c, _) ← stopping (checkConnectionInput visit c stream)
  let (c, s) ← checkConnectionRequest build rsa randR exchange statusString config visit c s
  let c ← stopping (checkConnectionOutput visit c)
  pure (checkConnection (serverConfig config) visit c, s)

def pollRound {maxFds : Int} (cycle : Cycle) (polled : Polled maxFds) (i : Nat) (s : State σ) :
    Checked (Bool × State σ) := do
  let index ← polled.indices.read .connectionIndices i
  let fd ← polled.fds.read .pollFds i
  if 0 ≤ index ∧ index < config.maxConnections then do
    let c ← s.connections.read .connections index
    let (c, s) ← visitConnection build rsa randR exchange statusString config (cycle.visits index.toNat) c
      (cycle.streams index.toNat) s
    let connections ← s.connections.write .connections index c
    pure (true, { s with connections })
  else if index = -1 ∧ fd = s.listener then
    if cycle.listenerPollin then do
      let connections ← acceptConnections config cycle.accepted s.connections
      pure (true, { s with connections })
    else pure (true, s)
  else pure (true, s)

def processConnections (s : State σ) (cycle : Cycle) : Checked (State σ) :=
  let maxFds := wrap32 (s.maxConnections + 1)
  if maxFds < 0 then .error (.other .length)
  else do
    let polled ← addListener s.listener (⟨.replicate maxFds 0, .replicate maxFds 0, 0⟩ : Polled maxFds)
    let polled ← forLoop (collectRound s.connections) config.maxConnections.toNat 0 polled
    if ¬0 < polled.numFds then .error (.other (.stop .assertion))
    else if cycle.pollFailed then pure s
    else forLoop (pollRound build rsa randR exchange statusString config cycle polled) polled.numFds.toNat 0 s

def run (listener : Int) (session : Session σ) (cycles : List Cycle) : Checked (State σ) := do
  let s ← initConnections config listener session
  cycles.foldlM (processConnections build rsa randR exchange statusString config) s

end

end TibiaLogin.TableIndices
