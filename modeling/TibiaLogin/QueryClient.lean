import TibiaLogin.Query

namespace TibiaLogin.QueryClient

open MachineInt Memory ByteOrder BufferWriter Query

structure Response where
  extended : Bool
  body : List UInt8
  announced : body.length < if extended then 4294967296 else 65535

def Response.frame (r : Response) : List UInt8 :=
  (if r.extended then writeU16Le 0xFFFF ++ writeU32Le (toU32 r.body.length) else writeU16Le (toU16 r.body.length)) ++
    r.body

inductive Event
  | opened (connection : Nat)
  | transmitted (connection : Nat) (frame : List UInt8)
  | answered (connection : Nat) (frame body : List UInt8)
  | closed
  deriving DecidableEq, Repr

def requestsOn (connection : Nat) : List Event → List (List UInt8)
  | [] => []
  | .transmitted n frame :: log => if n = connection then frame :: requestsOn connection log else requestsOn connection log
  | _ :: log => requestsOn connection log

/-- What the calls of the client meet, by the number of calls before: a call
of `write` or `read` fails or moves at least one byte. -/
structure Network where
  resolves : Nat → Bool
  sockets : Nat → Bool
  connects : Nat → Bool
  writes : Nat → Option Nat
  reads : Nat → Option Nat

/-- How the manager answers the requests of a connection, the last one first. -/
abbrev Manager := Nat → List (List UInt8) → Response

/-- The client with its side of the network: the calls it made, the response
bytes it has not read yet, and what happened so far, the last event first. -/
structure Client where
  socket : Option Nat
  host : List UInt8
  port : Int
  password : List UInt8
  clock : Nat
  opened : Nat
  unread : List UInt8
  log : List Event

def Client.initial : Client := ⟨none, [], 0, [], 0, 0, [], []⟩

def Client.tick (c : Client) : Client := { c with clock := c.clock + 1 }

def disconnect (c : Client) : Client :=
  match c.socket with
  | none => c
  | some _ => { c with socket := none, unread := [], log := .closed :: c.log }

section

variable (net : Network)

def writeLoop : Nat → Nat → Client → Bool × Client
  | 0, remaining, c => (remaining = 0, c)
  | fuel + 1, remaining, c =>
      if remaining = 0 then (true, c)
      else
        match net.writes c.clock with
        | none => (false, c.tick)
        | some more => writeLoop fuel (remaining - (more + 1)) c.tick

def writeExact (size : Nat) (c : Client) : Bool × Client := writeLoop net size size c

def readLoop : Nat → Nat → List UInt8 → Client → Option (List UInt8) × Client
  | 0, remaining, buffer, c => (if remaining = 0 then some buffer else none, c)
  | fuel + 1, remaining, buffer, c =>
      if remaining = 0 then (some buffer, c)
      else
        match net.reads c.clock with
        | none => (none, c.tick)
        | some more =>
            let bytes := c.unread.take (min (more + 1) remaining)
            if bytes = [] then (none, c.tick)
            else
              readLoop fuel (remaining - bytes.length) (buffer ++ bytes)
                { c.tick with unread := c.unread.drop bytes.length }

def readExact (size : Nat) (c : Client) : Option (List UInt8) × Client := readLoop net size size [] c

/-- What an attempt of `executeQuery` leads to. -/
inductive Outcome
  | response (body : List UInt8)
  | again
  | failed
  deriving DecidableEq, Repr

variable (manager : Manager)

def transmit (connection : Nat) (frame : List UInt8) (c : Client) : Client :=
  { c with
    unread := c.unread ++ (manager connection (frame :: requestsOn connection c.log)).frame
    log := .transmitted connection frame :: c.log }

def readResponse (connection : Nat) (frame : List UInt8) (capacity : Nat) (responseSize : Int) (c : Client) :
    Outcome × Client :=
  if responseSize ≤ 0 ∨ (capacity : Int) < responseSize then (.failed, disconnect c)
  else
    match readExact net responseSize.toNat c with
    | (none, c) => (.failed, disconnect c)
    | (some body, c) => (.response body, { c with log := .answered connection frame body :: c.log })

/-- The size of the response, in the short or the extended form, and then the
response. -/
def readReply (connection : Nat) (frame : List UInt8) (capacity : Nat) (c : Client) : Outcome × Client :=
  match readExact net 2 c with
  | (none, c) => (.again, disconnect c)
  | (some help, c) =>
      let responseSize : Int := (readU16Le help).toNat
      if responseSize = 0xFFFF then
        match readExact net 4 c with
        | (none, c) => (.failed, disconnect c)
        | (some help, c) => readResponse net connection frame capacity (wrap32 (readU32Le help).toNat) c
      else readResponse net connection frame capacity responseSize c

def attempt (connection : Nat) (frame : List UInt8) (capacity : Nat) (c : Client) : Outcome × Client :=
  match writeExact net frame.length c with
  | (false, c) => (.again, disconnect c)
  | (true, c) => readReply net connection frame capacity (transmit manager connection frame c)

variable (reconnect : Client → Except Fault (Bool × Client))

def attemptRound (frame : List UInt8) (capacity : Nat) (c : Client) : Except Fault (Outcome × Client) := do
  let (ready, c) ← if c.socket.isNone then reconnect c else pure (true, c)
  match ready, c.socket with
  | true, some connection => pure (attempt net manager connection frame capacity c)
  | _, _ => pure (.failed, c)

def attempts (frame : List UInt8) (capacity : Nat) : Nat → Client → Except Fault (Option (List UInt8) × Client)
  | 0, c => pure (none, c)
  | left + 1, c => do
      match ← attemptRound net manager reconnect frame capacity c with
      | (.response body, c) => pure (some body, c)
      | (.failed, c) => pure (none, c)
      | (.again, c) => attempts frame capacity left c

def exchange (w : BufferWriter) (c : Client) : Except Fault (QueryStatus × Option (List UInt8) × Client) := do
  match ← frameRequest w with
  | none => pure (.failed, none, c)
  | some w =>
      let (body, c) ← attempts net manager reconnect (w.buffer.take w.position.toNat) w.buffer.length 2 c
      match body with
      | none => pure (.failed, none, c)
      | some body => do
          let (status, _) ← BufferReader.readU8 ⟨body, 0⟩
          pure (.ofByte status, some body, c)

end

section

variable (net : Network) (manager : Manager) (enc : ClientEncoding)

def loginQuery (password : List UInt8) : Except Fault BufferWriter := do
  let w ← prepareQuery .login (List.replicate 1024 0)
  let w ← w.writeU8 2
  w.writeString enc password

def login (c : Client) : Except Fault (Bool × Client) := do
  let w ← loginQuery enc c.password
  let (status, _, c) ← exchange net manager (fun c => pure (false, c)) w c
  if status ≠ .ok then pure (false, disconnect c) else pure (true, c)

def connect (host : List UInt8) (port : Int) (password : List UInt8) (c : Client) : Except Fault (Bool × Client) :=
  if c.socket.isSome then pure (false, c)
  else
    let c := { c with host := (cString host).take 255, port, password := (cString password).take 255 }
    if !net.resolves c.clock then pure (false, c.tick)
    else
      let c := c.tick
      if !net.sockets c.clock then pure (false, c.tick)
      else
        let c := c.tick
        if !net.connects c.clock then pure (false, c.tick)
        else
          login net manager enc
            { c.tick with
              socket := some c.opened
              opened := c.opened + 1
              unread := []
              log := .opened c.opened :: c.log }

def executeQuery (autoReconnect : Bool) (w : BufferWriter) (c : Client) :
    Except Fault (QueryStatus × Option (List UInt8) × Client) :=
  exchange net manager
    (fun c => if autoReconnect then connect net manager enc c.host c.port c.password c else pure (false, c)) w c

end

end TibiaLogin.QueryClient
