import TibiaLogin.BufferWriter
import TibiaLogin.Xtea

namespace TibiaLogin

inductive ConnectionState
  | free
  | reading
  | processing
  | writing
  deriving DecidableEq, Repr

structure Connection where
  state : ConnectionState
  socket : Int
  ipAddress : Int
  startTime : Int
  rwSize : Int
  rwPosition : Int
  randomSeed : UInt32
  xtea : Xtea.Key
  buffer : List UInt8
  deriving DecidableEq, Repr

structure StatusRecord where
  ipAddress : Int
  timestamp : Int
  deriving DecidableEq, Repr

structure ServerConfig where
  connectionTimeout : Int
  maxConnections : Nat
  maxStatusRecords : Nat
  minStatusInterval : Int
  motd : List UInt8
  motd_fits : motd.length ≤ 256

instance : Inhabited ServerConfig := ⟨⟨0, 0, 0, 0, [], Nat.zero_le 256⟩⟩

/-- What the build decides: the encoding of strings and the client version. -/
structure Build where
  encoding : ClientEncoding
  tibia772 : Bool
  deriving DecidableEq, Repr

def Build.terminalVersion (build : Build) : Nat := if build.tibia772 then 772 else 770

def closeConnection (c : Connection) : Connection := if c.socket ≠ -1 then { c with socket := -1 } else c

/-- A zeroed connection, as `calloc` and `memset` leave it. -/
def Connection.zeroed : Connection :=
  ⟨.free, 0, 0, 0, 0, 0, 0, ⟨0, 0, 0, 0⟩, List.replicate 2048 0⟩

theorem closeConnection_eq (c : Connection) : closeConnection c = { c with socket := -1 } := by
  rw [closeConnection]
  split_ifs with h
  · rfl
  · obtain ⟨_, socket, _, _, _, _, _, _, _⟩ := c
    cases not_not.mp h
    rfl

end TibiaLogin
