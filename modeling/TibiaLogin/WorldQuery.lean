import TibiaLogin.LoginQuery
import TibiaLogin.Server

namespace TibiaLogin.WorldQuery

open MachineInt Memory BufferWriter Query LoginQuery Server

structure WorldInfo where
  name : List UInt8
  type : Int
  numPlayers : Int
  maxPlayers : Int
  onlinePeak : Int
  onlinePeakTimestamp : Int
  lastStartup : Int
  lastShutdown : Int
  deriving DecidableEq, Repr

def WorldInfo.zeroed : WorldInfo := ⟨List.replicate 30 0, 0, 0, 0, 0, 0, 0, 0⟩

def stringEmpty (str : List UInt8) : Bool := str.headD 0 = 0

def readWorld (enc : ClientEncoding) (r : BufferReader) : Except Fault (WorldInfo × BufferReader) := do
  let (name, r) ← r.readString enc (List.replicate 30 0)
  let (type, r) ← r.readU8
  let (numPlayers, r) ← r.readU16
  let (maxPlayers, r) ← r.readU16
  let (onlinePeak, r) ← r.readU16
  let (onlinePeakTimestamp, r) ← r.readU32
  let (lastStartup, r) ← r.readU32
  let (lastShutdown, r) ← r.readU32
  pure (⟨name, type.toNat, numPlayers.toNat, maxPlayers.toNat, onlinePeak.toNat, wrap32 onlinePeakTimestamp.toNat,
    wrap32 lastStartup.toNat, wrap32 lastShutdown.toNat⟩, r)

theorem readWorld_eq {enc : ClientEncoding} {r r₁ r₂ r₃ r₄ r₅ r₆ r₇ r₈ : BufferReader} {name : List UInt8}
    {type : UInt8} {numPlayers maxPlayers onlinePeak : UInt16} {onlinePeakTimestamp lastStartup lastShutdown : UInt32}
    (h₁ : r.readString enc (List.replicate 30 0) = .ok (name, r₁)) (h₂ : r₁.readU8 = .ok (type, r₂))
    (h₃ : r₂.readU16 = .ok (numPlayers, r₃)) (h₄ : r₃.readU16 = .ok (maxPlayers, r₄))
    (h₅ : r₄.readU16 = .ok (onlinePeak, r₅)) (h₆ : r₅.readU32 = .ok (onlinePeakTimestamp, r₆))
    (h₇ : r₆.readU32 = .ok (lastStartup, r₇)) (h₈ : r₇.readU32 = .ok (lastShutdown, r₈)) :
    readWorld enc r =
      .ok (⟨name, type.toNat, numPlayers.toNat, maxPlayers.toNat, onlinePeak.toNat, wrap32 onlinePeakTimestamp.toNat,
        wrap32 lastStartup.toNat, wrap32 lastShutdown.toNat⟩, r₈) := by
  simp only [readWorld, h₁, h₂, h₃, h₄, h₅, h₆, h₇, h₈, ok_bind]
  rfl

/-- The world with that name, which ends the loop, or the fullest one where no
name is configured. -/
def readWorlds (enc : ClientEncoding) (worldName : List UInt8) : Nat → (first : Bool) → (outWorld : WorldInfo) →
    BufferReader → Except Fault (WorldInfo × BufferReader)
  | 0, _, outWorld, r => pure (outWorld, r)
  | n + 1, first, outWorld, r => do
      let (world, r) ← readWorld enc r
      if stringEmpty worldName then
        readWorlds enc worldName n false (if first ∨ outWorld.numPlayers < world.numPlayers then world else outWorld) r
      else if stringEqualsIgnoreCase worldName world.name then pure (world, r)
      else readWorlds enc worldName n false outWorld r

/-- The result code and the world of a response, the latter stray where its
bytes lead to undefined behaviour. -/
def worldResult (enc : ClientEncoding) (stray : WorldInfo) (worldName : List UInt8) (status : QueryStatus)
    (r : BufferReader) : Except Fault (Int × WorldInfo) := do
  match status with
  | .ok =>
      let (numWorlds, r) ← r.readU8
      pure (0, orStray (Prod.fst <$> readWorlds enc worldName numWorlds.toNat true .zeroed r) stray)
  | _ => pure (-1, .zeroed)

def getWorld {σ : Type} (enc : ClientEncoding) (exchange : Exchange σ) (stray : WorldInfo) (worldName : List UInt8)
    (s : Session σ) : Except Fault (Int × WorldInfo × Session σ) := do
  let w ← prepareQuery .getWorlds (List.replicate 4096 0)
  let (status, r, s) ← executeQuery exchange w s
  let (result, world) ← worldResult enc stray worldName status r
  pure (result, world, s)

def worldsRequest : List UInt8 := [QueryType.getWorlds.code]

theorem getWorld_eq {σ : Type} (enc : ClientEncoding) (exchange : Exchange σ) (stray : WorldInfo)
    (worldName : List UInt8) (s : Session σ) :
    getWorld enc exchange stray worldName s = (do
      let (status, r, s) ← received (requestFrame worldsRequest) s.queries
        (exchange s.client (requestFrame worldsRequest) 4096)
      let (result, world) ← worldResult enc stray worldName status r
      pure (result, world, s)) := by
  obtain ⟨w, hw, h⟩ := prepareQuery_holds .getWorlds (List.replicate 4096 0)
  rw [List.length_replicate] at h
  have hbody : worldsRequest.length + 6 ≤ 4096 := by decide
  rw [getWorld, hw, ok_bind, executeQuery_eq exchange h (by omega) hbody]
  rfl

/-- The name lies in its array and the published numbers are values of the type int. -/
structure WorldInfo.Stored (world : WorldInfo) : Prop where
  name : world.name.length = 30
  ints : ∀ num ∈ [world.numPlayers, world.maxPlayers, world.onlinePeak], -2147483648 ≤ num ∧ num < 2147483648

theorem zeroed_stored : WorldInfo.zeroed.Stored := ⟨List.length_replicate, by decide⟩

theorem readWorld_stored {enc : ClientEncoding} {r r' : BufferReader} {world : WorldInfo}
    (h : readWorld enc r = .ok (world, r')) : world.Stored := by
  have hu16 : ∀ num : UInt16, -2147483648 ≤ (num.toNat : Int) ∧ (num.toNat : Int) < 2147483648 := by
    intro num
    have hlt := num.toNat_lt
    omega
  rw [readWorld] at h
  obtain ⟨⟨name, r₁⟩, hname, h⟩ := bind_eq_ok.mp h
  obtain ⟨⟨type, r₂⟩, -, h⟩ := bind_eq_ok.mp h
  obtain ⟨⟨numPlayers, r₃⟩, -, h⟩ := bind_eq_ok.mp h
  obtain ⟨⟨maxPlayers, r₄⟩, -, h⟩ := bind_eq_ok.mp h
  obtain ⟨⟨onlinePeak, r₅⟩, -, h⟩ := bind_eq_ok.mp h
  obtain ⟨⟨onlinePeakTimestamp, r₆⟩, -, h⟩ := bind_eq_ok.mp h
  obtain ⟨⟨lastStartup, r₇⟩, -, h⟩ := bind_eq_ok.mp h
  obtain ⟨⟨lastShutdown, r₈⟩, -, h⟩ := bind_eq_ok.mp h
  cases h
  refine ⟨(BufferReader.length_of_readString hname).trans List.length_replicate, ?_⟩
  simp only [List.mem_cons, List.not_mem_nil, or_false, forall_eq_or_imp, forall_eq]
  exact ⟨hu16 numPlayers, hu16 maxPlayers, hu16 onlinePeak⟩

theorem readWorlds_stored {enc : ClientEncoding} {worldName : List UInt8} {n : Nat} {first : Bool}
    {outWorld world : WorldInfo} {r r' : BufferReader} (hout : outWorld.Stored)
    (h : readWorlds enc worldName n first outWorld r = .ok (world, r')) : world.Stored := by
  induction n generalizing first outWorld r with
  | zero =>
      cases h
      exact hout
  | succ n ih =>
      rw [readWorlds] at h
      obtain ⟨⟨next, r₁⟩, hnext, h⟩ := bind_eq_ok.mp h
      have hstored := readWorld_stored hnext
      simp only at h
      split_ifs at h with hempty hmax hname
      · exact ih hstored h
      · exact ih hout h
      · cases h
        exact hstored
      · exact ih hout h

theorem getWorld_stored {σ : Type} (enc : ClientEncoding) (exchange : Exchange σ) {stray : WorldInfo}
    (hstray : stray.Stored) (worldName : List UInt8) (s : Session σ) :
    ∃ result world s', getWorld enc exchange stray worldName s = .ok (result, world, s') ∧ world.Stored := by
  rw [getWorld_eq]
  obtain ⟨outcome, client⟩ := exchange s.client (requestFrame worldsRequest) 4096
  cases outcome with
  | none => exact ⟨_, _, _, rfl, zeroed_stored⟩
  | some reply =>
      rw [received_some, ok_bind]
      simp only [worldResult]
      split
      · rw [readU8_second, ok_bind]
        refine ⟨_, _, _, rfl, ?_⟩
        simp only
        cases hread : readWorlds enc worldName ((reply.bytes.drop 1).headD 0).toNat true .zeroed ⟨reply.bytes, 2⟩ with
        | error fault => exact hstray
        | ok out => exact readWorlds_stored zeroed_stored hread
      · exact ⟨_, _, _, rfl, zeroed_stored⟩

end TibiaLogin.WorldQuery
