import TibiaLogin.CharacterList
import TibiaLogin.LoginOutcome

namespace TibiaLogin.ClientReader

open MachineInt Memory ByteOrder BufferWriter Xtea LoginQuery LoginResponse LoginHandler LoginOutcome CharacterList

inductive Answer
  | error (message : List UInt8)
  | list (view : View)
  deriving DecidableEq, Repr

/-- A list that the length fields of the format have room for. -/
structure Sendable (view : View) : Prop where
  motd : ∀ motd, view.motd = some motd → motd.length < 0xFFFF
  count : view.characters.length ≤ 255
  characters : ∀ ch ∈ view.characters, ch.Storable

def motdBytes : Option (List UInt8) → List UInt8
  | none => []
  | some motd => 20 :: stringBytes motd

def Answer.bytes : Answer → List UInt8
  | .error message => 10 :: stringBytes message
  | .list view =>
      motdBytes view.motd ++ 100 :: UInt8.ofNat view.characters.length ::
        (view.characters.flatMap entryBytes ++ writeU16Le view.premiumDays)

def Answer.Sendable : Answer → Prop
  | .error message => message.length < 0xFFFF
  | .list view => ClientReader.Sendable view

/-- The data of a response, for a client that knows the key: the sizes must
agree, and the padding is shorter than a block. -/
def openResponse (key : Key) (response : List UInt8) : Option (List UInt8) := do
  let (encryptedSize, cipher) ← takeU16 response
  if encryptedSize.toNat = cipher.length ∧ cipher.length % 8 = 0 then
    let (dataSize, data) ← takeU16 (xteaDecrypt key cipher)
    if dataSize.toNat ≤ data.length ∧ data.length < dataSize.toNat + 8 then some (data.take dataSize.toNat) else none
  else none

def parseAnswer : List UInt8 → Option Answer
  | 10 :: rest => do
      let (message, rest) ← takeText rest
      if rest = [] then some (.error message) else none
  | data => (parseView data).map .list

def readResponse (key : Key) (response : List UInt8) : Option Answer := (openResponse key response).bind parseAnswer

theorem openResponse_responseBytes (randR : UInt32 → Int × UInt32) (key : Key) (seed : UInt32) {data : List UInt8}
    (h : data.length < 65520) : openResponse key (responseBytes randR key seed data) = some data := by
  have hpad : padCount (2 + data.length) < 8 ∧ (2 + data.length + padCount (2 + data.length)) % 8 = 0 := by
    rw [padCount]
    omega
  have hcipher : (xteaEncrypt key
      (writeU16Le (toU16 data.length) ++ data ++ padding randR (padCount (2 + data.length)) seed)).length =
        2 + data.length + padCount (2 + data.length) := by
    rw [xteaEncrypt, length_mapBlocks]
    simp only [List.length_append, length_writeU16Le, length_padding]
  have hsize : (toU16 (2 + data.length + padCount (2 + data.length) : Nat)).toNat =
      2 + data.length + padCount (2 + data.length) := toNat_toU16 (by omega)
  have hdata : (toU16 data.length).toNat = data.length := toNat_toU16 (by omega)
  rw [openResponse, responseBytes, takeU16_write]
  simp only [Option.bind_eq_bind, Option.bind_some]
  rw [if_pos ⟨by rw [hsize, hcipher], by rw [hcipher]; exact hpad.2⟩, xteaDecrypt_xteaEncrypt, List.append_assoc,
    takeU16_write]
  simp only [Option.bind_some, hdata, List.length_append, length_padding]
  rw [if_pos ⟨by omega, by omega⟩, List.take_left]

theorem takeMotd_motdBytes {motd : Option (List UInt8)} (h : ∀ text, motd = some text → text.length < 0xFFFF)
    (rest : List UInt8) : takeMotd (motdBytes motd ++ (100 :: rest)) = some (motd, 100 :: rest) := by
  cases motd with
  | none => rfl
  | some text =>
      rw [motdBytes, List.cons_append, takeMotd, takeText_stringBytes (h text rfl)]
      rfl

theorem parseView_bytes {view : View} (h : Sendable view) : parseView (Answer.list view).bytes = some view := by
  have hcount : (UInt8.ofNat view.characters.length).toNat = view.characters.length := by
    rw [UInt8.toNat_ofNat']
    exact Nat.mod_eq_of_lt (Nat.lt_succ_of_le h.count)
  have hdays := takeU16_write view.premiumDays []
  rw [List.append_nil] at hdays
  rw [Answer.bytes, parseView, takeMotd_motdBytes h.motd]
  simp only [Option.bind_eq_bind, Option.bind_some, hcount, takeCharacters_entryBytes h.characters, hdays]
  rfl

theorem parseAnswer_list {data : List UInt8} {view : View} (h : parseView data = some view) :
    parseAnswer data = some (.list view) := by
  have hhead : data.head? ≠ some 10 := by
    intro hten
    cases data with
    | nil => cases hten
    | cons b rest =>
        cases hten
        cases h
  rw [parseAnswer, h]
  · rfl
  · rintro rest rfl
    exact hhead rfl

theorem parseAnswer_bytes {answer : Answer} (h : answer.Sendable) : parseAnswer answer.bytes = some answer := by
  cases answer with
  | error message =>
      have htake := takeText_stringBytes h []
      rw [List.append_nil] at htake
      rw [Answer.bytes, parseAnswer, htake]
      rfl
  | list view => exact parseAnswer_list (parseView_bytes h)

theorem readResponse_responseBytes (randR : UInt32 → Int × UInt32) (key : Key) (seed : UInt32) {answer : Answer}
    (h : answer.Sendable) (hlen : answer.bytes.length < 65520) :
    readResponse key (responseBytes randR key seed answer.bytes) = some answer := by
  rw [readResponse, openResponse_responseBytes randR key seed hlen]
  exact parseAnswer_bytes h

end TibiaLogin.ClientReader
