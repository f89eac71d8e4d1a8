import TibiaLogin.Connection
import TibiaLogin.LoginQuery

namespace TibiaLogin.LoginResponse

open MachineInt Memory ByteOrder BufferWriter Xtea LoginQuery

def prepareXteaResponse (c : Connection) : Except Fault (Connection × BufferWriter) :=
  if c.state ≠ .processing then pure (closeConnection c, ⟨[], 0⟩)
  else do
    let w ← writeU16 0 ⟨c.buffer, 0⟩
    let w ← w.writeU16 0
    pure (c, w)

def padResponse (randR : UInt32 → Int × UInt32) :
    Nat → Int → UInt32 → BufferWriter → Except Fault (Int × UInt32 × BufferWriter)
  | 0, encryptedSize, seed, w => pure (encryptedSize, seed, w)
  | fuel + 1, encryptedSize, seed, w =>
      if encryptedSize % 8 ≠ 0 then do
        let drawn := randR seed
        let w ← w.writeU8 (toU8 drawn.1)
        padResponse randR fuel (encryptedSize + 1) drawn.2 w
      else pure (encryptedSize, seed, w)

def sendXteaResponse (randR : UInt32 → Int × UInt32) (c : Connection) (w : BufferWriter) :
    Except Fault Connection :=
  if c.state ≠ .processing then pure (closeConnection c)
  else do
    let dataSize := wrap32 (w.position - 4)
    let (encryptedSize, seed, w) ← padResponse randR 8 (wrap32 (w.position - 2)) c.randomSeed w
    let c := { c with randomSeed := seed }
    if w.overflowed then pure (closeConnection { c with buffer := w.buffer })
    else do
      let w ← w.rewriteU16 0 (toU16 encryptedSize)
      let w ← w.rewriteU16 2 (toU16 dataSize)
      let data ← loadBytes w.buffer 2 (toSize (wrap32 (w.position - 2)))
      let buffer ← storeBytes w.buffer 2 (xteaEncrypt c.xtea data)
      pure { c with state := .writing, rwSize := w.position, rwPosition := 0, buffer }

def sendLoginError (enc : ClientEncoding) (randR : UInt32 → Int × UInt32) (message : List UInt8) (c : Connection) :
    Except Fault Connection := do
  let (c, w) ← prepareXteaResponse c
  let w ← w.writeU8 10
  let w ← w.writeString enc message
  sendXteaResponse randR c w

def writeCharacters (enc : ClientEncoding) : List CharacterLoginData → BufferWriter → Except Fault BufferWriter
  | [], w => pure w
  | character :: characters, w => do
      let w ← w.writeString enc character.name
      let w ← w.writeString enc character.worldName
      let w ← w.writeU32Be (toU32 character.worldAddress)
      let w ← w.writeU16 (toU16 character.worldPort)
      writeCharacters enc characters w

def writeMotd (enc : ClientEncoding) (motd : List UInt8) (w : BufferWriter) : Except Fault BufferWriter :=
  if motd.headD 0 ≠ 0 then do
    let w ← w.writeU8 20
    w.writeString enc motd
  else pure w

def sendCharacterList (enc : ClientEncoding) (randR : UInt32 → Int × UInt32) (config : ServerConfig)
    (characters : List CharacterLoginData) (premiumDays : Int) (c : Connection) : Except Fault Connection := do
  let (c, w) ← prepareXteaResponse c
  let w ← writeMotd enc config.motd w
  let w ← w.writeU8 100
  let characters := characters.take 255
  let w ← w.writeU8 (toU8 characters.length)
  let w ← writeCharacters enc characters w
  let w ← w.writeU16 (toU16 premiumDays)
  sendXteaResponse randR c w

def errorPacket (enc : ClientEncoding) (message : List UInt8) : List UInt8 :=
  10 :: stringBytes (outgoing enc message)

def motdPacket (enc : ClientEncoding) (motd : List UInt8) : List UInt8 :=
  if motd.headD 0 ≠ 0 then 20 :: stringBytes (outgoing enc motd) else []

def characterEntry (enc : ClientEncoding) (c : CharacterLoginData) : List UInt8 :=
  stringBytes (outgoing enc c.name) ++ stringBytes (outgoing enc c.worldName) ++
    ByteOrder.writeU32Be (toU32 c.worldAddress) ++ writeU16Le (toU16 c.worldPort)

def listPacket (enc : ClientEncoding) (characters : List CharacterLoginData) (premiumDays : Int) : List UInt8 :=
  100 :: toU8 characters.length :: (characters.flatMap (characterEntry enc) ++ writeU16Le (toU16 premiumDays))

def padCount (size : Nat) : Nat := (8 - size % 8) % 8

def padding (randR : UInt32 → Int × UInt32) : Nat → UInt32 → List UInt8
  | 0, _ => []
  | n + 1, seed => toU8 (randR seed).1 :: padding randR n (randR seed).2

def responseBytes (randR : UInt32 → Int × UInt32) (key : Key) (seed : UInt32) (data : List UInt8) : List UInt8 :=
  writeU16Le (toU16 (2 + data.length + padCount (2 + data.length) : Nat)) ++
    xteaEncrypt key
      (writeU16Le (toU16 data.length) ++ data ++ padding randR (padCount (2 + data.length)) seed)

/-- The connection is about to send the data, padded and encrypted. -/
structure Queued (data : List UInt8) (c : Connection) : Prop where
  state_eq : c.state = .writing
  position_eq : c.rwPosition = 0
  content : ∃ pad : List UInt8, pad.length < 8 ∧ (2 + data.length + pad.length) % 8 = 0 ∧
    c.rwSize = (4 + data.length + pad.length : Nat) ∧ 4 + data.length + pad.length ≤ 2048 ∧
    c.buffer.take (4 + data.length + pad.length) =
      writeU16Le (toU16 (2 + data.length + pad.length : Nat)) ++
        xteaEncrypt c.xtea (writeU16Le (toU16 data.length) ++ data ++ pad)

/-- A sender either queues its data on the open connection or, when it does
not fit, closes the connection. -/
structure Answered (data : List UInt8) (c c' : Connection) : Prop where
  sized : c'.buffer.length = 2048
  outcome : (c'.socket = c.socket ∧ c'.xtea = c.xtea ∧ Queued data c') ∨ (c'.state = .processing ∧ c'.socket = -1)

/-- What is queued depends on the data, the key and the seed alone. -/
structure Replied (randR : UInt32 → Int × UInt32) (data : List UInt8) (c c' : Connection) : Prop
    extends Answered data c c' where
  fits : c'.state = .writing ↔ data.length ≤ 2038
  size_eq : c'.state = .writing → c'.rwSize = ((responseBytes randR c.xtea c.randomSeed data).length : Int)
  bytes_eq : c'.state = .writing → c'.buffer.take c'.rwSize.toNat = responseBytes randR c.xtea c.randomSeed data

@[simp] theorem length_padding (randR : UInt32 → Int × UInt32) (n : Nat) (seed : UInt32) :
    (padding randR n seed).length = n := by
  induction n generalizing seed with
  | zero => rfl
  | succ n ih => rw [padding, List.length_cons, ih]

theorem padResponse_holds (randR : UInt32 → Int × UInt32) {n : Nat} {w : BufferWriter} {written : List UInt8}
    (h : Holds n w written) (fuel size : Nat) (seed : UInt32)
    (hk : written.length + fuel < 2147483648) (hf : padCount size < fuel) :
    ∃ seed' w', padResponse randR fuel size seed w = .ok ((size + padCount size : Nat), seed', w') ∧
      Holds n w' (written ++ padding randR (padCount size) seed) := by
  induction fuel generalizing size seed w written with
  | zero => omega
  | succ fuel ih =>
      rw [padResponse]
      by_cases hz : size % 8 = 0
      · have hcount : padCount size = 0 := by
          rw [padCount]
          omega
        rw [hcount]
        refine ⟨seed, w, ?_, by rw [padding, List.append_nil]; exact h⟩
        rw [if_neg (by omega)]
        rfl
      · have hcount : padCount size = padCount (size + 1) + 1 := by
          rw [padCount, padCount]
          omega
        obtain ⟨w₁, hw₁, h₁⟩ := writeScalar_holds h [toU8 (randR seed).1]
          (by simp only [List.length_singleton]; omega)
        obtain ⟨seed', w', hp, hw'⟩ := ih h₁ (size + 1) (randR seed).2
          (by simp only [List.length_append, List.length_singleton]; omega) (by omega)
        rw [hcount]
        refine ⟨seed', w', ?_, ?_⟩
        · have hsize : (size : Int) + 1 = ((size + 1 : Nat) : Int) := rfl
          simp only [writeU8]
          rw [if_pos (by omega), hw₁, ok_bind, hsize, hp, Nat.add_assoc, Nat.add_comm 1]
        · rw [List.append_assoc] at hw'
          exact hw'

theorem prepareXteaResponse_holds {c : Connection} (hs : c.state = .processing) (hb : c.buffer.length = 2048) :
    ∃ w, prepareXteaResponse c = .ok (c, w) ∧ Holds 2048 w [0, 0, 0, 0] := by
  obtain ⟨w₁, hw₁, h₁⟩ := writeScalar_holds (holds_nil c.buffer) (writeU16Le 0) (by simp)
  obtain ⟨w₂, hw₂, h₂⟩ := writeScalar_holds h₁ (writeU16Le 0) (by simp)
  rw [hb] at h₂
  refine ⟨w₂, ?_, h₂⟩
  rw [prepareXteaResponse, if_neg (not_not.mpr hs), writeU16, hw₁, ok_bind, hw₂]
  rfl

theorem rewrite_sizes {w : BufferWriter} {data : List UInt8} (h : Holds 2048 w ([0, 0, 0, 0] ++ data))
    (hle : 4 + data.length ≤ 2048) (encryptedSize dataSize : UInt16) :
    ∃ w₁ w₂, rewriteU16 0 encryptedSize w = .ok w₁ ∧ rewriteU16 2 dataSize w₁ = .ok w₂ ∧
      Holds 2048 w₂ (writeU16Le encryptedSize ++ (writeU16Le dataSize ++ data)) := by
  have hlen : ([0, 0, 0, 0] ++ data).length = 4 + data.length := by
    simp only [List.length_append, List.length_cons, List.length_nil]
  obtain ⟨w₁, hw₁, h₁⟩ := rewriteU16_holds h 0 encryptedSize (by omega) (by omega) (by omega)
  have hlen₁ : (overwrite ([0, 0, 0, 0] ++ data) 0 (writeU16Le encryptedSize)).length =
      ([0, 0, 0, 0] ++ data).length := length_overwrite (by rw [length_writeU16Le]; omega)
  obtain ⟨w₂, hw₂, h₂⟩ := rewriteU16_holds h₁ 2 dataSize (by omega) (by omega) (by omega)
  exact ⟨w₁, w₂, hw₁, hw₂, h₂⟩

theorem encrypt_in_place {w : BufferWriter} {a b : UInt8} (data : List UInt8) (key : Key)
    (h : Holds 2048 w (a :: b :: data)) (hle : 2 + data.length ≤ 2048) :
    ∃ buffer, loadBytes w.buffer 2 (toSize (wrap32 (w.position - 2))) = .ok data ∧
      storeBytes w.buffer 2 (xteaEncrypt key data) = .ok buffer ∧ buffer.length = 2048 ∧
      buffer.take (2 + data.length) = a :: b :: xteaEncrypt key data := by
  have hlen : (xteaEncrypt key data).length = data.length := length_mapBlocks _ data
  have hpos : w.position - 2 = data.length := by
    rw [h.position_eq]
    simp only [List.length_cons]
    omega
  have htake := h.content (by simp only [List.length_cons]; omega)
  have hfit : 2 + (xteaEncrypt key data).length ≤ w.buffer.length := by
    rw [hlen, h.size_eq]
    exact hle
  refine ⟨overwrite w.buffer 2 (xteaEncrypt key data), ?_, storeBytes_of_within hfit, ?_, ?_⟩
  · rw [hpos, wrap32_natCast (by omega), toSize_natCast (by omega)]
    refine (loadBytes_of_within (i := 2) (by rw [h.size_eq]; exact hle)).trans ?_
    rw [List.take_drop, Nat.add_comm, show data.length + 2 = (a :: b :: data).length from rfl, htake]
    rfl
  · rw [length_overwrite hfit, h.size_eq]
  · rw [← hlen, take_overwrite hfit]
    have h₂ : w.buffer.take 2 = (w.buffer.take (a :: b :: data).length).take 2 := by
      rw [List.take_take, List.length_cons, List.length_cons, Nat.min_eq_left (by omega)]
    rw [h₂, htake]
    rfl

theorem length_responseBytes (randR : UInt32 → Int × UInt32) (key : Key) (seed : UInt32) (data : List UInt8) :
    (responseBytes randR key seed data).length = 4 + data.length + padCount (2 + data.length) := by
  rw [responseBytes, xteaEncrypt]
  simp only [List.length_append, length_writeU16Le, length_mapBlocks, length_padding]
  omega

theorem sendXteaResponse_replied (randR : UInt32 → Int × UInt32) (data : List UInt8) {c : Connection}
    {w : BufferWriter} (hs : c.state = .processing) (h : Holds 2048 w ([0, 0, 0, 0] ++ data))
    (hk : data.length + 64 < 2147483648) :
    ∃ c', sendXteaResponse randR c w = .ok c' ∧ Replied randR data c c' := by
  have hpos : w.position = (4 + data.length : Nat) := by
    rw [h.position_eq]
    simp only [List.length_append, List.length_cons, List.length_nil]
  have hsize : wrap32 (w.position - 2) = (2 + data.length : Nat) := by
    rw [hpos, wrap32_of_mem (by omega) (by omega)]
    omega
  have hdata : wrap32 (w.position - 4) = (data.length : Nat) := by
    rw [hpos, wrap32_of_mem (by omega) (by omega)]
    omega
  have hcount : padCount (2 + data.length) < 8 ∧ (2 + data.length + padCount (2 + data.length)) % 8 = 0 := by
    rw [padCount]
    omega
  obtain ⟨seed, w₁, hw₁, h₁⟩ := padResponse_holds randR h 8 (2 + data.length) c.randomSeed
    (by simp only [List.length_append, List.length_cons, List.length_nil]; omega) hcount.1
  have hbytes := length_responseBytes randR c.xtea c.randomSeed data
  rw [responseBytes] at hbytes
  generalize hn : padCount (2 + data.length) = n at hcount hw₁ h₁ hbytes
  generalize hpad : padding randR n c.randomSeed = pad at h₁ hbytes
  have hpl : pad.length = n := by rw [← hpad, length_padding]
  rw [List.append_assoc] at h₁
  have hlen : ([0, 0, 0, 0] ++ (data ++ pad)).length = 4 + data.length + n := by
    simp only [List.length_append, List.length_cons, List.length_nil]
    omega
  simp only [sendXteaResponse]
  rw [if_neg (not_not.mpr hs), hsize, hw₁, ok_bind]
  by_cases hfit : 4 + data.length + n ≤ 2048
  · have hl : (data ++ pad).length = data.length + n := by rw [List.length_append, hpl]
    obtain ⟨w₂, w₃, hw₂, hw₃, h₃⟩ := rewrite_sizes h₁ (by omega)
      (toU16 (2 + data.length + n : Nat)) (toU16 data.length)
    have hl₃ : (writeU16Le (toU16 data.length) ++ (data ++ pad)).length = 2 + data.length + n := by
      rw [List.length_append, length_writeU16Le, hl]
      omega
    have hp₃ : w₃.position = (4 + data.length + n : Nat) := by
      rw [h₃.position_eq, List.length_append, length_writeU16Le, hl₃]
      omega
    have hsum : 2 + (2 + data.length + n) = 4 + data.length + n := by omega
    obtain ⟨buffer, hload, hstore, hbuf, htake⟩ := encrypt_in_place
      (writeU16Le (toU16 data.length) ++ (data ++ pad)) c.xtea h₃ (by omega)
    rw [hl₃, hsum] at htake
    have hsent : buffer.take (4 + data.length + n) = responseBytes randR c.xtea c.randomSeed data := by
      rw [responseBytes, hn, hpad, List.append_assoc (writeU16Le (toU16 data.length))]
      exact htake
    refine ⟨{ c with state := .writing, rwSize := w₃.position, rwPosition := 0, randomSeed := seed, buffer }, ?_,
      ⟨hbuf, Or.inl ⟨rfl, rfl, rfl, rfl, pad, by omega, by omega, by rw [hp₃, hpl], by omega, ?_⟩⟩,
      ⟨fun _ => by omega, fun _ => rfl⟩, fun _ => ?_, fun _ => ?_⟩
    · rw [if_neg (by rw [h₁.overflowed_iff, hlen]; omega), hw₂, ok_bind, hdata, hw₃, ok_bind, hload, ok_bind, hstore]
      rfl
    · rw [hpl, List.append_assoc]
      exact htake
    · rw [length_responseBytes, hn]
      exact hp₃
    · rw [hp₃, Int.toNat_natCast]
      exact hsent
  · refine ⟨_, by rw [if_pos (by rw [h₁.overflowed_iff, hlen]; omega)]; rfl, ?_⟩
    rw [closeConnection_eq]
    have hnot : c.state ≠ .writing := by
      rw [hs]
      decide
    exact ⟨⟨h₁.size_eq, Or.inr ⟨hs, rfl⟩⟩, ⟨fun hw => absurd hw hnot, fun hle => absurd hle (by omega)⟩,
      fun hw => absurd hw hnot, fun hw => absurd hw hnot⟩

theorem length_text_le (enc : ClientEncoding) (str : List UInt8) :
    (stringBytes (outgoing enc str)).length ≤ str.length + 6 :=
  (length_stringBytes_le _).trans (Nat.add_le_add_right (length_outgoing_le enc str) 6)

theorem writeArray_holds (enc : ClientEncoding) {w : BufferWriter} {written : List UInt8} (h : Holds 2048 w written)
    (str : List UInt8) (hstr : str.length ≤ 1024) (hk : written.length ≤ 1000000) :
    ∃ w', writeString enc str w = .ok w' ∧ Holds 2048 w' (written ++ stringBytes (outgoing enc str)) := by
  have hc := length_cString_le str
  have hl := length_text_le enc str
  exact writeString_holds enc h (by omega) str (by omega) (by omega)

theorem sendLoginError_replied (enc : ClientEncoding) (randR : UInt32 → Int × UInt32) (message : List UInt8)
    {c : Connection} (hs : c.state = .processing) (hb : c.buffer.length = 2048) (hm : message.length ≤ 1024) :
    ∃ c', sendLoginError enc randR message c = .ok c' ∧ Replied randR (errorPacket enc message) c c' := by
  obtain ⟨w, hw, h⟩ := prepareXteaResponse_holds hs hb
  obtain ⟨w₁, hw₁, h₁⟩ := writeScalar_holds h [10] (by simp)
  obtain ⟨w₂, hw₂, h₂⟩ := writeArray_holds enc h₁ message hm (by simp)
  have hl := length_text_le enc message
  obtain ⟨c', hc', ha⟩ := sendXteaResponse_replied randR (errorPacket enc message) hs h₂
    (by rw [errorPacket, List.length_cons]; omega)
  refine ⟨c', ?_, ha⟩
  rw [sendLoginError, hw, ok_bind]
  simp only [writeU8]
  rw [hw₁, ok_bind, hw₂, ok_bind, hc']

theorem writeMotd_holds (enc : ClientEncoding) {w : BufferWriter} (h : Holds 2048 w [0, 0, 0, 0])
    (motd : List UInt8) (hm : motd.length ≤ 256) :
    ∃ w', writeMotd enc motd w = .ok w' ∧ Holds 2048 w' ([0, 0, 0, 0] ++ motdPacket enc motd) := by
  rw [writeMotd, motdPacket]
  by_cases hz : motd.headD 0 ≠ 0
  · obtain ⟨w₁, hw₁, h₁⟩ := writeScalar_holds h [20] (by simp)
    obtain ⟨w₂, hw₂, h₂⟩ := writeArray_holds enc h₁ motd (by omega) (by simp)
    refine ⟨w₂, ?_, by rw [if_pos hz]; exact h₂⟩
    rw [if_pos hz, writeU8, hw₁, ok_bind, hw₂]
  · exact ⟨w, by rw [if_neg hz]; rfl, by rw [if_neg hz, List.append_nil]; exact h⟩

theorem length_characterEntry_le (enc : ClientEncoding) {c : CharacterLoginData} (h : c.Fits) :
    (characterEntry enc c).length ≤ 78 := by
  have hn := length_text_le enc c.name
  have hw := length_text_le enc c.worldName
  rw [h.name] at hn
  rw [h.worldName] at hw
  simp only [characterEntry, List.length_append, length_writeU32Be, length_writeU16Le]
  omega

theorem writeCharacters_holds (enc : ClientEncoding) {characters : List CharacterLoginData} {w : BufferWriter}
    {written : List UInt8} (h : Holds 2048 w written) (hfits : ∀ c ∈ characters, c.Fits)
    (hk : written.length + 78 * characters.length ≤ 1000000) :
    ∃ w', writeCharacters enc characters w = .ok w' ∧
      Holds 2048 w' (written ++ characters.flatMap (characterEntry enc)) := by
  induction characters generalizing w written with
  | nil => exact ⟨w, rfl, by simpa using h⟩
  | cons c characters ih =>
      have hc := hfits c (List.mem_cons_self ..)
      have hn := length_text_le enc c.name
      have hw := length_text_le enc c.worldName
      have he := length_characterEntry_le enc hc
      rw [hc.name] at hn
      rw [hc.worldName] at hw
      rw [List.length_cons] at hk
      obtain ⟨w₁, hw₁, h₁⟩ := writeArray_holds enc h c.name (by rw [hc.name]; omega) (by omega)
      obtain ⟨w₂, hw₂, h₂⟩ := writeArray_holds enc h₁ c.worldName (by rw [hc.worldName]; omega)
        (by simp only [List.length_append]; omega)
      obtain ⟨w₃, hw₃, h₃⟩ := writeScalar_holds h₂ (ByteOrder.writeU32Be (toU32 c.worldAddress))
        (by simp only [List.length_append, length_writeU32Be]; omega)
      obtain ⟨w₄, hw₄, h₄⟩ := writeScalar_holds h₃ (writeU16Le (toU16 c.worldPort))
        (by simp only [List.length_append, length_writeU32Be, length_writeU16Le]; omega)
      have hentry : written ++ stringBytes (outgoing enc c.name) ++ stringBytes (outgoing enc c.worldName) ++
          ByteOrder.writeU32Be (toU32 c.worldAddress) ++ writeU16Le (toU16 c.worldPort) =
          written ++ characterEntry enc c := by
        simp only [characterEntry, List.append_assoc]
      rw [hentry] at h₄
      obtain ⟨w', hw', h'⟩ := ih h₄ (fun d hd => hfits d (List.mem_cons_of_mem _ hd))
        (by rw [List.length_append]; omega)
      refine ⟨w', ?_, by rw [List.flatMap_cons, ← List.append_assoc]; exact h'⟩
      simp only [writeCharacters, BufferWriter.writeU32Be, writeU16]
      rw [hw₁, ok_bind, hw₂, ok_bind, hw₃, ok_bind, hw₄, ok_bind, hw']

theorem length_entries_le (enc : ClientEncoding) {characters : List CharacterLoginData}
    (hfits : ∀ c ∈ characters, c.Fits) :
    (characters.flatMap (characterEntry enc)).length ≤ 78 * characters.length := by
  induction characters with
  | nil => simp
  | cons c characters ih =>
      have hc := length_characterEntry_le enc (hfits c (List.mem_cons_self ..))
      have hr := ih fun d hd => hfits d (List.mem_cons_of_mem _ hd)
      rw [List.flatMap_cons, List.length_append, List.length_cons]
      omega

theorem sendCharacterList_replied (enc : ClientEncoding) (randR : UInt32 → Int × UInt32) (config : ServerConfig)
    {characters : List CharacterLoginData} (premiumDays : Int) {c : Connection} (hs : c.state = .processing)
    (hb : c.buffer.length = 2048) (hlen : characters.length ≤ 50) (hfits : ∀ c ∈ characters, c.Fits) :
    ∃ c', sendCharacterList enc randR config characters premiumDays c = .ok c' ∧
      Replied randR (motdPacket enc config.motd ++ listPacket enc characters premiumDays) c c' := by
  have hmotd : (motdPacket enc config.motd).length ≤ 263 := by
    have hl := length_text_le enc config.motd
    have hm := config.motd_fits
    rw [motdPacket]
    split_ifs
    · rw [List.length_cons]
      omega
    · simp
  have hentries := length_entries_le enc hfits
  obtain ⟨w, hw, h⟩ := prepareXteaResponse_holds hs hb
  obtain ⟨w₁, hw₁, h₁⟩ := writeMotd_holds enc h config.motd config.motd_fits
  obtain ⟨w₂, hw₂, h₂⟩ := writeScalar_holds h₁ [100]
    (by simp only [List.length_append, List.length_cons, List.length_nil]; omega)
  obtain ⟨w₃, hw₃, h₃⟩ := writeScalar_holds h₂ [toU8 characters.length]
    (by simp only [List.length_append, List.length_cons, List.length_nil]; omega)
  obtain ⟨w₄, hw₄, h₄⟩ := writeCharacters_holds enc h₃ hfits
    (by simp only [List.length_append, List.length_cons, List.length_nil]; omega)
  obtain ⟨w₅, hw₅, h₅⟩ := writeScalar_holds h₄ (writeU16Le (toU16 premiumDays))
    (by simp only [List.length_append, List.length_cons, List.length_nil, length_writeU16Le]; omega)
  have hdata : [0, 0, 0, 0] ++ motdPacket enc config.motd ++ [100] ++ [toU8 characters.length] ++
      characters.flatMap (characterEntry enc) ++ writeU16Le (toU16 premiumDays) =
      [0, 0, 0, 0] ++ (motdPacket enc config.motd ++ listPacket enc characters premiumDays) := by
    simp only [listPacket, List.append_assoc, List.cons_append, List.nil_append]
  rw [hdata] at h₅
  obtain ⟨c', hc', ha⟩ := sendXteaResponse_replied randR _ hs h₅
    (by simp only [listPacket, List.length_append, List.length_cons, length_writeU16Le]; omega)
  refine ⟨c', ?_, ha⟩
  rw [sendCharacterList, hw, ok_bind]
  simp only [writeU8, writeU16, List.take_of_length_le (show characters.length ≤ 255 by omega)]
  rw [hw₁, ok_bind, hw₂, ok_bind, hw₃, ok_bind, hw₄, ok_bind, hw₅, ok_bind, hc']

end TibiaLogin.LoginResponse
