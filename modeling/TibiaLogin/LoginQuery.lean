import TibiaLogin.Query

namespace TibiaLogin.LoginQuery

open MachineInt Memory BufferWriter Query

structure CharacterLoginData where
  name : List UInt8
  worldName : List UInt8
  worldAddress : Int
  worldPort : Int
  deriving DecidableEq, Repr

structure CharacterLoginData.Fits (c : CharacterLoginData) : Prop where
  name : c.name.length = 30
  worldName : c.worldName.length = 30

structure StrayReply where
  character : Nat → CharacterLoginData
  premiumDays : Int
  fits : ∀ i, (character i).Fits

def readCharacters (enc : ClientEncoding) : Nat → BufferReader →
    Except Fault (List CharacterLoginData × BufferReader)
  | 0, r => pure ([], r)
  | n + 1, r => do
      let (name, r) ← r.readString enc (List.replicate 30 0)
      let (worldName, r) ← r.readString enc (List.replicate 30 0)
      let (worldAddress, r) ← r.readU32Be
      let (worldPort, r) ← r.readU16
      let (characters, r) ← readCharacters enc n r
      pure (⟨name, worldName, wrap32 worldAddress.toNat, worldPort.toNat⟩ :: characters, r)

def readReply (enc : ClientEncoding) (numCharacters : Nat) (r : BufferReader) :
    Except Fault (List CharacterLoginData × Int) := do
  let (characters, r) ← readCharacters enc numCharacters r
  let (premiumDays, _) ← r.readU16
  pure (characters, premiumDays.toNat)

def loginResult (enc : ClientEncoding) (stray : StrayReply) (maxCharacters : Nat) (status : QueryStatus)
    (r : BufferReader) : Except Fault (Int × List CharacterLoginData × Int) := do
  match status with
  | .ok =>
      let (numCharacters, r) ← r.readU8
      if maxCharacters < numCharacters.toNat then pure (-1, [], 0)
      else
        let n := numCharacters.toNat
        pure (0, orStray (readReply enc n r) ((List.range n).map stray.character, stray.premiumDays))
  | .error =>
      let (errorCode, _) ← r.readU8
      if 1 ≤ errorCode ∧ errorCode ≤ 6 then pure (errorCode.toNat, [], 0) else pure (-1, [], 0)
  | _ => pure (-1, [], 0)

def loginAccount {σ : Type} (enc : ClientEncoding) (exchange : Exchange σ) (stray : StrayReply) (accountId : Int)
    (password ipAddress : List UInt8) (maxCharacters : Nat) (s : Session σ) :
    Except Fault (Int × List CharacterLoginData × Int × Session σ) := do
  let w ← prepareQuery .loginAccount (List.replicate 4096 0)
  let w ← w.writeU32 (toU32 accountId)
  let w ← w.writeString enc password
  let w ← w.writeString enc ipAddress
  let (status, r, s) ← executeQuery exchange w s
  let (result, characters, premiumDays) ← loginResult enc stray maxCharacters status r
  pure (result, characters, premiumDays, s)

/-- The result code and the account id, which keeps its value unless the
status is Ok. -/
def resolveResult (accountId : Int) (status : QueryStatus) (r : BufferReader) : Except Fault (Int × Int) := do
  match status with
  | .ok =>
      let (id, _) ← r.readU32
      pure (0, wrap32 id.toNat)
  | .error =>
      let (code, _) ← r.readU8
      pure (code.toNat, accountId)
  | _ => pure (-1, accountId)

def resolveEmail {σ : Type} (enc : ClientEncoding) (exchange : Exchange σ) (email : List UInt8)
    (accountId : Int) (s : Session σ) : Except Fault (Int × Int × Session σ) := do
  let w ← prepareQuery .resolveEmail (List.replicate 1024 0)
  let w ← w.writeString enc email
  let (status, r, s) ← executeQuery exchange w s
  let (result, accountId) ← resolveResult accountId status r
  pure (result, accountId, s)

def resolveRequest (enc : ClientEncoding) (email : List UInt8) : List UInt8 :=
  QueryType.resolveEmail.code :: stringBytes (outgoing enc email)

def loginRequest (enc : ClientEncoding) (accountId : Int) (password ipAddress : List UInt8) : List UInt8 :=
  QueryType.loginAccount.code :: (ByteOrder.writeU32Le (toU32 accountId) ++
    stringBytes (outgoing enc password) ++ stringBytes (outgoing enc ipAddress))

theorem resolveEmail_eq {σ : Type} (enc : ClientEncoding) (exchange : Exchange σ) (email : List UInt8)
    (accountId : Int) (s : Session σ) (he : email.length ≤ 64) :
    resolveEmail enc exchange email accountId s = (do
      let (status, r, s) ← received (requestFrame (resolveRequest enc email)) s.queries
        (exchange s.client (requestFrame (resolveRequest enc email)) 1024)
      let (result, accountId) ← resolveResult accountId status r
      pure (result, accountId, s)) := by
  have ho := length_outgoing_le enc email
  have hs := length_stringBytes_le (outgoing enc email)
  have hc := length_cString_le email
  obtain ⟨w₁, hw₁, h₁⟩ := prepareQuery_holds .resolveEmail (List.replicate 1024 0)
  rw [List.length_replicate] at h₁
  obtain ⟨w₂, hw₂, h₂⟩ := writeString_holds enc h₁ (by omega) email (by omega)
    (by simp only [List.length_cons, List.length_nil]; omega)
  have hfit : (resolveRequest enc email).length + 6 ≤ 1024 := by
    rw [resolveRequest, List.length_cons]
    omega
  rw [resolveEmail, hw₁, ok_bind, hw₂, ok_bind, executeQuery_eq exchange h₂ (by omega) hfit]
  rfl

theorem loginAccount_eq {σ : Type} (enc : ClientEncoding) (exchange : Exchange σ) (stray : StrayReply)
    (accountId : Int) (password ipAddress : List UInt8) (maxCharacters : Nat) (s : Session σ)
    (hp : password.length ≤ 64) (hi : ipAddress.length ≤ 64) :
    loginAccount enc exchange stray accountId password ipAddress maxCharacters s = (do
      let (status, r, s) ← received (requestFrame (loginRequest enc accountId password ipAddress)) s.queries
        (exchange s.client (requestFrame (loginRequest enc accountId password ipAddress)) 4096)
      let (result, characters, premiumDays) ← loginResult enc stray maxCharacters status r
      pure (result, characters, premiumDays, s)) := by
  have hop := length_outgoing_le enc password
  have hoi := length_outgoing_le enc ipAddress
  have hsp := length_stringBytes_le (outgoing enc password)
  have hsi := length_stringBytes_le (outgoing enc ipAddress)
  have hcp := length_cString_le password
  have hci := length_cString_le ipAddress
  obtain ⟨w₁, hw₁, h₁⟩ := prepareQuery_holds .loginAccount (List.replicate 4096 0)
  rw [List.length_replicate] at h₁
  obtain ⟨w₂, hw₂, h₂⟩ := writeScalar_holds h₁ (ByteOrder.writeU32Le (toU32 accountId)) (by simp)
  obtain ⟨w₃, hw₃, h₃⟩ := writeString_holds enc h₂ (by omega) password (by omega)
    (by simp only [List.length_append, List.length_cons, List.length_nil, ByteOrder.length_writeU32Le]; omega)
  obtain ⟨w₄, hw₄, h₄⟩ := writeString_holds enc h₃ (by omega) ipAddress (by omega)
    (by simp only [List.length_append, List.length_cons, List.length_nil, ByteOrder.length_writeU32Le]; omega)
  have hbody : [0, 0, QueryType.loginAccount.code] ++ ByteOrder.writeU32Le (toU32 accountId) ++
      stringBytes (outgoing enc password) ++ stringBytes (outgoing enc ipAddress) =
      0 :: 0 :: loginRequest enc accountId password ipAddress := by
    simp [loginRequest]
  rw [hbody] at h₄
  have hfit : (loginRequest enc accountId password ipAddress).length + 6 ≤ 4096 := by
    simp only [loginRequest, List.length_cons, List.length_append, ByteOrder.length_writeU32Le]
    omega
  rw [loginAccount, hw₁, ok_bind, show writeU32 _ w₁ = _ from hw₂, ok_bind, hw₃, ok_bind, hw₄, ok_bind,
    executeQuery_eq exchange h₄ (by omega) hfit]

theorem readCharacters_fits {enc : ClientEncoding} {n : Nat} {r r' : BufferReader}
    {characters : List CharacterLoginData} (h : readCharacters enc n r = .ok (characters, r')) :
    characters.length = n ∧ ∀ c ∈ characters, c.Fits := by
  induction n generalizing r characters with
  | zero => cases h; simp
  | succ n ih =>
      obtain ⟨⟨name, r₁⟩, hname, h⟩ := bind_eq_ok.mp h
      obtain ⟨⟨worldName, r₂⟩, hworld, h⟩ := bind_eq_ok.mp h
      obtain ⟨⟨worldAddress, r₃⟩, -, h⟩ := bind_eq_ok.mp h
      obtain ⟨⟨worldPort, r₄⟩, -, h⟩ := bind_eq_ok.mp h
      obtain ⟨⟨rest, r₅⟩, hrest, h⟩ := bind_eq_ok.mp h
      cases h
      obtain ⟨hlen, hall⟩ := ih hrest
      refine ⟨by rw [List.length_cons, hlen], fun c hc => ?_⟩
      rcases List.mem_cons.mp hc with rfl | hc
      · exact ⟨BufferReader.length_of_readString hname, BufferReader.length_of_readString hworld⟩
      · exact hall c hc

/-- The result code and the account id that a response to ResolveEmail stands
for, the id zero unless the response sets it. -/
def resolveOutcome : Option (List UInt8) → Int × Int
  | none => (-1, 0)
  | some reply => match QueryStatus.ofByte (reply.headD 0) with
    | .ok => (0, wrap32 (BufferReader.u32At reply 1))
    | .error => (((reply.drop 1).headD 0).toNat, 0)
    | _ => (-1, 0)

theorem readU8_second (reply : List UInt8) :
    BufferReader.readU8 ⟨reply, 1⟩ = .ok ((reply.drop 1).headD 0, ⟨reply, 2⟩) := by
  refine (BufferReader.readScalar_eq _ reply (p := 1) (w := 1) (by omega)).trans ?_
  by_cases h : 1 + 1 ≤ reply.length
  · obtain ⟨a, rest, hd⟩ : ∃ a rest, reply.drop 1 = a :: rest :=
      List.exists_cons_of_length_pos (by rw [List.length_drop]; omega)
    rw [if_pos h, hd]
    rfl
  · rw [if_neg h, List.drop_eq_nil_of_le (by omega)]
    rfl

def replyOf {σ : Type} {capacity : Nat} (outcome : Option (Reply capacity) × σ) : Option (List UInt8) :=
  outcome.1.map (·.bytes)

theorem resolveEmail_outcome {σ : Type} (enc : ClientEncoding) (exchange : Exchange σ) (email : List UInt8)
    (s : Session σ) (he : email.length ≤ 64) {frame : List UInt8} {outcome : Option (Reply 1024) × σ}
    (hf : requestFrame (resolveRequest enc email) = frame) (ho : exchange s.client frame 1024 = outcome) :
    resolveEmail enc exchange email 0 s =
      .ok ((resolveOutcome (replyOf outcome)).1, (resolveOutcome (replyOf outcome)).2,
        ⟨outcome.2, s.queries ++ [⟨frame, replyOf outcome⟩]⟩) := by
  rw [resolveEmail_eq enc exchange email 0 s he, hf, ho]
  obtain ⟨o, client⟩ := outcome
  cases o with
  | none => rfl
  | some reply =>
      rw [received_some, ok_bind]
      simp only [replyOf, Option.map_some, resolveOutcome]
      cases QueryStatus.ofByte (reply.bytes.headD 0) with
      | ok =>
          obtain ⟨v, hv, hn⟩ := BufferReader.readU32_eq reply.bytes (p := 1) (by omega)
          simp only [resolveResult]
          rw [show BufferReader.readU32 ⟨reply.bytes, 1⟩ = _ from hv, ok_bind]
          simp only [hn]
          rfl
      | error =>
          simp only [resolveResult]
          rw [readU8_second, ok_bind]
          rfl
      | failed | other code => rfl

theorem orStray_fits (enc : ClientEncoding) (stray : StrayReply) (n : Nat) (r : BufferReader) :
    let result := orStray (readReply enc n r) ((List.range n).map stray.character, stray.premiumDays)
    result.1.length = n ∧ ∀ c ∈ result.1, c.Fits := by
  cases h : readReply enc n r with
  | error e =>
      refine ⟨by simp [orStray], fun c hc => ?_⟩
      obtain ⟨i, -, rfl⟩ := List.mem_map.mp hc
      exact stray.fits i
  | ok result =>
      obtain ⟨⟨characters, r₁⟩, hr, h⟩ := bind_eq_ok.mp h
      obtain ⟨⟨premiumDays, r₂⟩, -, h⟩ := bind_eq_ok.mp h
      cases h
      exact readCharacters_fits hr

theorem loginResult_spec (enc : ClientEncoding) (stray : StrayReply) (maxCharacters : Nat) (status : QueryStatus)
    (reply : List UInt8) :
    ∃ code characters premiumDays,
      loginResult enc stray maxCharacters status ⟨reply, 1⟩ = .ok (code, characters, premiumDays) ∧
      characters.length ≤ maxCharacters ∧ (∀ c ∈ characters, c.Fits) ∧ (code = 0 → status = .ok) := by
  cases status with
  | ok =>
      simp only [loginResult]
      rw [readU8_second, ok_bind]
      by_cases hmax : maxCharacters < ((reply.drop 1).headD 0).toNat
      · exact ⟨-1, [], 0, by rw [if_pos hmax]; rfl, by simp, by simp, by simp⟩
      · obtain ⟨hlen, hfits⟩ := orStray_fits enc stray ((reply.drop 1).headD 0).toNat ⟨reply, 2⟩
        exact ⟨0, _, _, by rw [if_neg hmax]; rfl, by omega, hfits, fun _ => trivial⟩
  | error =>
      simp only [loginResult]
      rw [readU8_second, ok_bind]
      by_cases hcode : 1 ≤ (reply.drop 1).headD 0 ∧ (reply.drop 1).headD 0 ≤ 6
      · refine ⟨((reply.drop 1).headD 0).toNat, [], 0, by rw [if_pos hcode]; rfl, by simp, by simp, fun h0 => ?_⟩
        have hpos := UInt8.le_iff_toNat_le.mp hcode.1
        rw [show (1 : UInt8).toNat = 1 from rfl] at hpos
        omega
      · exact ⟨-1, [], 0, by rw [if_neg hcode]; rfl, by simp, by simp, by simp⟩
  | failed | other code => exact ⟨-1, [], 0, rfl, by simp, by simp, by simp⟩

theorem loginAccount_outcome {σ : Type} (enc : ClientEncoding) (exchange : Exchange σ) (stray : StrayReply)
    (accountId : Int) (password ipAddress : List UInt8) (maxCharacters : Nat) (s : Session σ)
    (hp : password.length ≤ 64) (hi : ipAddress.length ≤ 64) {frame : List UInt8}
    {outcome : Option (Reply 4096) × σ} (hf : requestFrame (loginRequest enc accountId password ipAddress) = frame)
    (ho : exchange s.client frame 4096 = outcome) :
    ∃ code characters premiumDays,
      loginAccount enc exchange stray accountId password ipAddress maxCharacters s =
        .ok (code, characters, premiumDays, ⟨outcome.2, s.queries ++ [⟨frame, replyOf outcome⟩]⟩) ∧
      characters.length ≤ maxCharacters ∧ (∀ c ∈ characters, c.Fits) ∧
      (code = 0 → ∃ reply, replyOf outcome = some reply ∧ reply.head? = some 0) ∧
      (∀ reply, replyOf outcome = some reply →
        loginResult enc stray maxCharacters (.ofByte (reply.headD 0)) ⟨reply, 1⟩ =
          .ok (code, characters, premiumDays)) := by
  rw [loginAccount_eq enc exchange stray accountId password ipAddress maxCharacters s hp hi, hf, ho]
  obtain ⟨o, client⟩ := outcome
  cases o with
  | none => exact ⟨-1, [], 0, rfl, by simp, by simp, by simp, by simp [replyOf]⟩
  | some reply =>
      obtain ⟨code, characters, premiumDays, hr, hlen, hfits, hok⟩ :=
        loginResult_spec enc stray maxCharacters (.ofByte (reply.bytes.headD 0)) reply.bytes
      refine ⟨code, characters, premiumDays, ?_, hlen, hfits, fun h0 => ⟨reply.bytes, rfl, ?_⟩, ?_⟩
      · rw [received_some, ok_bind]
        simp only [hr, ok_bind]
        rfl
      · obtain ⟨b, rest, hb⟩ := List.exists_cons_of_ne_nil (List.ne_nil_of_length_pos reply.nonempty)
        have hz := ofByte_eq_ok.mp (hok h0)
        rw [hb] at hz ⊢
        rw [List.head?_cons, show b = 0 from hz]
      · intro bytes hb
        cases hb
        exact hr

end TibiaLogin.LoginQuery
