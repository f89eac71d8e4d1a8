import TibiaLogin.LoginResponse
import TibiaLogin.Text

namespace TibiaLogin.LoginHandler

open MachineInt Memory Text BufferReader Query LoginQuery LoginResponse

/-- The private key as the operation it is used for, in place and without padding. -/
structure RsaKey where
  decrypt : List UInt8 → Option (List UInt8)
  length_decrypt : ∀ {data plain}, decrypt data = some plain → plain.length = data.length

structure Credentials where
  email : List UInt8
  password : List UInt8
  deriving DecidableEq, Repr

structure Credentials.Fits (cred : Credentials) : Prop where
  email : cred.email.length = 51
  password : cred.password.length = 30

structure Stray extends StrayReply where
  credentials : Option Credentials
  credentials_fit : ∀ cred, credentials = some cred → cred.Fits

instance : Inhabited RsaKey := ⟨⟨some, fun h => by cases h; rfl⟩⟩

instance : Inhabited Stray :=
  ⟨{ character := fun _ => ⟨List.replicate 30 0, List.replicate 30 0, 0, 0⟩
     premiumDays := 0
     fits := fun _ => ⟨rfl, rfl⟩
     credentials := none
     credentials_fit := fun _ h => by cases h }⟩

def readRequest (c : Connection) : Except Fault (UInt16 × List UInt8 × BufferReader) := do
  let (_, r) ← readU8 ⟨c.buffer.take c.rwSize.toNat, 0⟩
  let (_, r) ← r.readU16
  let (terminalVersion, r) ← r.readU16
  let (_, r) ← r.readU32
  let (_, r) ← r.readU32
  let (_, r) ← r.readU32
  let (asymmetricData, r) ← r.readBytes (List.replicate 128 0) 128
  pure (terminalVersion, asymmetricData, r)

def readKey (data : List UInt8) : Except Fault (Xtea.Key × BufferReader) := do
  let (_, r) ← readU8 ⟨data, 0⟩
  let (k₀, r) ← r.readU32
  let (k₁, r) ← r.readU32
  let (k₂, r) ← r.readU32
  let (k₃, r) ← r.readU32
  pure (⟨k₀, k₁, k₂, k₃⟩, r)

def readCredentials (enc : ClientEncoding) (r : BufferReader) : Except Fault (Option Credentials) := do
  let (email, r) ← r.readString enc (List.replicate 51 0)
  let (password, r) ← r.readString enc (List.replicate 30 0)
  pure (if r.overflowed then none else some ⟨email, password⟩)

/-- The request up to the check of the asymmetric data: the terminal version
and the credentials, none where the connection is to be closed. -/
def decodeLogin (build : Build) (rsa : RsaKey) (stray : Stray) (c : Connection) :
    Except Fault (Connection × Option (UInt16 × Credentials)) :=
  if c.rwSize ≠ 145 then pure (c, none)
  else do
    let (terminalVersion, asymmetricData, r) ← readRequest c
    if r.overflowed then pure (c, none)
    else match rsa.decrypt asymmetricData with
      | none => pure (c, none)
      | some data =>
          if data.headD 0 ≠ 0 then pure (c, none)
          else do
            let (key, r) ← readKey data
            let credentials := orStray (readCredentials build.encoding r) stray.credentials
            pure ({ c with xtea := key }, credentials.map (terminalVersion, ·))

def octet (ipAddress : Int) (shift : Nat) : List UInt8 :=
  (Nat.toDigits 10 (ipAddress / 2 ^ shift % 256).toNat).map fun ch => UInt8.ofNat ch.toNat

def ipString (ipAddress : Int) : List UInt8 :=
  octet ipAddress 24 ++ [46] ++ octet ipAddress 16 ++ [46] ++ octet ipAddress 8 ++ [46] ++ octet ipAddress 0

def loginErrorMessage (loginCode : Int) : List UInt8 :=
  if loginCode = 1 ∨ loginCode = 2 then text "Email or password is not correct."
  else if loginCode = 3 then text "Account disabled for five minutes. Please wait."
  else if loginCode = 4 then text "IP address blocked for 30 minutes. Please wait."
  else if loginCode = 5 then text "Your account is banished."
  else if loginCode = 6 then text "Your IP address is banished."
  else text "Internal error, closing connection."

section

variable {σ : Type} (build : Build) (rsa : RsaKey) (randR : UInt32 → Int × UInt32) (exchange : Exchange σ)
  (config : ServerConfig) (stray : Stray)

def requestCharacters (cred : Credentials) (c : Connection) (s : Session σ) :
    Except Fault (Connection × Session σ) := do
  let (resolveCode, accountId, s) ← resolveEmail build.encoding exchange cred.email 0 s
  if resolveCode ≠ 0 then
    let c ← sendLoginError build.encoding randR (text "Email or password is not correct.") c
    pure (c, s)
  else
    let (loginCode, characters, premiumDays, s) ← loginAccount build.encoding exchange stray.toStrayReply
      accountId cred.password (ipString c.ipAddress) 50 s
    let c ←
      if loginCode = 0 then sendCharacterList build.encoding randR config characters premiumDays c
      else sendLoginError build.encoding randR (loginErrorMessage loginCode) c
    pure (c, s)

def processLoginRequest (c : Connection) (s : Session σ) : Except Fault (Connection × Session σ) := do
  let (c, decoded) ← decodeLogin build rsa stray c
  match decoded with
  | none => pure (closeConnection c, s)
  | some (terminalVersion, cred) =>
      if cred.email.headD 0 = 0 then
        let c ← sendLoginError build.encoding randR (text "You must enter an email address.") c
        pure (c, s)
      else if terminalVersion.toNat ≠ build.terminalVersion then
        let c ← sendLoginError build.encoding randR
          (text "Your terminal version is too old.\nPlease get a new version at\nhttp://www.tibia.com.") c
        pure (c, s)
      else requestCharacters build randR exchange config stray cred c s

end

/-- The credentials with which the query manager is asked, none where a request
is settled without it. -/
def queryCredentials (build : Build) (rsa : RsaKey) (stray : Stray) (c : Connection) : Option Credentials :=
  match decodeLogin build rsa stray c with
  | .ok (_, some (terminalVersion, cred)) =>
      if cred.email.headD 0 ≠ 0 ∧ terminalVersion.toNat = build.terminalVersion then some cred else none
  | _ => none

def loginPacket (enc : ClientEncoding) (config : ServerConfig) (loginCode : Int)
    (characters : List CharacterLoginData) (premiumDays : Int) : List UInt8 :=
  if loginCode = 0 then motdPacket enc config.motd ++ listPacket enc characters premiumDays
  else errorPacket enc (loginErrorMessage loginCode)

def asymmetricBlock (c : Connection) : List UInt8 := (c.buffer.drop 17).take 128

def terminalVersionOf (c : Connection) : UInt16 := ByteOrder.readU16Le (((c.buffer.take 145).drop 3).take 2)

def keyOf (data : List UInt8) : Xtea.Key :=
  ⟨ByteOrder.readU32Le ((data.drop 1).take 4), ByteOrder.readU32Le ((data.drop 5).take 4),
    ByteOrder.readU32Le ((data.drop 9).take 4), ByteOrder.readU32Le ((data.drop 13).take 4)⟩

theorem readRequest_eq {c : Connection} (hb : c.buffer.length = 2048) (hsize : c.rwSize = 145) :
    readRequest c = .ok (terminalVersionOf c, asymmetricBlock c, ⟨c.buffer.take 145, 145⟩) := by
  have hlen : (c.buffer.take 145).length = 145 := by
    rw [List.length_take]
    omega
  have h₁ : readU8 ⟨c.buffer.take 145, 0⟩ = .ok (_, ⟨c.buffer.take 145, 1⟩) :=
    readScalar_inside _ (p := 0) (w := 1) (by omega) (by omega)
  have h₂ : readU16 ⟨c.buffer.take 145, 1⟩ = .ok (_, ⟨c.buffer.take 145, 3⟩) :=
    readScalar_inside _ (p := 1) (w := 2) (by omega) (by omega)
  have h₃ : readU16 ⟨c.buffer.take 145, 3⟩ = .ok (terminalVersionOf c, ⟨c.buffer.take 145, 5⟩) :=
    readScalar_inside _ (p := 3) (w := 2) (by omega) (by omega)
  have h₄ : readU32 ⟨c.buffer.take 145, 5⟩ = .ok (_, ⟨c.buffer.take 145, 9⟩) :=
    readScalar_inside _ (p := 5) (w := 4) (by omega) (by omega)
  have h₅ : readU32 ⟨c.buffer.take 145, 9⟩ = .ok (_, ⟨c.buffer.take 145, 13⟩) :=
    readScalar_inside _ (p := 9) (w := 4) (by omega) (by omega)
  have h₆ : readU32 ⟨c.buffer.take 145, 13⟩ = .ok (_, ⟨c.buffer.take 145, 17⟩) :=
    readScalar_inside _ (p := 13) (w := 4) (by omega) (by omega)
  have h₇ : readBytes (List.replicate 128 0) 128 ⟨c.buffer.take 145, 17⟩ =
      .ok (asymmetricBlock c, ⟨c.buffer.take 145, 145⟩) := by
    refine (readBytes_eq (List.replicate 128 0) (c.buffer.take 145) (p := 17) (n := 128) (by simp) (by omega)).trans ?_
    rw [if_pos (by omega), overwrite_all (by simp [hb]), List.drop_take, List.take_take]
    rfl
  rw [readRequest, hsize, show (145 : Int).toNat = 145 from rfl, h₁, ok_bind]
  simp only [h₂, h₃, h₄, h₅, h₆, h₇, ok_bind]
  rfl

theorem readKey_eq {data : List UInt8} (hlen : data.length = 128) : readKey data = .ok (keyOf data, ⟨data, 17⟩) := by
  have h₁ : readU8 ⟨data, 0⟩ = .ok (_, ⟨data, 1⟩) := readScalar_inside _ (p := 0) (w := 1) (by omega) (by omega)
  have h₂ : readU32 ⟨data, 1⟩ = .ok ((keyOf data).k₀, ⟨data, 5⟩) :=
    readScalar_inside _ (p := 1) (w := 4) (by omega) (by omega)
  have h₃ : readU32 ⟨data, 5⟩ = .ok ((keyOf data).k₁, ⟨data, 9⟩) :=
    readScalar_inside _ (p := 5) (w := 4) (by omega) (by omega)
  have h₄ : readU32 ⟨data, 9⟩ = .ok ((keyOf data).k₂, ⟨data, 13⟩) :=
    readScalar_inside _ (p := 9) (w := 4) (by omega) (by omega)
  have h₅ : readU32 ⟨data, 13⟩ = .ok ((keyOf data).k₃, ⟨data, 17⟩) :=
    readScalar_inside _ (p := 13) (w := 4) (by omega) (by omega)
  rw [readKey, h₁, ok_bind]
  simp only [h₂, h₃, h₄, h₅, ok_bind]
  rfl

/-- A request of the right size with a decrypted block that starts with zero is
decided by the credentials in that block. -/
theorem decodeLogin_block {build : Build} {rsa : RsaKey} (stray : Stray) {c : Connection} {data : List UInt8}
    (hb : c.buffer.length = 2048) (hsize : c.rwSize = 145) (hd : rsa.decrypt (asymmetricBlock c) = some data)
    (hz : data.headD 0 = 0) :
    decodeLogin build rsa stray c =
      .ok ({ c with xtea := keyOf data },
        (orStray (readCredentials build.encoding ⟨data, 17⟩) stray.credentials).map (terminalVersionOf c, ·)) := by
  have hlen : data.length = 128 := by
    rw [rsa.length_decrypt hd, asymmetricBlock, List.length_take, List.length_drop]
    omega
  have ho : overflowed ⟨c.buffer.take 145, 145⟩ = false := by
    simp [overflowed, BufferReader.size, hb]
  rw [decodeLogin, if_neg (not_not.mpr hsize), readRequest_eq hb hsize, ok_bind]
  simp only [ho, hd, readKey_eq hlen]
  rw [if_neg (by simp), if_neg (not_not.mpr hz), ok_bind]
  rfl

theorem decodeLogin_refused {build : Build} {rsa : RsaKey} (stray : Stray) {c : Connection}
    (hb : c.buffer.length = 2048)
    (h : ∀ data, c.rwSize = 145 → rsa.decrypt (asymmetricBlock c) = some data → data.headD 0 ≠ 0) :
    decodeLogin build rsa stray c = .ok (c, none) := by
  rw [decodeLogin]
  by_cases hsize : c.rwSize = 145
  · have ho : overflowed ⟨c.buffer.take 145, 145⟩ = false := by
      simp [overflowed, BufferReader.size, hb]
    rw [if_neg (not_not.mpr hsize), readRequest_eq hb hsize, ok_bind]
    simp only [ho]
    rw [if_neg (by simp)]
    cases hd : rsa.decrypt (asymmetricBlock c) with
    | none => rfl
    | some data =>
        simp only
        rw [if_pos (h data hsize hd)]
        rfl
  · rw [if_pos hsize]
    rfl

theorem readCredentials_fits {enc : ClientEncoding} {r : BufferReader} {cred : Credentials}
    (h : readCredentials enc r = .ok (some cred)) : cred.Fits := by
  obtain ⟨⟨email, r₁⟩, he, h⟩ := bind_eq_ok.mp h
  obtain ⟨⟨password, r₂⟩, hp, h⟩ := bind_eq_ok.mp h
  simp only [pure, Except.pure, Except.ok.injEq] at h
  split_ifs at h
  cases h
  exact ⟨length_of_readString he, length_of_readString hp⟩

theorem decodeLogin_spec (build : Build) (rsa : RsaKey) (stray : Stray) {c : Connection}
    (hb : c.buffer.length = 2048) :
    ∃ key decoded, decodeLogin build rsa stray c = .ok ({ c with xtea := key }, decoded) ∧
      ∀ version cred, decoded = some (version, cred) →
        cred.Fits ∧ ∃ data, rsa.decrypt (asymmetricBlock c) = some data ∧ key = keyOf data := by
  by_cases h : ∀ data, c.rwSize = 145 → rsa.decrypt (asymmetricBlock c) = some data → data.headD 0 ≠ 0
  · exact ⟨c.xtea, none, decodeLogin_refused stray hb h, by simp⟩
  · simp only [not_forall, not_not] at h
    obtain ⟨data, hsize, hd, hz⟩ := h
    refine ⟨keyOf data, _, decodeLogin_block stray hb hsize hd hz, fun version cred he => ?_⟩
    obtain ⟨cred', hc, he⟩ := Option.map_eq_some_iff.mp he
    cases he
    refine ⟨?_, data, hd, rfl⟩
    cases hr : readCredentials build.encoding ⟨data, 17⟩ with
    | error e =>
        rw [hr] at hc
        exact stray.credentials_fit cred hc
    | ok o =>
        rw [hr] at hc
        cases show o = some cred from hc
        exact readCredentials_fits hr

theorem length_octet_le (ipAddress : Int) (shift : Nat) : (octet ipAddress shift).length ≤ 3 := by
  rw [octet, List.length_map, Nat.length_toDigits_le_iff (by omega) (by omega)]
  omega

theorem length_ipString_le (ipAddress : Int) : (ipString ipAddress).length ≤ 15 := by
  have h₁ := length_octet_le ipAddress 24
  have h₂ := length_octet_le ipAddress 16
  have h₃ := length_octet_le ipAddress 8
  have h₄ := length_octet_le ipAddress 0
  simp only [ipString, List.length_append, List.length_cons, List.length_nil]
  omega

theorem length_loginErrorMessage_le (loginCode : Int) : (loginErrorMessage loginCode).length ≤ 1024 := by
  rw [loginErrorMessage]
  split_ifs <;> decide

section

variable {σ : Type} (build : Build) (randR : UInt32 → Int × UInt32) (exchange : Exchange σ)
  (config : ServerConfig) (stray : Stray) {cred : Credentials} (hcred : cred.Fits) {c : Connection}
  (hs : c.state = .processing) (hb : c.buffer.length = 2048) (s : Session σ)

include hcred hs hb

theorem requestCharacters_refused {frame : List UInt8} {outcome : Option (Reply 1024) × σ}
    (hf : requestFrame (resolveRequest build.encoding cred.email) = frame)
    (ho : exchange s.client frame 1024 = outcome) (hcode : (resolveOutcome (replyOf outcome)).1 ≠ 0) :
    ∃ c', requestCharacters build randR exchange config stray cred c s =
        .ok (c', ⟨outcome.2, s.queries ++ [⟨frame, replyOf outcome⟩]⟩) ∧
      Replied randR (errorPacket build.encoding (text "Email or password is not correct.")) c c' := by
  have he := hcred.email
  obtain ⟨c', hc', ha⟩ := sendLoginError_replied build.encoding randR (text "Email or password is not correct.")
    hs hb (by decide)
  refine ⟨c', ?_, ha⟩
  rw [requestCharacters, resolveEmail_outcome build.encoding exchange cred.email s (by omega) hf ho, ok_bind]
  simp only [hc']
  rw [if_pos hcode]
  rfl

theorem requestCharacters_granted {frame frame' : List UInt8} {outcome : Option (Reply 1024) × σ}
    {outcome' : Option (Reply 4096) × σ} (hf : requestFrame (resolveRequest build.encoding cred.email) = frame)
    (ho : exchange s.client frame 1024 = outcome) (hcode : (resolveOutcome (replyOf outcome)).1 = 0)
    (hf' : requestFrame (loginRequest build.encoding (resolveOutcome (replyOf outcome)).2 cred.password
      (ipString c.ipAddress)) = frame')
    (ho' : exchange outcome.2 frame' 4096 = outcome') :
    ∃ c' code characters premiumDays, requestCharacters build randR exchange config stray cred c s =
        .ok (c', ⟨outcome'.2, s.queries ++ [⟨frame, replyOf outcome⟩] ++ [⟨frame', replyOf outcome'⟩]⟩) ∧
      Replied randR (loginPacket build.encoding config code characters premiumDays) c c' ∧
      (code = 0 → ∃ reply, replyOf outcome' = some reply ∧ reply.head? = some 0) ∧
      (∀ reply, replyOf outcome' = some reply →
        loginResult build.encoding stray.toStrayReply 50 (.ofByte (reply.headD 0)) ⟨reply, 1⟩ =
          .ok (code, characters, premiumDays)) := by
  have he := hcred.email
  have hp := hcred.password
  have hi := length_ipString_le c.ipAddress
  obtain ⟨code, characters, premiumDays, hl, hlen, hfits, hok, hresult⟩ := loginAccount_outcome build.encoding exchange
    stray.toStrayReply (resolveOutcome (replyOf outcome)).2 cred.password (ipString c.ipAddress) 50
    ⟨outcome.2, s.queries ++ [⟨frame, replyOf outcome⟩]⟩ (by omega) (by omega) hf' ho'
  rw [requestCharacters, resolveEmail_outcome build.encoding exchange cred.email s (by omega) hf ho, ok_bind]
  simp only
  rw [if_neg (not_not.mpr hcode), hl, ok_bind]
  by_cases h0 : code = 0
  · obtain ⟨c', hc', ha⟩ := sendCharacterList_replied build.encoding randR config premiumDays hs hb hlen hfits
    refine ⟨c', code, characters, premiumDays, ?_, by rw [loginPacket, if_pos h0]; exact ha, hok, hresult⟩
    simp only [h0, if_true]
    rw [hc', ok_bind]
    rfl
  · obtain ⟨c', hc', ha⟩ := sendLoginError_replied build.encoding randR (loginErrorMessage code) hs hb
      (length_loginErrorMessage_le code)
    refine ⟨c', code, characters, premiumDays, ?_, by rw [loginPacket, if_neg h0]; exact ha, hok, hresult⟩
    simp only [h0, if_false]
    rw [hc', ok_bind]
    rfl

end

section

variable {σ : Type} (build : Build) (rsa : RsaKey) (randR : UInt32 → Int × UInt32) (exchange : Exchange σ)
  (config : ServerConfig) (stray : Stray) {c : Connection} (hb : c.buffer.length = 2048) (s : Session σ)

include hb

theorem processLoginRequest_asked {cred : Credentials} (hq : queryCredentials build rsa stray c = some cred) :
    ∃ data, cred.Fits ∧ rsa.decrypt (asymmetricBlock c) = some data ∧
      processLoginRequest build rsa randR exchange config stray c s =
        requestCharacters build randR exchange config stray cred { c with xtea := keyOf data } s := by
  obtain ⟨key, decoded, hd, hfits⟩ := decodeLogin_spec build rsa stray hb
  rw [queryCredentials, hd] at hq
  cases decoded with
  | none => cases hq
  | some login =>
      obtain ⟨version, cred'⟩ := login
      simp only at hq
      split_ifs at hq with h
      cases hq
      obtain ⟨hf, data, hdata, rfl⟩ := hfits version cred rfl
      refine ⟨data, hf, hdata, ?_⟩
      rw [processLoginRequest, hd, ok_bind]
      simp only
      rw [if_neg h.1, if_neg (not_not.mpr h.2)]

theorem processLoginRequest_settled (hs : c.state = .processing)
    (hq : queryCredentials build rsa stray c = none) :
    ∃ key c', processLoginRequest build rsa randR exchange config stray c s = .ok (c', s) ∧
      (c' = closeConnection { c with xtea := key } ∨
        ∃ message, Replied randR (errorPacket build.encoding message) { c with xtea := key } c') := by
  obtain ⟨key, decoded, hd, -⟩ := decodeLogin_spec build rsa stray hb
  rw [queryCredentials, hd] at hq
  refine ⟨key, ?_⟩
  rw [processLoginRequest, hd, ok_bind]
  cases decoded with
  | none => exact ⟨_, rfl, Or.inl rfl⟩
  | some login =>
      obtain ⟨version, cred⟩ := login
      simp only at hq ⊢
      by_cases he : cred.email.headD 0 = 0
      · obtain ⟨c', hc', ha⟩ := sendLoginError_replied build.encoding randR
          (text "You must enter an email address.") (c := { c with xtea := key }) hs hb (by decide)
        refine ⟨c', ?_, Or.inr ⟨_, ha⟩⟩
        rw [if_pos he, hc']
        rfl
      · by_cases hv : version.toNat = build.terminalVersion
        · rw [if_pos ⟨he, hv⟩] at hq
          cases hq
        · obtain ⟨c', hc', ha⟩ := sendLoginError_replied build.encoding randR
            (text "Your terminal version is too old.\nPlease get a new version at\nhttp://www.tibia.com.")
            (c := { c with xtea := key }) hs hb (by decide)
          refine ⟨c', ?_, Or.inr ⟨_, ha⟩⟩
          rw [if_neg he, if_pos hv, hc']
          rfl

end

def answering (reply : List UInt8) : Exchange Unit := fun _ _ capacity =>
  if h : 0 < reply.length ∧ reply.length ≤ capacity then (some ⟨reply, h.1, h.2⟩, ()) else (none, ())

def scripted : Exchange (List (List UInt8))
  | [], _, _ => (none, [])
  | reply :: replies, _, capacity =>
      if h : 0 < reply.length ∧ reply.length ≤ capacity then (some ⟨reply, h.1, h.2⟩, replies) else (none, replies)

/-- A login request with the given strings, in a block that is its own plain form. -/
def plainLogin (strings : List UInt8) : Connection :=
  { Connection.zeroed with
    state := .processing
    socket := 5
    rwSize := 145
    buffer := [1, 0, 0, 2, 3] ++ List.replicate 29 0 ++ strings ++ List.replicate (2014 - strings.length) 0 }

theorem length_plainLogin (strings : List UInt8) (h : strings.length ≤ 2014) :
    (plainLogin strings).buffer.length = 2048 := by
  simp only [plainLogin, List.length_append, List.length_replicate, List.length_cons, List.length_nil]
  omega

end TibiaLogin.LoginHandler
