import Mathlib.Data.List.Forall2
import TibiaLogin.AddressText
import TibiaLogin.ClientReader
import TibiaLogin.CredentialFlow
import TibiaLogin.WireValues

namespace TibiaLogin.AccountService

open MachineInt Memory Text ByteOrder Latin1 BufferReader BufferWriter Xtea Wire Query LoginQuery LoginResponse
  LoginHandler LoginOutcome CharacterList Authorisation CredentialFlow AddressText ClientReader

/-- What the owner of the accounts says to a login. -/
inductive Verdict
  | granted (characters : List Character) (premiumDays : UInt16)
  | refused (code : UInt8)
  deriving DecidableEq, Repr

/-- What the query manager knows: the account of an email address, and what
comes of a password for it from the address of a peer. -/
structure Accounts where
  resolve : List UInt8 → Option UInt32
  verdict : UInt32 → List UInt8 → List UInt8 → Verdict
  listable : ∀ {accountId password address characters premiumDays},
    verdict accountId password address = .granted characters premiumDays →
      characters.length ≤ 50 ∧ ∀ ch ∈ characters, ch.Storable

def resolveReply : Option UInt32 → List UInt8
  | some accountId => 0 :: writeU32Le accountId
  | none => [1, 1]

def Verdict.reply : Verdict → List UInt8
  | .granted characters premiumDays =>
      0 :: UInt8.ofNat characters.length :: (characters.flatMap entryBytes ++ writeU16Le premiumDays)
  | .refused code => [1, code]

def Verdict.result : Verdict → Int × List CharacterLoginData × Int
  | .granted characters premiumDays => (0, characters.map stored, premiumDays.toNat)
  | .refused code => (if 1 ≤ code ∧ code ≤ 6 then code.toNat else -1, [], 0)

def Verdict.answer (motd : List UInt8) : Verdict → Answer
  | .granted characters premiumDays => .list ⟨motdView motd, characters, premiumDays⟩
  | .refused code => .error (loginErrorMessage (if 1 ≤ code ∧ code ≤ 6 then code.toNat else -1))

def Accounts.reply (accounts : Accounts) (frame : List UInt8) : Option (List UInt8) :=
  if frame[2]? = some QueryType.resolveEmail.code then do
    let email ← sentEmail frame
    some (resolveReply (accounts.resolve email))
  else if frame[2]? = some QueryType.loginAccount.code then do
    let password ← sentPassword frame
    let address ← sentAddress frame
    some (accounts.verdict (readU32Le ((frame.drop 3).take 4)) password address).reply
  else none

/-- A query manager with these accounts behind an exchange that can fail. -/
structure Serves {σ : Type} (accounts : Accounts) (exchange : Exchange σ) (P : σ → Prop) : Prop where
  faithful : ∀ {client body capacity reply answer}, P client → body ≠ [] →
    (exchange client (requestFrame body) capacity).1 = some reply →
    accounts.reply (requestFrame body) = some answer → reply.bytes = answer
  keeps : ∀ {client body}, P client → body ≠ [] → ∀ capacity, P (exchange client (requestFrame body) capacity).2

/-- Every response that the accounts have for a request comes back. -/
def Reliable {σ : Type} (accounts : Accounts) (exchange : Exchange σ) (P : σ → Prop) : Prop :=
  ∀ {client body answer}, P client → accounts.reply (requestFrame body) = some answer → ∀ capacity,
    answer.length ≤ capacity → (exchange client (requestFrame body) capacity).1 ≠ none

def Accounts.exchange (accounts : Accounts) : Exchange Unit := fun _ frame capacity =>
  match accounts.reply frame with
  | none => (none, ())
  | some answer =>
      if hpos : 0 < answer.length then
        if hroom : answer.length ≤ capacity then (some ⟨answer, hpos, hroom⟩, ()) else (none, ())
      else (none, ())

/-- A public key that undoes the private one on blocks below the modulus. -/
structure PublicKey (rsa : RsaKey) where
  encrypt : List UInt8 → List UInt8
  length_encrypt : ∀ {block}, block.length = 128 → (encrypt block).length = 128
  decrypt_encrypt : ∀ {block}, block.length = 128 → block.headD 0 = 0 → rsa.decrypt (encrypt block) = some block

/-- What a client fills in to log in, with strings that the fields of the server hold. -/
structure LoginForm where
  terminalType : UInt16
  terminalVersion : UInt16
  signatures : List UInt8
  key : Key
  email : List UInt8
  password : List UInt8
  fill : List UInt8
  signed : signatures.length = 12
  email_text : 0 ∉ email
  password_text : 0 ∉ password
  email_fits : (encodeLatin1 email).length ≤ 50
  password_fits : (encodeLatin1 password).length ≤ 29
  filled : 21 + email.length + password.length + fill.length = 128

def keyBytes (key : Key) : List UInt8 :=
  writeU32Le key.k₀ ++ (writeU32Le key.k₁ ++ (writeU32Le key.k₂ ++ writeU32Le key.k₃))

def LoginForm.block (form : LoginForm) : List UInt8 :=
  0 :: (keyBytes form.key ++ (stringBytes form.email ++ (stringBytes form.password ++ form.fill)))

def LoginForm.request (form : LoginForm) {rsa : RsaKey} (publicKey : PublicKey rsa) : List UInt8 :=
  1 :: (writeU16Le form.terminalType ++ (writeU16Le form.terminalVersion ++
    (form.signatures ++ publicKey.encrypt form.block)))

/-- The connection holds the request of a form. -/
structure Holding {rsa : RsaKey} (publicKey : PublicKey rsa) (form : LoginForm) (c : Connection) : Prop where
  sized : c.buffer.length = 2048
  processing : c.state = .processing
  size_eq : c.rwSize = 145
  content : c.buffer.take 145 = form.request publicKey

def Accounts.login (accounts : Accounts) (motd : List UInt8) (form : LoginForm) (address : List UInt8) : Answer :=
  match accounts.resolve form.email with
  | none => .error (text "Email or password is not correct.")
  | some accountId => (accounts.verdict accountId form.password address).answer motd

def Accounts.answer (accounts : Accounts) (build : Build) (motd : List UInt8) (form : LoginForm)
    (address : List UInt8) : Answer :=
  if form.email = [] then .error (text "You must enter an email address.")
  else if form.terminalVersion.toNat ≠ build.terminalVersion then
    .error (text "Your terminal version is too old.\nPlease get a new version at\nhttp://www.tibia.com.")
  else accounts.login motd form address

def LoginForm.credentials (form : LoginForm) : Credentials :=
  ⟨field .latin1 51 (some form.email), field .latin1 30 (some form.password)⟩

/-- Among some queries one of the login has no response, and the answer is the
message that stands for it. -/
def LoginForm.Unanswered (form : LoginForm) (address : List UInt8) (queries : List Executed) (answer : Answer) : Prop :=
  ∃ q ∈ queries, q.reply = none ∧
    ((q.request = requestFrame (resolveRequest .latin1 form.credentials.email) ∧
        answer = .error (text "Email or password is not correct.")) ∨
      ((∃ accountId, q.request = requestFrame (loginRequest .latin1 accountId form.credentials.password address)) ∧
        answer = .error (text "Internal error, closing connection.")))

/-- The answer is that of the accounts, or one of these queries has failed, as
only an unreliable exchange lets it. -/
def Expected {σ : Type} (accounts : Accounts) (exchange : Exchange σ) (P : σ → Prop) (build : Build)
    (motd : List UInt8) (form : LoginForm) (address : List UInt8) (queries : List Executed) (answer : Answer) : Prop :=
  answer = accounts.answer build motd form address ∨
    (form.Unanswered address queries answer ∧ ¬Reliable accounts exchange P)

theorem Expected.mono {σ : Type} {accounts : Accounts} {exchange : Exchange σ} {P : σ → Prop} {build : Build}
    {motd : List UInt8} {form : LoginForm} {address : List UInt8} {queries queries' : List Executed} {answer : Answer}
    (h : Expected accounts exchange P build motd form address queries answer) (hsub : queries ⊆ queries') :
    Expected accounts exchange P build motd form address queries' answer := by
  refine h.imp_right fun hfailed => ⟨?_, hfailed.2⟩
  obtain ⟨q, hq, hnone, hmessage⟩ := hfailed.1
  exact ⟨q, hsub hq, hnone, hmessage⟩

theorem reply_nonempty {accounts : Accounts} {frame answer : List UInt8} (h : accounts.reply frame = some answer) :
    0 < answer.length := by
  rw [Accounts.reply] at h
  split_ifs at h
  · obtain ⟨email, -, h⟩ := Option.bind_eq_some_iff.mp h
    cases h
    cases accounts.resolve email <;> simp [resolveReply]
  · obtain ⟨password, -, h⟩ := Option.bind_eq_some_iff.mp h
    obtain ⟨address, -, h⟩ := Option.bind_eq_some_iff.mp h
    cases h
    cases accounts.verdict _ password address <;> simp [Verdict.reply]

theorem serves_exchange (accounts : Accounts) : Serves accounts accounts.exchange fun _ => True where
  faithful := by
    intro client body capacity reply answer _ _ hreply hanswer
    simp only [Accounts.exchange, hanswer] at hreply
    split_ifs at hreply
    cases hreply
    rfl
  keeps _ _ _ := trivial

theorem length_stringBytes_short {text : List UInt8} (h : text.length < 0xFFFF) :
    (stringBytes text).length = 2 + text.length := by
  rw [stringBytes, lengthField, if_pos h, List.length_append, length_writeU16Le]

section

variable (form : LoginForm)

theorem LoginForm.email_short : form.email.length ≤ 50 :=
  (length_le_length_encodeLatin1 form.email).trans form.email_fits

theorem LoginForm.password_short : form.password.length ≤ 29 :=
  (length_le_length_encodeLatin1 form.password).trans form.password_fits

theorem length_keyBytes (key : Key) : (keyBytes key).length = 16 := rfl

theorem LoginForm.length_block : form.block.length = 128 := by
  have he := form.email_short
  have hp := form.password_short
  have hf := form.filled
  simp only [LoginForm.block, List.length_cons, List.length_append, length_keyBytes]
  rw [length_stringBytes_short (by omega), length_stringBytes_short (by omega)]
  omega

theorem keyOf_block : keyOf form.block = form.key := by
  have h₀ := readU32Le_writeU32Le form.key.k₀ []
  have h₁ := readU32Le_writeU32Le form.key.k₁ []
  have h₂ := readU32Le_writeU32Le form.key.k₂ []
  have h₃ := readU32Le_writeU32Le form.key.k₃ []
  rw [List.append_nil] at h₀ h₁ h₂ h₃
  calc keyOf form.block = ⟨readU32Le (writeU32Le form.key.k₀), readU32Le (writeU32Le form.key.k₁),
        readU32Le (writeU32Le form.key.k₂), readU32Le (writeU32Le form.key.k₃)⟩ := rfl
    _ = form.key := by rw [h₀, h₁, h₂, h₃]

theorem length_field (enc : ClientEncoding) (capacity : Nat) (text : Option (List UInt8)) :
    (field enc capacity text).length = capacity := by
  simp only [field]
  split_ifs with h
  · rw [List.length_append, List.length_replicate]
    exact Nat.add_sub_of_le h.le
  · exact List.length_replicate

theorem LoginForm.credentials_fits : form.credentials.Fits := ⟨length_field .latin1 51 _, length_field .latin1 30 _⟩

theorem LoginForm.outgoing_email : outgoing .latin1 form.credentials.email = form.email :=
  outgoing_field_latin1 form.email_text (Nat.lt_succ_of_le form.email_fits)

theorem LoginForm.outgoing_password : outgoing .latin1 form.credentials.password = form.password :=
  outgoing_field_latin1 form.password_text (Nat.lt_succ_of_le form.password_fits)

theorem LoginForm.email_empty : form.credentials.email.headD 0 = 0 ↔ form.email = [] := by
  rw [← cString_eq_nil]
  constructor
  · intro h
    rw [← form.outgoing_email, outgoing, h]
    rfl
  · intro h
    rw [LoginForm.credentials, h]
    rfl

theorem LoginForm.readCredentials_block :
    readCredentials .latin1 ⟨form.block, 17⟩ = .ok (some form.credentials) := by
  have he := form.email_short
  have hp := form.password_short
  have hdrop : form.block.drop 17 = stringBytes form.email ++ (stringBytes form.password ++ form.fill) := rfl
  exact CredentialFlow.readCredentials_block form.length_block hdrop (WireValues.wireString_stringBytes (by omega))
    (WireValues.wireString_stringBytes (by omega))

variable {form} {rsa : RsaKey} {publicKey : PublicKey rsa} {c : Connection} (h : Holding publicKey form c)

include h

theorem Holding.content_eq : c.buffer.take 145 =
    (1 :: (writeU16Le form.terminalType ++ (writeU16Le form.terminalVersion ++ form.signatures))) ++
      publicKey.encrypt form.block := by
  rw [h.content, LoginForm.request]
  simp only [List.cons_append, List.append_assoc]

theorem Holding.asymmetricBlock_eq : asymmetricBlock c = publicKey.encrypt form.block := by
  have hlen := publicKey.length_encrypt form.length_block
  have hhead : (1 :: (writeU16Le form.terminalType ++ (writeU16Le form.terminalVersion ++ form.signatures))).length =
      17 := by
    simp only [List.length_cons, List.length_append, length_writeU16Le, form.signed]
  have hsame : asymmetricBlock c = (c.buffer.take 145).drop 17 := by
    rw [asymmetricBlock, List.drop_take]
  rw [hsame, h.content_eq, List.drop_left' hhead]

theorem Holding.terminalVersion_eq : terminalVersionOf c = form.terminalVersion := by
  have hround := readU16Le_writeU16Le form.terminalVersion []
  rw [List.append_nil] at hround
  rw [terminalVersionOf, h.content, LoginForm.request]
  exact hround

theorem Holding.decodeLogin_eq {build : Build} (henc : build.encoding = .latin1) (stray : Stray) :
    decodeLogin build rsa stray c =
      .ok ({ c with xtea := form.key }, some (form.terminalVersion, form.credentials)) := by
  have hd : rsa.decrypt (asymmetricBlock c) = some form.block := by
    rw [h.asymmetricBlock_eq]
    exact publicKey.decrypt_encrypt form.length_block rfl
  rw [decodeLogin_block stray h.sized h.size_eq hd rfl, henc, form.readCredentials_block, keyOf_block,
    h.terminalVersion_eq]
  rfl

end

/-- ASCII text without a terminator is the same in both encodings. -/
def Ascii (message : List UInt8) : Prop := ∀ ch ∈ message, 0 < ch.toNat ∧ ch.toNat < 128

instance (message : List UInt8) : Decidable (Ascii message) := List.decidableBAll _ message

theorem outgoing_ipString (enc : ClientEncoding) (ipAddress : Int) :
    outgoing enc (ipString ipAddress) = ipString ipAddress := by
  refine outgoing_ascii enc fun ch hch => ?_
  have hdigits : ∀ shift, ch ∈ octet ipAddress shift → 48 ≤ ch ∧ ch ≤ 57 := fun shift hmem =>
    digits_decimal (ipAddress / 2 ^ shift % 256).toNat ch hmem
  have hch' : ch = 46 ∨ 48 ≤ ch ∧ ch ≤ 57 := by
    simp only [ipString, List.mem_append, List.mem_singleton] at hch
    rcases hch with (((((hch | hch) | hch) | hch) | hch) | hch) | hch
    · exact Or.inr (hdigits 24 hch)
    · exact Or.inl hch
    · exact Or.inr (hdigits 16 hch)
    · exact Or.inl hch
    · exact Or.inr (hdigits 8 hch)
    · exact Or.inl hch
    · exact Or.inr (hdigits 0 hch)
  rcases hch' with rfl | ⟨hlo, hhi⟩
  · decide
  · rw [UInt8.le_iff_toNat_le] at hlo hhi
    exact ⟨Nat.lt_of_lt_of_le (by decide) hlo, Nat.lt_of_le_of_lt hhi (by decide)⟩

section

variable (accounts : Accounts) (form : LoginForm)

theorem reply_resolveRequest :
    accounts.reply (requestFrame (resolveRequest .latin1 form.credentials.email)) =
      some (resolveReply (accounts.resolve form.email)) := by
  have he := form.credentials_fits.email
  obtain ⟨a, b, hf⟩ := requestFrame_short (length_resolveRequest_lt .latin1 form.credentials.email (by omega))
  have hcode : (requestFrame (resolveRequest .latin1 form.credentials.email))[2]? = some QueryType.resolveEmail.code := by
    rw [hf]
    rfl
  rw [Accounts.reply, if_pos hcode, sentEmail_frame .latin1 (by omega), form.outgoing_email]
  rfl

theorem reply_loginRequest (accountId : UInt32) (ipAddress : Int) :
    accounts.reply (requestFrame (loginRequest .latin1 (wrap32 accountId.toNat) form.credentials.password
      (ipString ipAddress))) = some (accounts.verdict accountId form.password (ipString ipAddress)).reply := by
  have hp := form.credentials_fits.password
  have hi := length_ipString_le ipAddress
  obtain ⟨a, b, hf⟩ := requestFrame_short (length_loginRequest_lt .latin1 (wrap32 accountId.toNat)
    form.credentials.password (ipString ipAddress) (by omega) (by omega))
  have hround := readU32Le_writeU32Le accountId []
  rw [List.append_nil] at hround
  have hid : readU32Le (((requestFrame (loginRequest .latin1 (wrap32 accountId.toNat) form.credentials.password
      (ipString ipAddress))).drop 3).take 4) = accountId := by
    rw [hf, loginRequest, toU32_wrap32]
    exact hround
  have hcode : (requestFrame (loginRequest .latin1 (wrap32 accountId.toNat) form.credentials.password
      (ipString ipAddress)))[2]? = some QueryType.loginAccount.code := by
    rw [hf]
    rfl
  rw [Accounts.reply, if_neg (by rw [hcode]; decide), if_pos hcode, sentPassword_frame .latin1 _ (by omega) (by omega),
    sentAddress_frame .latin1 _ (by omega) (by omega), hid, form.outgoing_password, outgoing_ipString]
  rfl

end

theorem entries_stored {characters : List Character} (h : ∀ ch ∈ characters, ch.Storable) :
    (characters.map stored).flatMap (characterEntry .latin1) = characters.flatMap entryBytes := by
  rw [List.flatMap_map]
  exact List.flatMap_congr fun ch hch => characterEntry_stored (h ch hch)

theorem length_verdictReply {characters : List Character} {premiumDays : UInt16} (hcount : characters.length ≤ 50)
    (h : ∀ ch ∈ characters, ch.Storable) : (Verdict.granted characters premiumDays).reply.length ≤ 4096 := by
  have hfits : ∀ c ∈ characters.map stored, c.Fits := by
    intro c hc
    obtain ⟨ch, -, rfl⟩ := List.mem_map.mp hc
    exact ⟨length_field .latin1 30 _, length_field .latin1 30 _⟩
  have hle := length_entries_le .latin1 hfits
  rw [entries_stored h, List.length_map] at hle
  simp only [Verdict.reply, List.length_cons, List.length_append, length_writeU16Le]
  omega

theorem loginErrorMessage_ascii (loginCode : Int) : Ascii (loginErrorMessage loginCode) := by
  rw [loginErrorMessage]
  split_ifs <;> decide

theorem errorPacket_bytes (enc : ClientEncoding) {message : List UInt8} (h : Ascii message) :
    errorPacket enc message = (Answer.error message).bytes := by
  rw [errorPacket, outgoing_ascii enc h, Answer.bytes]

theorem motdPacket_bytes (motd : List UInt8) : motdPacket .latin1 motd = motdBytes (motdView motd) := by
  rw [motdPacket, motdView]
  split_ifs
  · rfl
  · rfl

theorem listPacket_bytes (config : ServerConfig) {characters : List Character} (premiumDays : UInt16)
    (hcount : characters.length ≤ 50) (h : ∀ ch ∈ characters, ch.Storable) :
    (Outcome.list (characters.map stored) premiumDays.toNat).packet .latin1 config =
      (Answer.list ⟨motdView config.motd, characters, premiumDays⟩).bytes := by
  have hbyte : toU8 (characters.length : Nat) = UInt8.ofNat characters.length := by
    rw [← UInt8.toNat_inj, toNat_toU8 (by omega), UInt8.toNat_ofNat', Nat.mod_eq_of_lt (by omega)]
  rw [Outcome.packet, Answer.bytes, motdPacket_bytes, listPacket, entries_stored h, List.length_map, toU16_toNat, hbyte]

theorem resolveOutcome_reply (accountId : Option UInt32) :
    resolveOutcome (some (resolveReply accountId)) =
      match accountId with
      | some accountId => (0, wrap32 accountId.toNat)
      | none => (1, 0) := by
  cases accountId with
  | none => rfl
  | some accountId =>
      have hround := readU32Le_writeU32Le accountId []
      rw [List.append_nil] at hround
      calc resolveOutcome (some (resolveReply (some accountId)))
          = (0, wrap32 (readU32Le (writeU32Le accountId)).toNat) := rfl
        _ = (0, wrap32 accountId.toNat) := by rw [hround]

theorem loginResult_verdict (stray : StrayReply) {verdict : Verdict}
    (h : ∀ characters premiumDays, verdict = .granted characters premiumDays →
      characters.length ≤ 50 ∧ ∀ ch ∈ characters, ch.Storable) :
    loginResult .latin1 stray 50 (.ofByte (verdict.reply.headD 0)) ⟨verdict.reply, 1⟩ =
      .ok verdict.result := by
  cases verdict with
  | granted characters premiumDays =>
      obtain ⟨hcount, hstorable⟩ := h characters premiumDays rfl
      refine loginResult_okReply stray hcount ?_ (length_verdictReply hcount hstorable)
      refine ⟨characters.map entryBytes, ?_, by rw [Verdict.reply, List.flatMap_def]⟩
      rw [List.forall₂_map_right_iff, List.forall₂_same]
      intro ch hch
      have hname := (hstorable ch hch).name.length_lt
      have hworld := (hstorable ch hch).world.length_lt
      exact Entry.mk (WireValues.wireString_stringBytes (by omega)) (WireValues.wireString_stringBytes (by omega))
  | refused code =>
      have hread := readU8_second [1, code]
      simp only [Verdict.reply, loginResult]
      rw [show QueryStatus.ofByte (([1, code] : List UInt8).headD 0) = .error from rfl]
      simp only [hread, ok_bind]
      rw [show (([1, code] : List UInt8).drop 1).headD 0 = code from rfl, Verdict.result]
      split_ifs
      · rfl
      · rfl

section

variable {σ : Type} {accounts : Accounts} {exchange : Exchange σ} {P : σ → Prop} (hserves : Serves accounts exchange P)
  (build : Build) (config : ServerConfig) (stray : Stray) (form : LoginForm)

theorem answer_sendable (accounts : Accounts) (build : Build) {motd : List UInt8} (hmotd : motd.length ≤ 256)
    (form : LoginForm) (address : List UInt8) : (accounts.answer build motd form address).Sendable := by
  have hmessage : ∀ code, (Answer.error (loginErrorMessage code)).Sendable := fun code =>
    Nat.lt_of_le_of_lt (length_loginErrorMessage_le code) (by decide)
  rw [Accounts.answer]
  split_ifs
  · rw [Answer.Sendable]
    decide
  · rw [Answer.Sendable]
    decide
  · rw [Accounts.login]
    cases accounts.resolve form.email with
    | none =>
        rw [Answer.Sendable]
        decide
    | some accountId =>
        simp only
        cases hverdict : accounts.verdict accountId form.password address with
        | refused code => exact hmessage _
        | granted characters premiumDays =>
            obtain ⟨hcount, hstorable⟩ := accounts.listable hverdict
            refine ⟨fun text htext => ?_, hcount.trans (by decide), hstorable⟩
            simp only [motdView] at htext
            split_ifs at htext
            cases htext
            have hle := length_outgoing_le .latin1 motd
            rw [outgoing] at hle
            omega

theorem Expected.sendable {σ : Type} {accounts : Accounts} {exchange : Exchange σ} {P : σ → Prop} {build : Build}
    {motd : List UInt8} {form : LoginForm} {address : List UInt8} {queries : List Executed} {answer : Answer}
    (h : Expected accounts exchange P build motd form address queries answer) (hmotd : motd.length ≤ 256) :
    answer.Sendable := by
  rcases h with rfl | ⟨⟨q, -, -, ⟨-, rfl⟩ | ⟨-, rfl⟩⟩, -⟩
  · exact answer_sendable accounts build hmotd form address
  · rw [Answer.Sendable]
    decide
  · rw [Answer.Sendable]
    decide

/-- An outcome that the senders turn into the bytes of an answer. -/
structure Tells (outcome : Outcome) (answer : Answer) : Prop where
  open_eq : outcome ≠ .closed
  packet_eq : outcome.packet .latin1 config = answer.bytes

theorem tells_error {message : List UInt8} (h : Ascii message) : Tells config (.error message) (.error message) :=
  ⟨by simp, errorPacket_bytes .latin1 h⟩

theorem tells_list {characters : List Character} {premiumDays : UInt16} (hcount : characters.length ≤ 50)
    (h : ∀ ch ∈ characters, ch.Storable) :
    Tells config (.list (characters.map stored) premiumDays.toNat)
      (.list ⟨motdView config.motd, characters, premiumDays⟩) :=
  ⟨by simp, listPacket_bytes config premiumDays hcount h⟩

include hserves

theorem loginAccount_answer (accountId : UInt32) (ipAddress : Int) {s : Session σ} (hP : P s.client) :
    ∃ code characters premiumDays s' outcome queries,
      loginAccount .latin1 exchange stray.toStrayReply (wrap32 accountId.toNat) form.credentials.password
        (ipString ipAddress) 50 s = .ok (code, characters, premiumDays, s') ∧ P s'.client ∧
      s'.queries = s.queries ++ queries ∧
      outcome = (if code = 0 then .list characters premiumDays else .error (loginErrorMessage code)) ∧
      ∃ answer, Tells config outcome answer ∧
        (answer = (accounts.verdict accountId form.password (ipString ipAddress)).answer config.motd ∨
          (form.Unanswered (ipString ipAddress) queries answer ∧ ¬Reliable accounts exchange P)) := by
  have hp := form.credentials_fits.password
  have hi := length_ipString_le ipAddress
  have hreply := reply_loginRequest accounts form accountId ipAddress
  have hnext : P (exchange s.client (requestFrame (loginRequest .latin1 (wrap32 accountId.toNat)
      form.credentials.password (ipString ipAddress))) 4096).2 := hserves.keeps hP (by simp [loginRequest]) 4096
  rw [loginAccount_eq .latin1 exchange stray.toStrayReply _ form.credentials.password (ipString ipAddress) 50 s
    (by omega) (by omega)]
  rcases hr : exchange s.client (requestFrame (loginRequest .latin1 (wrap32 accountId.toNat) form.credentials.password
    (ipString ipAddress))) 4096 with ⟨reply, client⟩
  rw [hr] at hnext
  cases reply with
  | none =>
      refine ⟨-1, [], 0, _, _, _, rfl, hnext, rfl, rfl, .error (text "Internal error, closing connection."),
        tells_error config (by decide),
        Or.inr ⟨⟨_, List.mem_singleton_self _, rfl, Or.inr ⟨⟨_, rfl⟩, rfl⟩⟩, fun hreliable => ?_⟩⟩
      refine hreliable hP hreply 4096 ?_ (congrArg Prod.fst hr)
      cases hverdict : accounts.verdict accountId form.password (ipString ipAddress) with
      | granted characters premiumDays =>
          obtain ⟨hcount, hstorable⟩ := accounts.listable hverdict
          exact length_verdictReply hcount hstorable
      | refused code => simp [Verdict.reply]
  | some reply =>
      have hbytes := hserves.faithful hP (by simp [loginRequest]) (congrArg Prod.fst hr) hreply
      have hresult := loginResult_verdict stray.toStrayReply
        (fun characters premiumDays (h : accounts.verdict accountId form.password (ipString ipAddress) = _) =>
          accounts.listable h)
      rw [received_some, ok_bind, hbytes]
      simp only [hresult, ok_bind]
      cases hverdict : accounts.verdict accountId form.password (ipString ipAddress) with
      | granted characters premiumDays =>
          obtain ⟨hcount, hstorable⟩ := accounts.listable hverdict
          exact ⟨0, _, _, _, _, _, rfl, hnext, rfl, rfl, _, tells_list config hcount hstorable, Or.inl rfl⟩
      | refused code =>
          refine ⟨_, _, _, _, _, _, rfl, hnext, rfl, rfl, _, ?_, Or.inl rfl⟩
          have hne : (if 1 ≤ code ∧ code ≤ 6 then (code.toNat : Int) else -1) ≠ 0 := by
            split_ifs with hcode
            · have hone := UInt8.le_iff_toNat_le.mp hcode.1
              rw [show (1 : UInt8).toNat = 1 from rfl] at hone
              omega
            · decide
          have houtcome : (if (Verdict.refused code).result.1 = 0 then
              Outcome.list (Verdict.refused code).result.2.1 (Verdict.refused code).result.2.2
              else .error (loginErrorMessage (Verdict.refused code).result.1)) =
                .error (loginErrorMessage (if 1 ≤ code ∧ code ≤ 6 then code.toNat else -1)) := if_neg hne
          rw [houtcome]
          exact tells_error config (loginErrorMessage_ascii _)

theorem requestOutcome_answer (henc : build.encoding = .latin1) (ipAddress : Int) {s : Session σ} (hP : P s.client) :
    ∃ outcome s' answer queries, requestOutcome build exchange stray ipAddress form.credentials s = .ok (outcome, s') ∧
      P s'.client ∧ s'.queries = s.queries ++ queries ∧ Tells config outcome answer ∧
      (answer = accounts.login config.motd form (ipString ipAddress) ∨
        (form.Unanswered (ipString ipAddress) queries answer ∧ ¬Reliable accounts exchange P)) := by
  have he := form.credentials_fits.email
  have hreply := reply_resolveRequest accounts form
  have hnext : P (exchange s.client (requestFrame (resolveRequest .latin1 form.credentials.email)) 1024).2 :=
    hserves.keeps hP (by simp [resolveRequest]) 1024
  have hdenied : Tells config (.error (text "Email or password is not correct."))
      (.error (text "Email or password is not correct.")) := tells_error config (by decide)
  rcases hr : exchange s.client (requestFrame (resolveRequest .latin1 form.credentials.email)) 1024 with ⟨reply, client⟩
  rw [hr] at hnext
  rw [requestOutcome, henc, resolveEmail_outcome .latin1 exchange form.credentials.email s (by omega) rfl hr, ok_bind]
  cases reply with
  | none =>
      refine ⟨_, _, _, _, rfl, hnext, rfl, hdenied,
        Or.inr ⟨⟨_, List.mem_singleton_self _, rfl, Or.inl ⟨rfl, rfl⟩⟩, fun hreliable => ?_⟩⟩
      refine hreliable hP hreply 1024 ?_ (congrArg Prod.fst hr)
      cases accounts.resolve form.email <;> simp [resolveReply]
  | some reply =>
      have hbytes := hserves.faithful hP (by simp [resolveRequest]) (congrArg Prod.fst hr) hreply
      have hcode : resolveOutcome (replyOf (some reply, client)) = resolveOutcome (some reply.bytes) := rfl
      rw [hcode, hbytes, resolveOutcome_reply, Accounts.login]
      cases accounts.resolve form.email with
      | none => exact ⟨_, _, _, _, rfl, hnext, rfl, hdenied, Or.inl rfl⟩
      | some accountId =>
          obtain ⟨code, characters, premiumDays, s', outcome, queries, hl, hP', hlog, rfl, answer, htells, hanswer⟩ :=
            loginAccount_answer hserves config stray form accountId ipAddress
              (s := ⟨client, s.queries ++ [⟨_, replyOf (some reply, client)⟩]⟩) hnext
          simp only [ne_eq, not_true_eq_false, if_false]
          rw [hl, ok_bind]
          refine ⟨_, _, _, _ :: queries, rfl, hP', by rw [hlog, List.append_assoc]; rfl, htells, ?_⟩
          refine hanswer.imp_right fun hfailed => ⟨?_, hfailed.2⟩
          obtain ⟨q, hq, hnone, hmessage⟩ := hfailed.1
          exact ⟨q, List.mem_cons_of_mem _ hq, hnone, hmessage⟩

variable {build form} {rsa : RsaKey} {publicKey : PublicKey rsa} (henc : build.encoding = .latin1)
  {c : Connection} (h : Holding publicKey form c)

include henc h

theorem processLoginRequest_answer (randR : UInt32 → Int × UInt32) {s : Session σ} (hP : P s.client) :
    ∃ answer c' s' queries, processLoginRequest build rsa randR exchange config stray c s = .ok (c', s') ∧ P s'.client ∧
      s'.queries = s.queries ++ queries ∧
      Expected accounts exchange P build config.motd form (ipString c.ipAddress) queries answer ∧
      Replied randR answer.bytes { c with xtea := form.key } c' := by
  have hdecoded := h.decodeLogin_eq henc stray
  have hdecided : ∃ outcome s' answer queries, decodedOutcome build exchange stray c.ipAddress s
      (some (form.terminalVersion, form.credentials)) = .ok (outcome, s') ∧ P s'.client ∧
      s'.queries = s.queries ++ queries ∧ Tells config outcome answer ∧
      Expected accounts exchange P build config.motd form (ipString c.ipAddress) queries answer := by
    simp only [decodedOutcome, Expected, Accounts.answer, form.email_empty]
    by_cases hempty : form.email = []
    · rw [if_pos hempty, if_pos hempty]
      exact ⟨_, s, _, [], rfl, hP, (List.append_nil _).symm, tells_error config (by decide), Or.inl rfl⟩
    · rw [if_neg hempty, if_neg hempty]
      by_cases hversion : form.terminalVersion.toNat ≠ build.terminalVersion
      · rw [if_pos hversion, if_pos hversion]
        exact ⟨_, s, _, [], rfl, hP, (List.append_nil _).symm, tells_error config (by decide), Or.inl rfl⟩
      · rw [if_neg hversion, if_neg hversion]
        exact requestOutcome_answer hserves build config stray form henc c.ipAddress hP
  obtain ⟨outcome, s', answer, queries, ho, hP', hlog, htells, hexpected⟩ := hdecided
  have hfits : outcome.Fits := by
    have hcred : ∀ version cred, some (form.terminalVersion, form.credentials) = some (version, cred) → cred.Fits := by
      intro version cred hlogin
      cases hlogin
      exact form.credentials_fits
    obtain ⟨outcome', s'', ho', -, hfits⟩ := decodedOutcome_fits build exchange stray c.ipAddress s hcred
    rw [ho] at ho'
    cases ho'
    exact hfits
  obtain ⟨c', hc', hreplied⟩ := answer_replied build.encoding randR config hfits (c := { c with xtea := form.key })
    h.processing h.sized
  refine ⟨answer, c', s', queries, ?_, hP', hlog, hexpected, ?_⟩
  · rw [processLoginRequest_eq, hdecoded, ok_bind]
    simp only
    rw [ho, ok_bind]
    simp only
    rw [hc']
    rfl
  · rcases hreplied with ⟨hclosed, -⟩ | ⟨-, hreplied⟩
    · exact absurd hclosed htells.open_eq
    · rw [henc, htells.packet_eq] at hreplied
      exact hreplied

end

end TibiaLogin.AccountService
