import TibiaLogin.ClientReader
import TibiaLogin.LoginAgreement
import TibiaLogin.ResponseSize

namespace TibiaLogin.StrayReads

open MachineInt Memory Text BufferReader BufferWriter Query LoginQuery LoginResponse LoginHandler LoginOutcome LoginAgreement
  ResponseSize ClientReader

/-- What an Ok response lists is read inside the response. -/
def ReplyInside (enc : ClientEncoding) (reply : List UInt8) : Prop :=
  reply.headD 0 = 0 → ((reply.drop 1).headD 0).toNat ≤ 50 →
    ∃ result, readReply enc ((reply.drop 1).headD 0).toNat ⟨reply, 2⟩ = .ok result

def loginReply {σ : Type} (enc : ClientEncoding) (exchange : Exchange σ) (ipAddress : Int) (cred : Credentials)
    (client : σ) : Option (List UInt8) :=
  let resolved := exchange client (requestFrame (resolveRequest enc cred.email)) 1024
  if (resolveOutcome (replyOf resolved)).1 ≠ 0 then none
  else replyOf (exchange resolved.2 (requestFrame (loginRequest enc (resolveOutcome (replyOf resolved)).2 cred.password
    (ipString ipAddress))) 4096)

section

variable {σ : Type} (build : Build) (rsa : RsaKey) (exchange : Exchange σ)

/-- A login reads both texts of its block inside the block, and the response to
them inside the response. -/
def ReadsInside (c : Connection) (client : σ) : Prop :=
  ∀ data, c.rwSize = 145 → rsa.decrypt (asymmetricBlock c) = some data → data.headD 0 = 0 →
    ∃ credentials, readCredentials build.encoding ⟨data, 17⟩ = .ok credentials ∧
      ∀ cred, credentials = some cred → cred.email.headD 0 ≠ 0 →
        (terminalVersionOf c).toNat = build.terminalVersion →
        ∀ reply, loginReply build.encoding exchange c.ipAddress cred client = some reply →
          ReplyInside build.encoding reply

end

theorem loginResult_inside {enc : ClientEncoding} {reply : List UInt8} (h : ReplyInside enc reply)
    (stray stray' : StrayReply) :
    loginResult enc stray 50 (.ofByte (reply.headD 0)) ⟨reply, 1⟩ =
      loginResult enc stray' 50 (.ofByte (reply.headD 0)) ⟨reply, 1⟩ := by
  cases hs : QueryStatus.ofByte (reply.headD 0) with
  | ok =>
      simp only [loginResult]
      rw [readU8_second, ok_bind, ok_bind]
      by_cases hmax : 50 < ((reply.drop 1).headD 0).toNat
      · rw [if_pos hmax, if_pos hmax]
      · obtain ⟨result, hr⟩ := h (ofByte_eq_ok.mp hs) (Nat.not_lt.mp hmax)
        rw [if_neg hmax, if_neg hmax, hr]
        rfl
  | error | failed | other code => rfl

section

variable {σ : Type} {build : Build} {rsa : RsaKey} {exchange : Exchange σ} (stray stray' : Stray) {s : Session σ}

theorem requestOutcome_inside (ipAddress : Int) {cred : Credentials} (hcred : cred.Fits)
    (h : ∀ reply, loginReply build.encoding exchange ipAddress cred s.client = some reply →
      ReplyInside build.encoding reply) :
    requestOutcome build exchange stray ipAddress cred s = requestOutcome build exchange stray' ipAddress cred s := by
  have he := hcred.email
  have hp := hcred.password
  have hi := length_ipString_le ipAddress
  simp only [loginReply] at h
  generalize hr : exchange s.client (requestFrame (resolveRequest build.encoding cred.email)) 1024 = resolved at h
  rw [requestOutcome, requestOutcome, resolveEmail_outcome build.encoding exchange cred.email s (by omega) rfl hr,
    ok_bind, ok_bind]
  simp only
  by_cases hcode : (resolveOutcome (replyOf resolved)).1 ≠ 0
  · rw [if_pos hcode, if_pos hcode]
  · rw [if_neg hcode] at h
    rw [if_neg hcode, if_neg hcode, loginAccount_eq build.encoding exchange stray.toStrayReply _ cred.password
      (ipString ipAddress) 50 _ (by omega) (by omega), loginAccount_eq build.encoding exchange stray'.toStrayReply _
      cred.password (ipString ipAddress) 50 _ (by omega) (by omega)]
    simp only at h ⊢
    rcases hl : exchange resolved.2 (requestFrame (loginRequest build.encoding (resolveOutcome (replyOf resolved)).2
      cred.password (ipString ipAddress))) 4096 with ⟨answer, client⟩
    rw [hl] at h
    cases answer with
    | none => rfl
    | some answer =>
        rw [received_some, ok_bind, ok_bind]
        simp only
        rw [loginResult_inside (h answer.bytes rfl) stray.toStrayReply stray'.toStrayReply]

theorem processLoginRequest_inside {c : Connection} (hb : c.buffer.length = 2048)
    (h : ReadsInside build rsa exchange c s.client) (randR : UInt32 → Int × UInt32) (config : ServerConfig) :
    processLoginRequest build rsa randR exchange config stray c s =
      processLoginRequest build rsa randR exchange config stray' c s := by
  by_cases hrefused : ∀ data, c.rwSize = 145 → rsa.decrypt (asymmetricBlock c) = some data → data.headD 0 ≠ 0
  · rw [processLoginRequest_eq, processLoginRequest_eq, decodeLogin_refused stray hb hrefused,
      decodeLogin_refused stray' hb hrefused, ok_bind, ok_bind]
    simp only [decodedOutcome]
  · simp only [not_forall, not_not] at hrefused
    obtain ⟨data, hsize, hdata, hz⟩ := hrefused
    obtain ⟨credentials, hread, hreply⟩ := h data hsize hdata hz
    rw [processLoginRequest_eq, processLoginRequest_eq, decodeLogin_block stray hb hsize hdata hz,
      decodeLogin_block stray' hb hsize hdata hz, hread, ok_bind, ok_bind]
    cases credentials with
    | none => rfl
    | some cred =>
        simp only [orStray, Option.map_some, decodedOutcome]
        split_ifs with he hv
        · rfl
        · rfl
        · rw [requestOutcome_inside stray stray' c.ipAddress (readCredentials_fits hread)
            (hreply cred rfl he (not_not.mp hv))]

theorem ReadsInside.same {c c' : Connection} (hc : SameRequest c c') {client : σ}
    (h : ReadsInside build rsa exchange c client) : ReadsInside build rsa exchange c' client := by
  intro data hsize hdata hz
  rw [← hc.size_eq] at hsize
  rw [← hc.block_eq hsize] at hdata
  rw [← hc.version_eq hsize, ← hc.ip_eq]
  exact h data hsize hdata hz

end

def emptyCharacter : CharacterLoginData := ⟨List.replicate 30 0, List.replicate 30 0, 0, 0⟩

def emptyCredentials : Credentials := ⟨List.replicate 51 0, List.replicate 30 0⟩

theorem emptyCharacter_fits : emptyCharacter.Fits := ⟨List.length_replicate, List.length_replicate⟩

theorem emptyCredentials_fit (cred : Credentials) (h : some emptyCredentials = some cred) : cred.Fits := by
  cases h
  exact ⟨List.length_replicate, List.length_replicate⟩

def strayWith (premiumDays : Int) : Stray :=
  { character := fun _ => emptyCharacter
    premiumDays
    fits := fun _ => emptyCharacter_fits
    credentials := some emptyCredentials
    credentials_fit := emptyCredentials_fit }

/-- What is left for a client is the same: the same bytes, or none. -/
structure SameBytes (d d' : Connection) : Prop where
  writing_iff : d.state = .writing ↔ d'.state = .writing
  bytes_eq : d.state = .writing → d.buffer.take d.rwSize.toNat = d'.buffer.take d'.rwSize.toNat

theorem listPacket_premiumDays {enc : ClientEncoding} {characters : List CharacterLoginData} {p q : Int}
    (h : listPacket enc characters p = listPacket enc characters q) : toU16 p = toU16 q := by
  have hdays := List.append_cancel_left (List.cons.inj (List.cons.inj h).2).2
  have hread := congrArg (fun bytes => ByteOrder.readU16Le (bytes ++ [])) hdays
  simpa only [ByteOrder.readU16Le_writeU16Le] using hread

theorem length_emptyList_le (enc : ClientEncoding) (config : ServerConfig) (premiumDays : Int) {n : Nat} (hn : n ≤ 50) :
    ((Outcome.list (List.replicate n emptyCharacter) premiumDays).packet enc config).length ≤ 2038 := by
  have hname : outgoing enc (List.replicate 30 0) = [] := by
    cases enc <;> decide
  have hsize : characterSize enc emptyCharacter = 10 := by
    rw [characterSize, emptyCharacter, hname]
    rfl
  have hmotd := length_outgoing_le enc config.motd
  have hfits := config.motd_fits
  have hmotdSize : motdSize enc config.motd ≤ 3 + 256 := by
    rw [motdSize]
    split_ifs <;> omega
  rw [length_packet enc config premiumDays fun c hc => List.eq_of_mem_replicate hc ▸ emptyCharacter_fits, listSize,
    List.map_replicate, hsize, List.sum_replicate_nat]
  omega

section

variable {σ : Type} {build : Build} {rsa : RsaKey} {exchange : Exchange σ} {s : Session σ}

theorem requestOutcome_stray (stray : Stray) {ipAddress : Int} {cred : Credentials} (hcred : cred.Fits)
    {reply : List UInt8} (hreply : loginReply build.encoding exchange ipAddress cred s.client = some reply)
    (hok : reply.headD 0 = 0) {n : Nat} (hn : ((reply.drop 1).headD 0).toNat = n) (hcount : n ≤ 50) {fault : Fault}
    (hread : readReply build.encoding n ⟨reply, 2⟩ = .error fault) :
    ∃ t, requestOutcome build exchange stray ipAddress cred s =
      .ok (.list ((List.range n).map stray.character) stray.premiumDays, t) := by
  have he := hcred.email
  have hp := hcred.password
  have hi := length_ipString_le ipAddress
  simp only [loginReply] at hreply
  generalize hr : exchange s.client (requestFrame (resolveRequest build.encoding cred.email)) 1024 = resolved at hreply
  rw [requestOutcome, resolveEmail_outcome build.encoding exchange cred.email s (by omega) rfl hr, ok_bind]
  simp only
  by_cases hcode : (resolveOutcome (replyOf resolved)).1 ≠ 0
  · rw [if_pos hcode] at hreply
    cases hreply
  · rw [if_neg hcode] at hreply ⊢
    rw [loginAccount_eq build.encoding exchange stray.toStrayReply _ cred.password (ipString ipAddress) 50 _ (by omega)
      (by omega)]
    simp only
    obtain ⟨answer, hanswer, rfl⟩ := Option.map_eq_some_iff.mp hreply
    rcases hl : exchange resolved.2 (requestFrame (loginRequest build.encoding (resolveOutcome (replyOf resolved)).2
      cred.password (ipString ipAddress))) 4096 with ⟨_, client⟩
    rw [hl] at hanswer
    cases hanswer
    rw [received_some, ok_bind]
    simp only [ofByte_eq_ok.mpr hok, loginResult]
    rw [readU8_second, ok_bind]
    simp only [hn]
    rw [if_neg (Nat.not_lt.mpr hcount), hread]
    exact ⟨_, rfl⟩

variable {c : Connection} (hb : c.buffer.length = 2048) (hs : c.state = .processing)

include hb hs

/-- A request whose outcome is not to close it is answered. -/
theorem answered_of_decoded (randR : UInt32 → Int × UInt32) (config : ServerConfig) {data : List UInt8}
    (hsize : c.rwSize = 145) (hdata : rsa.decrypt (asymmetricBlock c) = some data) (hz : data.headD 0 = 0)
    (stray : Stray) (decoded : Option Credentials) (outcome : Outcome) {t : Session σ}
    (hdecoded : orStray (readCredentials build.encoding ⟨data, 17⟩) stray.credentials = decoded)
    (ho : decodedOutcome build exchange stray c.ipAddress s (decoded.map (terminalVersionOf c, ·)) = .ok (outcome, t))
    (hfits : outcome.Fits) (hne : outcome ≠ .closed) (hlen : (outcome.packet build.encoding config).length ≤ 2038) :
    ∃ d, processLoginRequest build rsa randR exchange config stray c s = .ok (d, t) ∧ d.state = .writing ∧
      d.buffer.take d.rwSize.toNat =
        responseBytes randR (keyOf data) c.randomSeed (outcome.packet build.encoding config) := by
  obtain ⟨d, hd, hclosed | ⟨-, hreplied⟩⟩ := answer_replied build.encoding randR config hfits
    (c := { c with xtea := keyOf data }) hs hb
  · exact absurd hclosed.1 hne
  · have hw := hreplied.fits.mpr hlen
    refine ⟨d, ?_, hw, hreplied.bytes_eq hw⟩
    rw [processLoginRequest_eq, decodeLogin_block stray hb hsize hdata hz, hdecoded, ok_bind]
    simp only [ho, ok_bind, hd]
    rfl

/-- Where the records of a response are read beside it, the client gets those
that were there before. -/
theorem listed_of_unreadable (randR : UInt32 → Int × UInt32) (config : ServerConfig) {data : List UInt8}
    (hsize : c.rwSize = 145) (hdata : rsa.decrypt (asymmetricBlock c) = some data) (hz : data.headD 0 = 0)
    {cred : Credentials} (hread : readCredentials build.encoding ⟨data, 17⟩ = .ok (some cred))
    (he : cred.email.headD 0 ≠ 0) (hv : (terminalVersionOf c).toNat = build.terminalVersion) {reply : List UInt8}
    (hreply : loginReply build.encoding exchange c.ipAddress cred s.client = some reply) (hok : reply.headD 0 = 0)
    {n : Nat} (hn : ((reply.drop 1).headD 0).toNat = n) (hcount : n ≤ 50) {fault : Fault}
    (hlist : readReply build.encoding n ⟨reply, 2⟩ = .error fault) (premiumDays : Int) :
    ∃ d t, processLoginRequest build rsa randR exchange config (strayWith premiumDays) c s = .ok (d, t) ∧
      d.state = .writing ∧ openResponse (keyOf data) (d.buffer.take d.rwSize.toNat) =
        some ((Outcome.list (List.replicate n emptyCharacter) premiumDays).packet build.encoding config) := by
  obtain ⟨t, ho⟩ := requestOutcome_stray (strayWith premiumDays) (readCredentials_fits hread) hreply hok hn hcount hlist
  have hlen := length_emptyList_le build.encoding config premiumDays hcount
  have hstrays : (List.range n).map (strayWith premiumDays).character = List.replicate n emptyCharacter := by
    simp [strayWith]
  rw [hstrays] at ho
  obtain ⟨d, hd, hw, hbytes⟩ := answered_of_decoded hb hs randR config hsize hdata hz (strayWith premiumDays) (some cred)
    (.list (List.replicate n emptyCharacter) premiumDays) (by rw [hread]; rfl)
    (by rw [Option.map_some, decodedOutcome, if_neg he, if_neg (not_not.mpr hv)]; exact ho)
    ⟨by rw [List.length_replicate]; exact hcount, fun c hc => List.eq_of_mem_replicate hc ▸ emptyCharacter_fits⟩
    (by simp) hlen
  refine ⟨d, t, hd, hw, ?_⟩
  rw [hbytes]
  exact openResponse_responseBytes randR _ _ (by omega)

theorem readsInside_of_same (randR : UInt32 → Int × UInt32) (config : ServerConfig)
    (h : ∀ stray stray' d d' t t', processLoginRequest build rsa randR exchange config stray c s = .ok (d, t) →
      processLoginRequest build rsa randR exchange config stray' c s = .ok (d', t') → SameBytes d d') :
    ReadsInside build rsa exchange c s.client := by
  intro data hsize hdata hz
  cases hread : readCredentials build.encoding ⟨data, 17⟩ with
  | error fault =>
      have hclosed : processLoginRequest build rsa randR exchange config default c s =
          .ok (closeConnection { c with xtea := keyOf data }, s) := by
        rw [processLoginRequest, decodeLogin_block default hb hsize hdata hz, hread]
        rfl
      obtain ⟨d, hd, hw, -⟩ := answered_of_decoded hb hs randR config hsize hdata hz (strayWith 0) (some emptyCredentials)
        (.error (text "You must enter an email address.")) (by rw [hread]; rfl) rfl
        (by simp only [Outcome.Fits]; decide) (by simp)
        (by simp only [Outcome.packet]; cases build.encoding <;> decide)
      have hstate := (h _ _ _ _ _ _ hd hclosed).writing_iff.mp hw
      rw [closeConnection_eq] at hstate
      exact absurd (hs.symm.trans hstate) (by simp)
  | ok credentials =>
      refine ⟨credentials, rfl, ?_⟩
      rintro cred rfl he hv reply hreply hok hcount
      cases hlist : readReply build.encoding ((reply.drop 1).headD 0).toNat ⟨reply, 2⟩ with
      | ok result => exact ⟨result, rfl⟩
      | error fault =>
          -- Two threads that find other premium days behind the response send them.
          have hlisted := listed_of_unreadable hb hs randR config hsize hdata hz hread he hv hreply hok rfl hcount hlist
          obtain ⟨d, t, hd, hw, hopen⟩ := hlisted 0
          obtain ⟨d', t', hd', -, hopen'⟩ := hlisted 1
          rw [(h _ _ _ _ _ _ hd hd').bytes_eq hw, hopen', Option.some.injEq] at hopen
          exact absurd (listPacket_premiumDays (List.append_cancel_left hopen)) (by decide)

end

end TibiaLogin.StrayReads
