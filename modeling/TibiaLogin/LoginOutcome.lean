import TibiaLogin.LoginHandler

namespace TibiaLogin.LoginOutcome

open Memory Text BufferWriter Query LoginQuery LoginResponse LoginHandler

/-- What the handler settles on before it writes anything. -/
inductive Outcome
  | closed
  | error (message : List UInt8)
  | list (characters : List CharacterLoginData) (premiumDays : Int)
  deriving DecidableEq, Repr

def Outcome.packet (enc : ClientEncoding) (config : ServerConfig) : Outcome → List UInt8
  | .closed => []
  | .error message => errorPacket enc message
  | .list characters premiumDays => motdPacket enc config.motd ++ listPacket enc characters premiumDays

/-- An outcome that the senders take without a fault. -/
def Outcome.Fits : Outcome → Prop
  | .closed => True
  | .error message => message.length ≤ 1024
  | .list characters _ => characters.length ≤ 50 ∧ ∀ c ∈ characters, c.Fits

def answer (enc : ClientEncoding) (randR : UInt32 → Int × UInt32) (config : ServerConfig) :
    Outcome → Connection → Except Fault Connection
  | .closed, c => pure (closeConnection c)
  | .error message, c => sendLoginError enc randR message c
  | .list characters premiumDays, c => sendCharacterList enc randR config characters premiumDays c

section

variable {σ : Type} (build : Build) (exchange : Exchange σ) (stray : Stray) (ipAddress : Int)

def requestOutcome (cred : Credentials) (s : Session σ) : Except Fault (Outcome × Session σ) := do
  let (resolveCode, accountId, s) ← resolveEmail build.encoding exchange cred.email 0 s
  if resolveCode ≠ 0 then pure (.error (text "Email or password is not correct."), s)
  else
    let (loginCode, characters, premiumDays, s) ← loginAccount build.encoding exchange stray.toStrayReply
      accountId cred.password (ipString ipAddress) 50 s
    pure (if loginCode = 0 then .list characters premiumDays else .error (loginErrorMessage loginCode), s)

def decodedOutcome (s : Session σ) : Option (UInt16 × Credentials) → Except Fault (Outcome × Session σ)
  | none => pure (.closed, s)
  | some (terminalVersion, cred) =>
      if cred.email.headD 0 = 0 then pure (.error (text "You must enter an email address."), s)
      else if terminalVersion.toNat ≠ build.terminalVersion then
        pure (.error (text
          "Your terminal version is too old.\nPlease get a new version at\nhttp://www.tibia.com."), s)
      else requestOutcome build exchange stray ipAddress cred s

end

section

variable {σ : Type} (build : Build) (rsa : RsaKey) (exchange : Exchange σ) (stray : Stray)

def loginOutcome (c : Connection) (s : Session σ) : Except Fault (Outcome × Session σ) := do
  let (c, decoded) ← decodeLogin build rsa stray c
  decodedOutcome build exchange stray c.ipAddress s decoded

theorem requestCharacters_eq (randR : UInt32 → Int × UInt32) (config : ServerConfig) (cred : Credentials)
    (c : Connection) (s : Session σ) :
    requestCharacters build randR exchange config stray cred c s = (do
      let (outcome, s) ← requestOutcome build exchange stray c.ipAddress cred s
      let c ← answer build.encoding randR config outcome c
      pure (c, s)) := by
  rw [requestCharacters, requestOutcome]
  cases resolveEmail build.encoding exchange cred.email 0 s with
  | error fault => rfl
  | ok resolved =>
      obtain ⟨resolveCode, accountId, s₁⟩ := resolved
      simp only [ok_bind]
      by_cases hcode : resolveCode ≠ 0
      · rw [if_pos hcode, if_pos hcode]
        rfl
      · rw [if_neg hcode, if_neg hcode]
        cases loginAccount build.encoding exchange stray.toStrayReply accountId cred.password
            (ipString c.ipAddress) 50 s₁ with
        | error fault => rfl
        | ok result =>
            obtain ⟨loginCode, characters, premiumDays, s₂⟩ := result
            simp only [ok_bind]
            by_cases hlogin : loginCode = 0
            · rw [if_pos hlogin, if_pos hlogin]
              rfl
            · rw [if_neg hlogin, if_neg hlogin]
              rfl

theorem processLoginRequest_eq (randR : UInt32 → Int × UInt32) (config : ServerConfig) (c : Connection)
    (s : Session σ) :
    processLoginRequest build rsa randR exchange config stray c s = (do
      let (c, decoded) ← decodeLogin build rsa stray c
      let (outcome, s) ← decodedOutcome build exchange stray c.ipAddress s decoded
      let c ← answer build.encoding randR config outcome c
      pure (c, s)) := by
  rw [processLoginRequest]
  cases decodeLogin build rsa stray c with
  | error fault => rfl
  | ok r =>
      obtain ⟨c, decoded⟩ := r
      simp only [ok_bind]
      cases decoded with
      | none => rfl
      | some login =>
          obtain ⟨terminalVersion, cred⟩ := login
          simp only [decodedOutcome]
          by_cases he : cred.email.headD 0 = 0
          · rw [if_pos he, if_pos he]
            rfl
          · by_cases hv : terminalVersion.toNat ≠ build.terminalVersion
            · rw [if_neg he, if_pos hv, if_neg he, if_pos hv]
              rfl
            · rw [if_neg he, if_neg hv, if_neg he, if_neg hv]
              exact requestCharacters_eq build exchange stray randR config cred c s

end

theorem answer_replied (enc : ClientEncoding) (randR : UInt32 → Int × UInt32) (config : ServerConfig)
    {outcome : Outcome} (h : outcome.Fits) {c : Connection} (hs : c.state = .processing)
    (hb : c.buffer.length = 2048) :
    ∃ c', answer enc randR config outcome c = .ok c' ∧
      (outcome = .closed ∧ c' = closeConnection c ∨
        outcome ≠ .closed ∧ Replied randR (outcome.packet enc config) c c') := by
  cases outcome with
  | closed => exact ⟨_, rfl, Or.inl ⟨rfl, rfl⟩⟩
  | error message =>
      obtain ⟨c', hc', hr⟩ := sendLoginError_replied enc randR message hs hb h
      exact ⟨c', hc', Or.inr ⟨by simp, hr⟩⟩
  | list characters premiumDays =>
      obtain ⟨c', hc', hr⟩ := sendCharacterList_replied enc randR config premiumDays hs hb h.1 h.2
      exact ⟨c', hc', Or.inr ⟨by simp, hr⟩⟩

section

variable {σ : Type} (build : Build) (rsa : RsaKey) (exchange : Exchange σ) (stray : Stray)

theorem requestOutcome_fits (ipAddress : Int) {cred : Credentials} (hcred : cred.Fits) (s : Session σ) :
    ∃ outcome s', requestOutcome build exchange stray ipAddress cred s = .ok (outcome, s') ∧
      outcome ≠ .closed ∧ outcome.Fits := by
  have he := hcred.email
  have hp := hcred.password
  have hi := length_ipString_le ipAddress
  generalize hr : exchange s.client (requestFrame (resolveRequest build.encoding cred.email)) 1024 = resolved
  rw [requestOutcome, resolveEmail_outcome build.encoding exchange cred.email s (by omega) rfl hr, ok_bind]
  simp only
  by_cases hcode : (resolveOutcome (replyOf resolved)).1 ≠ 0
  · rw [if_pos hcode]
    refine ⟨_, _, rfl, by simp, ?_⟩
    simp only [Outcome.Fits]
    decide
  · obtain ⟨code, characters, premiumDays, hl, hlen, hfits, -⟩ := loginAccount_outcome build.encoding exchange
      stray.toStrayReply (resolveOutcome (replyOf resolved)).2 cred.password (ipString ipAddress) 50
      ⟨resolved.2, s.queries ++ [⟨_, replyOf resolved⟩]⟩ (by omega) (by omega) rfl rfl
    rw [if_neg hcode, hl, ok_bind]
    refine ⟨_, _, rfl, ?_, ?_⟩
    · split_ifs <;> simp
    · split_ifs
      · exact ⟨hlen, hfits⟩
      · exact length_loginErrorMessage_le code

theorem decodedOutcome_fits (ipAddress : Int) (s : Session σ) {decoded : Option (UInt16 × Credentials)}
    (h : ∀ version cred, decoded = some (version, cred) → cred.Fits) :
    ∃ outcome s', decodedOutcome build exchange stray ipAddress s decoded = .ok (outcome, s') ∧
      (outcome = .closed ↔ decoded = none) ∧ outcome.Fits := by
  cases decoded with
  | none => exact ⟨.closed, s, rfl, by simp, trivial⟩
  | some login =>
      obtain ⟨version, cred⟩ := login
      simp only [decodedOutcome]
      by_cases he : cred.email.headD 0 = 0
      · refine ⟨_, s, by rw [if_pos he]; rfl, by simp, ?_⟩
        simp only [Outcome.Fits]
        decide
      · by_cases hv : version.toNat ≠ build.terminalVersion
        · refine ⟨_, s, by rw [if_neg he, if_pos hv]; rfl, by simp, ?_⟩
          simp only [Outcome.Fits]
          decide
        · obtain ⟨outcome, s', ho, hne, hfits⟩ := requestOutcome_fits build exchange stray ipAddress
            (h version cred rfl) s
          exact ⟨outcome, s', by rw [if_neg he, if_neg hv]; exact ho, by simp [hne], hfits⟩

def loginKey (rsa : RsaKey) (c : Connection) : Option Xtea.Key := (rsa.decrypt (asymmetricBlock c)).map keyOf

theorem processLoginRequest_outcome (randR : UInt32 → Int × UInt32) (config : ServerConfig) {c : Connection}
    (hb : c.buffer.length = 2048) (hs : c.state = .processing) (s : Session σ) :
    ∃ outcome c' s' key, loginOutcome build rsa exchange stray c s = .ok (outcome, s') ∧
      processLoginRequest build rsa randR exchange config stray c s = .ok (c', s') ∧
      (outcome = .closed ∧ c' = closeConnection { c with xtea := key } ∨
        outcome ≠ .closed ∧ loginKey rsa c = some key ∧
          Replied randR (outcome.packet build.encoding config) { c with xtea := key } c') := by
  obtain ⟨key, decoded, hd, hfits⟩ := decodeLogin_spec build rsa stray hb
  obtain ⟨outcome, s', ho, hclosed, hfit⟩ := decodedOutcome_fits build exchange stray c.ipAddress s
    (fun version cred h => (hfits version cred h).1)
  obtain ⟨c', hc', hr⟩ := answer_replied build.encoding randR config hfit (c := { c with xtea := key }) hs hb
  refine ⟨outcome, c', s', key, ?_, ?_, ?_⟩
  · rw [loginOutcome, hd, ok_bind]
    exact ho
  · rw [processLoginRequest_eq, hd, ok_bind]
    simp only
    rw [ho, ok_bind]
    simp only
    rw [hc']
    rfl
  · rcases hr with hr | ⟨hne, hr⟩
    · exact Or.inl hr
    · cases decoded with
      | none => exact absurd (hclosed.mpr rfl) hne
      | some login =>
          obtain ⟨version, cred⟩ := login
          obtain ⟨-, data, hdata, rfl⟩ := hfits version cred rfl
          exact Or.inr ⟨hne, by rw [loginKey, hdata]; rfl, hr⟩

end

end TibiaLogin.LoginOutcome
