import TibiaLogin.LoginOutcome

namespace TibiaLogin.LoginAgreement

open Memory Query LoginQuery LoginResponse LoginHandler LoginOutcome

/-- Two query clients that get the same responses to the same requests. -/
structure SameReplies {σ τ : Type} (exchange : Exchange σ) (exchange' : Exchange τ) (Agree : σ → τ → Prop) : Prop where
  reply : ∀ {a b}, Agree a b → ∀ frame capacity, (exchange a frame capacity).1 = (exchange' b frame capacity).1
  next : ∀ {a b}, Agree a b → ∀ frame capacity, Agree (exchange a frame capacity).2 (exchange' b frame capacity).2

/-- Two runs that came to the same outcome over the same further queries. -/
structure Alike {σ τ : Type} (outcome : Outcome) (queries : List Executed) (s : Session σ) (s' : Session τ)
    (x : Except Fault (Outcome × Session σ)) (x' : Except Fault (Outcome × Session τ)) : Prop where
  left : ∃ a, x = .ok (outcome, ⟨a, s.queries ++ queries⟩)
  right : ∃ b, x' = .ok (outcome, ⟨b, s'.queries ++ queries⟩)

theorem loginAccount_reply (enc : ClientEncoding) (stray : StrayReply) (accountId : Int) (password ipAddress : List UInt8)
    (hp : password.length ≤ 64) (hi : ipAddress.length ≤ 64) (maxCharacters : Nat) (reply : Option (Reply 4096)) :
    ∃ code characters premiumDays, ∀ {σ : Type} (exchange : Exchange σ) (s : Session σ) (client : σ),
      exchange s.client (requestFrame (loginRequest enc accountId password ipAddress)) 4096 = (reply, client) →
      loginAccount enc exchange stray accountId password ipAddress maxCharacters s =
        .ok (code, characters, premiumDays, ⟨client, s.queries ++
          [⟨requestFrame (loginRequest enc accountId password ipAddress), reply.map (·.bytes)⟩]⟩) := by
  cases reply with
  | none =>
      refine ⟨-1, [], 0, fun exchange s client he => ?_⟩
      rw [loginAccount_eq enc exchange stray accountId password ipAddress maxCharacters s hp hi, he]
      rfl
  | some reply =>
      obtain ⟨code, characters, premiumDays, hr, -⟩ :=
        loginResult_spec enc stray maxCharacters (.ofByte (reply.bytes.headD 0)) reply.bytes
      refine ⟨code, characters, premiumDays, fun exchange s client he => ?_⟩
      rw [loginAccount_eq enc exchange stray accountId password ipAddress maxCharacters s hp hi, he, received_some,
        ok_bind]
      simp only [hr]
      rfl

section

variable {σ τ : Type} (build : Build) (rsa : RsaKey) {exchange : Exchange σ} {exchange' : Exchange τ} (stray : Stray)
  {Agree : σ → τ → Prop} (h : SameReplies exchange exchange' Agree) {s : Session σ} {s' : Session τ}
  (hagree : Agree s.client s'.client)

include h hagree

theorem requestOutcome_alike (ipAddress : Int) {cred : Credentials} (hcred : cred.Fits) :
    ∃ outcome queries, Alike outcome queries s s' (requestOutcome build exchange stray ipAddress cred s)
      (requestOutcome build exchange' stray ipAddress cred s') := by
  have he := hcred.email
  have hp := hcred.password
  have hi := length_ipString_le ipAddress
  generalize hframe : requestFrame (resolveRequest build.encoding cred.email) = frame
  have hreply := h.reply hagree frame 1024
  have hnext := h.next hagree frame 1024
  rcases hr : exchange s.client frame 1024 with ⟨reply, a⟩
  rcases hr' : exchange' s'.client frame 1024 with ⟨reply', b⟩
  rw [hr, hr'] at hreply hnext
  cases hreply
  rw [requestOutcome, requestOutcome, resolveEmail_outcome build.encoding exchange cred.email s (by omega) hframe hr,
    resolveEmail_outcome build.encoding exchange' cred.email s' (by omega) hframe hr', ok_bind, ok_bind]
  have hsame : replyOf (reply, a) = replyOf (reply, b) := rfl
  simp only [hsame]
  by_cases hcode : (resolveOutcome (replyOf (reply, b))).1 ≠ 0
  · rw [if_pos hcode, if_pos hcode]
    exact ⟨_, _, ⟨_, rfl⟩, ⟨_, rfl⟩⟩
  · rw [if_neg hcode, if_neg hcode]
    generalize (resolveOutcome (replyOf (reply, b))).2 = accountId
    generalize hframe' : requestFrame (loginRequest build.encoding accountId cred.password (ipString ipAddress)) = frame'
    have hreply := h.reply hnext frame' 4096
    rcases hl : exchange a frame' 4096 with ⟨answer, a'⟩
    rcases hl' : exchange' b frame' 4096 with ⟨answer', b'⟩
    rw [hl, hl'] at hreply
    cases hreply
    obtain ⟨code, characters, premiumDays, hlogin⟩ := loginAccount_reply build.encoding stray.toStrayReply accountId
      cred.password (ipString ipAddress) (by omega) (by omega) 50 answer
    rw [hframe'] at hlogin
    rw [hlogin exchange ⟨a, _⟩ a' hl, hlogin exchange' ⟨b, _⟩ b' hl', ok_bind, ok_bind]
    exact ⟨_, _, ⟨_, by rw [List.append_assoc]; rfl⟩, ⟨_, by rw [List.append_assoc]; rfl⟩⟩

theorem decodedOutcome_alike (ipAddress : Int) {decoded : Option (UInt16 × Credentials)}
    (hfits : ∀ version cred, decoded = some (version, cred) → cred.Fits) :
    ∃ outcome queries, Alike outcome queries s s' (decodedOutcome build exchange stray ipAddress s decoded)
      (decodedOutcome build exchange' stray ipAddress s' decoded) := by
  have hnone : s.queries ++ [] = s.queries ∧ s'.queries ++ [] = s'.queries := by simp
  cases decoded with
  | none => exact ⟨.closed, [], ⟨s.client, by rw [hnone.1]; rfl⟩, ⟨s'.client, by rw [hnone.2]; rfl⟩⟩
  | some login =>
      obtain ⟨version, cred⟩ := login
      simp only [decodedOutcome]
      by_cases he : cred.email.headD 0 = 0
      · rw [if_pos he, if_pos he]
        exact ⟨_, [], ⟨s.client, by rw [hnone.1]; rfl⟩, ⟨s'.client, by rw [hnone.2]; rfl⟩⟩
      · rw [if_neg he, if_neg he]
        by_cases hv : version.toNat ≠ build.terminalVersion
        · rw [if_pos hv, if_pos hv]
          exact ⟨_, [], ⟨s.client, by rw [hnone.1]; rfl⟩, ⟨s'.client, by rw [hnone.2]; rfl⟩⟩
        · rw [if_neg hv, if_neg hv]
          exact requestOutcome_alike build stray h hagree ipAddress (hfits version cred rfl)

end

/-- Two connections that hold the same request from the same address. -/
structure SameRequest (c c' : Connection) : Prop where
  sized : c.buffer.length = 2048 ∧ c'.buffer.length = 2048
  processing : c.state = .processing ∧ c'.state = .processing
  size_eq : c.rwSize = c'.rwSize
  bytes_eq : c.buffer.take c.rwSize.toNat = c'.buffer.take c'.rwSize.toNat
  ip_eq : c.ipAddress = c'.ipAddress

theorem SameRequest.take_eq {c c' : Connection} (h : SameRequest c c') (hsize : c.rwSize = 145) :
    c.buffer.take 145 = c'.buffer.take 145 := by
  have hsize' : c'.rwSize = 145 := by rw [← h.size_eq, hsize]
  have hbytes := h.bytes_eq
  rw [hsize, hsize'] at hbytes
  exact hbytes

theorem SameRequest.block_eq {c c' : Connection} (h : SameRequest c c') (hsize : c.rwSize = 145) :
    asymmetricBlock c = asymmetricBlock c' := by
  have hblock (d : Connection) : asymmetricBlock d = (d.buffer.take 145).drop 17 := by
    rw [asymmetricBlock, List.drop_take]
  rw [hblock, hblock, h.take_eq hsize]

theorem SameRequest.version_eq {c c' : Connection} (h : SameRequest c c') (hsize : c.rwSize = 145) :
    terminalVersionOf c = terminalVersionOf c' := by
  rw [terminalVersionOf, terminalVersionOf, h.take_eq hsize]

theorem decodeLogin_alike (build : Build) (rsa : RsaKey) (stray : Stray) {c c' : Connection} (h : SameRequest c c') :
    ∃ key key' decoded, decodeLogin build rsa stray c = .ok ({ c with xtea := key }, decoded) ∧
      decodeLogin build rsa stray c' = .ok ({ c' with xtea := key' }, decoded) ∧
      (decoded ≠ none → loginKey rsa c = loginKey rsa c') := by
  by_cases hrefused : ∀ data, c.rwSize = 145 → rsa.decrypt (asymmetricBlock c) = some data → data.headD 0 ≠ 0
  · refine ⟨c.xtea, c'.xtea, none, decodeLogin_refused stray h.sized.1 hrefused, ?_, fun hne => absurd rfl hne⟩
    refine decodeLogin_refused stray h.sized.2 fun data hsize hdata => ?_
    rw [← h.size_eq] at hsize
    rw [← h.block_eq hsize] at hdata
    exact hrefused data hsize hdata
  · simp only [not_forall, not_not] at hrefused
    obtain ⟨data, hsize, hdata, hz⟩ := hrefused
    have hdata' := hdata
    rw [h.block_eq hsize] at hdata'
    refine ⟨keyOf data, keyOf data, _, decodeLogin_block stray h.sized.1 hsize hdata hz, ?_, fun _ => ?_⟩
    · rw [h.version_eq hsize]
      exact decodeLogin_block stray h.sized.2 (by rw [← h.size_eq, hsize]) hdata' hz
    · rw [loginKey, loginKey, hdata, hdata']

/-- What two connections were left with: the same bytes to send, or both closed. -/
inductive SameAnswer (c c' : Connection) : Prop
  | sent (hw : c.state = .writing) (hw' : c'.state = .writing) (hpos : 0 < c'.rwSize)
      (hbytes : c.buffer.take c.rwSize.toNat = c'.buffer.take c'.rwSize.toNat)
  | closed (hp : c.state = .processing) (hp' : c'.state = .processing) (hclosed : c.socket = -1)

theorem sameAnswer_of_replied {randR : UInt32 → Int × UInt32} {data : List UInt8} {c c' d d' : Connection}
    (h : Replied randR data c d) (h' : Replied randR data c' d') (hkey : c.xtea = c'.xtea)
    (hseed : c.randomSeed = c'.randomSeed) : SameAnswer d d' := by
  by_cases hfit : data.length ≤ 2038
  · have hw := h.fits.mpr hfit
    have hw' := h'.fits.mpr hfit
    refine .sent hw hw' ?_ ?_
    · rw [h'.size_eq hw', length_responseBytes]
      omega
    · rw [h.bytes_eq hw, h'.bytes_eq hw', hkey, hseed]
  · rcases h.outcome with ⟨-, -, hqueued⟩ | ⟨hp, hclosed⟩
    · exact absurd (h.fits.mp hqueued.state_eq) hfit
    · rcases h'.outcome with ⟨-, -, hqueued⟩ | ⟨hp', -⟩
      · exact absurd (h'.fits.mp hqueued.state_eq) hfit
      · exact .closed hp hp' hclosed

theorem processLoginRequest_alike {σ τ : Type} (build : Build) (rsa : RsaKey) (randR : UInt32 → Int × UInt32)
    (config : ServerConfig) {exchange : Exchange σ} {exchange' : Exchange τ} (stray : Stray) {Agree : σ → τ → Prop}
    (h : SameReplies exchange exchange' Agree) {s : Session σ} {s' : Session τ} (hagree : Agree s.client s'.client)
    {c c' : Connection} (hc : SameRequest c c') (hseed : c.randomSeed = c'.randomSeed) :
    ∃ d d' a b queries,
      processLoginRequest build rsa randR exchange config stray c s = .ok (d, ⟨a, s.queries ++ queries⟩) ∧
      processLoginRequest build rsa randR exchange' config stray c' s' = .ok (d', ⟨b, s'.queries ++ queries⟩) ∧
      SameAnswer d d' := by
  obtain ⟨key, key', decoded, hd, hd', hkey⟩ := decodeLogin_alike build rsa stray hc
  obtain ⟨key₁, decoded₁, hd₁, hfits₁⟩ := decodeLogin_spec build rsa stray hc.sized.1
  rw [hd] at hd₁
  cases hd₁
  have hfits (version : UInt16) (cred : Credentials) (he : decoded = some (version, cred)) := (hfits₁ version cred he).1
  obtain ⟨outcome, queries, ⟨a, hl⟩, ⟨b, hr⟩⟩ := decodedOutcome_alike build stray h hagree c.ipAddress hfits
  obtain ⟨outcome₂, s₂, ho₂, hclosed, -⟩ := decodedOutcome_fits build exchange stray c.ipAddress s hfits
  rw [hl] at ho₂
  cases ho₂
  obtain ⟨outcome₁, d, s₁, k, ho, hp, hleft⟩ := processLoginRequest_outcome build rsa exchange stray randR config
    hc.sized.1 hc.processing.1 s
  obtain ⟨outcome₁', d', s₁', k', ho', hp', hright⟩ := processLoginRequest_outcome build rsa exchange' stray randR config
    hc.sized.2 hc.processing.2 s'
  rw [loginOutcome, hd, ok_bind] at ho
  rw [loginOutcome, hd', ok_bind] at ho'
  simp only at ho ho'
  rw [hl] at ho
  rw [← hc.ip_eq, hr] at ho'
  cases ho
  cases ho'
  refine ⟨d, d', a, b, queries, hp, hp', ?_⟩
  rcases hleft with ⟨he, rfl⟩ | ⟨hne, hk, hleft⟩
  · rcases hright with ⟨-, rfl⟩ | ⟨hne, -⟩
    · rw [closeConnection_eq, closeConnection_eq]
      exact .closed hc.processing.1 hc.processing.2 rfl
    · exact absurd he hne
  · rcases hright with ⟨he, -⟩ | ⟨-, hk', hright⟩
    · exact absurd he hne
    · rw [hkey (mt hclosed.mpr hne), hk'] at hk
      cases hk
      exact sameAnswer_of_replied hleft hright rfl hseed

end TibiaLogin.LoginAgreement
