import TibiaLogin.LoginHandler

namespace TibiaLogin.Authorisation

open MachineInt Memory ByteOrder BufferReader BufferWriter Xtea Query LoginQuery LoginResponse LoginHandler

/-- What a client that knows the key finds in the queued response. -/
def payload (c : Connection) : List UInt8 := (xteaDecrypt c.xtea ((c.buffer.take c.rwSize.toNat).drop 2)).drop 2

/-- The query behind the two bytes of a short frame. -/
def Asks (type : QueryType) (e : Executed) : Prop := e.request[2]? = some type.code

def RepliedOk (e : Executed) : Prop := ∃ reply, e.reply = some reply ∧ reply.head? = some 0

/-- The response to ResolveEmail carries the account id of the later request. -/
def Resolves (e login : Executed) : Prop :=
  Asks .resolveEmail e ∧ ∃ reply, e.reply = some reply ∧ reply.head? = some 0 ∧ 5 ≤ reply.length ∧
    (login.request.drop 3).take 4 = (reply.drop 1).take 4

/-- The client finds an error packet. -/
def ToldError (c : Connection) : Prop := ∃ enc message rest, payload c = errorPacket enc message ++ rest

/-- Every LoginAccount query comes after a response that resolves its account,
and only an accepted one leads to anything but an error message. -/
structure Authorised (queries : List Executed) (c : Connection) : Prop where
  resolved : ∀ before login after, queries = before ++ login :: after → Asks .loginAccount login →
    ∃ e ∈ before, Resolves e login
  granted : c.state = .writing → ToldError c ∨ ∃ e ∈ queries, Asks .loginAccount e ∧ RepliedOk e

/-- The responses to ResolveEmail that pass for a resolved account without
carrying one: an error with the code zero or none, and an Ok too short. -/
def Misleading (reply : Option (List UInt8)) : Prop :=
  ∃ bytes, reply = some bytes ∧ ((bytes.head? = some 1 ∧ (bytes.drop 1).headD 0 = 0) ∨
    (bytes.head? = some 0 ∧ bytes.length < 5))

theorem payload_of_queued {data : List UInt8} {c : Connection} (h : Queued data c) :
    ∃ pad, payload c = data ++ pad := by
  obtain ⟨pad, -, -, hsize, -, htake⟩ := h.content
  refine ⟨pad, ?_⟩
  rw [payload, hsize, Int.toNat_natCast, htake, List.drop_left' (length_writeU16Le _), xteaDecrypt_xteaEncrypt,
    List.append_assoc, List.drop_left' (length_writeU16Le _)]

theorem toldError_of_queued {enc : ClientEncoding} {message : List UInt8} {c : Connection}
    (h : Queued (errorPacket enc message) c) : ToldError c :=
  ⟨enc, message, payload_of_queued h⟩

theorem requestFrame_short {body : List UInt8} (h : body.length < 0xFFFF) :
    ∃ a b, requestFrame body = a :: b :: body := by
  rw [requestFrame, lengthField, if_pos h]
  exact ⟨_, _, rfl⟩

theorem length_resolveRequest_lt (enc : ClientEncoding) (email : List UInt8) (h : email.length ≤ 64) :
    (resolveRequest enc email).length < 0xFFFF := by
  have hl := length_text_le enc email
  rw [resolveRequest, List.length_cons]
  omega

theorem length_loginRequest_lt (enc : ClientEncoding) (accountId : Int) (password ipAddress : List UInt8)
    (hp : password.length ≤ 64) (hi : ipAddress.length ≤ 64) :
    (loginRequest enc accountId password ipAddress).length < 0xFFFF := by
  have hlp := length_text_le enc password
  have hli := length_text_le enc ipAddress
  simp only [loginRequest, List.length_cons, List.length_append, length_writeU32Le]
  omega

theorem accountId_bytes {reply : List UInt8} (h : 5 ≤ reply.length) :
    writeU32Le (toU32 (wrap32 (u32At reply 1))) = (reply.drop 1).take 4 := by
  rw [u32At, if_pos (by omega), toU32_wrap32, writeU32Le_readU32Le_take (by rw [List.length_drop]; omega)]

theorem resolveOutcome_error (rest : List UInt8) :
    resolveOutcome (some (1 :: rest)) = (((rest.headD 0).toNat : Int), 0) := rfl

theorem resolveOutcome_zero {reply : Option (List UInt8)} (hne : ∀ bytes, reply = some bytes → bytes ≠ [])
    (h : (resolveOutcome reply).1 = 0) (hm : ¬Misleading reply) :
    ∃ bytes, reply = some bytes ∧ bytes.head? = some 0 ∧ 5 ≤ bytes.length ∧
      (resolveOutcome reply).2 = wrap32 (u32At bytes 1) := by
  match reply, hne with
  | none, _ => exact absurd h (by simp [resolveOutcome])
  | some [], hne => exact absurd rfl (hne [] rfl)
  | some (b :: rest), _ =>
      by_cases h0 : b = 0
      · subst h0
        refine ⟨_, rfl, rfl, ?_, rfl⟩
        by_contra hlen
        exact hm ⟨_, rfl, Or.inr ⟨rfl, by omega⟩⟩
      · by_cases h1 : b = 1
        · subst h1
          have hc : (rest.headD 0).toNat = 0 := by
            rw [resolveOutcome_error] at h
            exact Int.natCast_eq_zero.mp h
          exact absurd ⟨_, rfl, Or.inl ⟨rfl, UInt8.toNat_inj.mp hc⟩⟩ hm
        · have hb : (resolveOutcome (some (b :: rest))).1 = -1 := by
            by_cases h3 : b = 3 <;> simp [resolveOutcome, QueryStatus.ofByte, h0, h1, h3]
          omega

theorem resolveOutcome_misleading {reply : Option (List UInt8)} (h : Misleading reply) :
    (resolveOutcome reply).1 = 0 := by
  obtain ⟨bytes, rfl, ⟨h1, h0⟩ | ⟨h0, -⟩⟩ := h
  · cases bytes with
    | nil => cases h1
    | cons b rest =>
        obtain rfl : b = 1 := Option.some.inj h1
        have hcode : rest.headD 0 = 0 := h0
        rw [resolveOutcome_error, hcode]
        rfl
  · cases bytes with
    | nil => cases h0
    | cons b rest =>
        obtain rfl : b = 0 := Option.some.inj h0
        rfl

theorem replyOf_ne_nil {σ : Type} {capacity : Nat} (outcome : Option (Reply capacity) × σ) :
    ∀ bytes, replyOf outcome = some bytes → bytes ≠ [] := by
  intro bytes hb
  obtain ⟨reply, -, rfl⟩ := Option.map_eq_some_iff.mp hb
  exact List.ne_nil_of_length_pos reply.nonempty

theorem writing_of_answered {data : List UInt8} {c c' : Connection} (h : Answered data c c')
    (hw : c'.state = .writing) : Queued data c' := by
  rcases h.outcome with ⟨-, -, hq⟩ | ⟨hp, -⟩
  · exact hq
  · rw [hp] at hw
    cases hw

theorem authorised_of_error (enc : ClientEncoding) (message : List UInt8) {c c' : Connection}
    {queries : List Executed} (hq : ∀ e ∈ queries, ¬Asks .loginAccount e)
    (h : c'.state ≠ .writing ∨ Answered (errorPacket enc message) c c') : Authorised queries c' := by
  refine ⟨fun before login after he hl => absurd hl (hq login (by simp [he])), fun hw => Or.inl ?_⟩
  rcases h with h | h
  · exact absurd hw h
  · exact toldError_of_queued (writing_of_answered h hw)

theorem asks_of_frame {type type' : QueryType} {frame : List UInt8} {reply : Option (List UInt8)} {a b : UInt8}
    {rest : List UInt8} (hf : frame = a :: b :: type.code :: rest) :
    Asks type' ⟨frame, reply⟩ ↔ type.code = type'.code := by
  rw [Asks, hf]
  exact Option.some_inj

theorem not_asks_login_of_resolve (enc : ClientEncoding) {cred : Credentials} (hfits : cred.Fits)
    (reply : Option (List UInt8)) :
    ¬Asks .loginAccount ⟨requestFrame (resolveRequest enc cred.email), reply⟩ := by
  obtain ⟨a, b, hf⟩ := requestFrame_short (length_resolveRequest_lt enc cred.email
    (by rw [hfits.email]; omega))
  rw [asks_of_frame hf]
  decide

/-- Two queries in a row: the first resolves the account of the second, or the
second one was made without an account. -/
theorem authorised_pair {resolve login : Executed} {c : Connection} (hr : ¬Asks .loginAccount resolve)
    (hl : Asks .loginAccount login)
    (hg : c.state = .writing → ToldError c ∨ RepliedOk login) :
    Authorised ([resolve] ++ [login]) c ↔ Resolves resolve login := by
  constructor
  · intro h
    obtain ⟨e, he, hres⟩ := h.resolved [resolve] login [] rfl hl
    rw [List.mem_singleton] at he
    rw [← he]
    exact hres
  · intro h
    refine ⟨fun before e after he ha => ?_, fun hw => ?_⟩
    · match before, he with
      | [], he =>
          cases he
          exact absurd ha hr
      | [x], he =>
          cases he
          exact ⟨resolve, by simp, h⟩
      | x :: y :: z, he => simp at he
    · rcases hg hw with hp | hok
      · exact Or.inl hp
      · exact Or.inr ⟨login, by simp, hl, hok⟩

theorem resolves_iff {σ : Type} {capacity : Nat} {outcome : Option (Reply capacity) × σ} {enc : ClientEncoding}
    {email password ipAddress frame frame' : List UInt8} {reply' : Option (List UInt8)} {a b a' b' : UInt8}
    (hf : frame = a :: b :: resolveRequest enc email)
    (hf' : frame' = a' :: b' :: loginRequest enc (resolveOutcome (replyOf outcome)).2 password ipAddress)
    (hcode : (resolveOutcome (replyOf outcome)).1 = 0) :
    Resolves ⟨frame, replyOf outcome⟩ ⟨frame', reply'⟩ ↔ ¬Misleading (replyOf outcome) := by
  constructor
  · rintro ⟨-, bytes, hb, h0, hlen, -⟩ ⟨bytes', hb', ⟨h1, -⟩ | ⟨-, hshort⟩⟩
    · cases hb.symm.trans hb'
      rw [h0] at h1
      cases h1
    · cases hb.symm.trans hb'
      omega
  · intro hm
    obtain ⟨bytes, hb, h0, hlen, hid⟩ := resolveOutcome_zero (replyOf_ne_nil outcome) hcode hm
    refine ⟨(asks_of_frame hf).mpr rfl, bytes, hb, h0, hlen, ?_⟩
    rw [← accountId_bytes hlen, ← hid, hf']
    simp only [loginRequest, List.drop_succ_cons, List.drop_zero, List.append_assoc]
    exact List.take_left' (length_writeU32Le _)

section

variable {σ : Type} (build : Build) (rsa : RsaKey) (randR : UInt32 → Int × UInt32) (exchange : Exchange σ)
  (config : ServerConfig) (stray : Stray) {c : Connection} (s : Session σ)

theorem authorised_of_asked (hb : c.buffer.length = 2048) (hs : c.state = .processing) {cred : Credentials}
    (hq : queryCredentials build rsa stray c = some cred) :
    ∃ c' client queries, processLoginRequest build rsa randR exchange config stray c s =
        .ok (c', ⟨client, s.queries ++ queries⟩) ∧
      (Authorised queries c' ↔
        ¬Misleading (replyOf (exchange s.client (requestFrame (resolveRequest build.encoding cred.email)) 1024))) := by
  obtain ⟨plain, hfits, -, hp⟩ := processLoginRequest_asked build rsa randR exchange config stray hb s hq
  have hi := length_ipString_le c.ipAddress
  obtain ⟨a, b, hf⟩ := requestFrame_short (length_resolveRequest_lt build.encoding
    cred.email (by rw [hfits.email]; omega))
  generalize hr : exchange s.client (requestFrame (resolveRequest build.encoding cred.email)) 1024 = outcome
  have hresolve := not_asks_login_of_resolve build.encoding hfits (replyOf outcome)
  by_cases hcode : (resolveOutcome (replyOf outcome)).1 = 0
  · obtain ⟨a', b', hf'⟩ := requestFrame_short (length_loginRequest_lt build.encoding
      (resolveOutcome (replyOf outcome)).2 cred.password (ipString c.ipAddress)
      (by rw [hfits.password]; omega) (by omega))
    obtain ⟨c', code, characters, premiumDays, hc', ha, hok, -⟩ := requestCharacters_granted build randR exchange
      config stray hfits (c := { c with xtea := keyOf plain }) hs hb s rfl hr hcode rfl rfl
    rw [List.append_assoc] at hc'
    refine ⟨c', _, _, hp.trans hc', (authorised_pair hresolve ((asks_of_frame hf').mpr rfl) ?_).trans
      (resolves_iff hf hf' hcode)⟩
    intro hw
    by_cases h0 : code = 0
    · exact Or.inr (hok h0)
    · rw [loginPacket, if_neg h0] at ha
      exact Or.inl (toldError_of_queued (writing_of_answered ha.toAnswered hw))
  · obtain ⟨c', hc', ha⟩ := requestCharacters_refused build randR exchange config stray hfits
      (c := { c with xtea := keyOf plain }) hs hb s rfl hr hcode
    refine ⟨c', _, _, hp.trans hc', iff_of_true (authorised_of_error build.encoding _ ?_ (Or.inr ha.toAnswered)) fun hm => ?_⟩
    · rw [List.forall_mem_singleton]
      exact hresolve
    · exact hcode (resolveOutcome_misleading hm)

theorem login_authorised_iff (hb : c.buffer.length = 2048) (hs : c.state = .processing) :
    ∃ c' client queries, processLoginRequest build rsa randR exchange config stray c s =
        .ok (c', ⟨client, s.queries ++ queries⟩) ∧
      (Authorised queries c' ↔ ∀ cred, queryCredentials build rsa stray c = some cred →
        ¬Misleading (replyOf (exchange s.client (requestFrame (resolveRequest build.encoding cred.email)) 1024))) := by
  cases hq : queryCredentials build rsa stray c with
  | none =>
      obtain ⟨key, c', hp, hc⟩ := processLoginRequest_settled build rsa randR exchange config stray hb s hs hq
      refine ⟨c', s.client, [], by rw [List.append_nil]; exact hp, iff_of_true ?_ (by simp)⟩
      rcases hc with rfl | ⟨message, ha⟩
      · refine authorised_of_error build.encoding [] (c := c) (by simp) (Or.inl ?_)
        rw [closeConnection_eq]
        simp [hs]
      · exact authorised_of_error build.encoding message (by simp) (Or.inr ha.toAnswered)
  | some cred =>
      obtain ⟨c', client, queries, hp, hiff⟩ :=
        authorised_of_asked build rsa randR exchange config stray s hb hs hq
      refine ⟨c', client, queries, hp, hiff.trans ⟨fun h cred' he => ?_, fun h => h cred rfl⟩⟩
      cases he
      exact h

end

/-- The queries of a request that is asked for: the first alone, or a second one
for the account that it gave, with the password and the address of the peer. -/
inductive LoginQueries (enc : ClientEncoding) (cred : Credentials) (ipAddress : Int) : List Executed → Prop
  | refused (reply : Option (List UInt8)) :
      LoginQueries enc cred ipAddress [⟨requestFrame (resolveRequest enc cred.email), reply⟩]
  | granted (reply reply' : Option (List UInt8)) :
      LoginQueries enc cred ipAddress [⟨requestFrame (resolveRequest enc cred.email), reply⟩,
        ⟨requestFrame (loginRequest enc (resolveOutcome reply).2 cred.password (ipString ipAddress)), reply'⟩]

theorem login_queries {σ : Type} {build : Build} {rsa : RsaKey} {randR : UInt32 → Int × UInt32}
    {exchange : Exchange σ} {config : ServerConfig} {stray : Stray} {c c' : Connection} {s s' : Session σ}
    (hb : c.buffer.length = 2048) (hs : c.state = .processing)
    (hp : processLoginRequest build rsa randR exchange config stray c s = .ok (c', s')) :
    s'.queries = s.queries ∨ ∃ cred queries, queryCredentials build rsa stray c = some cred ∧ cred.Fits ∧
      s'.queries = s.queries ++ queries ∧ LoginQueries build.encoding cred c.ipAddress queries := by
  cases hq : queryCredentials build rsa stray c with
  | none =>
      obtain ⟨key, c₁, hp₁, -⟩ := processLoginRequest_settled build rsa randR exchange config stray hb s hs hq
      rw [hp] at hp₁
      cases hp₁
      exact Or.inl rfl
  | some cred =>
      obtain ⟨plain, hfits, -, hp₁⟩ := processLoginRequest_asked build rsa randR exchange config stray hb s hq
      rw [hp] at hp₁
      refine Or.inr ?_
      generalize hr : exchange s.client (requestFrame (resolveRequest build.encoding cred.email)) 1024 = outcome
      by_cases hcode : (resolveOutcome (replyOf outcome)).1 = 0
      · obtain ⟨c₁, code, list, days, hc₁, -⟩ := requestCharacters_granted build randR exchange config stray hfits
          (c := { c with xtea := keyOf plain }) hs hb s rfl hr hcode rfl rfl
        rw [hc₁] at hp₁
        cases hp₁
        exact ⟨cred, _, rfl, hfits, List.append_assoc .., .granted _ _⟩
      · obtain ⟨c₁, hc₁, -⟩ := requestCharacters_refused build randR exchange config stray hfits
          (c := { c with xtea := keyOf plain }) hs hb s rfl hr hcode
        rw [hc₁] at hp₁
        cases hp₁
        exact ⟨cred, _, rfl, hfits, rfl, .refused _⟩

theorem LoginQueries.asked {enc : ClientEncoding} {cred : Credentials} {ipAddress : Int} {queries : List Executed}
    (h : LoginQueries enc cred ipAddress queries) (hfits : cred.Fits) {e : Executed} (he : e ∈ queries)
    (hasks : Asks .loginAccount e) :
    ∃ resolve accountId, queries = [resolve, e] ∧
      resolve.request = requestFrame (resolveRequest enc cred.email) ∧
      e.request = requestFrame (loginRequest enc accountId cred.password (ipString ipAddress)) := by
  cases h with
  | refused reply =>
      rw [List.mem_singleton.mp he] at hasks
      exact absurd hasks (not_asks_login_of_resolve enc hfits reply)
  | granted reply reply' =>
      rcases List.mem_cons.mp he with rfl | he
      · exact absurd hasks (not_asks_login_of_resolve enc hfits reply)
      · cases List.mem_singleton.mp he
        exact ⟨_, _, rfl, rfl, rfl⟩

theorem login_authorised_resolved :
    ∃ c' client queries, processLoginRequest ⟨.latin1, false⟩ default (fun seed => (0, seed))
        (answering [0, 7, 0, 0, 0]) default default (plainLogin [1, 0, 97, 0, 0]) ⟨(), []⟩ = .ok (c', ⟨client, [] ++ queries⟩) ∧
      Authorised queries c' := by
  obtain ⟨c', client, queries, hp, hiff⟩ := login_authorised_iff ⟨.latin1, false⟩ default (fun seed => (0, seed))
    (answering [0, 7, 0, 0, 0]) default default ⟨(), []⟩ (length_plainLogin [1, 0, 97, 0, 0] (by decide)) rfl
  refine ⟨c', client, queries, hp, hiff.mpr ?_⟩
  rintro cred - ⟨bytes, hb, h⟩
  cases hb
  simp at h

theorem login_without_account :
    ∃ c' client queries, processLoginRequest ⟨.latin1, false⟩ default (fun seed => (0, seed))
        (answering [1, 0]) default default (plainLogin [1, 0, 97, 0, 0]) ⟨(), []⟩ = .ok (c', ⟨client, [] ++ queries⟩) ∧
      ¬Authorised queries c' := by
  have hq : queryCredentials ⟨.latin1, false⟩ default default (plainLogin [1, 0, 97, 0, 0]) =
      some ⟨97 :: List.replicate 50 0, List.replicate 30 0⟩ := by decide +kernel
  obtain ⟨c', client, queries, hp, hiff⟩ := authorised_of_asked ⟨.latin1, false⟩ default (fun seed => (0, seed))
    (answering [1, 0]) default default ⟨(), []⟩ (length_plainLogin [1, 0, 97, 0, 0] (by decide)) rfl hq
  exact ⟨c', client, queries, hp, fun h => hiff.mp h ⟨[1, 0], rfl, Or.inl ⟨rfl, rfl⟩⟩⟩

end TibiaLogin.Authorisation
