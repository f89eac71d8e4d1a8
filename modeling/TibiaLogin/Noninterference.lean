import Mathlib.Data.List.TakeWhile
import TibiaLogin.LoginOutcome

namespace TibiaLogin.Noninterference

open Memory Text BufferWriter Query LoginQuery LoginResponse LoginHandler LoginOutcome

/-- One call of the handler that returned, with everything it could read. -/
structure LoginRun (build : Build) (randR : UInt32 → Int × UInt32) where
  Client : Type
  rsa : RsaKey
  exchange : Exchange Client
  config : ServerConfig
  stray : Stray
  before : Connection
  session : Session Client
  after : Connection
  queried : Session Client
  sized : before.buffer.length = 2048
  processing : before.state = .processing
  returned : processLoginRequest build rsa randR exchange config stray before session = .ok (after, queried)

def shownCharacter (c : CharacterLoginData) : CharacterLoginData :=
  { c with name := cString c.name, worldName := cString c.worldName }

def shown : Outcome → Outcome
  | .list characters premiumDays => .list (characters.map shownCharacter) premiumDays
  | outcome => outcome

section

variable {build : Build} {randR : UInt32 → Int × UInt32}

def LoginRun.outcome (run : LoginRun build randR) : Option Outcome :=
  (loginOutcome build run.rsa run.exchange run.stray run.before run.session).toOption.map fun r => shown r.1

def LoginRun.key (run : LoginRun build randR) : Option Xtea.Key := loginKey run.rsa run.before

def LoginRun.sent (run : LoginRun build randR) : List UInt8 := run.after.buffer.take run.after.rwSize.toNat

/-- The run asked for the account of an email address that is not known. -/
def LoginRun.Unresolved (run : LoginRun build randR) : Prop :=
  ∃ cred code accountId s, queryCredentials build run.rsa run.stray run.before = some cred ∧
    resolveEmail build.encoding run.exchange cred.email 0 run.session = .ok (code, accountId, s) ∧ code ≠ 0

/-- The run found the account, and the query manager refused the password. -/
def LoginRun.Refused (run : LoginRun build randR) : Prop :=
  ∃ cred accountId s code characters premiumDays s',
    queryCredentials build run.rsa run.stray run.before = some cred ∧
    resolveEmail build.encoding run.exchange cred.email 0 run.session = .ok (0, accountId, s) ∧
    loginAccount build.encoding run.exchange run.stray.toStrayReply accountId cred.password
      (ipString run.before.ipAddress) 50 s = .ok (code, characters, premiumDays, s') ∧
    (code = 1 ∨ code = 2)

end

theorem cString_cString (str : List UInt8) : cString (cString str) = cString str :=
  List.takeWhile_idem

theorem outgoing_cString (enc : ClientEncoding) (str : List UInt8) : outgoing enc (cString str) = outgoing enc str := by
  cases enc <;> simp only [outgoing, cString_cString]

theorem outgoing_congr (enc : ClientEncoding) {a b : List UInt8} (h : cString a = cString b) :
    outgoing enc a = outgoing enc b := by
  rw [← outgoing_cString enc a, h, outgoing_cString]

theorem headD_cString (str : List UInt8) : (cString str).headD 0 = str.headD 0 := by
  cases str with
  | nil => rfl
  | cons b str =>
      by_cases hb : b = 0
      · rw [hb]
        rfl
      · rw [cString, List.takeWhile_cons_of_pos (by simpa using hb)]
        rfl

theorem motdPacket_congr (enc : ClientEncoding) {a b : List UInt8} (h : cString a = cString b) :
    motdPacket enc a = motdPacket enc b := by
  have hhead : a.headD 0 = b.headD 0 := by rw [← headD_cString a, h, headD_cString]
  rw [motdPacket, motdPacket, hhead, outgoing_congr enc h]

theorem listPacket_shown (enc : ClientEncoding) (characters : List CharacterLoginData) (premiumDays : Int) :
    listPacket enc (characters.map shownCharacter) premiumDays = listPacket enc characters premiumDays := by
  have hentry : characterEntry enc ∘ shownCharacter = characterEntry enc := by
    funext c
    simp only [Function.comp_apply, characterEntry, shownCharacter, outgoing_cString]
  rw [listPacket, listPacket, List.length_map, List.flatMap_map]
  exact congrArg (fun f => _ :: _ :: (characters.flatMap f ++ _)) hentry

theorem packet_congr (enc : ClientEncoding) {config₁ config₂ : ServerConfig} {outcome₁ outcome₂ : Outcome}
    (hmotd : cString config₁.motd = cString config₂.motd) (h : shown outcome₁ = shown outcome₂) :
    outcome₁.packet enc config₁ = outcome₂.packet enc config₂ := by
  have hpacket (config : ServerConfig) (outcome : Outcome) :
      (shown outcome).packet enc config = outcome.packet enc config := by
    cases outcome with
    | closed | error message => rfl
    | list characters premiumDays => rw [shown, Outcome.packet, Outcome.packet, listPacket_shown]
  rw [← hpacket config₁, ← hpacket config₂, h]
  cases shown outcome₂ with
  | closed | error message => rfl
  | list characters premiumDays => rw [Outcome.packet, Outcome.packet, motdPacket_congr enc hmotd]

section

variable {build : Build} {randR : UInt32 → Int × UInt32}

theorem LoginRun.sent_eq (run : LoginRun build randR) (hw : run.after.state = .writing) :
    ∃ outcome key, run.outcome = some (shown outcome) ∧ run.key = some key ∧
      run.after.rwSize = ((responseBytes randR key run.before.randomSeed
        (outcome.packet build.encoding run.config)).length : Int) ∧
      run.sent = responseBytes randR key run.before.randomSeed (outcome.packet build.encoding run.config) := by
  obtain ⟨outcome, c', s', key, ho, hp, hr⟩ := processLoginRequest_outcome build run.rsa run.exchange run.stray
    randR run.config run.sized run.processing run.session
  rw [run.returned] at hp
  cases hp
  rcases hr with ⟨-, hc⟩ | ⟨-, hkey, hr⟩
  · rw [hc, closeConnection_eq] at hw
    rw [run.processing] at hw
    cases hw
  · exact ⟨outcome, key, by rw [LoginRun.outcome, ho]; rfl, hkey, hr.size_eq hw, hr.bytes_eq hw⟩

theorem LoginRun.outcome_of_asked (run : LoginRun build randR) {cred : Credentials}
    (hq : queryCredentials build run.rsa run.stray run.before = some cred) :
    run.outcome = (requestOutcome build run.exchange run.stray run.before.ipAddress cred run.session).toOption.map
      fun r => shown r.1 := by
  obtain ⟨key, decoded, hd, -⟩ := decodeLogin_spec build run.rsa run.stray run.sized
  rw [queryCredentials, hd] at hq
  rw [LoginRun.outcome, loginOutcome, hd, ok_bind]
  cases decoded with
  | none => cases hq
  | some login =>
      obtain ⟨version, cred'⟩ := login
      simp only at hq
      split_ifs at hq with h
      cases hq
      simp only [decodedOutcome]
      rw [if_neg h.1, if_neg (not_not.mpr h.2)]

theorem LoginRun.outcome_of_unresolved {run : LoginRun build randR} (h : run.Unresolved) :
    run.outcome = some (.error (text "Email or password is not correct.")) := by
  obtain ⟨cred, code, accountId, s, hq, hr, hcode⟩ := h
  rw [run.outcome_of_asked hq, requestOutcome, hr, ok_bind]
  simp only
  rw [if_pos hcode]
  rfl

theorem LoginRun.outcome_of_refused {run : LoginRun build randR} (h : run.Refused) :
    run.outcome = some (.error (text "Email or password is not correct.")) := by
  obtain ⟨cred, accountId, s, code, characters, premiumDays, s', hq, hr, hl, hcode⟩ := h
  have hne : code ≠ 0 := by omega
  rw [run.outcome_of_asked hq, requestOutcome, hr, ok_bind]
  simp only
  rw [if_neg (by simp), hl, ok_bind]
  simp only
  rw [if_neg hne, loginErrorMessage, if_pos hcode]
  rfl

theorem LoginRun.same_bytes {run₁ run₂ : LoginRun build randR} (hw₁ : run₁.after.state = .writing)
    (hw₂ : run₂.after.state = .writing) (hkey : run₁.key = run₂.key)
    (hseed : run₁.before.randomSeed = run₂.before.randomSeed)
    (hout : ∀ outcome₁ outcome₂, run₁.outcome = some (shown outcome₁) → run₂.outcome = some (shown outcome₂) →
      outcome₁.packet build.encoding run₁.config = outcome₂.packet build.encoding run₂.config) :
    run₁.after.rwSize = run₂.after.rwSize ∧ run₁.sent = run₂.sent := by
  obtain ⟨outcome₁, key₁, ho₁, hk₁, hsize₁, hsent₁⟩ := run₁.sent_eq hw₁
  obtain ⟨outcome₂, key₂, ho₂, hk₂, hsize₂, hsent₂⟩ := run₂.sent_eq hw₂
  rw [hk₁, hk₂, Option.some.injEq] at hkey
  rw [hsize₁, hsize₂, hsent₁, hsent₂, hkey, hseed, hout outcome₁ outcome₂ ho₁ ho₂]
  exact ⟨rfl, rfl⟩

theorem login_response_noninterference (run₁ run₂ : LoginRun build randR) (hw₁ : run₁.after.state = .writing)
    (hw₂ : run₂.after.state = .writing) (hkey : run₁.key = run₂.key)
    (hseed : run₁.before.randomSeed = run₂.before.randomSeed) :
    (cString run₁.config.motd = cString run₂.config.motd → run₁.outcome = run₂.outcome →
      run₁.after.rwSize = run₂.after.rwSize ∧ run₁.sent = run₂.sent) ∧
    (run₁.Unresolved → run₂.Refused → run₁.after.rwSize = run₂.after.rwSize ∧ run₁.sent = run₂.sent) := by
  refine ⟨fun hmotd hout => ?_, fun h₁ h₂ => ?_⟩
  · refine LoginRun.same_bytes hw₁ hw₂ hkey hseed fun outcome₁ outcome₂ ho₁ ho₂ => ?_
    rw [ho₁, ho₂, Option.some.injEq] at hout
    exact packet_congr build.encoding hmotd hout
  · refine LoginRun.same_bytes hw₁ hw₂ hkey hseed fun outcome₁ outcome₂ ho₁ ho₂ => ?_
    rw [LoginRun.outcome_of_unresolved h₁, Option.some.injEq] at ho₁
    rw [LoginRun.outcome_of_refused h₂, Option.some.injEq] at ho₂
    cases outcome₁ <;> cases ho₁
    cases outcome₂ <;> cases ho₂
    rfl

end

theorem login_response_noninterference_two :
    ∃ run₁ run₂ : LoginRun ⟨.latin1, false⟩ (fun seed => (7, seed)),
      run₁.before = plainLogin [1, 0, 97, 0, 0] ∧ run₂.before = plainLogin [1, 0, 98, 1, 0, 120] ∧
      run₁.Unresolved ∧ run₂.Refused ∧ run₁.after.rwSize = run₂.after.rwSize ∧ run₁.sent = run₂.sent := by
  have hb₁ := length_plainLogin [1, 0, 97, 0, 0] (by decide)
  have hb₂ := length_plainLogin [1, 0, 98, 1, 0, 120] (by decide)
  have hw₁ : ((processLoginRequest ⟨.latin1, false⟩ default (fun seed => (7, seed)) scripted default default
      (plainLogin [1, 0, 97, 0, 0]) ⟨[[1, 1]], []⟩).toOption.map fun r => r.1.state) = some .writing := by
    decide +kernel
  have hw₂ : ((processLoginRequest ⟨.latin1, false⟩ default (fun seed => (7, seed)) scripted default default
      (plainLogin [1, 0, 98, 1, 0, 120]) ⟨[[0, 5, 0, 0, 0], [1, 2]], []⟩).toOption.map fun r => r.1.state) =
      some .writing := by
    decide +kernel
  obtain ⟨_, c₁, s₁, _, -, hp₁, -⟩ := processLoginRequest_outcome ⟨.latin1, false⟩ default scripted default
    (fun seed => (7, seed)) default hb₁ rfl ⟨[[1, 1]], []⟩
  obtain ⟨_, c₂, s₂, _, -, hp₂, -⟩ := processLoginRequest_outcome ⟨.latin1, false⟩ default scripted default
    (fun seed => (7, seed)) default hb₂ rfl ⟨[[0, 5, 0, 0, 0], [1, 2]], []⟩
  rw [hp₁] at hw₁
  rw [hp₂] at hw₂
  let run₁ : LoginRun ⟨.latin1, false⟩ (fun seed => (7, seed)) :=
    ⟨_, default, scripted, default, default, _, ⟨[[1, 1]], []⟩, c₁, s₁, hb₁, rfl, hp₁⟩
  let run₂ : LoginRun ⟨.latin1, false⟩ (fun seed => (7, seed)) :=
    ⟨_, default, scripted, default, default, _, ⟨[[0, 5, 0, 0, 0], [1, 2]], []⟩, c₂, s₂, hb₂, rfl, hp₂⟩
  have hu : run₁.Unresolved := by
    have hcred : queryCredentials ⟨.latin1, false⟩ default default (plainLogin [1, 0, 97, 0, 0]) =
        some ⟨97 :: List.replicate 50 0, List.replicate 30 0⟩ := by
      decide +kernel
    have hresolve := resolveEmail_outcome .latin1 scripted (97 :: List.replicate 50 0) ⟨[[1, 1]], []⟩ (by decide)
      rfl rfl
    exact ⟨_, _, _, _, hcred, hresolve, by decide⟩
  have hr : run₂.Refused := by
    have hcred : queryCredentials ⟨.latin1, false⟩ default default (plainLogin [1, 0, 98, 1, 0, 120]) =
        some ⟨98 :: List.replicate 50 0, 120 :: List.replicate 29 0⟩ := by
      decide +kernel
    have hresolve := resolveEmail_outcome .latin1 scripted (98 :: List.replicate 50 0)
      ⟨[[0, 5, 0, 0, 0], [1, 2]], []⟩ (by decide) rfl
      (show _ = (some ⟨[0, 5, 0, 0, 0], by decide, by decide⟩, [[1, 2]]) from rfl)
    have haccount : resolveOutcome (some [0, 5, 0, 0, 0]) = (0, 5) := by decide +kernel
    simp only [replyOf, Option.map_some, haccount] at hresolve
    have hlogin (queries : List Executed) := loginAccount_eq .latin1 scripted (default : Stray).toStrayReply 5
      (120 :: List.replicate 29 0) (ipString 0) 50 ⟨[[1, 2]], queries⟩ (by decide) (by decide)
    exact ⟨_, 5, _, 2, [], 0, _, hcred, hresolve, hlogin _, Or.inr rfl⟩
  have hkey : loginKey default (plainLogin [1, 0, 97, 0, 0]) =
      loginKey default (plainLogin [1, 0, 98, 1, 0, 120]) := by
    decide +kernel
  exact ⟨run₁, run₂, rfl, rfl, hu, hr, (login_response_noninterference run₁ run₂ (Option.some.inj hw₁)
    (Option.some.inj hw₂) hkey rfl).2 hu hr⟩

end TibiaLogin.Noninterference
