import TibiaLogin.CharacterList
import TibiaLogin.LoginOutcome

namespace TibiaLogin.ResponseSize

open MachineInt Memory ByteOrder BufferReader BufferWriter Query LoginQuery LoginResponse LoginHandler LoginOutcome
  CharacterList

def motdSize (enc : ClientEncoding) (motd : List UInt8) : Nat :=
  if motd.headD 0 ≠ 0 then 3 + (outgoing enc motd).length else 0

def characterSize (enc : ClientEncoding) (c : CharacterLoginData) : Nat :=
  10 + (outgoing enc c.name).length + (outgoing enc c.worldName).length

def listSize (enc : ClientEncoding) (config : ServerConfig) (characters : List CharacterLoginData) : Nat :=
  motdSize enc config.motd + 4 + (characters.map (characterSize enc)).sum

theorem length_stringBytes {text : List UInt8} (h : text.length < 0xFFFF) :
    (stringBytes text).length = 2 + text.length := by
  rw [stringBytes, lengthField, if_pos h, List.length_append, length_writeU16Le]

theorem length_motdPacket (enc : ClientEncoding) {motd : List UInt8} (h : motd.length ≤ 256) :
    (motdPacket enc motd).length = motdSize enc motd := by
  have hl := length_outgoing_le enc motd
  rw [motdPacket, motdSize]
  split_ifs
  · rw [List.length_cons, length_stringBytes (by omega)]
    omega
  · rfl

theorem length_characterEntry (enc : ClientEncoding) {c : CharacterLoginData} (h : c.Fits) :
    (characterEntry enc c).length = characterSize enc c := by
  have hn := length_outgoing_le enc c.name
  have hw := length_outgoing_le enc c.worldName
  rw [h.name] at hn
  rw [h.worldName] at hw
  simp only [characterEntry, characterSize, List.length_append, length_writeU32Be, length_writeU16Le]
  rw [length_stringBytes (by omega), length_stringBytes (by omega)]
  omega

theorem length_listPacket (enc : ClientEncoding) {characters : List CharacterLoginData} (premiumDays : Int)
    (h : ∀ c ∈ characters, c.Fits) :
    (listPacket enc characters premiumDays).length = 4 + (characters.map (characterSize enc)).sum := by
  have hentries : (characters.flatMap (characterEntry enc)).length = (characters.map (characterSize enc)).sum := by
    rw [List.length_flatMap]
    exact congrArg List.sum (List.map_congr_left fun c hc => length_characterEntry enc (h c hc))
  rw [listPacket, List.length_cons, List.length_cons, List.length_append, hentries, length_writeU16Le]
  omega

theorem length_packet (enc : ClientEncoding) (config : ServerConfig) {characters : List CharacterLoginData}
    (premiumDays : Int) (h : ∀ c ∈ characters, c.Fits) :
    ((Outcome.list characters premiumDays).packet enc config).length = listSize enc config characters := by
  rw [Outcome.packet, List.length_append, length_motdPacket enc config.motd_fits, length_listPacket enc premiumDays h,
    listSize]
  omega

section

variable {σ : Type} (build : Build) (rsa : RsaKey) (randR : UInt32 → Int × UInt32) (exchange : Exchange σ)
  (config : ServerConfig) (stray : Stray) {c : Connection} (hb : c.buffer.length = 2048)
  (hs : c.state = .processing) {s s₁ s₂ : Session σ} {cred : Credentials} {accountId premiumDays : Int}
  {characters : List CharacterLoginData}

include hb hs

theorem acceptedLogin_replied (hq : queryCredentials build rsa stray c = some cred)
    (hr : resolveEmail build.encoding exchange cred.email 0 s = .ok (0, accountId, s₁))
    (hl : loginAccount build.encoding exchange stray.toStrayReply accountId cred.password (ipString c.ipAddress) 50 s₁ =
      .ok (0, characters, premiumDays, s₂)) :
    ∃ data c', processLoginRequest build rsa randR exchange config stray c s = .ok (c', s₂) ∧
      (∀ c ∈ characters, c.Fits) ∧
      Replied randR ((Outcome.list characters premiumDays).packet build.encoding config)
        { c with xtea := keyOf data } c' := by
  obtain ⟨data, hcred, -, hp⟩ := processLoginRequest_asked build rsa randR exchange config stray hb s hq
  have hpass := hcred.password
  have hi := length_ipString_le c.ipAddress
  obtain ⟨code, list, days, hl', hlen, hfits, -⟩ := loginAccount_outcome build.encoding exchange stray.toStrayReply
    accountId cred.password (ipString c.ipAddress) 50 s₁ (by omega) (by omega) rfl rfl
  rw [hl] at hl'
  cases hl'
  obtain ⟨c', hc', hreplied⟩ := sendCharacterList_replied build.encoding randR config premiumDays
    (c := { c with xtea := keyOf data }) hs hb hlen hfits
  refine ⟨data, c', ?_, hfits, hreplied⟩
  rw [hp, requestCharacters, hr, ok_bind]
  simp only
  rw [if_neg (by simp), hl, ok_bind]
  simp only [if_true]
  rw [hc']
  rfl

/-- The list goes out exactly when it leaves room for the two sizes and the
padding. -/
theorem accepted_login_answered_iff (hq : queryCredentials build rsa stray c = some cred)
    (hr : resolveEmail build.encoding exchange cred.email 0 s = .ok (0, accountId, s₁))
    (hl : loginAccount build.encoding exchange stray.toStrayReply accountId cred.password (ipString c.ipAddress) 50 s₁ =
      .ok (0, characters, premiumDays, s₂)) :
    ∃ c', processLoginRequest build rsa randR exchange config stray c s = .ok (c', s₂) ∧
      (c'.state = .writing ↔ listSize build.encoding config characters ≤ 2038) ∧
      (c'.state ≠ .writing → c'.socket = -1) := by
  obtain ⟨data, c', hp, hfits, hreplied⟩ := acceptedLogin_replied build rsa randR exchange config stray hb hs hq hr hl
  refine ⟨c', hp, ?_, fun hw => ?_⟩
  · rw [hreplied.fits, length_packet build.encoding config premiumDays hfits]
  · rcases hreplied.outcome with ⟨-, -, hqueued⟩ | ⟨-, hclosed⟩
    · exact absurd hqueued.state_eq hw
    · exact hclosed

end

def longCharacter : Character := ⟨List.replicate 29 97, List.replicate 29 98, 0x7F000001, 0x1C03⟩

def longReply (count : Nat) : List UInt8 :=
  0 :: UInt8.ofNat count :: ((List.replicate count (entryBytes longCharacter)).flatten ++ writeU16Le 5)

/-- The settings that stand when nothing but an empty message of the day is
configured. -/
def quietConfig : ServerConfig :=
  { (default : ServerConfig) with
    connectionTimeout := 5
    maxConnections := 10
    maxStatusRecords := 1024
    minStatusInterval := 300 }

theorem longReply_ok (count : Nat) : OkReply (List.replicate count longCharacter) 5 (longReply count) := by
  have hentry : Entry longCharacter (entryBytes longCharacter) :=
    .mk (.short 29 0 _ (by decide) rfl) (.short 29 0 _ (by decide) rfl)
  refine ⟨List.replicate count (entryBytes longCharacter), ?_, by rw [longReply, List.length_replicate]⟩
  induction count with
  | zero => exact .nil
  | succ count ih => exact .cons hentry ih

theorem length_longReply (count : Nat) : (longReply count).length = 4 + 68 * count := by
  have hentry : (entryBytes longCharacter).length = 68 := by decide
  rw [longReply, List.length_cons, List.length_cons, List.length_append, List.length_flatten, List.map_replicate,
    hentry, List.sum_replicate_nat, length_writeU16Le]
  omega

theorem longReply_accepted (count : Nat) (hcount : count ≤ 50) (accountId : Int) {password ipAddress : List UInt8}
    (hp : password.length ≤ 64) (hi : ipAddress.length ≤ 64) (queries : List Executed) :
    ∃ s, loginAccount .latin1 scripted (default : Stray).toStrayReply accountId password ipAddress 50
        ⟨[longReply count], queries⟩ = .ok (0, List.replicate count (stored longCharacter), 5, s) := by
  have hlen := length_longReply count
  obtain ⟨code, characters, premiumDays, hl, -, -, -, hresult⟩ := loginAccount_outcome .latin1 scripted
    (default : Stray).toStrayReply accountId password ipAddress 50 ⟨[longReply count], queries⟩ hp hi rfl rfl
  have hreply := hresult (longReply count) (by
    simp only [replyOf, scripted]
    rw [dif_pos (by omega)]
    rfl)
  rw [loginResult_okReply _ (by rw [List.length_replicate]; exact hcount) (longReply_ok count) (by omega),
    List.map_replicate] at hreply
  cases hreply
  exact ⟨_, hl⟩

theorem listSize_long (count : Nat) :
    listSize .latin1 quietConfig (List.replicate count (stored longCharacter)) = 4 + 68 * count := by
  have hsize : characterSize .latin1 (stored longCharacter) = 68 := by decide +kernel
  have hmotd : motdSize .latin1 quietConfig.motd = 0 := rfl
  rw [listSize, List.map_replicate, hsize, List.sum_replicate_nat, hmotd]
  omega

theorem long_login_resolved (count : Nat) :
    queryCredentials ⟨.latin1, false⟩ default default (plainLogin [1, 0, 97, 0, 0]) =
        some ⟨97 :: List.replicate 50 0, List.replicate 30 0⟩ ∧
      ∃ queries, resolveEmail .latin1 scripted (97 :: List.replicate 50 0) 0 ⟨[[0, 5, 0, 0, 0], longReply count], []⟩ =
        .ok (0, 5, ⟨[longReply count], queries⟩) := by
  have haccount : resolveOutcome (some [0, 5, 0, 0, 0]) = (0, 5) := by decide +kernel
  have hresolve := resolveEmail_outcome .latin1 scripted (97 :: List.replicate 50 0)
    ⟨[[0, 5, 0, 0, 0], longReply count], []⟩ (by decide) rfl
    (show _ = (some ⟨[0, 5, 0, 0, 0], by decide, by decide⟩, [longReply count]) from rfl)
  simp only [replyOf, Option.map_some, haccount] at hresolve
  exact ⟨by decide +kernel, _, hresolve⟩

/-- Thirty characters are accepted, and the client gets no answer. -/
theorem accepted_login_unanswered :
    ∃ c' s₁ s₂,
      resolveEmail .latin1 scripted (97 :: List.replicate 50 0) 0 ⟨[[0, 5, 0, 0, 0], longReply 30], []⟩ =
        .ok (0, 5, s₁) ∧
      loginAccount .latin1 scripted (default : Stray).toStrayReply 5 (List.replicate 30 0) (ipString 0) 50 s₁ =
        .ok (0, List.replicate 30 (stored longCharacter), 5, s₂) ∧
      processLoginRequest ⟨.latin1, false⟩ default (fun seed => (0, seed)) scripted quietConfig default
        (plainLogin [1, 0, 97, 0, 0]) ⟨[[0, 5, 0, 0, 0], longReply 30], []⟩ = .ok (c', s₂) ∧
      c'.state ≠ .writing ∧ c'.socket = -1 := by
  obtain ⟨hq, queries, hr⟩ := long_login_resolved 30
  obtain ⟨s₂, hl⟩ := longReply_accepted 30 (by decide) 5
    (show (List.replicate 30 (0 : UInt8)).length ≤ 64 by decide) (show (ipString 0).length ≤ 64 by decide) queries
  obtain ⟨data, c', hp, hfits, hreplied⟩ := acceptedLogin_replied ⟨.latin1, false⟩ default (fun seed => (0, seed))
    scripted quietConfig default (length_plainLogin [1, 0, 97, 0, 0] (by decide)) rfl hq hr hl
  have hw : c'.state ≠ .writing := by
    rw [Ne, hreplied.fits, length_packet .latin1 quietConfig 5 hfits, listSize_long]
    decide
  refine ⟨c', _, s₂, hr, hl, hp, hw, ?_⟩
  rcases hreplied.outcome with ⟨-, -, hqueued⟩ | ⟨-, hclosed⟩
  · exact absurd hqueued.state_eq hw
  · exact hclosed

theorem accepted_login_answered_long :
    ∃ c' s₂, processLoginRequest ⟨.latin1, false⟩ default (fun seed => (0, seed)) scripted quietConfig default
        (plainLogin [1, 0, 97, 0, 0]) ⟨[[0, 5, 0, 0, 0], longReply 29], []⟩ = .ok (c', s₂) ∧ c'.state = .writing := by
  obtain ⟨hq, queries, hr⟩ := long_login_resolved 29
  obtain ⟨s₂, hl⟩ := longReply_accepted 29 (by decide) 5
    (show (List.replicate 30 (0 : UInt8)).length ≤ 64 by decide) (show (ipString 0).length ≤ 64 by decide) queries
  obtain ⟨c', hp, hw, -⟩ := accepted_login_answered_iff ⟨.latin1, false⟩ default (fun seed => (0, seed))
    scripted quietConfig default (length_plainLogin [1, 0, 97, 0, 0] (by decide)) rfl hq hr hl
  exact ⟨c', s₂, hp, hw.mpr (by rw [listSize_long]; decide)⟩

end TibiaLogin.ResponseSize
