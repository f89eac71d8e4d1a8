import TibiaLogin.CharacterList

namespace TibiaLogin.CredentialFlow

open MachineInt Memory ByteOrder Latin1 BufferReader BufferWriter Wire Query LoginQuery LoginHandler Authorisation
  CharacterList

def sentEmail (frame : List UInt8) : Option (List UInt8) := (takeText (frame.drop 3)).map (·.1)

def sentPassword (frame : List UInt8) : Option (List UInt8) := (takeText (frame.drop 7)).map (·.1)

theorem sentEmail_frame (enc : ClientEncoding) {email : List UInt8} (h : email.length ≤ 64) :
    sentEmail (requestFrame (resolveRequest enc email)) = some (outgoing enc email) := by
  obtain ⟨a, b, hf⟩ := requestFrame_short (length_resolveRequest_lt enc email h)
  have hl := length_outgoing_le enc email
  have hshort : (outgoing enc email).length < 0xFFFF := by omega
  have htake := takeText_stringBytes hshort []
  rw [List.append_nil] at htake
  rw [sentEmail, hf, resolveRequest]
  simp only [List.drop_succ_cons, List.drop_zero]
  rw [htake]
  rfl

theorem sentPassword_frame (enc : ClientEncoding) (accountId : Int) {password ipAddress : List UInt8}
    (hp : password.length ≤ 64) (hi : ipAddress.length ≤ 64) :
    sentPassword (requestFrame (loginRequest enc accountId password ipAddress)) = some (outgoing enc password) := by
  obtain ⟨a, b, hf⟩ := requestFrame_short (length_loginRequest_lt enc accountId password ipAddress hp hi)
  have hl := length_outgoing_le enc password
  have hshort : (outgoing enc password).length < 0xFFFF := by omega
  have htake := takeText_stringBytes hshort (stringBytes (outgoing enc ipAddress))
  rw [sentPassword, hf, loginRequest]
  simp only [List.drop_succ_cons, List.append_assoc]
  rw [List.drop_left' (length_writeU32Le _), htake]
  rfl

theorem outgoing_field_iff {capacity : Nat} {text : List UInt8} (hz : 0 ∉ text) (hc : 0 < capacity) :
    outgoing .latin1 (field .latin1 capacity (some text)) = text ↔ (encodeLatin1 text).length < capacity := by
  by_cases hlt : (encodeLatin1 text).length < capacity
  · exact iff_of_true (outgoing_field_latin1 hz hlt) hlt
  · refine iff_of_false (fun he => hlt ?_) hlt
    have hempty : cString (List.replicate capacity 0) = [] := by
      rw [cString, List.takeWhile_replicate]
      rfl
    rw [field_of_ge .latin1 hlt, outgoing, hempty] at he
    rw [← he]
    exact hc

theorem readCredentials_block {data first second rest email password : List UInt8} (hlen : data.length = 128)
    (hblock : data.drop 17 = first ++ (second ++ rest)) (hemail : WireString first email)
    (hpassword : WireString second password) :
    readCredentials .latin1 ⟨data, 17⟩ =
      .ok (some ⟨field .latin1 51 (some email), field .latin1 30 (some password)⟩) := by
  have hbefore : (data.take 17).length = 17 := by
    rw [List.length_take]
    omega
  have hdata : data = data.take 17 ++ (first ++ (second ++ rest)) := by rw [← hblock, List.take_append_drop]
  have hdata' : data = data.take 17 ++ first ++ (second ++ rest) := by rw [List.append_assoc, ← hdata]
  have h51 : (List.replicate 51 (0 : UInt8)).length < 2147483648 := by simp
  have h30 : (List.replicate 30 (0 : UInt8)).length < 2147483648 := by simp
  have h₁ := readString_wire_short .latin1 h51 hdata (by omega) hemail
  have h₂ := readString_wire_short .latin1 h30 hdata' (by omega) hpassword
  have hend : (data.take 17 ++ first ++ second).length ≤ 128 := by
    rw [← hlen]
    conv_rhs => rw [hdata']
    simp only [List.length_append]
    omega
  have ho : BufferReader.overflowed ⟨data, ((data.take 17 ++ first ++ second).length : Nat)⟩ = false := by
    simp only [BufferReader.overflowed, BufferReader.size, hlen, decide_eq_false_iff_not]
    omega
  rw [hbefore] at h₁
  rw [readCredentials]
  refine (congrArg (· >>= _) h₁).trans ?_
  rw [ok_bind]
  simp only
  rw [h₂, ok_bind]
  simp only [ho, List.length_replicate]
  rfl

section

variable {build : Build} (henc : build.encoding = .latin1) {rsa : RsaKey} {stray : Stray} {c : Connection}
  (hb : c.buffer.length = 2048) {data first second rest email password : List UInt8}
  (hdata : rsa.decrypt (asymmetricBlock c) = some data) (hblock : data.drop 17 = first ++ (second ++ rest))
  (hemail : WireString first email) (hpassword : WireString second password)

include henc hb hdata hblock hemail hpassword

theorem queryCredentials_block {cred : Credentials} (hq : queryCredentials build rsa stray c = some cred) :
    cred = ⟨field .latin1 51 (some email), field .latin1 30 (some password)⟩ ∧ cred.email.headD 0 ≠ 0 := by
  have hlen : data.length = 128 := by
    rw [rsa.length_decrypt hdata, asymmetricBlock, List.length_take, List.length_drop]
    omega
  rw [queryCredentials] at hq
  by_cases hrefused : ∀ data, c.rwSize = 145 → rsa.decrypt (asymmetricBlock c) = some data → data.headD 0 ≠ 0
  · rw [decodeLogin_refused stray hb hrefused] at hq
    cases hq
  · simp only [not_forall, not_not] at hrefused
    obtain ⟨data', hsize, hdata', hz⟩ := hrefused
    rw [hdata] at hdata'
    cases hdata'
    rw [decodeLogin_block stray hb hsize hdata hz, henc, readCredentials_block hlen hblock hemail hpassword] at hq
    simp only [orStray, Option.map_some] at hq
    split_ifs at hq with h
    cases hq
    exact ⟨rfl, h.1⟩

/-- The address is sent as it came, and the password exactly when its field
holds it. -/
theorem credentials_transparent_iff {σ : Type} (randR : UInt32 → Int × UInt32) (exchange : Exchange σ)
    (config : ServerConfig) (hs : c.state = .processing) (hz : 0 ∉ email) (hz' : 0 ∉ password) {s s' : Session σ}
    {c' : Connection} (hp : processLoginRequest build rsa randR exchange config stray c s = .ok (c', s'))
    (hsent : ∃ e ∈ s'.queries.drop s.queries.length, Asks .loginAccount e) :
    ∃ resolve login, s'.queries = s.queries ++ [resolve, login] ∧ Asks .resolveEmail resolve ∧
      Asks .loginAccount login ∧
      (sentEmail resolve.request = some email ∧ sentPassword login.request = some password ↔
        (encodeLatin1 password).length ≤ 29) := by
  obtain ⟨e, he, hasks⟩ := hsent
  rcases login_queries hb hs hp with hsame | ⟨cred, queries, hq, hfits, hqueries, hlogin⟩
  · rw [hsame] at he
    simp at he
  · rw [hqueries, List.drop_left] at he
    obtain ⟨resolve, accountId, rfl, hresolve, hrequest⟩ := hlogin.asked hfits he hasks
    obtain ⟨hcred, hhead⟩ := queryCredentials_block henc hb hdata hblock hemail hpassword hq
    have hlong := hfits.email
    have hlong' := hfits.password
    have hi : (ipString c.ipAddress).length ≤ 64 := (length_ipString_le c.ipAddress).trans (by decide)
    obtain ⟨a, b, hf⟩ := requestFrame_short (length_resolveRequest_lt build.encoding cred.email (by omega))
    refine ⟨resolve, e, hqueries, ?_, hasks, ?_⟩
    · rw [Asks, hresolve, hf]
      rfl
    · rw [hresolve, hrequest, sentEmail_frame build.encoding (by omega),
        sentPassword_frame build.encoding accountId (by omega) hi, hcred, henc, Option.some.injEq, Option.some.injEq,
        outgoing_field_iff hz (by omega), outgoing_field_iff hz' (by omega)]
      have hfit : (encodeLatin1 email).length < 51 := by
        by_contra hlt
        rw [hcred, field_of_ge .latin1 hlt] at hhead
        exact hhead rfl
      omega

end

theorem credentials_transparent_short :
    ∃ c' s' resolve login, processLoginRequest ⟨.latin1, false⟩ default (fun seed => (0, seed)) scripted default default
        (plainLogin [1, 0, 97, 2, 0, 98, 98]) ⟨[[0, 7, 0, 0, 0], [1, 2]], []⟩ = .ok (c', s') ∧
      s'.queries = [] ++ [resolve, login] ∧
      sentEmail resolve.request = some [97] ∧ sentPassword login.request = some [98, 98] := by
  have hrun : ((processLoginRequest ⟨.latin1, false⟩ default (fun seed => (0, seed)) scripted default default
      (plainLogin [1, 0, 97, 2, 0, 98, 98]) ⟨[[0, 7, 0, 0, 0], [1, 2]], []⟩).toOption.map fun r =>
        r.2.queries.map fun e => e.request[2]?) = some [some 13, some 11] := by
    decide +kernel
  cases hp : processLoginRequest ⟨.latin1, false⟩ default (fun seed => (0, seed)) scripted default default
      (plainLogin [1, 0, 97, 2, 0, 98, 98]) ⟨[[0, 7, 0, 0, 0], [1, 2]], []⟩ with
  | error fault =>
      rw [hp] at hrun
      cases hrun
  | ok r =>
      obtain ⟨c', s'⟩ := r
      rw [hp] at hrun
      simp only [Except.toOption, Option.map_some, Option.some.injEq] at hrun
      have hsent : ∃ e ∈ s'.queries.drop 0, Asks .loginAccount e := by
        have hmem : some 11 ∈ s'.queries.map fun e => e.request[2]? := by
          rw [hrun]
          simp
        exact List.mem_map.mp hmem
      have hblock : (asymmetricBlock (plainLogin [1, 0, 97, 2, 0, 98, 98])).drop 17 =
          [1, 0, 97] ++ ([2, 0, 98, 98] ++ List.replicate 104 0) := by
        decide +kernel
      obtain ⟨resolve, login, hq, -, -, hiff⟩ := credentials_transparent_iff
        (show (⟨.latin1, false⟩ : Build).encoding = .latin1 from rfl) (length_plainLogin [1, 0, 97, 2, 0, 98, 98] (by decide)) rfl hblock (.short 1 0 [97] (by decide) rfl)
        (.short 2 0 [98, 98] (by decide) rfl) _ _ _ rfl (by decide) (by decide) hp hsent
      obtain ⟨hemail, hpassword⟩ := hiff.mpr (by decide)
      exact ⟨c', s', resolve, login, rfl, hq, hemail, hpassword⟩

/-- A password of thirty letters is asked for as an empty one. -/
theorem long_password_emptied :
    (asymmetricBlock (plainLogin ([1, 0, 97, 30, 0] ++ List.replicate 30 98))).drop 17 =
        [1, 0, 97] ++ (30 :: 0 :: List.replicate 30 98 ++ List.replicate 76 0) ∧
      ((processLoginRequest ⟨.latin1, false⟩ default (fun seed => (0, seed)) scripted default default
        (plainLogin ([1, 0, 97, 30, 0] ++ List.replicate 30 98)) ⟨[[0, 7, 0, 0, 0], [1, 2]], []⟩).toOption.map fun r =>
          r.2.queries.getLast?.map fun e => (e.request[2]?, sentPassword e.request)) =
        some (some (some 11, some [])) := by
  decide +kernel

end TibiaLogin.CredentialFlow
