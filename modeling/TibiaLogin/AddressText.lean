import TibiaLogin.CharacterList
import TibiaLogin.TransportAgreement

namespace TibiaLogin.AddressText

open MachineInt Memory Text ByteOrder Utf8 Latin1 BufferWriter Query LoginQuery LoginHandler Authorisation CharacterList
  PeerAddress WebSocket TransportAgreement

def hexOctet (b : UInt8) : List UInt8 :=
  [UInt8.ofNat (b.toNat / 16).digitChar.toNat, UInt8.ofNat (b.toNat % 16).digitChar.toNat]

def quad (a b c d : UInt8) : List UInt8 :=
  decimal a.toNat ++ 46 :: (decimal b.toNat ++ 46 :: (decimal c.toNat ++ 46 :: decimal d.toNat))

/-- The text that stands for the bytes of an address: a dotted quad for four of
them, eight groups of two for the sixteen of an IPv6 address. -/
def addressAsText (binary : List UInt8) : List UInt8 :=
  let b (i : Nat) : UInt8 := binary.getD i 0
  if binary.length = 0 then []
  else if binary.length = 4 then quad (b 0) (b 1) (b 2) (b 3)
  else List.intercalate [58] ((List.range 8).map fun i => hexOctet (b (2 * i)) ++ hexOctet (b (2 * i + 1)))

/-- How the socket of an IPv4 peer reports it. -/
inductive AddressForm
  | plain
  | mapped
  deriving DecidableEq, Repr

def remoteAddress : AddressForm → UInt8 → UInt8 → UInt8 → UInt8 → List UInt8
  | .plain, a, b, c, d => [a, b, c, d]
  | .mapped, a, b, c, d => List.replicate 10 0 ++ [255, 255, a, b, c, d]

/-- A worker that the message handler starts for a peer. -/
def Started (binary : List UInt8) (worker : Worker) : Prop :=
  ∃ address data message s,
    (receiveMessage address data true message (peerAddress (addressAsText binary)) s).workers = s.workers ++ [worker]

/-- The second string of a LoginAccount request, behind the account id and the
password. -/
def sentAddress (frame : List UInt8) : Option (List UInt8) := do
  let (_, rest) ← takeText (frame.drop 7)
  let (address, _) ← takeText rest
  pure address

/-- A peer is known by its address in the connection of its request and in
every login query made for it. -/
structure Identified (form : AddressForm) (a b c d : UInt8) : Prop where
  connection : ∀ worker, Started (remoteAddress form a b c d) worker → ∀ seed,
    (wsConnection worker.message seed).ipAddress = wrap32 (readU32Be [a, b, c, d]).toNat
  queries : ∀ worker, Started (remoteAddress form a b c d) worker →
    ∀ (σ : Type) build rsa randR (exchange : Exchange σ) config run action session,
      wsLogin build rsa randR exchange config worker.message run = .ok (action, session) →
      ∀ e ∈ session.queries.drop run.session.queries.length, Asks .loginAccount e →
        sentAddress e.request = some (quad a b c d)

theorem encodeLatin1_ascii {str : List UInt8} (h : ∀ ch ∈ str, ch.toNat < 128) : encodeLatin1 str = str := by
  induction str with
  | nil => rfl
  | cons ch str ih =>
      obtain ⟨hch, hstr⟩ := List.forall_mem_cons.mp h
      have hsize : utf8EncodedSize ch.toNat = 1 := by
        rw [utf8EncodedSize_byte, if_pos hch]
      have hbytes : utf8Bytes ch.toNat = [ch] := by
        simp only [utf8Bytes, hsize, Nat.toUInt8_eq, UInt8.ofNat_toNat]
      rw [encodeLatin1_cons, hbytes, ih hstr]
      rfl

theorem outgoing_ascii (enc : ClientEncoding) {str : List UInt8} (h : ∀ ch ∈ str, 0 < ch.toNat ∧ ch.toNat < 128) :
    outgoing enc str = str := by
  have hz : 0 ∉ str := fun hmem => absurd (h 0 hmem).1 (by decide)
  have hwhole := cString_of_nonzero hz
  cases enc with
  | utf8 => exact hwhole
  | latin1 =>
      have hround := toLatin1_encodeLatin1 str
      rw [encodeLatin1_ascii fun ch hch => (h ch hch).2] at hround
      rw [outgoing, hwhole, hround]

theorem mem_quad {a b c d ch : UInt8} (h : ch ∈ quad a b c d) : ch = 46 ∨ 48 ≤ ch ∧ ch ≤ 57 := by
  simp only [quad, List.mem_append, List.mem_cons] at h
  rcases h with h | h | h | h | h | h | h
  · exact Or.inr (digits_decimal _ ch h)
  · exact Or.inl h
  · exact Or.inr (digits_decimal _ ch h)
  · exact Or.inl h
  · exact Or.inr (digits_decimal _ ch h)
  · exact Or.inl h
  · exact Or.inr (digits_decimal _ ch h)

theorem outgoing_quad (enc : ClientEncoding) (a b c d : UInt8) : outgoing enc (quad a b c d) = quad a b c d := by
  refine outgoing_ascii enc fun ch hch => ?_
  rcases mem_quad hch with rfl | ⟨hlo, hhi⟩
  · decide
  · rw [UInt8.le_iff_toNat_le] at hlo hhi
    exact ⟨Nat.lt_of_lt_of_le (by decide) hlo, Nat.lt_of_le_of_lt hhi (by decide)⟩

theorem dottedQuad_readU32Be (a b c d : UInt8) : dottedQuad (readU32Be [a, b, c, d]) = quad a b c d := by
  have ha := a.toNat_lt
  have hb := b.toNat_lt
  have hc := c.toNat_lt
  have hd := d.toNat_lt
  have hsum := readU32Le_toNat d c b a []
  rw [← readU32Be_eq a b c d []] at hsum
  have hoctets : (readU32Be [a, b, c, d]).toNat / 2 ^ 24 % 256 = a.toNat ∧
      (readU32Be [a, b, c, d]).toNat / 2 ^ 16 % 256 = b.toNat ∧
      (readU32Be [a, b, c, d]).toNat / 2 ^ 8 % 256 = c.toNat ∧ (readU32Be [a, b, c, d]).toNat % 256 = d.toNat := by
    omega
  obtain ⟨h₁, h₂, h₃, h₄⟩ := hoctets
  rw [dottedQuad, quad, h₁, h₂, h₃, h₄]

theorem ipString_wrap32 (addr : UInt32) : ipString (wrap32 addr.toNat) = dottedQuad addr := by
  have hlt := addr.toNat_lt
  have hoctet : ∀ shift n, (wrap32 addr.toNat / 2 ^ shift % 256).toNat = n →
      octet (wrap32 addr.toNat) shift = decimal n := by
    intro shift n h
    rw [octet, h, decimal]
  have h₁ := hoctet 24 (addr.toNat / 2 ^ 24 % 256) (by rw [wrap32]; omega)
  have h₂ := hoctet 16 (addr.toNat / 2 ^ 16 % 256) (by rw [wrap32]; omega)
  have h₃ := hoctet 8 (addr.toNat / 2 ^ 8 % 256) (by rw [wrap32]; omega)
  have h₄ := hoctet 0 (addr.toNat % 256) (by rw [wrap32]; omega)
  rw [ipString, dottedQuad, h₁, h₂, h₃, h₄]
  simp only [List.append_assoc, List.cons_append, List.nil_append]

theorem peerAddress_plain (a b c d : UInt8) :
    peerAddress (addressAsText (remoteAddress .plain a b c d)) = wrap32 (readU32Be [a, b, c, d]).toNat :=
  peerAddress_eq _ (Or.inl (dottedQuad_readU32Be a b c d).symm)

/-- A mapped address starts with groups of zeros, not with a colon, and the
second zero ends the scan for a dotted quad. -/
theorem peerAddress_mapped (a b c d : UInt8) :
    peerAddress (addressAsText (remoteAddress .mapped a b c d)) = 0 := by
  obtain ⟨rest, hrest⟩ : ∃ rest, addressAsText (remoteAddress .mapped a b c d) = 48 :: 48 :: rest := by
    have hlen : (remoteAddress .mapped a b c d).length = 16 := rfl
    have hgroups : List.range 8 = [0, 1, 2, 3, 4, 5, 6, 7] := rfl
    have hbyte : (remoteAddress .mapped a b c d).getD (2 * 0) 0 = 0 := rfl
    have hzero : hexOctet 0 = [48, 48] := by decide
    rw [addressAsText]
    simp only [hlen]
    rw [if_neg (by decide), if_neg (by decide), hgroups, List.map_cons, List.map_cons, List.intercalate_cons_cons,
      hbyte, hzero, List.append_assoc, List.append_assoc]
    exact ⟨_, rfl⟩
  have hstrip : stripMapped (48 :: 48 :: rest) = 48 :: 48 :: rest := by
    rw [stripMapped, if_neg]
    intro h
    exact absurd (List.cons.inj h).1 (by decide)
  rw [hrest, peerAddress, hstrip, parseIpv4Address]
  rfl

theorem readU32Be_eq_zero (a b c d : UInt8) :
    wrap32 (readU32Be [a, b, c, d]).toNat = 0 ↔ a = 0 ∧ b = 0 ∧ c = 0 ∧ d = 0 := by
  have ha := a.toNat_lt
  have hb := b.toNat_lt
  have hc := c.toNat_lt
  have hd := d.toNat_lt
  have hsum := readU32Le_toNat d c b a []
  rw [← readU32Be_eq a b c d []] at hsum
  simp only [← UInt8.toNat_inj]
  rw [wrap32, hsum, show (0 : UInt8).toNat = 0 from rfl]
  omega

theorem started_message {binary : List UInt8} {worker : Worker} (h : Started binary worker) :
    worker.message.ipAddress = peerAddress (addressAsText binary) ∧ worker.message.bytes.length ≤ 2048 := by
  obtain ⟨address, data, message, s, hworkers⟩ := h
  have hclosed : (closeSocket address s).workers ≠ s.workers ++ [worker] := by
    have hsame : (closeSocket address s).workers = s.workers := by
      rw [closeSocket]
      cases s.sockets address <;> rfl
    rw [hsame]
    exact fun heq => absurd (congrArg List.length heq) (by simp)
  rw [receiveMessage, if_neg (by decide)] at hworkers
  simp only at hworkers
  split_ifs at hworkers with hsize hcommand
  · exact absurd hworkers hclosed
  · cases List.append_cancel_left hworkers
    refine ⟨rfl, ?_⟩
    rw [List.length_drop]
    omega
  · exact absurd hworkers hclosed

theorem exists_started (binary : List UInt8) : ∃ worker, Started binary worker :=
  ⟨⟨1, ⟨[1], peerAddress (addressAsText binary)⟩, 1⟩, 0, ⟨1, 1⟩, [1, 0, 1], .initial, rfl⟩

theorem sentAddress_frame (enc : ClientEncoding) (accountId : Int) {password ipAddress : List UInt8}
    (hp : password.length ≤ 64) (hi : ipAddress.length ≤ 64) :
    sentAddress (requestFrame (loginRequest enc accountId password ipAddress)) = some (outgoing enc ipAddress) := by
  obtain ⟨a, b, hf⟩ := requestFrame_short (length_loginRequest_lt enc accountId password ipAddress hp hi)
  have hpassword := length_outgoing_le enc password
  have haddress := length_outgoing_le enc ipAddress
  have hfirst := takeText_stringBytes (show (outgoing enc password).length < 0xFFFF by omega)
    (stringBytes (outgoing enc ipAddress))
  have hsecond := takeText_stringBytes (show (outgoing enc ipAddress).length < 0xFFFF by omega) []
  rw [List.append_nil] at hsecond
  rw [sentAddress, hf, loginRequest]
  simp only [List.drop_succ_cons, List.append_assoc]
  rw [List.drop_left' (length_writeU32Le _), hfirst]
  simp only [Option.bind_eq_bind, Option.bind_some, hsecond]
  rfl

theorem sentAddress_of_login {σ : Type} {build : Build} {rsa : RsaKey} {randR : UInt32 → Int × UInt32}
    {exchange : Exchange σ} {config : ServerConfig} {stray : Stray} {c c' : Connection} {s s' : Session σ}
    (hb : c.buffer.length = 2048) (hs : c.state = .processing)
    (hp : processLoginRequest build rsa randR exchange config stray c s = .ok (c', s')) {e : Executed}
    (he : e ∈ s'.queries.drop s.queries.length) (hasks : Asks .loginAccount e) :
    sentAddress e.request = some (outgoing build.encoding (ipString c.ipAddress)) := by
  rcases login_queries hb hs hp with hsame | ⟨cred, queries, -, hfits, hqueries, hlogin⟩
  · rw [hsame] at he
    simp at he
  · rw [hqueries, List.drop_left] at he
    obtain ⟨resolve, accountId, -, -, hrequest⟩ := hlogin.asked hfits he hasks
    have hlong := hfits.password
    have hi : (ipString c.ipAddress).length ≤ 64 := (length_ipString_le c.ipAddress).trans (by decide)
    rw [hrequest, sentAddress_frame build.encoding accountId (by omega) hi]

theorem sentAddress_of_wsLogin {σ : Type} {build : Build} {rsa : RsaKey} {randR : UInt32 → Int × UInt32}
    {exchange : Exchange σ} {config : ServerConfig} {message : LoginMessage} {run : WorkerRun σ} {action : Action}
    {session : Session σ} (hlen : message.bytes.length ≤ 2048)
    (hrun : wsLogin build rsa randR exchange config message run = .ok (action, session)) {e : Executed}
    (he : e ∈ session.queries.drop run.session.queries.length) (hasks : Asks .loginAccount e) :
    sentAddress e.request = some (outgoing build.encoding (ipString message.ipAddress)) := by
  rw [wsLogin] at hrun
  split_ifs at hrun with hconnected
  · cases hrun
    simp at he
  · obtain ⟨⟨c, s⟩, hp, hrun⟩ := bind_eq_ok.mp hrun
    cases hrun
    exact sentAddress_of_login (wsConnection_sized message hlen run.randomSeed).1 rfl hp he hasks

theorem identified_of_peerAddress {form : AddressForm} {a b c d : UInt8}
    (h : peerAddress (addressAsText (remoteAddress form a b c d)) = wrap32 (readU32Be [a, b, c, d]).toNat) :
    Identified form a b c d := by
  constructor
  · intro worker hstarted seed
    rw [wsConnection, (started_message hstarted).1, h]
  · intro worker hstarted σ build rsa randR exchange config run action session hrun e he hasks
    obtain ⟨hip, hlen⟩ := started_message hstarted
    rw [sentAddress_of_wsLogin hlen hrun he hasks, hip, h, ipString_wrap32, dottedQuad_readU32Be, outgoing_quad]

theorem peerAddress_of_identified {form : AddressForm} {a b c d : UInt8} (h : Identified form a b c d) :
    peerAddress (addressAsText (remoteAddress form a b c d)) = wrap32 (readU32Be [a, b, c, d]).toNat := by
  obtain ⟨worker, hstarted⟩ := exists_started (remoteAddress form a b c d)
  rw [← (started_message hstarted).1]
  exact h.connection worker hstarted 0

/-- A peer is identified in the form of four bytes, and in the mapped form only
where a failed parse happens to give its address. -/
theorem peer_identified_iff (form : AddressForm) (a b c d : UInt8) :
    Identified form a b c d ↔ form = .plain ∨ (a = 0 ∧ b = 0 ∧ c = 0 ∧ d = 0) := by
  cases form with
  | plain => exact iff_of_true (identified_of_peerAddress (peerAddress_plain a b c d)) (Or.inl rfl)
  | mapped =>
      have hzero := readU32Be_eq_zero a b c d
      constructor
      · intro h
        have haddr := peerAddress_of_identified h
        rw [peerAddress_mapped] at haddr
        exact Or.inr (hzero.mp haddr.symm)
      · rintro (h | h)
        · cases h
        · refine identified_of_peerAddress ?_
          rw [peerAddress_mapped, hzero.mpr h]

/-- The text of a mapped address, which is not the one that the acceptor looks for. -/
example : addressAsText (remoteAddress .mapped 127 0 0 1) = text "0000:0000:0000:0000:0000:ffff:7f00:0001" := by decide

theorem mapped_loopback_unidentified : ¬Identified .mapped 127 0 0 1 := by
  intro h
  have haddr := peerAddress_of_identified h
  rw [peerAddress_mapped] at haddr
  exact absurd haddr (by decide)

end TibiaLogin.AddressText
