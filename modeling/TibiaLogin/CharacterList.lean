import TibiaLogin.Authorisation
import TibiaLogin.Wire

namespace TibiaLogin.CharacterList

open MachineInt Memory ByteOrder Latin1 BufferReader BufferWriter Xtea Wire Query LoginQuery LoginResponse
  LoginHandler Authorisation

/-- A character as the query manager and the client both see it. -/
structure Character where
  name : List UInt8
  world : List UInt8
  address : UInt32
  port : UInt16
  deriving DecidableEq, Repr

/-- Latin-1 text that a field of thirty bytes holds whole. -/
structure Storable (text : List UInt8) : Prop where
  nonzero : 0 ∉ text
  fits : (encodeLatin1 text).length ≤ 29

structure Character.Storable (ch : Character) : Prop where
  name : CharacterList.Storable ch.name
  world : CharacterList.Storable ch.world

inductive Entry : Character → List UInt8 → Prop
  | mk {ch : Character} {name world : List UInt8} (hname : WireString name ch.name)
      (hworld : WireString world ch.world) :
      Entry ch (name ++ (world ++ (ByteOrder.writeU32Be ch.address ++ writeU16Le ch.port)))

/-- A well-formed Ok response to LoginAccount. -/
def OkReply (characters : List Character) (premiumDays : UInt16) (reply : List UInt8) : Prop :=
  ∃ entries, List.Forall₂ Entry characters entries ∧
    reply = 0 :: UInt8.ofNat characters.length :: (entries.flatten ++ writeU16Le premiumDays)

def takeU16 : List UInt8 → Option (UInt16 × List UInt8)
  | a :: b :: rest => some (readU16Le [a, b], rest)
  | _ => none

def takeU32Be : List UInt8 → Option (UInt32 × List UInt8)
  | a :: b :: c :: d :: rest => some (ByteOrder.readU32Be [a, b, c, d], rest)
  | _ => none

def takeText (bytes : List UInt8) : Option (List UInt8 × List UInt8) := do
  let (length, rest) ← takeU16 bytes
  if length.toNat ≤ rest.length then some (rest.take length.toNat, rest.drop length.toNat) else none

def takeCharacter (bytes : List UInt8) : Option (Character × List UInt8) := do
  let (name, rest) ← takeText bytes
  let (world, rest) ← takeText rest
  let (address, rest) ← takeU32Be rest
  let (port, rest) ← takeU16 rest
  some (⟨name, world, address, port⟩, rest)

def takeCharacters : Nat → List UInt8 → Option (List Character × List UInt8)
  | 0, bytes => some ([], bytes)
  | n + 1, bytes => do
      let (ch, rest) ← takeCharacter bytes
      let (characters, rest) ← takeCharacters n rest
      some (ch :: characters, rest)

def takeMotd : List UInt8 → Option (Option (List UInt8) × List UInt8)
  | 20 :: bytes => do
      let (motd, rest) ← takeText bytes
      some (some motd, rest)
  | bytes => some (none, bytes)

structure View where
  motd : Option (List UInt8)
  characters : List Character
  premiumDays : UInt16
  deriving DecidableEq, Repr

def parseView (bytes : List UInt8) : Option View := do
  let (motd, rest) ← takeMotd bytes
  match rest with
  | 100 :: count :: rest =>
      let (characters, rest) ← takeCharacters count.toNat rest
      let (premiumDays, rest) ← takeU16 rest
      if rest = [] then some ⟨motd, characters, premiumDays⟩ else none
  | _ => none

def sent (c : Connection) : List UInt8 := c.buffer.take c.rwSize.toNat

def encryptedSize (c : Connection) : Nat := (readU16Le (sent c)).toNat

def plain (key : Key) (c : Connection) : List UInt8 := xteaDecrypt key (((sent c).drop 2).take (encryptedSize c))

def dataSize (key : Key) (c : Connection) : Nat := (readU16Le (plain key c)).toNat

/-- The client with the key takes the sent bytes apart down to the view. -/
structure ClientReads (key : Key) (c : Connection) (view : View) : Prop where
  whole : c.rwSize = (encryptedSize c + 2 : Nat)
  blocks : encryptedSize c % 8 = 0
  data_le : dataSize key c + 2 ≤ encryptedSize c
  padding_le : encryptedSize c - 2 - dataSize key c ≤ 7
  parsed : parseView (((plain key c).drop 2).take (dataSize key c)) = some view

def motdView (motd : List UInt8) : Option (List UInt8) :=
  if motd.headD 0 ≠ 0 then some (toLatin1 (cString motd)) else none

def stored (ch : Character) : CharacterLoginData :=
  ⟨field .latin1 30 (some ch.name), field .latin1 30 (some ch.world), wrap32 ch.address.toNat, ch.port.toNat⟩

def entryBytes (ch : Character) : List UInt8 :=
  stringBytes ch.name ++ (stringBytes ch.world ++ (ByteOrder.writeU32Be ch.address ++ writeU16Le ch.port))

theorem outgoing_field {text : List UInt8} (h : Storable text) :
    outgoing .latin1 (field .latin1 30 (some text)) = text := by
  have hf := h.fits
  exact outgoing_field_latin1 h.nonzero (by omega)

theorem characterEntry_stored {ch : Character} (h : ch.Storable) :
    characterEntry .latin1 (stored ch) = entryBytes ch := by
  simp only [characterEntry, stored, outgoing_field h.name, outgoing_field h.world, toU32_wrap32, toU16_toNat,
    entryBytes, List.append_assoc]

theorem readCharacters_entries {characters : List Character} {entries : List (List UInt8)}
    (h : List.Forall₂ Entry characters entries) {buf before rest : List UInt8}
    (hbuf : buf = before ++ (entries.flatten ++ rest)) (hlen : buf.length < 1000000) :
    readCharacters .latin1 characters.length ⟨buf, (before.length : Nat)⟩ =
      .ok (characters.map stored, ⟨buf, ((before ++ entries.flatten).length : Nat)⟩) := by
  induction h generalizing before with
  | nil => rw [List.flatten_nil, List.append_nil]; rfl
  | @cons ch entry characters entries he hrest ih =>
      cases he with
      | @mk name world hname hworld =>
          have hd : (List.replicate 30 (0 : UInt8)).length < 2147483648 := by simp
          have hbuf₁ : buf = before ++ (name ++ (world ++ (ByteOrder.writeU32Be ch.address ++
              (writeU16Le ch.port ++ (entries.flatten ++ rest))))) := by
            simp [hbuf]
          have hbuf₂ : buf = before ++ name ++ (world ++ (ByteOrder.writeU32Be ch.address ++
              (writeU16Le ch.port ++ (entries.flatten ++ rest)))) := by
            simp [hbuf]
          have hbuf₅ : buf = before ++ name ++ world ++ ByteOrder.writeU32Be ch.address ++ writeU16Le ch.port ++
              (entries.flatten ++ rest) := by
            simp [hbuf]
          have h₁ := readString_wire_short .latin1 hd hbuf₁ (by omega) hname
          have h₂ := readString_wire_short .latin1 hd hbuf₂ (by omega) hworld
          have h₃ : readU32Be ⟨buf, ((before ++ name ++ world).length : Nat)⟩ = _ :=
            readScalar_bytes ByteOrder.readU32Be (ByteOrder.writeU32Be ch.address)
              (writeU16Le ch.port ++ (entries.flatten ++ rest)) (by simp [hbuf]) (by omega)
          have h₄ : readU16 ⟨buf, ((before ++ name ++ world ++ ByteOrder.writeU32Be ch.address).length : Nat)⟩ = _ :=
            readScalar_bytes readU16Le (writeU16Le ch.port) (entries.flatten ++ rest) (by simp [hbuf]) (by omega)
          have h₅ := ih hbuf₅
          have ha := readU32Be_writeU32Be ch.address []
          have hp := readU16Le_writeU16Le ch.port []
          rw [List.append_nil] at ha hp
          rw [ha] at h₃
          rw [hp] at h₄
          rw [List.length_cons, readCharacters, h₁, ok_bind]
          simp only
          rw [h₂, ok_bind]
          simp only
          rw [h₃, ok_bind]
          simp only
          rw [h₄, ok_bind]
          simp only
          rw [h₅, ok_bind]
          simp only [List.flatten_cons, List.append_assoc]
          rfl

theorem loginResult_okReply (stray : StrayReply) {characters : List Character} {premiumDays : UInt16}
    {reply : List UInt8} (hcount : characters.length ≤ 50) (h : OkReply characters premiumDays reply)
    (hlen : reply.length ≤ 4096) :
    loginResult .latin1 stray 50 (.ofByte (reply.headD 0)) ⟨reply, 1⟩ =
      .ok (0, characters.map stored, premiumDays.toNat) := by
  obtain ⟨entries, he, hr⟩ := h
  have hsmall : characters.length < 256 := by omega
  have hn : (UInt8.ofNat characters.length).toNat = characters.length := UInt8.toNat_ofNat_of_lt' hsmall
  have hr' : reply = [0, UInt8.ofNat characters.length] ++ (entries.flatten ++ writeU16Le premiumDays) := hr
  have hchars : readCharacters .latin1 characters.length ⟨reply, 2⟩ = _ :=
    readCharacters_entries he hr' (by omega)
  have hdays : readU16 ⟨reply, (([0, UInt8.ofNat characters.length] ++ entries.flatten).length : Nat)⟩ = _ :=
    readScalar_bytes readU16Le (writeU16Le premiumDays) [] (by simp [hr]) (by omega)
  have hd := readU16Le_writeU16Le premiumDays []
  rw [List.append_nil] at hd
  have hreply : readReply .latin1 characters.length ⟨reply, 2⟩ =
      .ok (characters.map stored, premiumDays.toNat) := by
    rw [readReply, hchars, ok_bind]
    simp only
    rw [hdays, ok_bind, hd]
    rfl
  have hsecond : (reply.drop 1).headD 0 = UInt8.ofNat characters.length := by rw [hr]; rfl
  have hstatus : QueryStatus.ofByte (reply.headD 0) = .ok := by rw [hr]; rfl
  rw [hstatus]
  simp only [loginResult]
  rw [readU8_second, ok_bind, hsecond, hn, if_neg (by omega), hreply]
  rfl

theorem takeU16_write (v : UInt16) (rest : List UInt8) : takeU16 (writeU16Le v ++ rest) = some (v, rest) := by
  have h := readU16Le_writeU16Le v []
  rw [List.append_nil] at h
  calc takeU16 (writeU16Le v ++ rest) = some (readU16Le (writeU16Le v), rest) := rfl
    _ = some (v, rest) := by rw [h]

theorem takeU32Be_write (v : UInt32) (rest : List UInt8) :
    takeU32Be (ByteOrder.writeU32Be v ++ rest) = some (v, rest) := by
  have h := readU32Be_writeU32Be v []
  rw [List.append_nil] at h
  calc takeU32Be (ByteOrder.writeU32Be v ++ rest) = some (ByteOrder.readU32Be (ByteOrder.writeU32Be v), rest) := rfl
    _ = some (v, rest) := by rw [h]

theorem takeText_stringBytes {text : List UInt8} (h : text.length < 0xFFFF) (rest : List UInt8) :
    takeText (stringBytes text ++ rest) = some (text, rest) := by
  have hlength : (toU16 text.length).toNat = text.length := toNat_toU16 (by omega)
  rw [stringBytes, lengthField, if_pos h, List.append_assoc, takeText, takeU16_write]
  simp only [Option.bind_eq_bind, Option.bind_some, hlength]
  rw [if_pos (by rw [List.length_append]; omega), List.take_left, List.drop_left]

theorem Storable.length_lt {text : List UInt8} (h : Storable text) : text.length < 0xFFFF := by
  have hl := length_le_length_encodeLatin1 text
  have hf := h.fits
  omega

theorem takeCharacters_entryBytes {characters : List Character} (h : ∀ ch ∈ characters, ch.Storable)
    (rest : List UInt8) :
    takeCharacters characters.length (characters.flatMap entryBytes ++ rest) = some (characters, rest) := by
  induction characters with
  | nil => rfl
  | cons ch characters ih =>
      have hch := h ch (List.mem_cons_self ..)
      have hrest := ih fun d hd => h d (List.mem_cons_of_mem _ hd)
      rw [List.length_cons, List.flatMap_cons, takeCharacters, takeCharacter, entryBytes]
      simp only [List.append_assoc]
      rw [takeText_stringBytes hch.name.length_lt]
      simp only [Option.bind_eq_bind, Option.bind_some]
      rw [takeText_stringBytes hch.world.length_lt]
      simp only [Option.bind_some, takeU32Be_write, takeU16_write, hrest]

theorem takeMotd_motdPacket {motd : List UInt8} (hm : motd.length ≤ 256) (rest : List UInt8) :
    takeMotd (motdPacket .latin1 motd ++ (100 :: rest)) = some (motdView motd, 100 :: rest) := by
  have hl := length_outgoing_le .latin1 motd
  rw [motdPacket, motdView]
  split_ifs with hz
  · rw [List.cons_append, takeMotd, takeText_stringBytes (by omega)]
    rfl
  · rfl

theorem parseView_packets {config : ServerConfig} {characters : List Character} (premiumDays : UInt16)
    (hcount : characters.length ≤ 50) (h : ∀ ch ∈ characters, ch.Storable) :
    parseView (motdPacket .latin1 config.motd ++ listPacket .latin1 (characters.map stored) premiumDays.toNat) =
      some ⟨motdView config.motd, characters, premiumDays⟩ := by
  have hentries : (characters.map stored).flatMap (characterEntry .latin1) = characters.flatMap entryBytes := by
    rw [List.flatMap_map]
    exact List.flatMap_congr fun ch hch => characterEntry_stored (h ch hch)
  have hn : (toU8 (characters.length : Nat)).toNat = characters.length := toNat_toU8 (by omega)
  rw [listPacket, hentries, List.length_map, toU16_toNat, parseView, takeMotd_motdPacket config.motd_fits]
  simp only [Option.bind_eq_bind, Option.bind_some, hn, takeCharacters_entryBytes h]
  have hdays := takeU16_write premiumDays []
  rw [List.append_nil] at hdays
  rw [hdays]
  rfl

theorem clientReads_of_queued {data : List UInt8} {c : Connection} (h : Queued data c) {view : View}
    (hview : parseView data = some view) : ClientReads c.xtea c view := by
  obtain ⟨pad, hpad, hblocks, hsize, hfit, htake⟩ := h.content
  have hsent : sent c = c.buffer.take (4 + data.length + pad.length) := by
    rw [sent, hsize, Int.toNat_natCast]
  rw [htake] at hsent
  have henc : encryptedSize c = 2 + data.length + pad.length := by
    rw [encryptedSize, hsent, readU16Le_writeU16Le, toNat_toU16 (by omega)]
  have hcipher : (xteaEncrypt c.xtea (writeU16Le (toU16 data.length) ++ data ++ pad)).length =
      2 + data.length + pad.length := by
    rw [xteaEncrypt, length_mapBlocks]
    simp only [List.length_append, length_writeU16Le]
  have hplain : plain c.xtea c = writeU16Le (toU16 data.length) ++ (data ++ pad) := by
    rw [plain, hsent, List.drop_left' (length_writeU16Le _), henc, ← hcipher, List.take_length,
      xteaDecrypt_xteaEncrypt, List.append_assoc]
  have hdata : dataSize c.xtea c = data.length := by
    rw [dataSize, hplain, readU16Le_writeU16Le, toNat_toU16 (by omega)]
  refine ⟨by omega, by omega, by omega, by omega, ?_⟩
  rw [hplain, hdata, List.drop_left' (length_writeU16Le _), List.take_left, hview]

section

variable {σ : Type} (build : Build) (rsa : RsaKey) (randR : UInt32 → Int × UInt32) (exchange : Exchange σ)
  (config : ServerConfig) (stray : Stray) {c : Connection} (s : Session σ)

theorem character_list_received (henc : build.encoding = .latin1) (hb : c.buffer.length = 2048)
    (hs : c.state = .processing) {c' : Connection} {s' : Session σ}
    (hp : processLoginRequest build rsa randR exchange config stray c s = .ok (c', s'))
    (hw : c'.state = .writing) {characters : List Character} {premiumDays : UInt16} {e : Executed}
    {reply : List UInt8} (he : e ∈ s'.queries.drop s.queries.length) (hasks : Asks .loginAccount e)
    (hreply : e.reply = some reply) (hok : OkReply characters premiumDays reply) (hcount : characters.length ≤ 50)
    (hstorable : ∀ ch ∈ characters, ch.Storable) :
    ∃ data, rsa.decrypt (asymmetricBlock c) = some data ∧
      ClientReads (keyOf data) c' ⟨motdView config.motd, characters, premiumDays⟩ := by
  cases hq : queryCredentials build rsa stray c with
  | none =>
      obtain ⟨key, c₁, hp₁, -⟩ := processLoginRequest_settled build rsa randR exchange config stray hb s hs hq
      rw [hp] at hp₁
      cases hp₁
      simp at he
  | some cred =>
      obtain ⟨data, hfits, hdata, hp₁⟩ := processLoginRequest_asked build rsa randR exchange config stray hb s hq
      refine ⟨data, hdata, ?_⟩
      rw [hp] at hp₁
      generalize hr : exchange s.client (requestFrame (resolveRequest build.encoding cred.email)) 1024 = outcome
      have hresolve := not_asks_login_of_resolve build.encoding hfits (replyOf outcome)
      by_cases hcode : (resolveOutcome (replyOf outcome)).1 = 0
      · obtain ⟨c₁, code, list, days, hc₁, ha, -, hresult⟩ := requestCharacters_granted build randR exchange config
          stray hfits (c := { c with xtea := keyOf data }) hs hb s rfl hr hcode rfl rfl
        rw [hc₁, List.append_assoc] at hp₁
        cases hp₁
        rw [List.drop_left, List.mem_append, List.mem_singleton, List.mem_singleton] at he
        rcases he with rfl | rfl
        · exact absurd hasks hresolve
        · have hlen : reply.length ≤ 4096 := by
            obtain ⟨r, -, rfl⟩ := Option.map_eq_some_iff.mp hreply
            exact r.fits
          have hlist := hresult reply hreply
          rw [henc, loginResult_okReply _ hcount hok hlen] at hlist
          cases hlist
          rw [henc, loginPacket, if_pos rfl] at ha
          rcases ha.outcome with ⟨-, hkey, hqueued⟩ | ⟨hproc, -⟩
          · have hkey' : c'.xtea = keyOf data := hkey
            rw [← hkey']
            exact clientReads_of_queued hqueued (parseView_packets premiumDays hcount hstorable)
          · rw [hproc] at hw
            cases hw
      · obtain ⟨c₁, hc₁, -⟩ := requestCharacters_refused build randR exchange config stray hfits
          (c := { c with xtea := keyOf data }) hs hb s rfl hr hcode
        rw [hc₁] at hp₁
        cases hp₁
        rw [List.drop_left, List.mem_singleton] at he
        exact absurd (he ▸ hasks) hresolve

end

def helloConfig : ServerConfig :=
  { (default : ServerConfig) with
    motd := [49, 10, 72, 101, 108, 108, 111]
    motd_fits := by decide }

def twoCharacters : List Character :=
  [⟨[65, 0xE9], [66], 0x7F000001, 0x1C03⟩, ⟨[67, 68], [69], 0x7F000002, 0x1C04⟩]

def twoCharactersReply : List UInt8 :=
  [0, 2, 2, 0, 65, 0xE9, 1, 0, 66, 127, 0, 0, 1, 3, 28, 2, 0, 67, 68, 1, 0, 69, 127, 0, 0, 2, 4, 28, 5, 0]

theorem character_list_received_two :
    ∃ c' s', processLoginRequest ⟨.latin1, false⟩ default (fun seed => (0, seed)) (answering twoCharactersReply)
        helloConfig default (plainLogin [1, 0, 97, 0, 0]) ⟨(), []⟩ = .ok (c', s') ∧
      ∃ data, (default : RsaKey).decrypt (asymmetricBlock (plainLogin [1, 0, 97, 0, 0])) = some data ∧
        ClientReads (keyOf data) c' ⟨some [49, 10, 72, 101, 108, 108, 111], twoCharacters, 5⟩ := by
  have hrun : ((processLoginRequest ⟨.latin1, false⟩ default (fun seed => (0, seed)) (answering twoCharactersReply)
      helloConfig default (plainLogin [1, 0, 97, 0, 0]) ⟨(), []⟩).toOption.map fun r =>
        (r.1.state, r.2.queries.getLast?.map fun e => (e.request[2]?, e.reply))) =
      some (.writing, some (some 11, some twoCharactersReply)) := by
    decide +kernel
  cases hp : processLoginRequest ⟨.latin1, false⟩ default (fun seed => (0, seed)) (answering twoCharactersReply)
      helloConfig default (plainLogin [1, 0, 97, 0, 0]) ⟨(), []⟩ with
  | error fault =>
      rw [hp] at hrun
      cases hrun
  | ok r =>
      obtain ⟨c', s'⟩ := r
      rw [hp] at hrun
      simp only [Except.toOption, Option.map_some, Option.some.injEq, Prod.mk.injEq, Option.map_eq_some_iff] at hrun
      obtain ⟨hw, e, he, hasks, hreply⟩ := hrun
      have hok : OkReply twoCharacters 5 twoCharactersReply :=
        ⟨[[2, 0, 65, 0xE9, 1, 0, 66, 127, 0, 0, 1, 3, 28], [2, 0, 67, 68, 1, 0, 69, 127, 0, 0, 2, 4, 28]],
          .cons (@Entry.mk _ [2, 0, 65, 0xE9] [1, 0, 66] (.short 2 0 [65, 0xE9] (by decide) rfl)
            (.short 1 0 [66] (by decide) rfl))
          (.cons (@Entry.mk _ [2, 0, 67, 68] [1, 0, 69] (.short 2 0 [67, 68] (by decide) rfl)
            (.short 1 0 [69] (by decide) rfl)) .nil), rfl⟩
      have hmotd : motdView helloConfig.motd = some [49, 10, 72, 101, 108, 108, 111] := by decide +kernel
      rw [← hmotd]
      refine ⟨c', s', rfl, character_list_received ⟨.latin1, false⟩ default (fun seed => (0, seed))
        (answering twoCharactersReply) helloConfig default ⟨(), []⟩ rfl (length_plainLogin _ (by decide)) rfl hp hw
        (List.mem_of_getLast? he) hasks hreply hok (by decide) ?_⟩
      simp only [twoCharacters, List.forall_mem_cons]
      exact ⟨⟨⟨by decide, by decide⟩, ⟨by decide, by decide⟩⟩, ⟨⟨by decide, by decide⟩, ⟨by decide, by decide⟩⟩, by simp⟩

end TibiaLogin.CharacterList
