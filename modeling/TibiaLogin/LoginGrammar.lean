import TibiaLogin.LoginHandler
import TibiaLogin.Wire

namespace TibiaLogin.LoginGrammar

open MachineInt Memory ByteOrder BufferReader Utf8 Latin1 Wire Query LoginHandler

/-- The block continues after the key with two complete strings. -/
def TwoStrings (data : List UInt8) : Prop :=
  ∃ first second rest email password, data.drop 17 = first ++ (second ++ rest) ∧
    WireString first email ∧ WireString second password

/-- The announced lengths that the signed positions can follow: no end reaches
the largest ints, or the first length steps back to an offset from which the
second string leaves the block. -/
def Followable (enc : ClientEncoding) (data : List UInt8) : Prop :=
  (endOf data 17 < 2147483646 ∧ (endOf data 17 ≤ 126 → endOf data (endOf data 17) < 2147483648)) ∨
    (enc = .latin1 ∧ 4294967296 ≤ endOf data 17 ∧ 128 < endOf data (endOf data 17 - 4294967296) ∧
      endOf data (endOf data 17 - 4294967296) < 2147483648)

theorem twoStrings_iff {data : List UInt8} (hlen : data.length = 128) :
    TwoStrings data ↔ endOf data 17 ≤ 128 ∧ endOf data (endOf data 17) ≤ 128 := by
  constructor
  · rintro ⟨first, second, rest, email, password, hd, hf, hs⟩
    have hl : (data.drop 17).length = 111 := by rw [List.length_drop, hlen]
    have he : endOf data 17 = 17 + first.length := by rw [endOf_drop, hd, endOf_complete hf]
    have hd' : data.drop (17 + first.length) = second ++ rest := by
      rw [← List.drop_drop, hd, List.drop_left]
    have he' : endOf data (17 + first.length) = 17 + first.length + second.length := by
      rw [endOf_drop, hd', endOf_complete hs]
    rw [hd] at hl
    simp only [List.length_append] at hl
    rw [he, he']
    omega
  · rintro ⟨h₁, h₂⟩
    have he := endOf_drop data 17
    obtain ⟨first, email, rest₁, hd, hf, hl⟩ := complete_of_endOf (data.drop 17)
      (by rw [List.length_drop]; omega)
    have hd' : data.drop (endOf data 17) = rest₁ := by
      rw [he, ← hl, ← List.drop_drop, hd, List.drop_left]
    have hl' := congrArg List.length hd'
    have he' := endOf_drop data (endOf data 17)
    rw [hd'] at he'
    rw [List.length_drop] at hl'
    obtain ⟨second, password, rest, hd₂, hs, -⟩ := complete_of_endOf rest₁ (by omega)
    exact ⟨first, second, rest, email, password, by rw [hd, hd₂], hf, hs⟩

section

variable (enc : ClientEncoding) (dest : List UInt8) {data : List UInt8} {p : Nat} (hd : dest.length < 2147483648)
  (hlen : data.length = 128)

include hd hlen

theorem readString_near (h : endOf data p < 2147483648) :
    ∃ d, readString enc dest ⟨data, p⟩ = .ok (d, ⟨data, (endOf data p : Nat)⟩) := by
  refine ⟨_, readString_eq enc dest data hd h fun _ _ text ht => ?_⟩
  have hl := length_encodeLatin1_le text
  have hle : text.length ≤ data.length := by
    rw [stringAt] at ht
    split_ifs at ht
    cases ht
    simp only [List.length_take, List.length_drop]
    omega
  omega

omit hd in
theorem readLength_far (hp : p ≤ 128) (h : 2147483648 ≤ endOf data p) :
    headerSize data p = 6 ∧ p + 6 ≤ 128 ∧ endOf data p = p + 6 + announced data p ∧
      readLength ⟨data, p⟩ = .ok (wrap32 (announced data p), ⟨data, (p + 6 : Nat)⟩) := by
  have hh : headerSize data p ≤ 6 := by
    rw [headerSize]
    split_ifs <;> omega
  have hlong : 65536 ≤ announced data p := by
    rw [endOf] at h
    omega
  obtain ⟨hsix, hin⟩ := extended_of_long hlong
  have hr := readLength_eq data (p := p) (by omega)
  rw [hsix] at hr
  exact ⟨hsix, by omega, by rw [endOf, hsix], hr⟩

omit hd in
theorem readString_far (hp : p ≤ 128) (h : 2147483648 ≤ endOf data p) :
    (∃ e, readString enc dest ⟨data, p⟩ = .error e) ∨
      ∃ d, readString enc dest ⟨data, p⟩ = .ok (d, ⟨data, (endOf data p : Int) - 4294967296⟩) := by
  obtain ⟨-, hin, he, hr⟩ := readLength_far hlen hp h
  have hlt := announced_lt data p
  have hpos : wrap32 (((p + 6 : Nat) : Int) + wrap32 (announced data p)) = (endOf data p : Int) - 4294967296 := by
    simp only [wrap32]
    omega
  rw [readString, hr, ok_bind]
  simp only
  cases copyString enc dest (wrap32 (announced data p)) ⟨data, (p + 6 : Nat)⟩ with
  | error e => exact Or.inl ⟨e, rfl⟩
  | ok d =>
      refine Or.inr ⟨d, ?_⟩
      rw [ok_bind, advance, hpos]
      rfl

omit hd in
theorem readString_outside {position : Int}
    (h : (-2147483648 ≤ position ∧ position < 0) ∨ (2147483646 ≤ position ∧ position < 2147483648)) :
    ∃ e, readString enc dest ⟨data, position⟩ = .error e := by
  have hc : canRead ⟨data, position⟩ (2 : Nat) = true := by
    rw [canRead, decide_eq_true_eq]
    simp only [size]
    rw [wrap32]
    omega
  have hload : loadBytes data position 2 = .error (.read position 2) := loadBytes_outside (by omega) (by omega)
  refine ⟨.read position 2, ?_⟩
  rw [readString, readLength, readU16, readScalar, hc, if_pos rfl, hload]
  rfl

theorem readString_latin1_negative (hp : p ≤ 128) (h : 2147483648 ≤ endOf data p)
    (hneg : 2147483648 ≤ announced data p) :
    ∃ d, readString .latin1 dest ⟨data, p⟩ = .ok (d, ⟨data, (endOf data p : Int) - 4294967296⟩) := by
  rcases readString_far .latin1 dest hlen hp h with ⟨e, he⟩ | hok
  · obtain ⟨-, -, -, hr⟩ := readLength_far hlen hp h
    have hlt := announced_lt data p
    have hz : (wrap32 (announced data p)).toNat = 0 := by
      rw [wrap32]
      omega
    have hcopy : copyString .latin1 dest (wrap32 (announced data p)) ⟨data, (p + 6 : Nat)⟩ =
        .ok (List.replicate dest.length 0) := by
      simp only [copyString]
      by_cases hn : dest.length = 0
      · rw [if_pos hn, List.length_eq_zero_iff.mp hn]
        rfl
      · rw [if_neg hn]
        simp only [latin1ToUtf8, hz, latin1ToUtf8Loop, ok_bind, pure_bind, ite_self]
        exact fill_empty dest hd
    rw [readString, hr, ok_bind] at he
    simp only [hcopy] at he
    cases he
  · exact hok

omit hd in
theorem readString_utf8_negative (hp : p ≤ 128) (h : 2147483648 ≤ endOf data p)
    (hneg : 2147483648 ≤ announced data p) (hpos : 0 < dest.length) :
    ∃ e, readString .utf8 dest ⟨data, p⟩ = .error e := by
  obtain ⟨-, hin, -, hr⟩ := readLength_far hlen hp h
  have hlt := announced_lt data p
  have hw : wrap32 (announced data p) < 0 ∧ -2147483648 ≤ wrap32 (announced data p) := by
    rw [wrap32]
    omega
  have hc : canRead ⟨data, (p + 6 : Nat)⟩ (wrap32 (announced data p)) = true := by
    rw [canRead, decide_eq_true_eq, wrap32_of_mem (by simp only; omega) (by simp only; omega)]
    simp only [size]
    omega
  have hsize := toSize_of_neg hw.2 hw.1
  have hload : loadBytes data ((p + 6 : Nat) : Int) (toSize (wrap32 (announced data p))) = .error (.read _ _) :=
    loadBytes_outside (by omega) (by omega)
  rw [readString, hr, ok_bind]
  simp only [copyString]
  rw [if_neg (by omega), if_pos ⟨hc, by omega⟩, hload]
  exact ⟨_, rfl⟩

end

section

variable (enc : ClientEncoding) {data : List UInt8} (hlen : data.length = 128)

include hlen

theorem password_near {email : List UInt8} {p : Nat} (h : endOf data p < 2147483648)
    (hfirst : readString enc (List.replicate 51 0) ⟨data, 17⟩ = .ok (email, ⟨data, p⟩)) :
    ∃ cred, readCredentials enc ⟨data, 17⟩ = .ok (if 128 < endOf data p then none else some cred) := by
  obtain ⟨password, hr⟩ := readString_near enc (List.replicate 30 0) (by simp) hlen h
  have ho : overflowed ⟨data, (endOf data p : Nat)⟩ = decide (128 < endOf data p) := by
    simp only [overflowed, size, hlen]
    exact decide_eq_decide.mpr (by omega)
  refine ⟨⟨email, password⟩, ?_⟩
  rw [readCredentials, hfirst, ok_bind]
  simp only
  rw [hr, ok_bind]
  simp only [ho, decide_eq_true_eq]
  rfl

theorem password_far {email : List UInt8} {p : Nat} (hp : p ≤ 128) (h : 2147483648 ≤ endOf data p)
    (hfirst : readString enc (List.replicate 51 0) ⟨data, 17⟩ = .ok (email, ⟨data, p⟩)) :
    readCredentials enc ⟨data, 17⟩ ≠ .ok none := by
  rw [readCredentials, hfirst, ok_bind]
  simp only
  rcases readString_far enc (List.replicate 30 0) hlen hp h with ⟨e, he⟩ | ⟨password, hr⟩
  · rw [he]
    intro hn
    cases hn
  · obtain ⟨-, hin, he, -⟩ := readLength_far hlen hp h
    have hlt := announced_lt data p
    have ho : overflowed ⟨data, (endOf data p : Int) - 4294967296⟩ = false := by
      simp only [overflowed, size, hlen, decide_eq_false_iff_not]
      omega
    rw [hr, ok_bind]
    simp only [ho]
    intro hn
    cases hn

theorem password_outside {email : List UInt8} {position : Int}
    (h : (-2147483648 ≤ position ∧ position < 0) ∨ (2147483646 ≤ position ∧ position < 2147483648))
    (hfirst : readString enc (List.replicate 51 0) ⟨data, 17⟩ = .ok (email, ⟨data, position⟩)) :
    readCredentials enc ⟨data, 17⟩ ≠ .ok none := by
  obtain ⟨e, he⟩ := readString_outside enc (List.replicate 30 0) hlen h
  rw [readCredentials, hfirst, ok_bind]
  simp only
  rw [he]
  intro hn
  cases hn

theorem email_far (h : 2147483648 ≤ endOf data 17) (hback : ¬(enc = .latin1 ∧ 4294967296 ≤ endOf data 17)) :
    readCredentials enc ⟨data, 17⟩ ≠ .ok none := by
  have herror : (∃ e, readString enc (List.replicate 51 0) ⟨data, 17⟩ = .error e) →
      readCredentials enc ⟨data, 17⟩ ≠ .ok none := by
    rintro ⟨e, he⟩ hn
    rw [readCredentials, he] at hn
    cases hn
  obtain ⟨-, -, he, -⟩ := readLength_far hlen (p := 17) (by omega) h
  by_cases hbig : 4294967296 ≤ endOf data 17
  · cases enc with
    | latin1 => exact absurd ⟨rfl, hbig⟩ hback
    | utf8 =>
        exact herror (readString_utf8_negative (List.replicate 51 0) (p := 17) hlen (by omega) h (by omega) (by simp))
  · rcases readString_far enc (List.replicate 51 0) (p := 17) hlen (by omega) h with hf | ⟨email, hr⟩
    · exact herror hf
    · exact password_outside enc hlen (Or.inl (by omega)) hr

theorem followable_iff :
    ((TwoStrings data → ∃ cred, readCredentials enc ⟨data, 17⟩ = .ok (some cred)) ∧
      (¬TwoStrings data → readCredentials enc ⟨data, 17⟩ = .ok none)) ↔ Followable enc data := by
  have hdisagree : ∀ {P : Prop}, readCredentials enc ⟨data, 17⟩ ≠ .ok none → ¬P →
      ¬((P → ∃ cred, readCredentials enc ⟨data, 17⟩ = .ok (some cred)) ∧
        (¬P → readCredentials enc ⟨data, 17⟩ = .ok none)) :=
    fun hne ht h => hne (h.2 ht)
  rw [twoStrings_iff hlen]
  have hcut : 126 < endOf data 17 → endOf data (endOf data 17) = endOf data 17 + 2 :=
    fun h => endOf_outside (by omega)
  by_cases hnear : endOf data 17 < 2147483648
  · obtain ⟨email, hr⟩ := readString_near enc (List.replicate 51 0) (by simp) hlen hnear
    by_cases hsecond : endOf data (endOf data 17) < 2147483648
    · obtain ⟨cred, hc⟩ := password_near enc hlen hsecond hr
      by_cases hin : endOf data 17 ≤ 126
      · refine iff_of_true ⟨fun ht => ⟨cred, ?_⟩, fun ht => ?_⟩ (Or.inl ⟨by omega, fun _ => hsecond⟩)
        · rw [hc, if_neg (by omega)]
        · rw [hc, if_pos (by omega)]
      · have hend := hcut (by omega)
        refine iff_of_true ⟨fun ht => ?_, fun ht => ?_⟩ (Or.inl ⟨by omega, fun h => absurd h hin⟩)
        · omega
        · rw [hc, if_pos (by omega)]
    · by_cases hin : endOf data 17 ≤ 126
      · refine iff_of_false (hdisagree (password_far enc hlen (by omega) (by omega) hr) (by omega)) ?_
        rintro (⟨-, h⟩ | ⟨-, h, -⟩)
        · exact hsecond (h hin)
        · omega
      · have hend := hcut (by omega)
        refine iff_of_false (hdisagree (password_outside enc hlen (Or.inr (by omega)) hr) (by omega)) ?_
        rintro (⟨h, -⟩ | ⟨-, h, -⟩) <;> omega
  · by_cases hback : enc = .latin1 ∧ 4294967296 ≤ endOf data 17
    · obtain ⟨rfl, hbig⟩ := hback
      obtain ⟨-, -, he, -⟩ := readLength_far hlen (p := 17) (by omega) (by omega)
      have hlt := announced_lt data 17
      obtain ⟨email, hr⟩ := readString_latin1_negative (List.replicate 51 0) (p := 17) (by simp) hlen
        (by omega) (by omega) (by omega)
      have hoffset : (endOf data 17 : Int) - 4294967296 = (endOf data 17 - 4294967296 : Nat) := by omega
      rw [hoffset] at hr
      by_cases hsecond : endOf data (endOf data 17 - 4294967296) < 2147483648
      · obtain ⟨cred, hc⟩ := password_near .latin1 hlen hsecond hr
        by_cases hout : 128 < endOf data (endOf data 17 - 4294967296)
        · refine iff_of_true ⟨fun ht => ?_, fun ht => ?_⟩ (Or.inr ⟨rfl, hbig, hout, hsecond⟩)
          · omega
          · rw [hc, if_pos hout]
        · refine iff_of_false (hdisagree ?_ (by omega)) ?_
          · rw [hc, if_neg hout]
            simp
          · rintro (⟨h, -⟩ | ⟨-, -, h, -⟩)
            · omega
            · exact hout h
      · refine iff_of_false (hdisagree (password_far .latin1 hlen (by omega) (by omega) hr) (by omega)) ?_
        rintro (⟨h, -⟩ | ⟨-, -, -, h⟩)
        · omega
        · exact hsecond h
    · refine iff_of_false (hdisagree (email_far enc hlen (by omega) hback) (by omega)) ?_
      rintro (⟨h, -⟩ | ⟨h₁, h₂, -⟩)
      · omega
      · exact hback ⟨h₁, h₂⟩

end

/-- The request gets past the check of the asymmetric data. -/
def GetsPast (build : Build) (rsa : RsaKey) (stray : Stray) (c : Connection) : Prop :=
  ∃ c' login, decodeLogin build rsa stray c = .ok (c', some login)

section

variable {σ : Type} (build : Build) (rsa : RsaKey) (randR : UInt32 → Int × UInt32) (exchange : Exchange σ)
  (config : ServerConfig) (c : Connection) (s : Session σ) (data : List UInt8)

/-- What the code goes on with after a stray read may be anything, so the
parser must behave for each of them. -/
def FollowsGrammar : Prop :=
  ∀ stray : Stray, (GetsPast build rsa stray c ↔ TwoStrings data) ∧
    (¬TwoStrings data → ∃ c', processLoginRequest build rsa randR exchange config stray c s = .ok (c', s) ∧
      c'.socket = -1)

variable {c data}

theorem followsGrammar_iff_credentials (hb : c.buffer.length = 2048) (hsize : c.rwSize = 145)
    (hd : rsa.decrypt (asymmetricBlock c) = some data) (hz : data.headD 0 = 0) :
    FollowsGrammar build rsa randR exchange config c s data ↔
      ((TwoStrings data → ∃ cred, readCredentials build.encoding ⟨data, 17⟩ = .ok (some cred)) ∧
        (¬TwoStrings data → readCredentials build.encoding ⟨data, 17⟩ = .ok none)) := by
  have hpast : ∀ stray : Stray, GetsPast build rsa stray c ↔
      ∃ cred, orStray (readCredentials build.encoding ⟨data, 17⟩) stray.credentials = some cred := by
    intro stray
    rw [GetsPast, decodeLogin_block stray hb hsize hd hz]
    cases orStray (readCredentials build.encoding ⟨data, 17⟩) stray.credentials <;> simp
  constructor
  · intro h
    refine ⟨fun ht => ?_, fun ht => ?_⟩
    · obtain ⟨cred, hc⟩ := (hpast default).mp ((h default).1.mpr ht)
      cases hr : readCredentials build.encoding ⟨data, 17⟩ with
      | error e =>
          rw [hr] at hc
          cases hc
      | ok o =>
          rw [hr] at hc
          exact ⟨cred, congrArg Except.ok hc⟩
    · let some : Stray := { (default : Stray) with
        credentials := some ⟨List.replicate 51 0, List.replicate 30 0⟩
        credentials_fit := fun _ h => by cases h; exact ⟨rfl, rfl⟩ }
      have hn := fun hp => ht ((h some).1.mp hp)
      rw [hpast] at hn
      cases hr : readCredentials build.encoding ⟨data, 17⟩ with
      | error e =>
          rw [hr] at hn
          exact absurd ⟨_, rfl⟩ hn
      | ok o =>
          cases o with
          | none => rfl
          | some cred =>
              rw [hr] at hn
              exact absurd ⟨cred, rfl⟩ hn
  · rintro ⟨haccept, hrefuse⟩ stray
    by_cases ht : TwoStrings data
    · obtain ⟨cred, hc⟩ := haccept ht
      refine ⟨iff_of_true ((hpast stray).mpr ⟨cred, ?_⟩) ht, fun hn => absurd ht hn⟩
      rw [hc]
      rfl
    · have hc := hrefuse ht
      refine ⟨iff_of_false (fun hp => ?_) ht, fun _ => ⟨closeConnection { c with xtea := keyOf data }, ?_, ?_⟩⟩
      · obtain ⟨cred, ho⟩ := (hpast stray).mp hp
        rw [hc] at ho
        cases ho
      · rw [processLoginRequest, decodeLogin_block stray hb hsize hd hz, hc]
        rfl
      · rw [closeConnection_eq]

theorem login_follows_grammar_iff (hb : c.buffer.length = 2048) (hsize : c.rwSize = 145)
    (hd : rsa.decrypt (asymmetricBlock c) = some data) (hz : data.headD 0 = 0) :
    FollowsGrammar build rsa randR exchange config c s data ↔ Followable build.encoding data := by
  have hlen : data.length = 128 := by
    rw [rsa.length_decrypt hd, asymmetricBlock, List.length_take, List.length_drop]
    omega
  exact (followsGrammar_iff_credentials build rsa randR exchange config s hb hsize hd hz).trans
    (followable_iff build.encoding hlen)

end

theorem login_follows_grammar_extended :
    FollowsGrammar ⟨.latin1, false⟩ default (fun seed => (0, seed)) (answering [0]) default
      (plainLogin [1, 0, 97, 0xFF, 0xFF, 2, 0, 0, 0, 98, 99]) ⟨(), []⟩
      (asymmetricBlock (plainLogin [1, 0, 97, 0xFF, 0xFF, 2, 0, 0, 0, 98, 99])) := by
  refine (login_follows_grammar_iff ⟨.latin1, false⟩ default (fun seed => (0, seed)) (answering [0]) default ⟨(), []⟩
    (length_plainLogin _ (by decide)) rfl rfl (by decide +kernel)).mpr (Or.inl ?_)
  decide +kernel

/-- An email address of 2^32 - 16 bytes moves the position back into the key,
and the request is taken for a complete one. -/
theorem backward_length_accepted :
    ¬FollowsGrammar ⟨.latin1, false⟩ default (fun seed => (0, seed)) (answering [0]) default
      (plainLogin [0xFF, 0xFF, 0xF0, 0xFF, 0xFF, 0xFF]) ⟨(), []⟩
      (asymmetricBlock (plainLogin [0xFF, 0xFF, 0xF0, 0xFF, 0xFF, 0xFF])) := by
  rw [followsGrammar_iff_credentials ⟨.latin1, false⟩ default (fun seed => (0, seed)) (answering [0]) default ⟨(), []⟩
    (length_plainLogin _ (by decide)) rfl rfl (by decide +kernel), followable_iff .latin1 (by decide +kernel)]
  rintro (⟨h, -⟩ | ⟨-, -, h, -⟩)
  · exact absurd h (by decide +kernel)
  · exact absurd h (by decide +kernel)

end TibiaLogin.LoginGrammar
