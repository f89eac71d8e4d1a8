import TibiaLogin.Wire
import TibiaLogin.WorldQuery

namespace TibiaLogin.ReplyCompleteness

open MachineInt Memory ByteOrder BufferReader BufferWriter Wire Query LoginQuery Server WorldQuery

/-- Records one after the other, up to a number of them or the first that is
the last one asked for. -/
inductive Records (Record : List UInt8 → Bool → Prop) : Nat → List UInt8 → Prop
  | none : Records Record 0 []
  | last {n : Nat} {record : List UInt8} (h : Record record true) : Records Record (n + 1) record
  | more {n : Nat} {record records : List UInt8} (h : Record record false) (hrest : Records Record n records) :
      Records Record (n + 1) (record ++ records)

def recordsSize (size : List UInt8 → Nat) (last : List UInt8 → Bool) : Nat → List UInt8 → Nat
  | 0, _ => 0
  | n + 1, data =>
      if last data then size data else size data + recordsSize size last n (data.drop (size data))

/-- The claimed size of a record tells whether it is there. -/
structure Measures (Record : List UInt8 → Bool → Prop) (size : List UInt8 → Nat) (last : List UInt8 → Bool) : Prop where
  sound : ∀ {record l}, Record record l → ∀ rest, size (record ++ rest) = record.length ∧ last (record ++ rest) = l
  complete : ∀ {data}, size data ≤ data.length → ∃ record rest, data = record ++ rest ∧ Record record (last data)

section

variable {Record : List UInt8 → Bool → Prop} {size : List UInt8 → Nat} {last : List UInt8 → Bool}
  (hm : Measures Record size last)

include hm

theorem Measures.recordsSize_eq {n : Nat} {records : List UInt8} (h : Records Record n records) (rest : List UInt8) :
    recordsSize size last n (records ++ rest) = records.length := by
  induction h with
  | none => rfl
  | last h =>
      obtain ⟨hsize, hlast⟩ := hm.sound h rest
      rw [recordsSize, if_pos hlast, hsize]
  | @more n record records h hrest ih =>
      obtain ⟨hsize, hlast⟩ := hm.sound h (records ++ rest)
      rw [List.append_assoc, recordsSize, hlast, if_neg Bool.false_ne_true, hsize, List.drop_left, ih,
        List.length_append]

theorem Measures.records_of_size {n : Nat} {data : List UInt8} (h : recordsSize size last n data ≤ data.length) :
    ∃ records rest, data = records ++ rest ∧ Records Record n records := by
  induction n generalizing data with
  | zero => exact ⟨[], data, rfl, .none⟩
  | succ n ih =>
      rw [recordsSize] at h
      have hfirst : size data ≤ data.length := by
        split_ifs at h <;> omega
      obtain ⟨record, rest, hdata, hrecord⟩ := hm.complete hfirst
      cases hl : last data with
      | true =>
          rw [hl] at hrecord
          exact ⟨record, rest, hdata, .last hrecord⟩
      | false =>
          have hsize : size data = record.length := by rw [hdata, (hm.sound hrecord rest).1]
          rw [hl] at hrecord h
          rw [if_neg Bool.false_ne_true, hsize, hdata, List.drop_left, List.length_append] at h
          have hrest : recordsSize size last n rest ≤ rest.length := by omega
          obtain ⟨records, rest', rfl, hrecords⟩ := ih hrest
          exact ⟨record ++ records, rest', by rw [hdata, List.append_assoc], .more hrecord hrecords⟩

theorem Measures.records_iff {n : Nat} {data : List UInt8} :
    (∃ records rest, data = records ++ rest ∧ Records Record n records) ↔ recordsSize size last n data ≤ data.length := by
  constructor
  · rintro ⟨records, rest, rfl, h⟩
    rw [hm.recordsSize_eq h, List.length_append]
    omega
  · exact hm.records_of_size

end

/-- A character of a response: its name, its world, an address and a port. -/
inductive CharacterRecord : List UInt8 → Bool → Prop
  | mk {name nameText world worldText tail : List UInt8} (hname : WireString name nameText)
      (hworld : WireString world worldText) (htail : tail.length = 6) : CharacterRecord (name ++ (world ++ tail)) false

def selected (enc : ClientEncoding) (worldName : List UInt8) (text : Option (List UInt8)) : Bool :=
  !stringEmpty worldName && stringEqualsIgnoreCase worldName (field enc 30 text)

/-- A world of a response: its name and seven numbers. -/
inductive WorldRecord (enc : ClientEncoding) (worldName : List UInt8) : List UInt8 → Bool → Prop
  | mk {name text tail : List UInt8} (hname : WireString name text) (htail : tail.length = 19) :
      WorldRecord enc worldName (name ++ tail) (selected enc worldName (some text))

def characterSize (data : List UInt8) : Nat := endOf data 0 + (endOf (data.drop (endOf data 0)) 0 + 6)

def worldSize (data : List UInt8) : Nat := endOf data 0 + 19

theorem characters_measured : Measures CharacterRecord characterSize fun _ => false := by
  constructor
  · intro record l h rest
    cases h with
    | @mk name nameText world worldText tail hname hworld htail =>
        simp only [characterSize, List.append_assoc, and_true]
        rw [endOf_complete hname, List.drop_left, endOf_complete hworld]
        simp only [List.length_append, htail]
  · intro data h
    rw [characterSize] at h
    obtain ⟨name, nameText, rest₁, hdata, hname, hlen₁⟩ := complete_of_endOf data (by omega)
    rw [← hlen₁, hdata, List.drop_left, List.length_append] at h
    obtain ⟨world, worldText, rest₂, rfl, hworld, hlen₂⟩ := complete_of_endOf rest₁ (by omega)
    rw [← hlen₂, List.length_append] at h
    have htail : (rest₂.take 6).length = 6 := by
      rw [List.length_take]
      omega
    refine ⟨name ++ (world ++ rest₂.take 6), rest₂.drop 6, ?_, .mk hname hworld htail⟩
    rw [hdata, List.append_assoc, List.append_assoc, List.take_append_drop]

theorem worlds_measured (enc : ClientEncoding) (worldName : List UInt8) :
    Measures (WorldRecord enc worldName) worldSize fun data => selected enc worldName (stringAt data 0) := by
  constructor
  · intro record l h rest
    cases h with
    | @mk name text tail hname htail =>
        rw [worldSize, List.append_assoc, endOf_complete hname, stringAt_complete hname, List.length_append, htail]
        exact ⟨rfl, rfl⟩
  · intro data h
    rw [worldSize] at h
    obtain ⟨name, text, rest, hdata, hname, hlen⟩ := complete_of_endOf data (by omega)
    rw [← hlen, hdata, List.length_append] at h
    have htail : (rest.take 19).length = 19 := by
      rw [List.length_take]
      omega
    refine ⟨name ++ rest.take 19, rest.drop 19, ?_, ?_⟩
    · rw [hdata, List.append_assoc, List.take_append_drop]
    · rw [hdata, stringAt_complete hname]
      exact .mk hname htail

section

variable (enc : ClientEncoding) {buf before rest : List UInt8}

theorem readCharacter_record {n : Nat} {record : List UInt8} {l : Bool} (h : CharacterRecord record l)
    (hbuf : buf = before ++ (record ++ rest)) (hlen : buf.length < 1073741824) :
    ∃ character, readCharacters enc (n + 1) ⟨buf, (before.length : Nat)⟩ = (do
      let (characters, r) ← readCharacters enc n ⟨buf, ((before ++ record).length : Nat)⟩
      pure (character :: characters, r)) := by
  cases h with
  | @mk name nameText world worldText tail hname hworld htail =>
      have hd : (List.replicate 30 (0 : UInt8)).length < 2147483648 := by simp
      have hbuf₁ : buf = before ++ (name ++ (world ++ (tail ++ rest))) := by simp [hbuf]
      have hbuf₂ : buf = before ++ name ++ (world ++ (tail ++ rest)) := by simp [hbuf]
      have hsize : buf.length = (before ++ name ++ world).length + (6 + rest.length) := by
        rw [hbuf₂]
        simp only [List.length_append, htail]
        omega
      have hend : (before ++ (name ++ (world ++ tail))).length = (before ++ name ++ world).length + 4 + 2 := by
        simp only [List.length_append, htail]
        omega
      have h₁ := readString_wire_short enc hd hbuf₁ hlen hname
      have h₂ := readString_wire_short enc hd hbuf₂ hlen hworld
      have h₃ : readU32Be ⟨buf, ((before ++ name ++ world).length : Nat)⟩ = .ok (_, ⟨buf, _⟩) :=
        readScalar_inside ByteOrder.readU32Be (by omega) (by omega)
      have h₄ : readU16 ⟨buf, ((before ++ name ++ world).length + 4 : Nat)⟩ = .ok (_, ⟨buf, _⟩) :=
        readScalar_inside readU16Le (by omega) (by omega)
      rw [hend, readCharacters, h₁, ok_bind]
      simp only
      rw [h₂, ok_bind]
      simp only
      rw [h₃, ok_bind]
      simp only
      rw [h₄, ok_bind]
      exact ⟨_, rfl⟩

theorem readCharacters_records {n : Nat} {records : List UInt8} (h : Records CharacterRecord n records)
    (hbuf : buf = before ++ (records ++ rest)) (hlen : buf.length < 1073741824) :
    ∃ characters, readCharacters enc n ⟨buf, (before.length : Nat)⟩ =
      .ok (characters, ⟨buf, ((before ++ records).length : Nat)⟩) := by
  induction h generalizing before with
  | none =>
      rw [List.append_nil]
      exact ⟨[], rfl⟩
  | last h => cases h
  | @more n record records h hrest ih =>
      have hbuf₁ : buf = before ++ (record ++ (records ++ rest)) := by rw [hbuf, List.append_assoc]
      have hbuf₂ : buf = before ++ record ++ (records ++ rest) := by rw [hbuf₁, List.append_assoc]
      obtain ⟨character, hr⟩ := readCharacter_record enc (n := n) h hbuf₁ hlen
      obtain ⟨characters, hrs⟩ := ih hbuf₂
      refine ⟨character :: characters, ?_⟩
      rw [hr, hrs, List.append_assoc]
      rfl

theorem readWorld_record {worldName record : List UInt8} {l : Bool} (h : WorldRecord enc worldName record l)
    (hbuf : buf = before ++ (record ++ rest)) (hlen : buf.length < 1073741824) :
    ∃ world, readWorld enc ⟨buf, (before.length : Nat)⟩ = .ok (world, ⟨buf, ((before ++ record).length : Nat)⟩) ∧
      l = (!stringEmpty worldName && stringEqualsIgnoreCase worldName world.name) := by
  cases h with
  | @mk name text tail hname htail =>
      have hd : (List.replicate 30 (0 : UInt8)).length < 2147483648 := by simp
      have hbuf₁ : buf = before ++ (name ++ (tail ++ rest)) := by rw [hbuf, List.append_assoc]
      obtain ⟨p, hp⟩ : ∃ p, p = (before ++ name).length := ⟨_, rfl⟩
      have hsize : buf.length = p + (19 + rest.length) := by
        rw [hbuf₁, hp]
        simp only [List.length_append, htail]
        omega
      have hend : (before ++ (name ++ tail)).length = p + 1 + 2 + 2 + 2 + 4 + 4 + 4 := by
        rw [hp]
        simp only [List.length_append, htail]
        omega
      have h₁ := readString_wire_short enc hd hbuf₁ hlen hname
      have h₂ : readU8 ⟨buf, (p : Nat)⟩ = .ok (_, ⟨buf, _⟩) := readScalar_inside (·.headD 0) (by omega) (by omega)
      have h₃ : readU16 ⟨buf, (p + 1 : Nat)⟩ = .ok (_, ⟨buf, _⟩) := readScalar_inside readU16Le (by omega) (by omega)
      have h₄ : readU16 ⟨buf, (p + 1 + 2 : Nat)⟩ = .ok (_, ⟨buf, _⟩) :=
        readScalar_inside readU16Le (by omega) (by omega)
      have h₅ : readU16 ⟨buf, (p + 1 + 2 + 2 : Nat)⟩ = .ok (_, ⟨buf, _⟩) :=
        readScalar_inside readU16Le (by omega) (by omega)
      have h₆ : readU32 ⟨buf, (p + 1 + 2 + 2 + 2 : Nat)⟩ = .ok (_, ⟨buf, _⟩) :=
        readScalar_inside readU32Le (by omega) (by omega)
      have h₇ : readU32 ⟨buf, (p + 1 + 2 + 2 + 2 + 4 : Nat)⟩ = .ok (_, ⟨buf, _⟩) :=
        readScalar_inside readU32Le (by omega) (by omega)
      have h₈ : readU32 ⟨buf, (p + 1 + 2 + 2 + 2 + 4 + 4 : Nat)⟩ = .ok (_, ⟨buf, _⟩) :=
        readScalar_inside readU32Le (by omega) (by omega)
      rw [List.length_replicate, ← hp] at h₁
      rw [hend, readWorld_eq h₁ h₂ h₃ h₄ h₅ h₆ h₇ h₈]
      exact ⟨_, rfl, rfl⟩

theorem readWorlds_records {worldName : List UInt8} {n : Nat} {records : List UInt8}
    (h : Records (WorldRecord enc worldName) n records) (hbuf : buf = before ++ (records ++ rest))
    (hlen : buf.length < 1073741824) (first : Bool) (outWorld : WorldInfo) :
    ∃ world, readWorlds enc worldName n first outWorld ⟨buf, (before.length : Nat)⟩ =
      .ok (world, ⟨buf, ((before ++ records).length : Nat)⟩) := by
  induction h generalizing before first outWorld with
  | none =>
      rw [List.append_nil]
      exact ⟨outWorld, rfl⟩
  | last h =>
      obtain ⟨world, hr, hl⟩ := readWorld_record enc h hbuf hlen
      rw [Bool.true_eq, Bool.and_eq_true, Bool.not_eq_true'] at hl
      rw [readWorlds, hr, ok_bind]
      simp only [hl.1, hl.2, Bool.false_eq_true, if_false, if_true]
      exact ⟨world, rfl⟩
  | @more n record records h hrest ih =>
      have hbuf₁ : buf = before ++ (record ++ (records ++ rest)) := by rw [hbuf, List.append_assoc]
      have hbuf₂ : buf = before ++ record ++ (records ++ rest) := by rw [hbuf₁, List.append_assoc]
      obtain ⟨world, hr, hl⟩ := readWorld_record enc h hbuf₁ hlen
      rw [readWorlds, hr, ok_bind, ← List.append_assoc]
      simp only
      by_cases he : stringEmpty worldName = true
      · rw [if_pos he]
        exact ih hbuf₂ _ _
      · have hne : stringEqualsIgnoreCase worldName world.name ≠ true := by
          intro heq
          rw [heq, Bool.and_true] at hl
          exact he (by simpa using hl)
        rw [if_neg he, if_neg hne]
        exact ih hbuf₂ _ _

end

def count (reply : List UInt8) : Nat := ((reply.drop 1).headD 0).toNat

/-- A response with an account id, which is read from inside it. -/
structure CompleteResolve (reply : List UInt8) : Prop where
  encoded : ∃ accountId rest, reply = 0 :: (accountId ++ rest) ∧ accountId.length = 4
  inside : ∃ accountId r, readU32 ⟨reply, 1⟩ = .ok (accountId, r) ∧ r.overflowed = false

/-- A response with all of its characters and the premium days, which are read
from inside it. -/
structure CompleteLogin (enc : ClientEncoding) (reply : List UInt8) : Prop where
  encoded : ∃ n records premiumDays rest, reply = 0 :: n :: (records ++ (premiumDays ++ rest)) ∧
    Records CharacterRecord n.toNat records ∧ premiumDays.length = 2
  inside : ∃ characters r premiumDays r', readCharacters enc (count reply) ⟨reply, 2⟩ = .ok (characters, r) ∧
    r.readU16 = .ok (premiumDays, r') ∧ r'.overflowed = false

/-- A response with all of its worlds, or those up to the configured one, which
are read from inside it. -/
structure CompleteWorlds (enc : ClientEncoding) (worldName reply : List UInt8) : Prop where
  encoded : ∃ n records rest, reply = 0 :: n :: (records ++ rest) ∧
    Records (WorldRecord enc worldName) n.toNat records
  inside : ∃ world r, readWorlds enc worldName (count reply) true .zeroed ⟨reply, 2⟩ = .ok (world, r) ∧
    r.overflowed = false

def loginReplySize (reply : List UInt8) : Nat :=
  2 + recordsSize characterSize (fun _ => false) (count reply) (reply.drop 2) + 2

def worldsReplySize (enc : ClientEncoding) (worldName reply : List UInt8) : Nat :=
  2 + recordsSize worldSize (fun data => selected enc worldName (stringAt data 0)) (count reply) (reply.drop 2)

theorem loginReplySize_cons (n : UInt8) (rest : List UInt8) : loginReplySize (0 :: n :: rest) =
    2 + recordsSize characterSize (fun _ => false) n.toNat rest + 2 := rfl

theorem worldsReplySize_cons (enc : ClientEncoding) (worldName : List UInt8) (n : UInt8) (rest : List UInt8) :
    worldsReplySize enc worldName (0 :: n :: rest) =
      2 + recordsSize worldSize (fun data => selected enc worldName (stringAt data 0)) n.toNat rest := rfl

theorem overflowed_inside {buf : List UInt8} {p : Nat} (h : p ≤ buf.length) :
    BufferReader.overflowed ⟨buf, (p : Nat)⟩ = false := by
  rw [BufferReader.overflowed, BufferReader.size, decide_eq_false_iff_not]
  simp only
  omega

theorem exists_cons_of_ok {reply : List UInt8} (hok : reply.head? = some 0) (h : 2 ≤ reply.length) :
    ∃ n rest, reply = 0 :: n :: rest := by
  obtain ⟨a, b, rest, rfl⟩ := exists_cons_cons h
  cases hok
  exact ⟨b, rest, rfl⟩

section

variable {reply : List UInt8} (hok : reply.head? = some 0) (hlen : reply.length < 1073741824)

include hok hlen

theorem completeResolve_iff : CompleteResolve reply ↔ 5 ≤ reply.length := by
  constructor
  · rintro ⟨⟨accountId, rest, rfl, hid⟩, -⟩
    rw [List.length_cons, List.length_append, hid]
    omega
  · intro h
    constructor
    · cases reply with
      | nil => cases hok
      | cons status rest =>
          cases hok
          rw [List.length_cons] at h
          refine ⟨rest.take 4, rest.drop 4, by rw [List.take_append_drop], ?_⟩
          rw [List.length_take]
          omega
    · have hr : readU32 ⟨reply, 1⟩ = .ok (_, ⟨reply, _⟩) :=
        readScalar_inside readU32Le (p := 1) (w := 4) (by omega) (by omega)
      exact ⟨_, _, hr, overflowed_inside (by omega)⟩

theorem completeLogin_iff (enc : ClientEncoding) : CompleteLogin enc reply ↔ loginReplySize reply ≤ reply.length := by
  constructor
  · rintro ⟨⟨n, records, premiumDays, rest, rfl, hrecords, hpremium⟩, -⟩
    rw [loginReplySize_cons, characters_measured.recordsSize_eq hrecords]
    simp only [List.length_cons, List.length_append, hpremium]
    omega
  · intro h
    obtain ⟨n, rest, rfl⟩ := exists_cons_of_ok hok (by rw [loginReplySize] at h; omega)
    rw [loginReplySize_cons, List.length_cons, List.length_cons] at h
    obtain ⟨records, rest, rfl, hrecords⟩ := characters_measured.records_iff.mpr
      (show recordsSize characterSize (fun _ => false) n.toNat rest ≤ rest.length by omega)
    rw [characters_measured.recordsSize_eq hrecords, List.length_append] at h
    have hpremium : (rest.take 2).length = 2 := by
      rw [List.length_take]
      omega
    constructor
    · exact ⟨n, records, rest.take 2, rest.drop 2, by rw [List.take_append_drop], hrecords, hpremium⟩
    · have hbuf : 0 :: n :: (records ++ rest) = [0, n] ++ (records ++ rest) := rfl
      have hsize : (0 :: n :: (records ++ rest)).length = ([0, n] ++ records).length + rest.length := by
        rw [hbuf, ← List.append_assoc, List.length_append]
      obtain ⟨characters, hr⟩ := readCharacters_records enc hrecords hbuf hlen
      have hpremiumDays : readU16 ⟨0 :: n :: (records ++ rest), (([0, n] ++ records).length : Nat)⟩ = .ok (_, _) :=
        readScalar_inside readU16Le (by omega) (by omega)
      exact ⟨characters, _, _, _, hr, hpremiumDays, overflowed_inside (by omega)⟩

theorem completeWorlds_iff (enc : ClientEncoding) (worldName : List UInt8) :
    CompleteWorlds enc worldName reply ↔ worldsReplySize enc worldName reply ≤ reply.length := by
  constructor
  · rintro ⟨⟨n, records, rest, rfl, hrecords⟩, -⟩
    rw [worldsReplySize_cons, (worlds_measured enc worldName).recordsSize_eq hrecords]
    simp only [List.length_cons, List.length_append]
    omega
  · intro h
    obtain ⟨n, rest, rfl⟩ := exists_cons_of_ok hok (by rw [worldsReplySize] at h; omega)
    rw [worldsReplySize_cons, List.length_cons, List.length_cons] at h
    obtain ⟨records, rest, rfl, hrecords⟩ := (worlds_measured enc worldName).records_iff.mpr
      (show recordsSize worldSize (fun data => selected enc worldName (stringAt data 0)) n.toNat rest ≤ rest.length by
        omega)
    have hbuf : 0 :: n :: (records ++ rest) = [0, n] ++ (records ++ rest) := rfl
    have hsize : (0 :: n :: (records ++ rest)).length = ([0, n] ++ records).length + rest.length := by
      rw [hbuf, ← List.append_assoc, List.length_append]
    obtain ⟨world, hr⟩ := readWorlds_records enc hrecords hbuf hlen true .zeroed
    exact ⟨⟨n, records, rest, rfl, hrecords⟩, world, _, hr, overflowed_inside (by omega)⟩

end

section

variable {σ : Type} (enc : ClientEncoding) (exchange : Exchange σ) (s : Session σ)

theorem length_of_replyOf {capacity : Nat} {outcome : Option (Reply capacity) × σ} {reply : List UInt8}
    (h : replyOf outcome = some reply) : reply.length ≤ capacity := by
  obtain ⟨answer, -, rfl⟩ := Option.map_eq_some_iff.mp h
  exact answer.fits

variable {reply : List UInt8} (hok : reply.head? = some 0)

include hok

theorem ofByte_ok : QueryStatus.ofByte (reply.headD 0) = .ok := by
  cases reply with
  | nil => cases hok
  | cons status rest =>
      cases hok
      rfl

theorem received_ok {capacity : Nat} {outcome : Option (Reply capacity) × σ} (h : replyOf outcome = some reply)
    (frame : List UInt8) (queries : List Executed) :
    received frame queries outcome = .ok (.ok, ⟨reply, 1⟩, ⟨outcome.2, queries ++ [⟨frame, some reply⟩]⟩) := by
  obtain ⟨answer, hanswer, rfl⟩ := Option.map_eq_some_iff.mp h
  obtain ⟨o, client⟩ := outcome
  cases hanswer
  rw [received_some, ofByte_ok hok]

theorem loginAccount_ok (stray : StrayReply) {accountId : Int} {password ipAddress : List UInt8} (maxCharacters : Nat)
    (hp : password.length ≤ 64) (hi : ipAddress.length ≤ 64)
    (hreply : replyOf (exchange s.client (requestFrame (loginRequest enc accountId password ipAddress)) 4096) =
      some reply) :
    ∃ characters premiumDays s', loginAccount enc exchange stray accountId password ipAddress maxCharacters s =
      .ok (if maxCharacters < count reply then -1 else 0, characters, premiumDays, s') := by
  rw [loginAccount_eq enc exchange stray accountId password ipAddress maxCharacters s hp hi, received_ok hok hreply,
    ok_bind]
  simp only [loginResult]
  rw [readU8_second, ok_bind, ← count]
  split_ifs <;> exact ⟨_, _, _, rfl⟩

theorem resolveEmail_ok {email : List UInt8} (he : email.length ≤ 64) (accountId : Int)
    (hreply : replyOf (exchange s.client (requestFrame (resolveRequest enc email)) 1024) = some reply) :
    ∃ accountId' s', resolveEmail enc exchange email accountId s = .ok (0, accountId', s') := by
  obtain ⟨v, hv, -⟩ := readU32_eq reply (p := 1) (by omega)
  rw [resolveEmail_eq enc exchange email accountId s he, received_ok hok hreply, ok_bind]
  simp only [resolveResult]
  rw [show readU32 ⟨reply, 1⟩ = _ from hv, ok_bind]
  exact ⟨_, _, rfl⟩

theorem getWorld_ok (stray : WorldInfo) (worldName : List UInt8)
    (hreply : replyOf (exchange s.client (requestFrame worldsRequest) 4096) = some reply) :
    ∃ world s', getWorld enc exchange stray worldName s = .ok (0, world, s') := by
  rw [getWorld_eq, received_ok hok hreply, ok_bind]
  simp only [worldResult]
  rw [readU8_second, ok_bind]
  exact ⟨_, _, rfl⟩

/-- A result of zero means a complete response just where the response is as
long as the lengths in it say, as no parser looks whether it was overrun. -/
theorem success_complete_iff (strayReply : StrayReply) (strayWorld : WorldInfo) :
    (∀ accountId password ipAddress maxCharacters, password.length ≤ 64 → ipAddress.length ≤ 64 →
      replyOf (exchange s.client (requestFrame (loginRequest enc accountId password ipAddress)) 4096) = some reply →
        ((∀ characters premiumDays s', loginAccount enc exchange strayReply accountId password ipAddress maxCharacters s =
            .ok (0, characters, premiumDays, s') → CompleteLogin enc reply) ↔
          maxCharacters < count reply ∨ loginReplySize reply ≤ reply.length)) ∧
    (∀ email accountId, email.length ≤ 64 →
      replyOf (exchange s.client (requestFrame (resolveRequest enc email)) 1024) = some reply →
        ((∀ accountId' s', resolveEmail enc exchange email accountId s = .ok (0, accountId', s') →
            CompleteResolve reply) ↔
          5 ≤ reply.length)) ∧
    ∀ worldName, replyOf (exchange s.client (requestFrame worldsRequest) 4096) = some reply →
      ((∀ world s', getWorld enc exchange strayWorld worldName s = .ok (0, world, s') →
          CompleteWorlds enc worldName reply) ↔
        worldsReplySize enc worldName reply ≤ reply.length) := by
  refine ⟨?_, ?_, ?_⟩
  · intro accountId password ipAddress maxCharacters hp hi hreply
    have hlen := length_of_replyOf hreply
    obtain ⟨characters, premiumDays, s', hr⟩ := loginAccount_ok enc exchange s hok strayReply maxCharacters hp hi hreply
    rw [← completeLogin_iff hok (by omega) enc]
    by_cases hmax : maxCharacters < count reply
    · rw [if_pos hmax] at hr
      refine ⟨fun _ => Or.inl hmax, fun _ characters premiumDays s' h => ?_⟩
      rw [hr] at h
      cases h
    · rw [if_neg hmax] at hr
      exact ⟨fun h => Or.inr (h _ _ _ hr), fun h _ _ _ _ => h.resolve_left hmax⟩
  · intro email accountId he hreply
    have hlen := length_of_replyOf hreply
    obtain ⟨accountId', s', hr⟩ := resolveEmail_ok enc exchange s hok he accountId hreply
    rw [← completeResolve_iff hok (by omega)]
    exact ⟨fun h => h _ _ hr, fun h _ _ _ => h⟩
  · intro worldName hreply
    have hlen := length_of_replyOf hreply
    obtain ⟨world, s', hr⟩ := getWorld_ok enc exchange s hok strayWorld worldName hreply
    rw [← completeWorlds_iff hok (by omega) enc worldName]
    exact ⟨fun h => h _ _ hr, fun h _ _ _ => h⟩

end

def oneCharacterReply : List UInt8 := [0, 1, 1, 0, 65, 1, 0, 66, 127, 0, 0, 1, 3, 28, 7, 0]

def oneWorldReply : List UInt8 := [0, 1, 1, 0, 66, 1, 127, 0, 0, 1, 3, 28, 2, 44, 1, 200, 0, 5, 6, 7, 8, 9, 10, 11]

theorem success_complete_one :
    (∀ characters premiumDays s', loginAccount .latin1 LoginHandler.scripted (default : LoginHandler.Stray).toStrayReply
        7 [98] [49] 50 ⟨[oneCharacterReply], []⟩ = .ok (0, characters, premiumDays, s') →
      CompleteLogin .latin1 oneCharacterReply) ∧
    (∀ accountId s', resolveEmail .latin1 LoginHandler.scripted [97] 0 ⟨[[0, 57, 48, 2, 1]], []⟩ = .ok (0, accountId, s') →
      CompleteResolve [0, 57, 48, 2, 1]) ∧
    ∀ world s', getWorld .latin1 LoginHandler.scripted .zeroed [66] ⟨[oneWorldReply], []⟩ = .ok (0, world, s') →
      CompleteWorlds .latin1 [66] oneWorldReply := by
  obtain ⟨hlogin, -, -⟩ := success_complete_iff .latin1 LoginHandler.scripted ⟨[oneCharacterReply], []⟩
    (show oneCharacterReply.head? = some 0 from rfl) (default : LoginHandler.Stray).toStrayReply .zeroed
  obtain ⟨-, hresolve, -⟩ := success_complete_iff .latin1 LoginHandler.scripted ⟨[[0, 57, 48, 2, 1]], []⟩
    (show [0, 57, 48, 2, 1].head? = some (0 : UInt8) from rfl) (default : LoginHandler.Stray).toStrayReply .zeroed
  obtain ⟨-, -, hworld⟩ := success_complete_iff .latin1 LoginHandler.scripted ⟨[oneWorldReply], []⟩
    (show oneWorldReply.head? = some 0 from rfl) (default : LoginHandler.Stray).toStrayReply .zeroed
  exact ⟨(hlogin 7 [98] [49] 50 (by decide) (by decide) rfl).mpr (Or.inr (by decide)),
    (hresolve [97] 0 (by decide) rfl).mpr (by decide), (hworld [66] rfl).mpr (by decide)⟩

/-- A response cut off behind the number of records passes for a success. -/
theorem truncated_reply_accepted :
    (∃ characters premiumDays s', loginAccount .latin1 LoginHandler.scripted
        (default : LoginHandler.Stray).toStrayReply 7 [98] [49] 50 ⟨[[0, 1]], []⟩ =
          .ok (0, characters, premiumDays, s')) ∧ ¬CompleteLogin .latin1 [0, 1] ∧
    (∃ accountId s', resolveEmail .latin1 LoginHandler.scripted [97] 0 ⟨[[0, 1]], []⟩ = .ok (0, accountId, s')) ∧
      ¬CompleteResolve [0, 1] ∧
    (∃ world s', getWorld .latin1 LoginHandler.scripted .zeroed [] ⟨[[0, 1]], []⟩ = .ok (0, world, s')) ∧
      ¬CompleteWorlds .latin1 [] [0, 1] := by
  have hok : [0, 1].head? = some (0 : UInt8) := rfl
  refine ⟨?_, ?_, ?_, ?_, ?_, ?_⟩
  · exact loginAccount_ok .latin1 LoginHandler.scripted ⟨[[0, 1]], []⟩ hok _ 50 (by decide) (by decide) rfl
  · rw [completeLogin_iff hok (by decide)]
    decide
  · exact resolveEmail_ok .latin1 LoginHandler.scripted ⟨[[0, 1]], []⟩ hok (by decide) 0 rfl
  · rw [completeResolve_iff hok (by decide)]
    decide
  · exact getWorld_ok .latin1 LoginHandler.scripted ⟨[[0, 1]], []⟩ hok .zeroed [] rfl
  · rw [completeWorlds_iff hok (by decide)]
    decide

end TibiaLogin.ReplyCompleteness
