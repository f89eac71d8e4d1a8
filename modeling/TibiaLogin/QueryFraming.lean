import TibiaLogin.QueryLockstep
import TibiaLogin.WireValues

namespace TibiaLogin.QueryFraming

open MachineInt Memory ByteOrder BufferWriter Query QueryClient QueryAttempt QueryLockstep WireValues

structure NoFailures (net : Network) : Prop where
  writes : ∀ i, net.writes i ≠ none
  reads : ∀ i, net.reads i ≠ none

inductive Announces : List UInt8 → Nat → Prop
  | short (size : UInt16) (h : size ≠ 0xFFFF) : Announces (writeU16Le size) size.toNat
  | extended (size : UInt32) : Announces (writeU16Le 0xFFFF ++ writeU32Le size) size.toNat

def requestBody (w : BufferWriter) : List UInt8 := (w.buffer.take w.position.toNat).drop 2

def transmissions (log : List Event) : List (Nat × List UInt8) :=
  log.filterMap fun
    | .transmitted connection frame => some (connection, frame)
    | _ => none

def shortFrame (body : List UInt8) : List UInt8 := writeU16Le (toU16 body.length) ++ body

def extendedFrame (body : List UInt8) : List UInt8 :=
  writeU16Le 0xFFFF ++ writeU32Le (toU32 body.length) ++ body

theorem requestFrame_short {body : List UInt8} (h : body.length < 0xFFFF) : requestFrame body = shortFrame body := by
  rw [requestFrame, lengthField, if_pos h, shortFrame]

theorem requestFrame_extended {body : List UInt8} (h : ¬body.length < 0xFFFF) :
    requestFrame body = extendedFrame body := by
  rw [requestFrame, lengthField, if_neg h, extendedFrame]

theorem shortFrame_ne_extendedFrame (body : List UInt8) : shortFrame body ≠ extendedFrame body := by
  intro h
  have hlen := congrArg List.length h
  simp only [shortFrame, extendedFrame, List.length_append, length_writeU16Le, length_writeU32Le] at hlen
  omega

theorem requestFrame_eq_shortFrame_iff (body : List UInt8) : requestFrame body = shortFrame body ↔ body.length < 0xFFFF := by
  refine ⟨fun h => ?_, requestFrame_short⟩
  by_contra hlong
  rw [requestFrame_extended hlong] at h
  exact shortFrame_ne_extendedFrame body h.symm

theorem requestFrame_eq_extendedFrame_iff (body : List UInt8) :
    requestFrame body = extendedFrame body ↔ 0xFFFF ≤ body.length := by
  refine ⟨fun h => ?_, fun h => requestFrame_extended (Nat.not_lt.mpr h)⟩
  by_contra hshort
  rw [requestFrame_short (Nat.not_le.mp hshort)] at h
  exact shortFrame_ne_extendedFrame body h

theorem announces_lengthField {n : Nat} (h : n < 4294967296) : Announces (lengthField n) n := by
  rw [lengthField]
  split_ifs with hshort
  · have hnat : (toU16 n).toNat = n := toNat_toU16 (by omega)
    have hne : toU16 n ≠ 0xFFFF := by
      intro he
      rw [he] at hnat
      exact absurd hshort (by rw [← hnat]; decide)
    simpa only [hnat] using Announces.short (toU16 n) hne
  · have hnat : (toU32 n).toNat = n := toNat_toU32 h
    simpa only [hnat] using Announces.extended (toU32 n)

section

variable {net : Network} (hnet : NoFailures net)

include hnet

theorem writeExact_calm (size : Nat) (c : Client) : ∃ clock, writeExact net size c = (true, { c with clock }) := by
  obtain ⟨written, clock, hw, hfail⟩ := writeLoop_spec net (Nat.le_refl size) c
  cases written with
  | true => exact ⟨clock, hw⟩
  | false =>
      obtain ⟨i, hi⟩ := hfail rfl
      exact absurd hi (hnet.writes i)

theorem readExact_calm {c : Client} (bytes rest : List UInt8) (h : c.unread = bytes ++ rest) :
    ∃ clock, readExact net bytes.length c = (some bytes, { c with clock, unread := rest }) := by
  rcases readExact_spec net bytes.length c with ⟨clock, hr, -⟩ | ⟨clock, unread, -, hfail⟩
  · refine ⟨clock, ?_⟩
    rw [hr, h, List.take_left, List.drop_left]
  · rcases hfail with ⟨i, hi⟩ | hlt
    · exact absurd hi (hnet.reads i)
    · rw [h, List.length_append] at hlt
      omega

theorem readReply_header (connection : Nat) (frame : List UInt8) (capacity : Nat) {c : Client}
    {header rest : List UInt8} {size : Nat} (hheader : Announces header size) (h : c.unread = header ++ rest) :
    ∃ clock, readReply net connection frame capacity c =
      readResponse net connection frame capacity (wrap32 size) { c with clock, unread := rest } := by
  cases hheader with
  | short size hne =>
      obtain ⟨clock, hr⟩ := readExact_calm hnet (writeU16Le size) rest h
      have hdecoded : readU16Le (writeU16Le size) = size := readU16Le_writeU16Le size []
      have hlt := UInt16.toNat_lt size
      have hmark : ((size.toNat : Nat) : Int) ≠ 0xFFFF := by
        intro he
        exact hne (UInt16.toNat_inj.mp (by rw [show (0xFFFF : UInt16).toNat = 65535 from rfl]; omega))
      refine ⟨clock, ?_⟩
      rw [length_writeU16Le] at hr
      rw [readReply, hr]
      simp only [hdecoded]
      rw [if_neg hmark, wrap32_natCast (by omega)]
  | extended size =>
      rw [List.append_assoc] at h
      obtain ⟨clock₁, hr₁⟩ := readExact_calm hnet (writeU16Le 0xFFFF) (writeU32Le size ++ rest) h
      have hnext : { c with clock := clock₁, unread := writeU32Le size ++ rest }.unread = writeU32Le size ++ rest := rfl
      obtain ⟨clock₂, hr₂⟩ := readExact_calm hnet (writeU32Le size) rest hnext
      have hdecoded : readU32Le (writeU32Le size) = size := readU32Le_writeU32Le size []
      refine ⟨clock₂, ?_⟩
      rw [length_writeU16Le] at hr₁
      rw [length_writeU32Le] at hr₂
      rw [readReply, hr₁]
      simp only
      rw [if_pos (by rfl), hr₂]
      simp only [hdecoded]

theorem readReply_refused (connection : Nat) (frame : List UInt8) {capacity : Nat} {c : Client}
    {header rest : List UInt8} {size : Nat} (hheader : Announces header size) (h : c.unread = header ++ rest)
    (hbad : size = 0 ∨ capacity < size ∨ 2147483648 ≤ size) :
    ∃ c', readReply net connection frame capacity c = (.failed, c') ∧ c'.socket = none := by
  obtain ⟨clock, hr⟩ := readReply_header hnet connection frame capacity hheader h
  have hsize : size < 4294967296 := by
    cases hheader with
    | short size hne => exact (UInt16.toNat_lt size).trans (by decide)
    | extended size => exact UInt32.toNat_lt size
  have hout : wrap32 size ≤ 0 ∨ (capacity : Int) < wrap32 size := by
    rw [wrap32]
    omega
  rw [hr, readResponse, if_pos hout]
  refine ⟨_, rfl, ?_⟩
  rw [disconnect]
  split
  · assumption
  · rfl

theorem readReply_requestFrame (connection : Nat) (frame : List UInt8) {capacity : Nat} {c : Client}
    {body rest : List UInt8} (hpos : 0 < body.length) (hbody : body.length < 2147483648)
    (hcapacity : body.length ≤ capacity) (h : c.unread = requestFrame body ++ rest) :
    ∃ c', readReply net connection frame capacity c = (.response body, c') ∧ c'.unread = rest := by
  rw [requestFrame, List.append_assoc] at h
  obtain ⟨clock₁, hr₁⟩ := readReply_header hnet connection frame capacity
    (announces_lengthField (n := body.length) (by omega)) h
  have hnext : { c with clock := clock₁, unread := body ++ rest }.unread = body ++ rest := rfl
  obtain ⟨clock₂, hr₂⟩ := readExact_calm hnet body rest hnext
  rw [hr₁, wrap32_natCast hbody, readResponse, if_neg (by omega), Int.toNat_natCast, hr₂]
  exact ⟨_, rfl, rfl⟩

end

theorem transmissions_disconnect (c : Client) : transmissions (disconnect c).log = transmissions c.log := by
  rw [disconnect]
  split <;> rfl

section

variable (net : Network)

theorem readExact_log (size : Nat) (c : Client) : (readExact net size c).2.log = c.log := by
  rcases readExact_spec net size c with ⟨clock, hr, -⟩ | ⟨clock, unread, hr, -⟩ <;> rw [hr]

theorem readResponse_transmissions (connection : Nat) (frame : List UInt8) (capacity : Nat) (responseSize : Int)
    (c : Client) :
    (readResponse net connection frame capacity responseSize c).1 ≠ .again ∧
      transmissions (readResponse net connection frame capacity responseSize c).2.log = transmissions c.log := by
  have hlog := readExact_log net responseSize.toNat c
  rw [readResponse]
  split_ifs
  · exact ⟨Outcome.noConfusion, transmissions_disconnect c⟩
  · generalize readExact net responseSize.toNat c = result at hlog ⊢
    obtain ⟨body, c₁⟩ := result
    rw [← hlog]
    cases body with
    | none => exact ⟨Outcome.noConfusion, transmissions_disconnect c₁⟩
    | some body => exact ⟨Outcome.noConfusion, rfl⟩

theorem readReply_transmissions (hnet : NoFailures net) (connection : Nat) (frame : List UInt8) (capacity : Nat)
    {c : Client} (h : 2 ≤ c.unread.length) :
    (readReply net connection frame capacity c).1 ≠ .again ∧
      transmissions (readReply net connection frame capacity c).2.log = transmissions c.log := by
  obtain ⟨clock, hr⟩ := readExact_calm hnet (c.unread.take 2) (c.unread.drop 2) (List.take_append_drop 2 c.unread).symm
  rw [List.length_take, min_eq_left h] at hr
  rw [readReply, hr]
  simp only
  split_ifs
  · have hlog := readExact_log net 4 { c with clock, unread := c.unread.drop 2 }
    generalize readExact net 4 { c with clock, unread := c.unread.drop 2 } = result at hlog ⊢
    obtain ⟨help, c₁⟩ := result
    rw [← show c₁.log = c.log from hlog]
    cases help with
    | none => exact ⟨Outcome.noConfusion, transmissions_disconnect c₁⟩
    | some help =>
        simp only
        exact readResponse_transmissions net connection frame capacity _ c₁
  · exact readResponse_transmissions net connection frame capacity _ _

end

section

variable {net : Network} (hnet : NoFailures net) (manager : Manager) (reconnect : Client → Except Fault (Bool × Client))

include hnet

theorem attempt_sent (connection : Nat) (frame : List UInt8) (capacity : Nat) (c : Client) :
    ∃ clock, attempt net manager connection frame capacity c =
        readReply net connection frame capacity (transmit manager connection frame { c with clock }) ∧
      (attempt net manager connection frame capacity c).1 ≠ .again ∧
      transmissions (attempt net manager connection frame capacity c).2.log =
        (connection, frame) :: transmissions c.log := by
  obtain ⟨clock, hw⟩ := writeExact_calm hnet frame.length c
  have hsent : attempt net manager connection frame capacity c =
      readReply net connection frame capacity (transmit manager connection frame { c with clock }) := by
    rw [attempt, hw]
  refine ⟨clock, hsent, ?_⟩
  rw [hsent]
  refine readReply_transmissions net hnet connection frame capacity ?_
  rw [transmit, List.length_append, Response.frame, List.length_append]
  split_ifs <;> simp only [List.length_append, length_writeU16Le, length_writeU32Le] <;> omega

theorem attempts_sent {connection : Nat} (frame : List UInt8) (capacity left : Nat) {c : Client}
    (hs : c.socket = some connection) :
    ∃ clock outcome c', readReply net connection frame capacity (transmit manager connection frame { c with clock }) =
        (outcome, c') ∧
      attempts net manager reconnect frame capacity (left + 1) c = .ok (Outcome.body outcome, c') ∧
      transmissions c'.log = (connection, frame) :: transmissions c.log := by
  obtain ⟨clock, hsent, hagain, htransmitted⟩ := attempt_sent hnet manager connection frame capacity c
  have hround : attemptRound net manager reconnect frame capacity c =
      .ok (attempt net manager connection frame capacity c) := by
    rw [attemptRound, hs, Option.isNone_some, if_neg Bool.false_ne_true, pure_bind]
    simp only [hs]
    rfl
  rw [attempts, hround, ok_bind, hsent]
  rw [hsent] at hagain htransmitted
  refine ⟨clock, ?_⟩
  generalize readReply net connection frame capacity _ = result at hagain htransmitted
  obtain ⟨outcome, c'⟩ := result
  refine ⟨outcome, c', rfl, ?_, htransmitted⟩
  cases outcome with
  | response body | failed => rfl
  | again => exact absurd rfl hagain

theorem exchange_sent {n : Nat} {w : BufferWriter} {a b : UInt8} {body : List UInt8}
    (hw : Holds n w (a :: b :: body)) (hn : n < 2147483648) (hbody : body.length < 2147483642) {connection : Nat}
    {c : Client} (hs : c.socket = some connection) :
    (n < (requestFrame body).length ∧ exchange net manager reconnect w c = .ok (.failed, none, c)) ∨
      ((requestFrame body).length ≤ n ∧ ∃ clock outcome c',
        readReply net connection (requestFrame body) n (transmit manager connection (requestFrame body) { c with clock }) =
          (outcome, c') ∧
        exchange net manager reconnect w c = .ok (statusOf (Outcome.body outcome), Outcome.body outcome, c') ∧
        transmissions c'.log = (connection, requestFrame body) :: transmissions c.log) := by
  obtain ⟨w', hsize, htake, hframe⟩ := frameRequest_eq hw hn (by omega)
  rw [exchange, hframe, ok_bind]
  by_cases hfit : (requestFrame body).length ≤ n
  · obtain ⟨clock, outcome, c', hr, hattempts, ht⟩ := attempts_sent hnet manager reconnect (requestFrame body) n 1 hs
    refine Or.inr ⟨hfit, clock, outcome, c', hr, ?_, ht⟩
    simp only [if_pos hfit, htake hfit, hsize, hattempts, ok_bind]
    cases hreply : Outcome.body outcome with
    | none => rfl
    | some reply =>
        simp only [readU8_status, ok_bind]
        rfl
  · rw [if_neg hfit]
    exact Or.inl ⟨Nat.not_le.mp hfit, rfl⟩

end

theorem holds_requestBody {w : BufferWriter} (ho : NoOverflow w) (hpos : 1 ≤ (requestBody w).length) :
    ∃ a b, Holds w.buffer.length w (a :: b :: requestBody w) := by
  obtain ⟨hzero, hin⟩ := ho
  rw [BufferWriter.overflowed, BufferWriter.size, decide_eq_false_iff_not] at hin
  have hlen : (w.buffer.take w.position.toNat).length = w.position.toNat := by
    rw [List.length_take]
    omega
  rw [requestBody, List.length_drop] at hpos
  obtain ⟨a, rest, ha⟩ : ∃ a rest, w.buffer.take w.position.toNat = a :: rest :=
    List.exists_cons_of_ne_nil (List.ne_nil_of_length_pos (by omega))
  obtain ⟨b, body, hb⟩ : ∃ b body, rest = b :: body := by
    refine List.exists_cons_of_ne_nil (List.ne_nil_of_length_pos ?_)
    rw [ha, List.length_cons] at hpos
    omega
  have hwritten : w.buffer.take w.position.toNat = a :: b :: body := by rw [ha, hb]
  refine ⟨a, b, ?_⟩
  rw [requestBody, hwritten, List.drop_succ_cons, List.drop_succ_cons, List.drop_zero, ← hwritten]
  refine ⟨rfl, ?_, fun _ => ?_⟩
  · rw [hlen]
    omega
  · rw [hlen]

theorem requestBody_prepared {enc : ClientEncoding} {type : QueryType} {buffer : List UInt8} {values : List Value}
    {w : BufferWriter} (hn : buffer.length < 2147483648) (hv : ∀ value ∈ values, value.Measured)
    (hw : (prepareQuery type buffer >>= writeAll enc values) = .ok w) (ho : NoOverflow w) :
    requestBody w = type.code :: values.flatMap (wireBytes enc) ∧ w.buffer.length = buffer.length := by
  obtain ⟨w₂, hprepare, hw⟩ := bind_eq_ok.mp hw
  obtain ⟨w₁, hw₁, hw₂⟩ := bind_eq_ok.mp hprepare
  have hstart : Kept buffer.length ⟨buffer, 0⟩ [] := Or.inl ⟨holds_nil buffer, Nat.zero_le _⟩
  have h₁ := (writeScalar_kept hn hstart (by simp) hw₁).1
  have h₂ := (writeScalar_kept hn h₁ (by simp) hw₂).1
  obtain ⟨h, hle⟩ := (writeAll_kept hn hv h₂ hw).holds ho
  refine ⟨?_, h.size_eq⟩
  rw [requestBody, h.position_eq, Int.toNat_natCast, h.content hle]
  rfl

/-- The frame of a query goes out whole or not at all, and the code that reads
responses takes it back to the body. -/
theorem query_framing_round_trip {net : Network} (hnet : NoFailures net) (manager : Manager) (enc : ClientEncoding)
    (autoReconnect : Bool) {w : BufferWriter} (hn : w.buffer.length < 2147483648) (ho : NoOverflow w)
    {p : List UInt8} (hp : requestBody w = p) (hpos : 1 ≤ p.length) (hlen : p.length < 2147483642)
    {c : Client} {connection : Nat} (hs : c.socket = some connection) :
    (∀ type buffer values, buffer.length < 2147483648 → (∀ value ∈ values, value.Measured) →
      (prepareQuery type buffer >>= writeAll enc values) = .ok w →
        p = type.code :: values.flatMap (wireBytes enc) ∧ w.buffer.length = buffer.length) ∧
    ((w.buffer.length < (requestFrame p).length ∧
        executeQuery net manager enc autoReconnect w c = .ok (.failed, none, c)) ∨
      ((requestFrame p).length ≤ w.buffer.length ∧ ∃ clock outcome c',
        readReply net connection (requestFrame p) w.buffer.length
          (transmit manager connection (requestFrame p) { c with clock }) = (outcome, c') ∧
        executeQuery net manager enc autoReconnect w c =
          .ok (statusOf (Outcome.body outcome), Outcome.body outcome, c') ∧
        transmissions c'.log = (connection, requestFrame p) :: transmissions c.log)) ∧
    (requestFrame p = shortFrame p ↔ p.length < 0xFFFF) ∧ (requestFrame p = extendedFrame p ↔ 0xFFFF ≤ p.length) ∧
    (∀ n frame capacity d, p.length ≤ capacity → d.unread = requestFrame p →
      ∃ d', readReply net n frame capacity d = (.response p, d') ∧ d'.unread = []) ∧
    ∀ n frame capacity d header rest size, Announces header size → d.unread = header ++ rest →
      size = 0 ∨ capacity < size ∨ 2147483648 ≤ size →
        ∃ d', readReply net n frame capacity d = (.failed, d') ∧ d'.socket = none := by
  subst hp
  obtain ⟨a, b, hholds⟩ := holds_requestBody ho hpos
  refine ⟨?_, ?_, requestFrame_eq_shortFrame_iff _, requestFrame_eq_extendedFrame_iff _, ?_, ?_⟩
  · intro type buffer values hbuffer hv hw
    exact requestBody_prepared hbuffer hv hw ho
  · exact exchange_sent hnet manager _ hholds hn hlen hs
  · intro n frame capacity d hcapacity hd
    have hwhole : d.unread = requestFrame (requestBody w) ++ [] := by rw [hd, List.append_nil]
    exact readReply_requestFrame hnet n frame hpos (by omega) hcapacity hwhole
  · intro n frame capacity d header rest size hheader hd hbad
    exact readReply_refused hnet n frame hheader hd hbad

def steady : Network :=
  ⟨fun _ => true, fun _ => true, fun _ => true, fun _ => some 0, fun _ => some 0⟩

theorem steady_noFailures : NoFailures steady := ⟨fun _ => Option.some_ne_none _, fun _ => Option.some_ne_none _⟩

theorem query_framing_round_trip_resolve :
    ∃ w, (prepareQuery .resolveEmail (List.replicate 16 0) >>= writeAll .latin1 [.string [97, 98]]) = .ok w ∧
      (∃ status reply c', executeQuery steady (fun _ _ => ⟨false, [0], by decide⟩) .latin1 false w
          { Client.initial with socket := some 0 } = .ok (status, reply, c') ∧
        transmissions c'.log = [(0, [5, 0, 13, 2, 0, 97, 98])]) ∧
      ∃ d, readReply steady 0 [] 16 { Client.initial with unread := [5, 0, 13, 2, 0, 97, 98] } =
        (.response [13, 2, 0, 97, 98], d) ∧ d.unread = [] := by
  refine ⟨⟨[0, 0, 13, 2, 0, 97, 98] ++ List.replicate 9 0, 7⟩, by decide +kernel, ?_⟩
  obtain ⟨-, hsent, -, -, hread, -⟩ := query_framing_round_trip steady_noFailures (fun _ _ => ⟨false, [0], by decide⟩)
    .latin1 false (w := ⟨[0, 0, 13, 2, 0, 97, 98] ++ List.replicate 9 0, 7⟩) (p := [13, 2, 0, 97, 98])
    (c := { Client.initial with socket := some 0 }) (by decide) ⟨by decide, by decide⟩ (by decide) (by decide)
    (by decide) rfl
  refine ⟨?_, hread 0 [] 16 _ (by decide) rfl⟩
  rcases hsent with ⟨hlong, -⟩ | ⟨-, clock, outcome, c', -, hrun, hlog⟩
  · exact absurd hlong (by decide)
  · exact ⟨_, _, c', hrun, hlog⟩

end TibiaLogin.QueryFraming
