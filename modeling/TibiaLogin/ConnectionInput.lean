import TibiaLogin.Server

namespace TibiaLogin.ConnectionInput

open MachineInt Memory ByteOrder Server

def ReadingOk (c : Connection) : Prop :=
  c.state = .reading ∧ ((c.rwSize = 0 ∧ (c.rwPosition = 0 ∨ c.rwPosition = 1)) ∨
    (1 ≤ c.rwSize ∧ c.rwSize ≤ 2048 ∧ 0 ≤ c.rwPosition ∧ c.rwPosition < c.rwSize))

def WritingOk (c : Connection) : Prop :=
  c.state = .writing ∧ 0 ≤ c.rwPosition ∧ c.rwPosition ≤ c.rwSize ∧ c.rwSize ≤ 2048

/-- A connection as it stands between two cycles. -/
structure SlotOk (c : Connection) : Prop where
  sized : c.buffer.length = 2048
  socket : c.socket ≠ -1
  shape : (c.state = .free ∧ c.rwSize = 0 ∧ c.rwPosition = 0) ∨ ReadingOk c ∨ WritingOk c

def Requesting (c : Connection) : Prop := c.state = .processing ∧ 1 ≤ c.rwSize ∧ c.rwSize ≤ 2048

/-- A polled connection after its input: a closed one waits for its release. -/
structure Active (c : Connection) : Prop where
  sized : c.buffer.length = 2048
  polled : c.state ≠ .free
  shape : c.socket ≠ -1 → ReadingOk c ∨ WritingOk c ∨ Requesting c

theorem active_closed {c : Connection} (hb : c.buffer.length = 2048) (hp : c.state ≠ .free) :
    Active (closeConnection c) := by
  rw [closeConnection_eq]
  exact ⟨hb, hp, fun h => absurd rfl h⟩

theorem readSocket_cases {count : Nat} (hc : 0 < count) (arrival : Arrival) (stream : List UInt8) :
    readSocket count arrival stream = (.again, stream) ∨
      ((arrival = .failed ∨ arrival = .eof) ∧ (readSocket count arrival stream = (.failed, stream) ∨
        readSocket count arrival stream = (.bytes [], stream))) ∨
      ∃ k, 1 ≤ k ∧ k ≤ count ∧ k ≤ stream.length ∧
        readSocket count arrival stream = (.bytes (stream.take k), stream.drop k) := by
  cases arrival with
  | again => exact Or.inl rfl
  | failed => exact Or.inr (Or.inl ⟨Or.inl rfl, Or.inl rfl⟩)
  | eof => exact Or.inr (Or.inl ⟨Or.inr rfl, Or.inr rfl⟩)
  | bytes more =>
      cases stream with
      | nil => exact Or.inl rfl
      | cons b stream =>
          refine Or.inr (Or.inr ?_)
          by_cases hle : min (more + 1) count ≤ (b :: stream).length
          · exact ⟨min (more + 1) count, by omega, by omega, hle, rfl⟩
          · refine ⟨(b :: stream).length, by simp, by omega, Nat.le_refl _, ?_⟩
            rw [readSocket, List.take_of_length_le (by omega), List.drop_eq_nil_of_le (by omega), List.take_length,
              List.drop_length]
            exact List.cons_ne_nil b stream

/-- What a round of the input loop can do to a connection that is reading. -/
inductive InputOutcome (arrival : Arrival) (c : Connection) (stream : List UInt8) :
    Bool × Connection × List UInt8 → Prop
  | idle : InputOutcome arrival c stream (false, c, stream)
  | closed (h : arrival = .failed ∨ arrival = .eof) :
      InputOutcome arrival c stream (false, closeConnection c, stream)
  | partly (k : Nat) (hk : 1 ≤ k) (hle : k ≤ stream.length) (hlt : c.rwPosition + k < readSize c) :
      InputOutcome arrival c stream (true, storeInput (stream.take k) c, stream.drop k)
  | complete (k : Nat) (hk : 1 ≤ k) (hle : k ≤ stream.length) (hfull : c.rwPosition + k = c.rwSize)
      (hsize : 1 ≤ c.rwSize) :
      InputOutcome arrival c stream
        (false, { storeInput (stream.take k) c with state := .processing }, stream.drop k)
  | refused (k : Nat) (hk : 1 ≤ k) (hle : k ≤ stream.length) (hfull : c.rwPosition + k = 2) (hsize : c.rwSize = 0)
      (hbad : (readU16Le (storeInput (stream.take k) c).buffer).toNat = 0 ∨
        2048 < (readU16Le (storeInput (stream.take k) c).buffer).toNat) :
      InputOutcome arrival c stream (false, closeConnection (storeInput (stream.take k) c), stream.drop k)
  | header (k : Nat) (hk : 1 ≤ k) (hle : k ≤ stream.length) (hfull : c.rwPosition + k = 2) (hsize : c.rwSize = 0)
      (hgood : 1 ≤ (readU16Le (storeInput (stream.take k) c).buffer).toNat ∧
        (readU16Le (storeInput (stream.take k) c).buffer).toNat ≤ 2048) :
      InputOutcome arrival c stream
        (true, { storeInput (stream.take k) c with
          rwSize := ((readU16Le (storeInput (stream.take k) c).buffer).toNat : Int), rwPosition := 0 },
          stream.drop k)

theorem readSize_bounds {c : Connection} (h : ReadingOk c) :
    0 ≤ c.rwPosition ∧ c.rwPosition < readSize c ∧ readSize c ≤ 2048 := by
  rw [readSize]
  rcases h.2 with ⟨h0, hp⟩ | ⟨h1, h2, h3, h4⟩
  · rw [if_neg (by omega)]
    omega
  · rw [if_pos (by omega)]
    omega

theorem inputStep_outcome {c : Connection} (hb : c.buffer.length = 2048) (h : ReadingOk c) (arrival : Arrival)
    (stream : List UInt8) :
    ∃ r, inputStep arrival c stream = .ok r ∧ InputOutcome arrival c stream r := by
  have hbounds := readSize_bounds h
  have hroom : 0 ≤ readSize c - c.rwPosition := by omega
  obtain ⟨count, hcount⟩ := Int.eq_ofNat_of_zero_le hroom
  have hsize : toSize (readSize c - c.rwPosition) = count := by
    rw [hcount]
    exact toSize_natCast (by omega)
  have hw : Within c.buffer.length c.rwPosition count := Or.inr (by omega)
  have hpos : 0 < count := by omega
  rcases readSocket_cases hpos arrival stream with hr | ⟨ha, hr | hr⟩ | ⟨k, hk, hkc, hks, hr⟩
  · exact ⟨_, by simp only [inputStep, hsize, if_pos hw, hr], .idle⟩
  · exact ⟨_, by simp only [inputStep, hsize, if_pos hw, hr], .closed ha⟩
  · exact ⟨_, by simp only [inputStep, hsize, if_pos hw, hr, List.length_nil, if_true], .closed ha⟩
  · have hlen : (stream.take k).length = k := by
      rw [List.length_take]
      omega
    have hpos : (storeInput (stream.take k) c).rwPosition = c.rwPosition + k := by
      rw [storeInput, hlen]
    have hrw : (storeInput (stream.take k) c).rwSize = c.rwSize := rfl
    have hk0 : k ≠ 0 := by omega
    by_cases hfull : c.rwPosition + k = readSize c
    · have hge : readSize c ≤ c.rwPosition + k := by omega
      rw [readSize] at hfull
      by_cases hz : c.rwSize = 0
      · rw [if_neg (by omega)] at hfull
        by_cases hbad : (readU16Le (storeInput (stream.take k) c).buffer).toNat = 0 ∨
            2048 < (readU16Le (storeInput (stream.take k) c).buffer).toNat
        · refine ⟨_, ?_, .refused k hk hks hfull hz hbad⟩
          simp only [inputStep, hsize, if_pos hw, hr, hlen, hpos, hrw, if_neg hk0, if_pos hge]
          rw [if_neg (not_not.mpr hz), if_pos hfull, if_pos (by omega)]
        · refine ⟨_, ?_, .header k hk hks hfull hz (by omega)⟩
          simp only [inputStep, hsize, if_pos hw, hr, hlen, hpos, hrw, if_neg hk0, if_pos hge]
          rw [if_neg (not_not.mpr hz), if_pos hfull, if_neg (by omega)]
      · have h1 : 1 ≤ c.rwSize := by
          rcases h.2 with ⟨h0, -⟩ | ⟨h1, -⟩ <;> omega
        rw [if_pos (by omega)] at hfull
        refine ⟨_, ?_, .complete k hk hks hfull h1⟩
        simp only [inputStep, hsize, if_pos hw, hr, hlen, hpos, hrw, if_neg hk0, if_pos hge]
        rw [if_pos hz]
    · refine ⟨_, ?_, .partly k hk hks (by omega)⟩
      simp only [inputStep, hsize, if_pos hw, hr, hlen, hpos, if_neg hk0]
      rw [if_neg (by omega)]

theorem length_storeInput {stream : List UInt8} {c : Connection} {k : Nat} (hb : c.buffer.length = 2048)
    (hle : k ≤ stream.length) (h0 : 0 ≤ c.rwPosition) (hfit : c.rwPosition + k ≤ 2048) :
    (storeInput (stream.take k) c).buffer.length = 2048 := by
  rw [storeInput, length_overwrite, hb]
  rw [List.length_take]
  omega

theorem position_storeInput {stream : List UInt8} (c : Connection) {k : Nat} (hle : k ≤ stream.length) :
    (storeInput (stream.take k) c).rwPosition = c.rwPosition + k := by
  rw [storeInput, List.length_take]
  simp only
  omega

theorem active_of_outcome {arrival : Arrival} {c : Connection} {stream : List UInt8} {r : Bool × Connection × List UInt8}
    (ha : Active c) (h : ReadingOk c) (ho : InputOutcome arrival c stream r) :
    Active r.2.1 ∧ (r.1 = true → ReadingOk r.2.1) := by
  obtain ⟨hb, hp, -⟩ := ha
  obtain ⟨h0, -, hsize⟩ := readSize_bounds h
  cases ho with
  | idle => exact ⟨⟨hb, hp, fun _ => Or.inl h⟩, fun hf => by cases hf⟩
  | closed => exact ⟨active_closed hb hp, fun hf => by cases hf⟩
  | partly k hk hle hlt =>
      have hpos := position_storeInput c hle
      have hr : ReadingOk (storeInput (stream.take k) c) := by
        refine ⟨h.1, ?_⟩
        have hsame : (storeInput (stream.take k) c).rwSize = c.rwSize := rfl
        rw [hpos, hsame]
        rw [readSize] at hlt
        rcases h.2 with ⟨hz, hq⟩ | ⟨h1, h2, h3, h4⟩
        · rw [if_neg (by omega)] at hlt
          omega
        · rw [if_pos (by omega)] at hlt
          omega
      exact ⟨⟨length_storeInput hb hle h0 (by omega), hp, fun _ => Or.inl hr⟩, fun _ => hr⟩
  | complete k hk hle hfull h1 =>
      have hle2 : c.rwSize ≤ 2048 := by
        rcases h.2 with ⟨hz, -⟩ | ⟨-, h2, -⟩ <;> omega
      refine ⟨⟨length_storeInput hb hle h0 (by omega), ?_, fun _ => Or.inr (Or.inr ⟨rfl, h1, hle2⟩)⟩,
        fun hf => by cases hf⟩
      simp
  | refused k hk hle hfull hz hbad =>
      exact ⟨active_closed (length_storeInput hb hle h0 (by omega)) hp, fun hf => by cases hf⟩
  | header k hk hle hfull hz hgood =>
      have hr : ReadingOk { storeInput (stream.take k) c with
          rwSize := ((readU16Le (storeInput (stream.take k) c).buffer).toNat : Int), rwPosition := 0 } :=
        ⟨h.1, Or.inr ⟨by simp only; omega, by simp only; omega, by simp only; omega, by simp only; omega⟩⟩
      exact ⟨⟨length_storeInput hb hle h0 (by omega), hp, fun _ => Or.inl hr⟩, fun _ => hr⟩

theorem inputLoop_active (arrivals : List Arrival) {c : Connection} (ha : Active c) (h : ReadingOk c)
    (stream : List UInt8) :
    ∃ c' stream', inputLoop arrivals c stream = .ok (c', stream') ∧ Active c' := by
  induction arrivals generalizing c stream with
  | nil => exact ⟨c, stream, rfl, ha⟩
  | cons arrival arrivals ih =>
      obtain ⟨⟨more, c₁, stream₁⟩, hstep, ho⟩ := inputStep_outcome ha.sized h arrival stream
      obtain ⟨ha₁, hr₁⟩ := active_of_outcome ha h ho
      simp only [inputLoop]
      rw [hstep, ok_bind]
      cases more with
      | true => exact ih ha₁ (hr₁ rfl) stream₁
      | false => exact ⟨c₁, stream₁, rfl, ha₁⟩

theorem checkConnectionInput_busy (visit : Visit) {c : Connection} (h : c.state ≠ .reading) (stream : List UInt8) :
    ∃ c', checkConnectionInput visit c stream = .ok (c', stream) ∧ (c' = c ∨ c' = closeConnection c) := by
  rw [checkConnectionInput]
  split_ifs
  · exact ⟨c, rfl, Or.inl rfl⟩
  · exact ⟨_, rfl, Or.inr rfl⟩

theorem checkConnectionInput_active (visit : Visit) {c : Connection} (h : SlotOk c) (hp : c.state ≠ .free)
    (stream : List UInt8) :
    ∃ c' stream', checkConnectionInput visit c stream = .ok (c', stream') ∧ Active c' := by
  have hshape : ReadingOk c ∨ WritingOk c := h.shape.resolve_left fun hf => hp hf.1
  have ha : Active c := ⟨h.sized, hp, fun _ => hshape.imp_right Or.inl⟩
  rw [checkConnectionInput]
  by_cases hidle : c.socket = -1 ∨ visit.pollin = false
  · exact ⟨c, stream, if_pos hidle, ha⟩
  · rw [if_neg hidle]
    rcases hshape with hr | hw
    · rw [if_neg (not_not.mpr hr.1)]
      exact inputLoop_active visit.arrivals ha hr stream
    · refine ⟨_, stream, if_pos ?_, active_closed h.sized hp⟩
      rw [hw.1]
      simp

end TibiaLogin.ConnectionInput
