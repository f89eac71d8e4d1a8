import TibiaLogin.BufferWriter

namespace TibiaLogin.Query

open MachineInt Memory ByteOrder BufferWriter

/-- The status byte of a response is cast without a check, so it may be none
of the named values. -/
inductive QueryStatus
  | ok
  | error
  | failed
  | other (code : UInt8)
  deriving DecidableEq, Repr

def QueryStatus.ofByte (code : UInt8) : QueryStatus :=
  if code = 0 then .ok else if code = 1 then .error else if code = 3 then .failed else .other code

theorem ofByte_eq_ok {b : UInt8} : QueryStatus.ofByte b = .ok ↔ b = 0 := by
  rw [QueryStatus.ofByte]
  split_ifs <;> simp_all

inductive QueryType
  | login
  | loginAccount
  | resolveEmail
  | getWorlds
  deriving DecidableEq, Repr

def QueryType.code : QueryType → UInt8
  | .login => 0
  | .loginAccount => 11
  | .resolveEmail => 13
  | .getWorlds => 150

/-- A response that passed the size check of the buffer it was read into. -/
structure Reply (capacity : Nat) where
  bytes : List UInt8
  nonempty : 0 < bytes.length
  fits : bytes.length ≤ capacity

/-- How a query client in a given state trades a request frame for a response. -/
abbrev Exchange (σ : Type) := σ → List UInt8 → (capacity : Nat) → Option (Reply capacity) × σ

structure Executed where
  request : List UInt8
  reply : Option (List UInt8)
  deriving DecidableEq, Repr

/-- The client, with the queries executed through it so far. -/
structure Session (σ : Type) where
  client : σ
  queries : List Executed

def prepareQuery (type : QueryType) (buffer : List UInt8) : Except Fault BufferWriter := do
  let w ← writeU16 0 ⟨buffer, 0⟩
  w.writeU8 type.code

def frameRequest (w : BufferWriter) : Except Fault (Option BufferWriter) := do
  let requestSize := wrap32 (w.position - 2)
  let w ←
    if requestSize < 0xFFFF then w.rewriteU16 0 (toU16 requestSize)
    else do
      let w ← w.rewriteU16 0 0xFFFF
      w.insertU32 2 (toU32 requestSize)
  if w.overflowed then pure none else pure (some w)

def received {σ : Type} {capacity : Nat} (frame : List UInt8) (queries : List Executed) :
    Option (Reply capacity) × σ → Except Fault (QueryStatus × BufferReader × Session σ)
  | (none, client) => pure (.failed, ⟨[], 0⟩, ⟨client, queries ++ [⟨frame, none⟩]⟩)
  | (some reply, client) => do
      let (status, r) ← BufferReader.readU8 ⟨reply.bytes, 0⟩
      pure (.ofByte status, r, ⟨client, queries ++ [⟨frame, some reply.bytes⟩]⟩)

def executeQuery {σ : Type} (exchange : Exchange σ) (w : BufferWriter) (s : Session σ) :
    Except Fault (QueryStatus × BufferReader × Session σ) := do
  match ← frameRequest w with
  | none => pure (.failed, ⟨[], 0⟩, s)
  | some w =>
      let frame := w.buffer.take w.position.toNat
      received frame s.queries (exchange s.client frame w.buffer.length)

def requestFrame (body : List UInt8) : List UInt8 := lengthField body.length ++ body

theorem prepareQuery_holds (type : QueryType) (buffer : List UInt8) :
    ∃ w, prepareQuery type buffer = .ok w ∧ Holds buffer.length w [0, 0, type.code] := by
  obtain ⟨w₁, hw₁, h₁⟩ := writeScalar_holds (holds_nil buffer) (writeU16Le 0) (by simp)
  obtain ⟨w₂, hw₂, h₂⟩ := writeScalar_holds h₁ [type.code] (by simp)
  refine ⟨w₂, ?_, h₂⟩
  rw [prepareQuery, writeU16, hw₁]
  exact hw₂

theorem frame_checked {n : Nat} {w : BufferWriter} {frame : List UInt8} (h : Holds n w frame) :
    w.buffer.length = n ∧ (frame.length ≤ n → w.buffer.take w.position.toNat = frame) ∧
      (if w.overflowed then pure none else pure (some w) : Except Fault (Option BufferWriter)) =
        .ok (if frame.length ≤ n then some w else none) := by
  refine ⟨h.size_eq, fun hle => ?_, ?_⟩
  · rw [h.position_eq, Int.toNat_natCast, h.content hle]
  · by_cases hle : frame.length ≤ n
    · rw [if_neg (by rw [h.overflowed_iff]; omega), if_pos hle]
      rfl
    · rw [if_pos (by rw [h.overflowed_iff]; omega), if_neg hle]
      rfl

theorem frameRequest_eq {n : Nat} {w : BufferWriter} {a b : UInt8} {body : List UInt8}
    (h : Holds n w (a :: b :: body)) (hn : n < 2147483648) (hbody : body.length + 6 < 2147483648) :
    ∃ w', w'.buffer.length = n ∧
      ((requestFrame body).length ≤ n → w'.buffer.take w'.position.toNat = requestFrame body) ∧
      frameRequest w = .ok (if (requestFrame body).length ≤ n then some w' else none) := by
  have hsize : wrap32 (w.position - 2) = body.length := by
    have hp : w.position = (body.length : Int) + 2 := h.position_eq
    rw [hp, wrap32_of_mem (by omega) (by omega)]
    omega
  have hlen : (a :: b :: body).length = body.length + 2 := rfl
  simp only [frameRequest, hsize]
  by_cases hshort : body.length < 0xFFFF
  · have hframe : requestFrame body = writeU16Le (toU16 body.length) ++ body := by
      rw [requestFrame, lengthField, if_pos hshort]
    have hframeLen : (requestFrame body).length = body.length + 2 := by
      rw [hframe, List.length_append, length_writeU16Le]
      omega
    rw [if_pos (by omega)]
    by_cases hfit : body.length + 2 ≤ n
    · obtain ⟨w₁, hw₁, h₁⟩ := rewriteU16_holds h 0 (toU16 body.length) (by omega) (by omega) hn
      have h₁ : Holds n w₁ (requestFrame body) := by
        rw [hframe]
        exact h₁
      obtain ⟨hl, ht, hc⟩ := frame_checked h₁
      exact ⟨w₁, hl, ht, by rw [show rewriteU16 0 _ w = _ from hw₁]; exact hc⟩
    · have ho : w.overflowed = true := h.overflowed_iff.mpr (by omega)
      refine ⟨w, h.size_eq, fun hle => absurd hle (by omega), ?_⟩
      rw [rewriteU16_overflowed _ _ ho, ok_bind, if_pos ho, if_neg (by omega)]
      rfl
  · have hframe : requestFrame body = writeU16Le 0xFFFF ++ (writeU32Le (toU32 body.length) ++ body) := by
      rw [requestFrame, lengthField, if_neg hshort, List.append_assoc]
    have hframeLen : (requestFrame body).length = body.length + 6 := by
      rw [hframe]
      simp only [List.length_append, length_writeU16Le, length_writeU32Le]
      omega
    rw [if_neg (by omega)]
    by_cases hfit : body.length + 2 ≤ n
    · obtain ⟨w₁, hw₁, h₁⟩ := rewriteU16_holds h 0 0xFFFF (by omega) (by omega) hn
      obtain ⟨w₂, hw₂, h₂⟩ := insertU32_holds h₁ 2 (toU32 body.length)
        (by rw [length_overwrite (by rw [length_writeU16Le]; omega)]; omega)
        (by rw [length_overwrite (by rw [length_writeU16Le]; omega)]; omega)
      have h₂ : Holds n w₂ (requestFrame body) := by
        rw [hframe]
        exact h₂
      obtain ⟨hl, ht, hc⟩ := frame_checked h₂
      refine ⟨w₂, hl, ht, ?_⟩
      rw [show rewriteU16 0 0xFFFF w = _ from hw₁, ok_bind, show insertU32 2 _ w₁ = _ from hw₂]
      exact hc
    · have ho : w.overflowed = true := h.overflowed_iff.mpr (by omega)
      obtain ⟨w₂, hw₂, h₂⟩ := insertU32_holds h 2 (toU32 body.length) (by omega) (by omega)
      have hlong : ((a :: b :: body).take 2 ++ writeU32Le (toU32 body.length) ++ (a :: b :: body).drop 2).length =
          body.length + 6 := by
        simp only [List.length_append, List.length_take, List.length_drop, length_writeU32Le, hlen]
        omega
      obtain ⟨hl, -, hc⟩ := frame_checked h₂
      rw [hlong] at hc
      refine ⟨w₂, hl, fun hle => absurd hle (by omega), ?_⟩
      rw [rewriteU16_overflowed _ _ ho, ok_bind, show insertU32 2 _ w = _ from hw₂, hframeLen]
      exact hc

theorem executeQuery_eq {σ : Type} (exchange : Exchange σ) {n : Nat} {w : BufferWriter} {a b : UInt8}
    {body : List UInt8} (h : Holds n w (a :: b :: body)) (hn : n < 2147483648)
    (hfit : body.length + 6 ≤ n) (s : Session σ) :
    executeQuery exchange w s =
      received (requestFrame body) s.queries (exchange s.client (requestFrame body) n) := by
  have hlen : (requestFrame body).length ≤ n := by
    have hl := length_lengthField_le body.length
    rw [requestFrame, List.length_append]
    omega
  obtain ⟨w', rfl, ht, hf⟩ := frameRequest_eq h hn (by omega)
  rw [executeQuery, hf, if_pos hlen, ok_bind]
  simp only [ht hlen]

theorem readU8_status (bytes : List UInt8) :
    BufferReader.readU8 ⟨bytes, 0⟩ = .ok (bytes.headD 0, ⟨bytes, 1⟩) := by
  refine (BufferReader.readScalar_eq (·.headD 0) bytes (p := 0) (w := 1) (by omega)).trans ?_
  cases bytes <;> rfl

theorem received_some {σ : Type} {capacity : Nat} (frame : List UInt8) (queries : List Executed)
    (reply : Reply capacity) (client : σ) :
    received frame queries (some reply, client) =
      .ok (.ofByte (reply.bytes.headD 0), ⟨reply.bytes, 1⟩, ⟨client, queries ++ [⟨frame, some reply.bytes⟩]⟩) := by
  rw [received, readU8_status]
  rfl

end TibiaLogin.Query
