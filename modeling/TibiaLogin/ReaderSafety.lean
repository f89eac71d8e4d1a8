import TibiaLogin.BufferReader

namespace TibiaLogin.ReaderSafety

open Memory Latin1 BufferReader

/-- An object whose size is a nonnegative int. -/
abbrev Object := {bytes : List UInt8 // bytes.length < 2147483648}

inductive Call
  | readFlag
  | readU8
  | readU16
  | readU16Be
  | readU32
  | readU32Be
  | readBytes (count : Fin 2147483648)
  | readString (dest : Object)

def Call.run (enc : ClientEncoding) : Call → BufferReader → Except Fault BufferReader
  | .readFlag, r => Prod.snd <$> r.readFlag
  | .readU8, r => Prod.snd <$> r.readU8
  | .readU16, r => Prod.snd <$> r.readU16
  | .readU16Be, r => Prod.snd <$> r.readU16Be
  | .readU32, r => Prod.snd <$> r.readU32
  | .readU32Be, r => Prod.snd <$> r.readU32Be
  | .readBytes count, r => Prod.snd <$> r.readBytes (List.replicate count 0) count
  | .readString dest, r => Prod.snd <$> r.readString enc dest

def trace (enc : ClientEncoding) : BufferReader → List Call → Except Fault (List BufferReader)
  | r, [] => .ok [r]
  | r, call :: calls => do
      let next ← call.run enc r
      let states ← trace enc next calls
      pure (r :: states)

def Later (r s : BufferReader) : Prop :=
  r.position ≤ s.position ∧ (r.overflowed = true → s.overflowed = true)

/-- A run with a trace has made every access inside its objects, since an
access outside stops it with a fault. -/
def Safe (enc : ClientEncoding) (r : BufferReader) (calls : List Call) : Prop :=
  ∃ states, trace enc r calls = .ok states ∧ states.Pairwise Later

def Call.reach (r : BufferReader) : Call → Int
  | .readFlag | .readU8 => r.position + 1
  | .readU16 | .readU16Be => r.position + 2
  | .readU32 | .readU32Be => r.position + 4
  | .readBytes count => r.position + count
  | .readString _ => r.position + headerSize r.buffer r.position.toNat + announced r.buffer r.position.toNat

/-- The converted string is counted by an int in the Latin-1 build. -/
def Call.Measurable (enc : ClientEncoding) (r : BufferReader) : Call → Prop
  | .readString dest => enc = .latin1 → 0 < dest.1.length → ∀ text,
      stringAt r.buffer r.position.toNat = some text → (encodeLatin1 text).length < 2147483648
  | _ => True

def AllFit (enc : ClientEncoding) : BufferReader → List Call → Prop
  | _, [] => True
  | r, call :: calls =>
      call.reach r < 2147483648 ∧ call.Measurable enc r ∧
        ∀ next, call.run enc r = .ok next → AllFit enc next calls

theorem readScalar_run {α : Type} [OfNat α 0] (decode : List UInt8 → α) (buf : List UInt8) {p w : Nat}
    (h : p + w < 2147483648) :
    Prod.snd <$> readScalar w decode ⟨buf, p⟩ = .ok ⟨buf, (p + w : Nat)⟩ := by
  rw [readScalar_eq decode buf h]
  rfl

theorem call_run {enc : ClientEncoding} {buf : List UInt8} {p : Nat} (call : Call)
    (hreach : call.reach ⟨buf, p⟩ < 2147483648) (hm : call.Measurable enc ⟨buf, p⟩) :
    ∃ q : Nat, p ≤ q ∧ call.run enc ⟨buf, p⟩ = .ok ⟨buf, q⟩ := by
  cases call with
  | readFlag =>
      simp only [Call.reach] at hreach
      refine ⟨p + 1, by omega, ?_⟩
      rw [Call.run, readFlag, readU8, readScalar_eq _ buf (by omega)]
      rfl
  | readU8 | readU16 | readU16Be | readU32 | readU32Be =>
      simp only [Call.reach] at hreach
      exact ⟨_, by omega, readScalar_run _ buf (by omega)⟩
  | readBytes count =>
      simp only [Call.reach] at hreach
      refine ⟨p + count, by omega, ?_⟩
      rw [Call.run, readBytes_eq _ buf (by simp) (by omega)]
      rfl
  | readString dest =>
      simp only [Call.reach, Int.toNat_natCast] at hreach
      refine ⟨p + headerSize buf p + announced buf p, by omega, ?_⟩
      rw [Call.run, readString_eq enc dest.1 buf dest.2 (by omega)
        (by simpa only [Call.Measurable, Int.toNat_natCast] using hm)]
      rfl

theorem later_of_le {buf : List UInt8} {p q : Nat} (h : p ≤ q) :
    Later ⟨buf, p⟩ ⟨buf, q⟩ := by
  refine ⟨Int.ofNat_le.mpr h, ?_⟩
  simp only [overflowed, size, decide_eq_true_eq, Int.ofNat_lt]
  omega

theorem trace_ok {enc : ClientEncoding} {buf : List UInt8} (calls : List Call) {p : Nat}
    (h : AllFit enc ⟨buf, p⟩ calls) :
    ∃ ends : List Nat, trace enc ⟨buf, p⟩ calls = .ok ((p :: ends).map fun q => ⟨buf, (q : Nat)⟩) ∧
      (p :: ends).Pairwise (· ≤ ·) := by
  induction calls generalizing p with
  | nil => exact ⟨[], rfl, List.pairwise_singleton _ _⟩
  | cons call calls ih =>
      obtain ⟨hreach, hm, hrest⟩ := h
      obtain ⟨q, hpq, hrun⟩ := call_run call hreach hm
      obtain ⟨ends, htrace, hle⟩ := ih (hrest _ hrun)
      refine ⟨q :: ends, ?_, ?_⟩
      · rw [trace, hrun, ok_bind, htrace, ok_bind]
        rfl
      · refine List.pairwise_cons.mpr ⟨?_, hle⟩
        intro e he
        rcases List.mem_cons.mp he with rfl | he
        · exact hpq
        · exact hpq.trans (List.rel_of_pairwise_cons hle he)

/-- While no call reaches past the largest int, no index leaves its object and
the position only grows, in both builds. -/
theorem safe_of_allFit (enc : ClientEncoding) (buf : Object) (calls : List Call)
    (h : AllFit enc ⟨buf.1, 0⟩ calls) : Safe enc ⟨buf.1, 0⟩ calls := by
  obtain ⟨ends, htrace, hle⟩ := trace_ok (p := 0) calls h
  refine ⟨_, htrace, List.pairwise_map.mpr (hle.imp ?_)⟩
  intro p q hpq
  exact later_of_le hpq

theorem safe_of_allFit_extended :
    Safe .latin1 ⟨[0xFF, 0xFF, 2, 0, 0, 0, 65, 0xE9], 0⟩ [.readString ⟨[1, 1, 1, 1, 1], by decide⟩, .readU8] := by
  apply safe_of_allFit .latin1 ⟨[0xFF, 0xFF, 2, 0, 0, 0, 65, 0xE9], by decide⟩
  refine ⟨by decide, ?_, ?_⟩
  · intro _ _ text ht
    cases ht
    decide
  · intro next hnext
    cases hnext
    exact ⟨by decide, trivial, fun _ _ => trivial⟩

/-- An announced length of 2^32 - 16 is cast to -16: the position moves
backwards, and the next call or the copy itself leaves the buffer. -/
theorem extended_length_unsafe :
    ¬Safe .latin1 ⟨[0xFF, 0xFF, 0xF0, 0xFF, 0xFF, 0xFF], 0⟩ [.readString ⟨[1, 1, 1, 1], by decide⟩] ∧
      ¬Safe .latin1 ⟨[0xFF, 0xFF, 0xF0, 0xFF, 0xFF, 0xFF], 0⟩
        [.readString ⟨[1, 1, 1, 1], by decide⟩, .readU8] ∧
      ¬Safe .utf8 ⟨[0xFF, 0xFF, 0xF0, 0xFF, 0xFF, 0xFF], 0⟩ [.readString ⟨[1, 1, 1, 1], by decide⟩] := by
  refine ⟨?_, ?_, ?_⟩
  · rintro ⟨states, htrace, hlater⟩
    cases htrace
    exact absurd (List.rel_of_pairwise_cons hlater (List.mem_singleton.mpr rfl)).1 (by decide)
  · rintro ⟨states, htrace, -⟩
    cases htrace
  · rintro ⟨states, htrace, -⟩
    cases htrace

end TibiaLogin.ReaderSafety
