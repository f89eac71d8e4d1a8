import TibiaLogin.BufferWriter

namespace TibiaLogin.BoundedConversion

open MachineInt Memory Utf8 Latin1 BufferReader

/-- The measuring pass and every bounded pass of `utf8_to_latin1` return the
length of one output, of which a bounded pass stores the first bytes and
nothing else. -/
def DecodesBounded (src : List UInt8) : Prop :=
  ∃ full : List UInt8, utf8ToLatin1 [] 0 0 src = .ok ([], full.length) ∧
    ∀ (dest : List UInt8) (i cap : Nat), i + cap ≤ dest.length →
      utf8ToLatin1 dest i cap src = .ok (overwrite dest i (full.take (min cap full.length)), full.length)

/-- The encoding of the first characters, as many of them as fit as a whole. -/
def LongestFit (cap : Nat) (chars stored : List UInt8) : Prop :=
  ∃ k ≤ chars.length, stored = encodeLatin1 (chars.take k) ∧ stored.length ≤ cap ∧
    ∀ j ≤ chars.length, (encodeLatin1 (chars.take j)).length ≤ cap → j ≤ k

def EncodesBounded (src : List UInt8) : Prop :=
  latin1ToUtf8 [] 0 src 0 src.length = .ok ([], ((encodeLatin1 src).length : Int)) ∧
    ∀ (dest : List UInt8) (cap : Nat), cap ≤ dest.length → cap < 2147483648 →
      ∃ stored, LongestFit cap src stored ∧
        latin1ToUtf8 dest cap src 0 src.length = .ok (overwrite dest 0 stored, ((encodeLatin1 src).length : Int))

/-- What the converter of a writer says it has written is what was measured. -/
def WritesMeasured (str : List UInt8) : Prop :=
  ∀ (w : BufferWriter) (buffer : List UInt8) (written : Nat),
    let src := (cString str).take (wrap32 (cString str).length).toNat
    utf8ToLatin1 w.buffer w.position (wrap32 (w.size - w.position)) src = .ok (buffer, written) →
      utf8ToLatin1 [] 0 0 src = .ok ([], written)

/-- A string inside its buffer is read complete or not at all, and the rest of
the destination is zero, at least one byte of it. -/
def ReadsWhole (chars : List UInt8) : Prop :=
  ∀ (enc : ClientEncoding) (dest buf : List UInt8) (p : Nat), stringAt buf p = some chars →
    buf.length < 2147483648 → 0 < dest.length → dest.length < 2147483648 →
      ∃ out r, (out = converted enc chars ∨ out = []) ∧ out.length < dest.length ∧
        readString enc dest ⟨buf, p⟩ = .ok (out ++ List.replicate (dest.length - out.length) 0, r)

/-- The bounded passes over a string and their callers agree with the measuring pass. -/
structure BoundedAgree (str : List UInt8) : Prop where
  decodes : DecodesBounded str
  encodes : EncodesBounded str
  writes : WritesMeasured str
  reads : ReadsWhole str

theorem utf8ToLatin1_measured (src : List UInt8) : utf8ToLatin1 [] 0 0 src = .ok ([], (toLatin1 src).length) := by
  have h := utf8ToLatin1_eq [] 0 0 src (Nat.le_refl 0)
  rw [List.take_zero, overwrite_nil] at h
  exact h

theorem decodesBounded (src : List UInt8) : DecodesBounded src := by
  refine ⟨toLatin1 src, utf8ToLatin1_measured src, fun dest i cap h => ?_⟩
  rw [utf8ToLatin1_eq dest i cap src h, ← List.take_eq_take_min]

theorem encodeLatin1_append (a b : List UInt8) : encodeLatin1 (a ++ b) = encodeLatin1 a ++ encodeLatin1 b :=
  List.flatMap_append

theorem length_encodeLatin1_take_le (chars : List UInt8) {j k : Nat} (h : j ≤ k) :
    (encodeLatin1 (chars.take j)).length ≤ (encodeLatin1 (chars.take k)).length := by
  obtain ⟨rest, hrest⟩ := List.take_prefix_take_left (l := chars) h
  rw [← hrest, encodeLatin1_append, List.length_append]
  exact Nat.le_add_right _ _

theorem longestFit_fitting (cap : Nat) (chars : List UInt8) :
    LongestFit cap chars (encodeLatin1 (chars.take (fitting cap chars))) := by
  refine ⟨fitting cap chars, fitting_le cap chars, rfl, length_fitting_le cap chars, fun j hj hfit => ?_⟩
  by_contra hmore
  have hnext := fitting_next (show fitting cap chars < chars.length by omega)
  have hmono := length_encodeLatin1_take_le chars (show fitting cap chars + 1 ≤ j by omega)
  omega

theorem encodesBounded {src : List UInt8} (h : (encodeLatin1 src).length < 2147483648) : EncodesBounded src := by
  have hrun (dest : List UInt8) (cap : Nat) (hd : cap ≤ dest.length) (hcap : cap < 2147483648) :=
    latin1ToUtf8_eq src 0 src.length cap dest hcap hd (by omega) (by rw [List.drop_zero, List.take_length]; exact h)
  simp only [List.drop_zero, List.take_length] at hrun
  refine ⟨?_, fun dest cap hd hcap => ⟨_, longestFit_fitting cap src, hrun dest cap hd hcap⟩⟩
  have hmeasured := hrun [] 0 (Nat.le_refl 0) (by decide)
  rw [fitting_zero, List.take_zero, show encodeLatin1 [] = [] from rfl, overwrite_nil] at hmeasured
  exact hmeasured

theorem utf8ToLatin1Loop_count {offset cap : Int} {fuel : Nat} {src dest out : List UInt8} {w n : Nat}
    (h : utf8ToLatin1Loop offset cap fuel src dest w = .ok (out, n)) : n = w + (latin1Chars fuel src).length := by
  induction fuel generalizing src dest w with
  | zero =>
      cases h
      rfl
  | succ fuel ih =>
      cases src with
      | nil =>
          cases h
          rfl
      | cons b src =>
          simp only [utf8ToLatin1Loop] at h
          rw [latin1Chars, List.length_cons]
          split_ifs at h
          all_goals
            obtain ⟨stored, -, h⟩ := bind_eq_ok.mp h
            rw [ih h]
            omega

theorem writesMeasured (str : List UInt8) : WritesMeasured str := by
  intro w buffer written src h
  have hcount := utf8ToLatin1Loop_count h
  rw [Nat.zero_add] at hcount
  rw [hcount]
  exact utf8ToLatin1_measured src

theorem readsWhole {chars : List UInt8} (h : (encodeLatin1 chars).length < 2147483648) : ReadsWhole chars := by
  intro enc dest buf p hat hbuf hpos hdest
  have hinside : p + headerSize buf p + announced buf p ≤ buf.length := by
    by_contra hout
    rw [stringAt, if_neg hout] at hat
    cases hat
  have hread := readString_eq enc dest buf (p := p) hdest (by omega) (fun _ _ text htext => by
    rw [hat] at htext
    cases htext
    exact h)
  rw [hat] at hread
  by_cases hfit : (converted enc chars).length < dest.length
  · rw [field_of_lt enc hfit] at hread
    exact ⟨_, _, Or.inl rfl, hfit, hread⟩
  · rw [field_of_ge enc hfit] at hread
    exact ⟨[], _, Or.inr rfl, hpos, hread⟩

theorem latin1ToUtf8Loop_range {cap offset : Int} {src : List UInt8} {remaining readPos : Nat}
    {dest out : List UInt8} {w n : Int} (hw : -2147483648 ≤ w ∧ w < 2147483648)
    (h : latin1ToUtf8Loop cap src offset remaining readPos dest w = .ok (out, n)) :
    -2147483648 ≤ n ∧ n < 2147483648 := by
  induction remaining generalizing readPos dest w with
  | zero =>
      cases h
      exact hw
  | succ remaining ih =>
      simp only [latin1ToUtf8Loop] at h
      obtain ⟨byte, -, h⟩ := bind_eq_ok.mp h
      obtain ⟨⟨stored, size⟩, -, h⟩ := bind_eq_ok.mp h
      refine ih ?_ h
      rw [wrap32]
      omega

theorem length_lt_of_encodesBounded {src : List UInt8} (h : EncodesBounded src) :
    (encodeLatin1 src).length < 2147483648 := by
  have hrange := latin1ToUtf8Loop_range (by decide) h.1
  omega

/-- The bounded converters agree with their measuring pass exactly on the
strings whose UTF-8 form has a length of type int. -/
theorem bounded_conversion_iff (str : List UInt8) : BoundedAgree str ↔ (encodeLatin1 str).length < 2147483648 := by
  constructor
  · intro h
    exact length_lt_of_encodesBounded h.encodes
  · intro h
    exact ⟨decodesBounded str, encodesBounded h, writesMeasured str, readsWhole h⟩

theorem length_encodeLatin1_replicate (n : Nat) : (encodeLatin1 (List.replicate n 0x80)).length = 2 * n := by
  induction n with
  | zero => rfl
  | succ n ih =>
      have hsize : utf8EncodedSize (0x80 : UInt8).toNat = 2 := by decide
      rw [List.replicate_succ, length_encodeLatin1_cons, ih, hsize]
      omega

/-- At 2 ^ 30 characters of two bytes each the write position wraps around. -/
theorem encoded_length_wraps : ¬BoundedAgree (List.replicate 1073741824 0x80) := by
  intro h
  have hlt := length_lt_of_encodesBounded h.encodes
  rw [length_encodeLatin1_replicate] at hlt
  exact absurd hlt (by decide)

/-- A character of two bytes that would take the last place is left out, and
so is the letter behind it. -/
example : latin1ToUtf8 [1, 1, 1] 2 [65, 0xE9, 66] 0 3 = .ok ([65, 1, 1], 4) := by decide +kernel

end TibiaLogin.BoundedConversion
