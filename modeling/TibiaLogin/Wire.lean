import TibiaLogin.BufferReader

namespace TibiaLogin.Wire

open Memory ByteOrder BufferReader

/-- A length-prefixed string with all of its bytes, and its text. -/
inductive WireString : List UInt8 → List UInt8 → Prop
  | short (a b : UInt8) (text : List UInt8) (hlt : readU16Le [a, b] ≠ 0xFFFF)
      (hlen : text.length = (readU16Le [a, b]).toNat) : WireString (a :: b :: text) text
  | extended (a b b₀ b₁ b₂ b₃ : UInt8) (text : List UInt8) (heq : readU16Le [a, b] = 0xFFFF)
      (hlen : text.length = (readU32Le [b₀, b₁, b₂, b₃]).toNat) :
      WireString (a :: b :: b₀ :: b₁ :: b₂ :: b₃ :: text) text

def endOf (data : List UInt8) (p : Nat) : Nat := p + headerSize data p + announced data p

theorem u16At_drop (data : List UInt8) (p : Nat) : u16At data p = u16At (data.drop p) 0 := by
  rw [u16At, u16At, List.length_drop, List.drop_zero]
  split_ifs <;> first | rfl | omega

theorem u32At_drop (data : List UInt8) (p k : Nat) : u32At data (p + k) = u32At (data.drop p) k := by
  rw [u32At, u32At, List.length_drop, List.drop_drop]
  split_ifs <;> first | rfl | omega

theorem headerSize_drop (data : List UInt8) (p : Nat) : headerSize data p = headerSize (data.drop p) 0 := by
  rw [headerSize, headerSize, u16At_drop]

theorem announced_drop (data : List UInt8) (p : Nat) : announced data p = announced (data.drop p) 0 := by
  rw [announced, announced, u16At_drop, u32At_drop data p 2]

theorem endOf_drop (data : List UInt8) (p : Nat) : endOf data p = p + endOf (data.drop p) 0 := by
  rw [endOf, endOf, headerSize_drop, announced_drop]
  omega

theorem stringAt_drop (data : List UInt8) (p : Nat) : stringAt data p = stringAt (data.drop p) 0 := by
  have hh : 2 ≤ headerSize (data.drop p) 0 := by
    rw [headerSize]
    split_ifs <;> omega
  rw [stringAt, stringAt, headerSize_drop, announced_drop, List.length_drop, List.drop_drop]
  by_cases hle : p + headerSize (data.drop p) 0 + announced (data.drop p) 0 ≤ data.length
  · rw [if_pos hle, if_pos (by omega), Nat.zero_add]
  · rw [if_neg hle, if_neg (by omega)]

theorem header_complete {string text : List UInt8} (h : WireString string text) (rest : List UInt8) :
    announced (string ++ rest) 0 = text.length ∧ string.length = headerSize (string ++ rest) 0 + text.length ∧
      (string ++ rest).drop (headerSize (string ++ rest) 0) = text ++ rest := by
  cases h with
  | short a b text hlt hlen =>
      have hu : u16At (a :: b :: text ++ rest) 0 = (readU16Le [a, b]).toNat := by
        rw [u16At, if_pos (by simp)]
        rfl
      have hne : u16At (a :: b :: text ++ rest) 0 ≠ 0xFFFF := by
        rw [hu]
        exact fun he => hlt (toNat_eq_ffff.mp he)
      rw [headerSize, announced, if_neg hne, if_neg hne, hu, ← hlen, List.length_cons, List.length_cons]
      exact ⟨rfl, by omega, rfl⟩
  | extended a b b₀ b₁ b₂ b₃ text heq hlen =>
      have hu : u16At (a :: b :: b₀ :: b₁ :: b₂ :: b₃ :: text ++ rest) 0 = 0xFFFF := by
        rw [u16At, if_pos (by simp)]
        exact toNat_eq_ffff.mpr heq
      have hv : u32At (a :: b :: b₀ :: b₁ :: b₂ :: b₃ :: text ++ rest) 2 = (readU32Le [b₀, b₁, b₂, b₃]).toNat := by
        rw [u32At, if_pos (by simp)]
        rfl
      rw [headerSize, announced, if_pos hu, if_pos hu, hv, ← hlen]
      exact ⟨rfl, by simp only [List.length_cons]; omega, rfl⟩

theorem endOf_complete {string text : List UInt8} (h : WireString string text) (rest : List UInt8) :
    endOf (string ++ rest) 0 = string.length := by
  obtain ⟨ha, hl, -⟩ := header_complete h rest
  rw [endOf, ha, hl, Nat.zero_add]

theorem stringAt_complete {string text : List UInt8} (h : WireString string text) (rest : List UInt8) :
    stringAt (string ++ rest) 0 = some text := by
  obtain ⟨ha, hl, hd⟩ := header_complete h rest
  rw [stringAt, ha, Nat.zero_add, if_pos (by rw [List.length_append]; omega), hd, List.take_left]

theorem WireString.length_le {string text : List UInt8} (h : WireString string text) : text.length ≤ string.length := by
  have hl := (header_complete h []).2.1
  omega

theorem readString_wire (enc : ClientEncoding) {dest buf before string text rest : List UInt8}
    (hd : dest.length < 2147483648) (hbuf : buf = before ++ (string ++ rest)) (hlen : buf.length < 2147483648)
    (h : WireString string text) (hw : (converted enc text).length < 2147483648) :
    readString enc dest ⟨buf, (before.length : Nat)⟩ =
      .ok (field enc dest.length (some text), ⟨buf, ((before ++ string).length : Nat)⟩) := by
  have hdrop : buf.drop before.length = string ++ rest := by rw [hbuf, List.drop_left]
  have hs : stringAt buf before.length = some text := by rw [stringAt_drop, hdrop, stringAt_complete h]
  have he : endOf buf before.length = before.length + string.length := by rw [endOf_drop, hdrop, endOf_complete h]
  have hl : buf.length = before.length + (string.length + rest.length) := by
    rw [hbuf, List.length_append, List.length_append]
  have hr := readString_eq enc dest buf (p := before.length) hd (by rw [endOf] at he; omega) (by
    intro henc _ text' ht'
    rw [hs] at ht'
    cases ht'
    rw [henc] at hw
    exact hw)
  rw [hs] at hr
  rw [endOf] at he
  rw [he, ← List.length_append] at hr
  exact hr

theorem readString_wire_short (enc : ClientEncoding) {dest buf before string text rest : List UInt8}
    (hd : dest.length < 2147483648) (hbuf : buf = before ++ (string ++ rest)) (hlen : buf.length < 1073741824)
    (h : WireString string text) :
    readString enc dest ⟨buf, (before.length : Nat)⟩ =
      .ok (field enc dest.length (some text), ⟨buf, ((before ++ string).length : Nat)⟩) := by
  refine readString_wire enc hd hbuf (by omega) h ?_
  have hl : buf.length = before.length + (string.length + rest.length) := by
    rw [hbuf, List.length_append, List.length_append]
  have ht := h.length_le
  have hle := Latin1.length_encodeLatin1_le text
  cases enc with
  | latin1 =>
      rw [converted]
      omega
  | utf8 =>
      rw [converted]
      omega

theorem readScalar_bytes {α : Type} [OfNat α 0] (decode : List UInt8 → α) (bytes rest : List UInt8) {buf before : List UInt8}
    (hbuf : buf = before ++ (bytes ++ rest)) (hlen : buf.length < 2147483648) :
    readScalar bytes.length decode ⟨buf, (before.length : Nat)⟩ =
      .ok (decode bytes, ⟨buf, ((before ++ bytes).length : Nat)⟩) := by
  have hl : buf.length = before.length + (bytes.length + rest.length) := by
    rw [hbuf, List.length_append, List.length_append]
  rw [readScalar_inside decode (by omega) hlen, hbuf, List.drop_left, List.take_left, List.length_append]

theorem complete_of_extended (bytes : List UInt8) (hu : u16At bytes 0 = 0xFFFF) (h : endOf bytes 0 ≤ bytes.length) :
    ∃ string text rest, bytes = string ++ rest ∧ WireString string text ∧ string.length = endOf bytes 0 := by
  have he : endOf bytes 0 = 6 + u32At bytes 2 := by
    rw [endOf, headerSize, announced, if_pos hu, if_pos hu]
  obtain ⟨a, b, t₁, rfl⟩ := exists_cons_cons (show 2 ≤ bytes.length by omega)
  simp only [List.length_cons] at h
  obtain ⟨b₀, b₁, t₂, rfl⟩ := exists_cons_cons (show 2 ≤ t₁.length by omega)
  simp only [List.length_cons] at h
  obtain ⟨b₂, b₃, tail, rfl⟩ := exists_cons_cons (show 2 ≤ t₂.length by omega)
  have hv : u32At (a :: b :: b₀ :: b₁ :: b₂ :: b₃ :: tail) 2 = (readU32Le [b₀, b₁, b₂, b₃]).toNat := by
    rw [u32At, if_pos (by simp)]
    rfl
  rw [u16At, if_pos (by simp)] at hu
  rw [he, hv] at h ⊢
  simp only [List.length_cons] at h
  have hlen : (tail.take (readU32Le [b₀, b₁, b₂, b₃]).toNat).length = (readU32Le [b₀, b₁, b₂, b₃]).toNat := by
    rw [List.length_take]
    omega
  refine ⟨a :: b :: b₀ :: b₁ :: b₂ :: b₃ :: tail.take (readU32Le [b₀, b₁, b₂, b₃]).toNat, _,
    tail.drop (readU32Le [b₀, b₁, b₂, b₃]).toNat, ?_, .extended a b b₀ b₁ b₂ b₃ _ (toNat_eq_ffff.mp hu) hlen, ?_⟩
  · simp only [List.cons_append, List.take_append_drop]
  · simp only [List.length_cons, hlen]
    omega

theorem complete_of_short (bytes : List UInt8) (hu : u16At bytes 0 ≠ 0xFFFF) (h : endOf bytes 0 ≤ bytes.length) :
    ∃ string text rest, bytes = string ++ rest ∧ WireString string text ∧ string.length = endOf bytes 0 := by
  have he : endOf bytes 0 = 2 + u16At bytes 0 := by
    rw [endOf, headerSize, announced, if_neg hu, if_neg hu]
  obtain ⟨a, b, tail, rfl⟩ := exists_cons_cons (show 2 ≤ bytes.length by omega)
  have hv : u16At (a :: b :: tail) 0 = (readU16Le [a, b]).toNat := by
    rw [u16At, if_pos (by simp)]
    rfl
  rw [hv] at hu
  rw [he, hv] at h ⊢
  simp only [List.length_cons] at h
  have hlen : (tail.take (readU16Le [a, b]).toNat).length = (readU16Le [a, b]).toNat := by
    rw [List.length_take]
    omega
  refine ⟨a :: b :: tail.take (readU16Le [a, b]).toNat, _, tail.drop (readU16Le [a, b]).toNat, ?_,
    .short a b _ (fun hf => hu (toNat_eq_ffff.mpr hf)) hlen, ?_⟩
  · simp only [List.cons_append, List.take_append_drop]
  · simp only [List.length_cons, hlen]
    omega

/-- An end inside the block means a complete string, since a length field cut
off by the end of the block reads as zero and already ends outside. -/
theorem complete_of_endOf (bytes : List UInt8) (h : endOf bytes 0 ≤ bytes.length) :
    ∃ string text rest, bytes = string ++ rest ∧ WireString string text ∧ string.length = endOf bytes 0 := by
  by_cases hu : u16At bytes 0 = 0xFFFF
  · exact complete_of_extended bytes hu h
  · exact complete_of_short bytes hu h

theorem u16At_lt (data : List UInt8) (p : Nat) : u16At data p < 65536 := by
  rw [u16At]
  split_ifs
  · exact (readU16Le (data.drop p)).toNat_lt
  · omega

theorem announced_lt (data : List UInt8) (p : Nat) : announced data p < 4294967296 := by
  have h := u16At_lt data p
  rw [announced, u32At]
  split_ifs
  · exact (readU32Le (data.drop (p + 2))).toNat_lt
  · omega
  · omega

theorem extended_of_long {data : List UInt8} {p : Nat} (h : 65536 ≤ announced data p) :
    headerSize data p = 6 ∧ p + 6 ≤ data.length := by
  have hu := u16At_lt data p
  rw [announced, u32At] at h
  rw [headerSize]
  split_ifs at h ⊢ <;> omega

theorem endOf_outside {data : List UInt8} {p : Nat} (h : data.length < p + 2) : endOf data p = p + 2 := by
  have hu : u16At data p = 0 := by rw [u16At, if_neg (by omega)]
  rw [endOf, headerSize, announced, hu]
  rfl

end TibiaLogin.Wire
