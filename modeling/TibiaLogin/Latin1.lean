import TibiaLogin.Utf8

namespace TibiaLogin.Latin1

open MachineInt Memory Utf8

def encodeLatin1 (src : List UInt8) : List UInt8 := src.flatMap fun b => utf8Bytes b.toNat

def latin1Chars : Nat → List UInt8 → List UInt8
  | 0, _ => []
  | _ + 1, [] => []
  | fuel + 1, b :: src =>
      (utf8ToLatin1Next (b :: src)).1 :: latin1Chars fuel (utf8ToLatin1Next (b :: src)).2

def toLatin1 (src : List UInt8) : List UInt8 := latin1Chars src.length src

theorem utf8EncodedSize_le (codepoint : Int) : utf8EncodedSize codepoint ≤ 4 := by
  rw [utf8EncodedSize]
  split_ifs <;> omega

theorem length_utf8Bytes (codepoint : Nat) : (utf8Bytes codepoint).length = utf8EncodedSize codepoint := by
  have h := utf8EncodedSize_le codepoint
  rw [utf8Bytes]
  generalize utf8EncodedSize codepoint = n at h
  rcases n with _ | _ | _ | _ | _ | n
  · rfl
  · rfl
  · rfl
  · rfl
  · rfl
  · omega

theorem utf8EncodedSize_byte (b : UInt8) : utf8EncodedSize b.toNat = if b.toNat < 128 then 1 else 2 := by
  have h := b.toNat_lt
  rw [utf8EncodedSize]
  split_ifs <;> omega

theorem length_encodeLatin1_cons (b : UInt8) (src : List UInt8) :
    (encodeLatin1 (b :: src)).length = utf8EncodedSize b.toNat + (encodeLatin1 src).length := by
  simp [encodeLatin1, length_utf8Bytes]

theorem encodeLatin1_cons (b : UInt8) (src : List UInt8) :
    encodeLatin1 (b :: src) = utf8Bytes b.toNat ++ encodeLatin1 src := rfl

theorem length_le_length_encodeLatin1 (src : List UInt8) : src.length ≤ (encodeLatin1 src).length := by
  induction src with
  | nil => exact Nat.le_refl _
  | cons b src ih =>
      rw [length_encodeLatin1_cons, utf8EncodedSize_byte, List.length_cons]
      split_ifs <;> omega

theorem length_encodeLatin1_le (src : List UInt8) : (encodeLatin1 src).length ≤ 2 * src.length := by
  induction src with
  | nil => exact Nat.le_refl _
  | cons b src ih =>
      rw [length_encodeLatin1_cons, utf8EncodedSize_byte, List.length_cons]
      split_ifs <;> omega

/-- How many characters a bounded encoding stores: it stops at the first one
that does not fit. -/
def fitting : Nat → List UInt8 → Nat
  | _, [] => 0
  | room, b :: chars =>
      if utf8EncodedSize b.toNat ≤ room then fitting (room - utf8EncodedSize b.toNat) chars + 1 else 0

theorem utf8EncodedSize_byte_pos (b : UInt8) : 0 < utf8EncodedSize b.toNat := by
  rw [utf8EncodedSize_byte]
  split_ifs <;> omega

theorem fitting_zero (chars : List UInt8) : fitting 0 chars = 0 := by
  cases chars with
  | nil => rfl
  | cons b chars =>
      have hpos := utf8EncodedSize_byte_pos b
      rw [fitting, if_neg (by omega)]

theorem fitting_le (room : Nat) (chars : List UInt8) : fitting room chars ≤ chars.length := by
  induction chars generalizing room with
  | nil => exact Nat.le_refl _
  | cons b chars ih =>
      rw [fitting]
      split_ifs
      · exact Nat.succ_le_succ (ih _)
      · exact Nat.zero_le _

theorem length_fitting_le (room : Nat) (chars : List UInt8) :
    (encodeLatin1 (chars.take (fitting room chars))).length ≤ room := by
  induction chars generalizing room with
  | nil => exact Nat.zero_le room
  | cons b chars ih =>
      rw [fitting]
      split_ifs
      · have hrest := ih (room - utf8EncodedSize b.toNat)
        rw [List.take_succ_cons, length_encodeLatin1_cons]
        omega
      · exact Nat.zero_le room

theorem fitting_next {room : Nat} {chars : List UInt8} (h : fitting room chars < chars.length) :
    room < (encodeLatin1 (chars.take (fitting room chars + 1))).length := by
  induction chars generalizing room with
  | nil => exact absurd h (Nat.lt_irrefl 0)
  | cons b chars ih =>
      rw [fitting] at h ⊢
      split_ifs at h ⊢
      · rw [List.length_cons] at h
        have hrest := ih (show fitting (room - utf8EncodedSize b.toNat) chars < chars.length by omega)
        rw [List.take_succ_cons, length_encodeLatin1_cons]
        omega
      · rw [List.take_succ_cons, length_encodeLatin1_cons]
        omega

theorem fitting_of_length_le {room : Nat} {chars : List UInt8} (h : (encodeLatin1 chars).length ≤ room) :
    fitting room chars = chars.length := by
  induction chars generalizing room with
  | nil => rfl
  | cons b chars ih =>
      rw [length_encodeLatin1_cons] at h
      rw [fitting, if_pos (by omega), ih (by omega), List.length_cons]

theorem utf8EncodeOne_byte {dest : List UInt8} {w cap : Nat} (b : UInt8) (hw : w < 2147483648)
    (hcap : cap < 2147483648) (hd : cap ≤ dest.length) :
    utf8EncodeOne dest w (wrap32 (cap - w)) b.toNat =
      .ok (if w + utf8EncodedSize b.toNat ≤ cap then overwrite dest w (utf8Bytes b.toNat) else dest,
        utf8EncodedSize b.toNat) := by
  have hpos := utf8EncodedSize_byte_pos b
  have hlen := length_utf8Bytes b.toNat
  rw [wrap32_of_mem (by omega) (by omega), utf8EncodeOne]
  by_cases hfit : w + utf8EncodedSize b.toNat ≤ cap
  · rw [if_pos ⟨hpos, by omega⟩, if_pos hfit, Int.toNat_natCast, storeBytes_of_within (by omega)]
    rfl
  · rw [if_neg (by omega), if_neg hfit]
    rfl

theorem latin1ToUtf8Loop_eq (src : List UInt8) (i cap : Nat) (chars : List UInt8) (readPos w : Nat)
    (dest : List UInt8) (hcap : cap < 2147483648) (hd : cap ≤ dest.length)
    (hsrc : (src.drop (i + readPos)).take chars.length = chars)
    (hw : w + (encodeLatin1 chars).length < 2147483648) :
    latin1ToUtf8Loop cap src i chars.length readPos dest w =
      .ok (overwrite dest w (encodeLatin1 (chars.take (fitting (cap - w) chars))),
        ((w + (encodeLatin1 chars).length : Nat) : Int)) := by
  induction chars generalizing readPos w dest with
  | nil =>
      rw [List.take_nil, show encodeLatin1 [] = [] from rfl, overwrite_nil]
      rfl
  | cons b chars ih =>
      rw [length_encodeLatin1_cons] at hw
      have hs := length_utf8Bytes b.toNat
      have hpos := utf8EncodedSize_byte_pos b
      cases htail : src.drop (i + readPos) with
      | nil => simp [htail] at hsrc
      | cons c tail =>
          rw [htail] at hsrc
          simp only [List.length_cons, List.take_succ_cons, List.cons.injEq] at hsrc
          obtain ⟨rfl, hsrc⟩ := hsrc
          have hlt : i + readPos < src.length := by
            by_contra hge
            rw [List.drop_eq_nil_of_le (by omega)] at htail
            cases htail
          have hload : loadBytes src ((i : Int) + (readPos : Int)) 1 = .ok [c] := by
            have h : loadBytes src (i + readPos : Nat) 1 = _ := loadBytes_of_within (by omega)
            rw [htail] at h
            simpa using h
          have hnext : src.drop (i + (readPos + 1)) = tail := by
            rw [← Nat.add_assoc, ← List.drop_drop, htail]
            rfl
          have hwrap : wrap32 ((w : Int) + (utf8EncodedSize c.toNat : Int)) =
              ((w + utf8EncodedSize c.toNat : Nat) : Int) := by
            rw [← Int.natCast_add, wrap32_natCast (by omega)]
          have hrest (d : List UInt8) (hdest : cap ≤ d.length) :=
            ih (readPos + 1) (w + utf8EncodedSize c.toNat) d hdest (by rw [hnext]; exact hsrc) (by omega)
          simp only [latin1ToUtf8Loop, List.length_cons, hload, ok_bind, List.headD_cons,
            utf8EncodeOne_byte c (show w < 2147483648 by omega) hcap hd, hwrap, length_encodeLatin1_cons]
          by_cases hfit : w + utf8EncodedSize c.toNat ≤ cap
          · have hroom : cap - (w + utf8EncodedSize c.toNat) = cap - w - utf8EncodedSize c.toNat := by omega
            have hbound := length_fitting_le (cap - w - utf8EncodedSize c.toNat) chars
            have hstored : cap ≤ (overwrite dest w (utf8Bytes c.toNat)).length := by
              rw [length_overwrite (by omega)]
              exact hd
            have hover : overwrite (overwrite dest w (utf8Bytes c.toNat)) (w + (utf8Bytes c.toNat).length)
                  (encodeLatin1 (chars.take (fitting (cap - w - utf8EncodedSize c.toNat) chars))) = _ :=
              overwrite_overwrite (by omega)
            rw [hs] at hover
            rw [if_pos hfit, hrest _ hstored, hroom, hover, fitting, if_pos (by omega), List.take_succ_cons,
              encodeLatin1_cons, Nat.add_assoc]
          · have hnone : cap - (w + utf8EncodedSize c.toNat) = 0 := by omega
            rw [if_neg hfit, hrest dest hd, hnone, fitting_zero, fitting, if_neg (by omega), List.take_zero, List.take_zero,
              show encodeLatin1 [] = [] from rfl, overwrite_nil, overwrite_nil, Nat.add_assoc]

/-- The bounded conversion stores the longest run of whole characters that fits
and returns the length of the whole output. -/
theorem latin1ToUtf8_eq (src : List UInt8) (i n cap : Nat) (dest : List UInt8) (hcap : cap < 2147483648)
    (hd : cap ≤ dest.length) (hsrc : i + n ≤ src.length)
    (hw : (encodeLatin1 ((src.drop i).take n)).length < 2147483648) :
    latin1ToUtf8 dest cap src i n =
      .ok (overwrite dest 0 (encodeLatin1 (((src.drop i).take n).take (fitting cap ((src.drop i).take n)))),
        ((encodeLatin1 ((src.drop i).take n)).length : Int)) := by
  have hlen : ((src.drop i).take n).length = n := by
    simp only [List.length_take, List.length_drop]
    omega
  have h := latin1ToUtf8Loop_eq src i cap ((src.drop i).take n) 0 0 dest hcap hd (by simp [hlen]) (by omega)
  simp only [hlen, Nat.zero_add, Nat.sub_zero] at h
  exact h

theorem latin1ToUtf8_ok (src : List UInt8) (i n : Nat) (dest : List UInt8) (hd : dest.length < 2147483648)
    (hsrc : i + n ≤ src.length)
    (hw : (encodeLatin1 ((src.drop i).take n)).length < 2147483648) :
    ∃ dest', latin1ToUtf8 dest dest.length src i n =
        .ok (dest', ((encodeLatin1 ((src.drop i).take n)).length : Int)) ∧
      dest'.length = dest.length ∧
      ((encodeLatin1 ((src.drop i).take n)).length ≤ dest.length →
        dest' = overwrite dest 0 (encodeLatin1 ((src.drop i).take n))) := by
  have hfit := length_fitting_le dest.length ((src.drop i).take n)
  refine ⟨_, latin1ToUtf8_eq src i n dest.length dest hd (Nat.le_refl _) hsrc hw, length_overwrite (by omega), ?_⟩
  intro h
  rw [fitting_of_length_le h, List.take_length]

theorem length_of_utf8EncodeOne {dest dest' : List UInt8} {offset cap codepoint size : Int}
    (h : utf8EncodeOne dest offset cap codepoint = .ok (dest', size)) : dest'.length = dest.length := by
  simp only [utf8EncodeOne] at h
  split_ifs at h
  · obtain ⟨d, hd, h⟩ := bind_eq_ok.mp h
    cases h
    exact length_of_storeBytes hd
  · cases h
    rfl

theorem length_of_latin1ToUtf8Loop {cap offset : Int} {src : List UInt8} {remaining readPos : Nat}
    {dest dest' : List UInt8} {w w' : Int}
    (h : latin1ToUtf8Loop cap src offset remaining readPos dest w = .ok (dest', w')) :
    dest'.length = dest.length := by
  induction remaining generalizing readPos dest w with
  | zero => cases h; rfl
  | succ remaining ih =>
      simp only [latin1ToUtf8Loop] at h
      obtain ⟨byte, -, h⟩ := bind_eq_ok.mp h
      obtain ⟨⟨d, size⟩, hd, h⟩ := bind_eq_ok.mp h
      exact (ih h).trans (length_of_utf8EncodeOne hd)

theorem utf8ToLatin1Loop_eq (i cap fuel : Nat) (src dest : List UInt8) (w : Nat)
    (hd : i + cap ≤ dest.length) :
    utf8ToLatin1Loop i cap fuel src dest w =
      .ok (overwrite dest (i + w) ((latin1Chars fuel src).take (cap - w)), w + (latin1Chars fuel src).length) := by
  induction fuel generalizing src dest w with
  | zero => simp [utf8ToLatin1Loop, latin1Chars, overwrite_nil]
  | succ fuel ih =>
      cases src with
      | nil => simp [utf8ToLatin1Loop, latin1Chars, overwrite_nil]
      | cons b src =>
          simp only [utf8ToLatin1Loop, latin1Chars]
          by_cases hw : w < cap
          · have hlen : ((latin1Chars fuel (utf8ToLatin1Next (b :: src)).2).take (cap - (w + 1))).length ≤
                cap - (w + 1) := List.length_take_le ..
            have hfit : i + w + [(utf8ToLatin1Next (b :: src)).1].length ≤ dest.length := by
              simp only [List.length_singleton]
              omega
            have hstore := storeBytes_of_within hfit
            have hl := length_overwrite hfit
            have hfit' : i + w + [(utf8ToLatin1Next (b :: src)).1].length +
                ((latin1Chars fuel (utf8ToLatin1Next (b :: src)).2).take (cap - (w + 1))).length ≤ dest.length := by
              simp only [List.length_singleton]
              omega
            have hover := overwrite_overwrite hfit'
            have hroom : cap - w = cap - (w + 1) + 1 := by omega
            rw [if_pos (by omega), ← Int.natCast_add, hstore, ok_bind, ih _ _ _ (by omega), hroom,
              List.take_succ_cons, ← Nat.add_assoc i w 1]
            simp only [List.length_singleton, List.singleton_append] at hover
            rw [hover, List.length_cons]
            congr 2
            omega
          · have hfull : cap - w = 0 := by omega
            have hfull' : cap - (w + 1) = 0 := by omega
            rw [if_neg (by omega), pure_bind, ih _ _ _ (by omega), hfull, hfull', List.take_zero, List.take_zero,
              overwrite_nil, overwrite_nil, List.length_cons]
            congr 2
            omega

theorem utf8ToLatin1_eq (dest : List UInt8) (i cap : Nat) (src : List UInt8) (hd : i + cap ≤ dest.length) :
    utf8ToLatin1 dest i cap src =
      .ok (overwrite dest i ((toLatin1 src).take cap), (toLatin1 src).length) := by
  have h := utf8ToLatin1Loop_eq i cap src.length src dest 0 (by omega)
  simpa only [utf8ToLatin1, toLatin1, Nat.add_zero, Nat.sub_zero, Nat.zero_add] using h

theorem utf8FindNextLeadingByte_pos (b : UInt8) (src : List UInt8) :
    0 < utf8FindNextLeadingByte (b :: src) := by
  rw [utf8FindNextLeadingByte]
  omega

theorem utf8DecodeOne_pos {src : List UInt8} {size codepoint : Nat}
    (h : utf8DecodeOne src = some (size, codepoint)) : 0 < size := by
  cases src with
  | nil => simp [utf8DecodeOne] at h
  | cons b src =>
      simp only [utf8DecodeOne] at h
      split_ifs at h with hz ha
      simp only [Option.some.injEq, Prod.mk.injEq] at h
      omega

theorem utf8ToLatin1Next_shorter (b : UInt8) (src : List UInt8) :
    (utf8ToLatin1Next (b :: src)).2.length ≤ src.length := by
  cases h : utf8DecodeOne (b :: src) with
  | none =>
      have hp := utf8FindNextLeadingByte_pos b src
      simp only [utf8ToLatin1Next, h, List.length_drop, List.length_cons]
      omega
  | some r =>
      have hp := utf8DecodeOne_pos h
      simp only [utf8ToLatin1Next, h, List.length_drop, List.length_cons]
      omega

theorem latin1Chars_fuel {fuel : Nat} {src : List UInt8} (h : src.length ≤ fuel) :
    latin1Chars fuel src = toLatin1 src := by
  suffices H : ∀ fuel fuel' (src : List UInt8), src.length ≤ fuel → src.length ≤ fuel' →
      latin1Chars fuel src = latin1Chars fuel' src from H _ _ _ h (Nat.le_refl _)
  intro fuel
  induction fuel with
  | zero =>
      intro fuel' src h h'
      have hn : src = [] := List.length_eq_zero_iff.mp (by omega)
      subst hn
      cases fuel' <;> rfl
  | succ fuel ih =>
      intro fuel' src h h'
      cases src with
      | nil => cases fuel' <;> rfl
      | cons b src =>
          have hs := utf8ToLatin1Next_shorter b src
          simp only [List.length_cons] at h h'
          cases fuel' with
          | zero => omega
          | succ fuel' =>
              rw [latin1Chars, latin1Chars, ih fuel' (utf8ToLatin1Next (b :: src)).2 (by omega) (by omega)]

theorem toLatin1_cons (b : UInt8) (src : List UInt8) :
    toLatin1 (b :: src) = (utf8ToLatin1Next (b :: src)).1 :: toLatin1 (utf8ToLatin1Next (b :: src)).2 := by
  rw [toLatin1, List.length_cons, latin1Chars, latin1Chars_fuel (utf8ToLatin1Next_shorter b src)]

theorem length_toLatin1_le (src : List UInt8) : (toLatin1 src).length ≤ src.length := by
  suffices H : ∀ fuel (src : List UInt8), (latin1Chars fuel src).length ≤ fuel from H _ _
  intro fuel
  induction fuel with
  | zero => intro src; exact Nat.le_refl _
  | succ fuel ih =>
      intro src
      cases src with
      | nil => exact Nat.zero_le _
      | cons b src => exact Nat.succ_le_succ (ih _)

theorem utf8Bytes_byte (b : UInt8) :
    (utf8Bytes b.toNat = [b] ∧ utf8SequenceSize b = 1) ∨
      ∃ b₀ b₁, utf8Bytes b.toNat = [b₀, b₁] ∧ utf8SequenceSize b₀ = 2 ∧ utf8IsTrailingByte b₁ = true ∧
        sequenceCodepoint 2 [b₀, b₁] = b.toNat ∧ b₀ ≠ 0 ∧ b₁ ≠ 0 := by
  have h : ∀ n < 256, (utf8Bytes n = [n.toUInt8] ∧ utf8SequenceSize n.toUInt8 = 1) ∨
      (utf8Bytes n = [(0xC0 ||| (0x1F &&& (n >>> 6))).toUInt8, (0x80 ||| (0x3F &&& n)).toUInt8] ∧
        utf8SequenceSize (0xC0 ||| (0x1F &&& (n >>> 6))).toUInt8 = 2 ∧
        utf8IsTrailingByte (0x80 ||| (0x3F &&& n)).toUInt8 = true ∧
        sequenceCodepoint 2 [(0xC0 ||| (0x1F &&& (n >>> 6))).toUInt8, (0x80 ||| (0x3F &&& n)).toUInt8] = n ∧
        (0xC0 ||| (0x1F &&& (n >>> 6))).toUInt8 ≠ 0 ∧ (0x80 ||| (0x3F &&& n)).toUInt8 ≠ 0) := by
    decide +kernel
  have hb : b.toNat.toUInt8 = b := UInt8.ofNat_toNat
  rcases h b.toNat b.toNat_lt with h | h
  · rw [hb] at h
    exact Or.inl h
  · exact Or.inr ⟨_, _, h⟩

theorem utf8ToLatin1Next_utf8Bytes (b : UInt8) (rest : List UInt8) :
    utf8ToLatin1Next (utf8Bytes b.toNat ++ rest) = (b, rest) := by
  have hlt := b.toNat_lt
  have hb : b.toNat.toUInt8 = b := UInt8.ofNat_toNat
  rcases utf8Bytes_byte b with ⟨hbytes, hsize⟩ | ⟨b₀, b₁, hbytes, hsize, htrail, hcode, -, -⟩
  · have hdec : utf8DecodeOne (b :: rest) = some (1, b.toNat) := by
      simp [utf8DecodeOne, hsize, sequenceCodepoint]
    rw [hbytes, List.singleton_append]
    simp only [utf8ToLatin1Next, hdec, hb, List.drop_succ_cons, List.drop_zero]
    rw [if_pos (by omega)]
  · have hdec : utf8DecodeOne (b₀ :: b₁ :: rest) = some (2, b.toNat) := by
      have hc : sequenceCodepoint 2 (b₀ :: b₁ :: rest) = b.toNat := hcode
      simp [utf8DecodeOne, hsize, htrail, hc]
    rw [hbytes, List.cons_append, List.singleton_append]
    simp only [utf8ToLatin1Next, hdec, hb, List.drop_succ_cons, List.drop_zero]
    rw [if_pos (by omega)]

theorem utf8Bytes_byte_ne_nil (b : UInt8) : ∃ c tail, utf8Bytes b.toNat = c :: tail := by
  rcases utf8Bytes_byte b with ⟨h, -⟩ | ⟨b₀, b₁, h, -⟩
  · exact ⟨_, _, h⟩
  · exact ⟨_, _, h⟩

theorem toLatin1_encodeLatin1 (src : List UInt8) : toLatin1 (encodeLatin1 src) = src := by
  induction src with
  | nil => rfl
  | cons b src ih =>
      obtain ⟨c, tail, hc⟩ := utf8Bytes_byte_ne_nil b
      have hnext := utf8ToLatin1Next_utf8Bytes b (encodeLatin1 src)
      rw [encodeLatin1_cons]
      rw [hc, List.cons_append] at hnext ⊢
      rw [toLatin1_cons, hnext, ih]

theorem zero_mem_encodeLatin1 {src : List UInt8} (h : 0 ∉ src) : 0 ∉ encodeLatin1 src := by
  induction src with
  | nil => exact h
  | cons b src ih =>
      obtain ⟨hb, hs⟩ := not_or.mp (List.mem_cons.not.mp h)
      rw [encodeLatin1_cons, List.mem_append, not_or]
      refine ⟨?_, ih hs⟩
      rcases utf8Bytes_byte b with ⟨hbytes, -⟩ | ⟨b₀, b₁, hbytes, -, -, -, h₀, h₁⟩
      · simpa [hbytes] using hb
      · simp [hbytes, Ne.symm h₀, Ne.symm h₁]

end TibiaLogin.Latin1
