import TibiaLogin.Latin1
import Mathlib.Algebra.GroupWithZero.Nat

namespace TibiaLogin.Conversion

open MachineInt Memory Utf8 Latin1

def encodeAll (codepoints : List Nat) : List UInt8 := codepoints.flatMap utf8Bytes

def advance (src : List UInt8) : Nat :=
  match utf8DecodeOne src with
  | some (size, _) => size
  | none => utf8FindNextLeadingByte src

def advancesLoop : Nat → List UInt8 → List Nat
  | 0, _ => []
  | _ + 1, [] => []
  | fuel + 1, b :: src => advance (b :: src) :: advancesLoop fuel (utf8ToLatin1Next (b :: src)).2

def advances (src : List UInt8) : List Nat := advancesLoop src.length src

/-- The string is empty or its first byte can start a character. -/
def StartsCharacter (src : List UInt8) : Prop := ∀ c ∈ src.head?, utf8IsTrailingByte c = false

instance (src : List UInt8) : Decidable (StartsCharacter src) := Option.decidableForallMem _

theorem encodeAll_bytes {codepoints : List Nat} (h : ∀ c ∈ codepoints, c ≤ 0xFF) :
    encodeAll codepoints = encodeLatin1 (codepoints.map Nat.toUInt8) := by
  induction codepoints with
  | nil => rfl
  | cons c codepoints ih =>
      have hc : c.toUInt8.toNat = c := by
        have hle := h c List.mem_cons_self
        have hlt : c < 256 := by omega
        exact UInt8.toNat_ofNat_of_lt' hlt
      rw [List.map_cons, encodeLatin1_cons, hc, ← ih fun c hc => h c (List.mem_cons_of_mem _ hc)]
      rfl

theorem take_overwrite_zero {dest xs : List UInt8} (h : xs.length ≤ dest.length) :
    (overwrite dest 0 xs).take xs.length = xs := by
  have ht : (overwrite dest 0 xs).take (0 + xs.length) = dest.take 0 ++ xs := take_overwrite (by omega)
  simpa only [Nat.zero_add, List.take_zero, List.nil_append] using ht

theorem utf8ToLatin1_fits (dest src : List UInt8) (h : (toLatin1 src).length ≤ dest.length) :
    utf8ToLatin1 dest 0 dest.length src = .ok (overwrite dest 0 (toLatin1 src), (toLatin1 src).length) := by
  have heq := utf8ToLatin1_eq dest 0 dest.length src (by omega)
  rw [List.take_of_length_le h] at heq
  exact heq

theorem latin1ToUtf8_fits (dest src : List UInt8) (n : Nat) (hd : dest.length < 2147483648)
    (hn : n ≤ src.length) (h : (encodeLatin1 (src.take n)).length ≤ dest.length) :
    latin1ToUtf8 dest dest.length src 0 n =
      .ok (overwrite dest 0 (encodeLatin1 (src.take n)), ((encodeLatin1 (src.take n)).length : Int)) := by
  have hok := latin1ToUtf8_ok src 0 n dest hd (by omega)
  rw [List.drop_zero] at hok
  obtain ⟨dest', hrun, -, hdest⟩ := hok (by omega)
  rw [← hdest h]
  exact hrun

/-- Every Latin-1 string comes back from its UTF-8 form, and every string of
encoded Latin-1 characters from its Latin-1 form. -/
theorem conversion_round_trip :
    (∀ s mid dest : List UInt8, (encodeLatin1 s).length ≤ mid.length → mid.length < 2147483648 →
      s.length ≤ dest.length →
      ∃ mid' n dest', latin1ToUtf8 mid mid.length s 0 s.length = .ok (mid', n) ∧
        utf8ToLatin1 dest 0 dest.length (mid'.take n.toNat) = .ok (dest', s.length) ∧
        dest'.take s.length = s) ∧
    (∀ (codepoints : List Nat) (mid dest : List UInt8), (∀ c ∈ codepoints, c ≤ 0xFF) →
      codepoints.length ≤ mid.length → (encodeAll codepoints).length ≤ dest.length → dest.length < 2147483648 →
      ∃ mid' n dest', utf8ToLatin1 mid 0 mid.length (encodeAll codepoints) = .ok (mid', n) ∧
        latin1ToUtf8 dest dest.length mid' 0 n = .ok (dest', ((encodeAll codepoints).length : Int)) ∧
        dest'.take (encodeAll codepoints).length = encodeAll codepoints) := by
  constructor
  · intro s mid dest hmid hlt hdest
    have henc := latin1ToUtf8_fits mid s s.length hlt (Nat.le_refl _)
    rw [List.take_length] at henc
    refine ⟨_, _, overwrite dest 0 s, henc hmid, ?_, take_overwrite_zero hdest⟩
    have hdec := utf8ToLatin1_fits dest (encodeLatin1 s)
    rw [toLatin1_encodeLatin1] at hdec
    rw [Int.toNat_natCast, take_overwrite_zero hmid]
    exact hdec hdest
  · intro codepoints mid dest hc hmid hdest hlt
    rw [encodeAll_bytes hc] at hdest ⊢
    generalize hs : codepoints.map Nat.toUInt8 = s at hdest ⊢
    have hlen : s.length = codepoints.length := by rw [← hs, List.length_map]
    have hfit : s.length ≤ mid.length := by omega
    have hdec := utf8ToLatin1_fits mid (encodeLatin1 s)
    rw [toLatin1_encodeLatin1] at hdec
    refine ⟨_, _, overwrite dest 0 (encodeLatin1 s), hdec hfit, ?_, take_overwrite_zero hdest⟩
    have hback := take_overwrite_zero hfit
    have henc := latin1ToUtf8_fits dest (overwrite mid 0 s) s.length hlt
    rw [hback, length_overwrite (by omega)] at henc
    exact henc hfit hdest

theorem conversion_round_trip_accent :
    (∃ mid' n dest', latin1ToUtf8 [0, 0, 0] 3 [0xE9, 65] 0 2 = .ok (mid', n) ∧
        utf8ToLatin1 [0, 0] 0 2 (mid'.take n.toNat) = .ok (dest', 2) ∧ dest'.take 2 = [0xE9, 65]) ∧
      ∃ mid' n dest', utf8ToLatin1 [0, 0] 0 2 (encodeAll [0xE9, 65]) = .ok (mid', n) ∧
        latin1ToUtf8 [0, 0, 0] 3 mid' 0 n = .ok (dest', ((encodeAll [0xE9, 65]).length : Int)) ∧
        dest'.take (encodeAll [0xE9, 65]).length = encodeAll [0xE9, 65] :=
  ⟨conversion_round_trip.1 [0xE9, 65] [0, 0, 0] [0, 0] (by decide) (by decide) (by decide),
    conversion_round_trip.2 [0xE9, 65] [0, 0] [0, 0, 0] (by decide) (by decide) (by decide) (by decide)⟩

theorem utf8ToLatin1Next_snd (src : List UInt8) : (utf8ToLatin1Next src).2 = src.drop (advance src) := by
  cases h : utf8DecodeOne src with
  | none => simp only [utf8ToLatin1Next, advance, h]
  | some r => simp only [utf8ToLatin1Next, advance, h]

theorem utf8DecodeOne_size {src : List UInt8} {size codepoint : Nat}
    (h : utf8DecodeOne src = some (size, codepoint)) : size ≤ src.length := by
  cases src with
  | nil => simp [utf8DecodeOne] at h
  | cons b src =>
      simp only [utf8DecodeOne] at h
      split_ifs at h with hz ha
      simp only [Option.some.injEq, Prod.mk.injEq] at h
      omega

theorem utf8FindNextLeadingByte_le (src : List UInt8) : utf8FindNextLeadingByte src ≤ src.length := by
  cases src with
  | nil => exact Nat.le_refl _
  | cons b src =>
      have hle : (src.takeWhile utf8IsTrailingByte).length ≤ src.length :=
        (List.takeWhile_sublist _).length_le
      rw [utf8FindNextLeadingByte, List.length_cons]
      omega

theorem advance_bounds (b : UInt8) (src : List UInt8) :
    0 < advance (b :: src) ∧ advance (b :: src) ≤ (b :: src).length := by
  cases h : utf8DecodeOne (b :: src) with
  | none =>
      simp only [advance, h]
      exact ⟨utf8FindNextLeadingByte_pos b src, utf8FindNextLeadingByte_le (b :: src)⟩
  | some r =>
      simp only [advance, h]
      exact ⟨utf8DecodeOne_pos h, utf8DecodeOne_size h⟩

theorem advancesLoop_spec {fuel : Nat} {src : List UInt8} (h : src.length ≤ fuel) :
    (advancesLoop fuel src).sum = src.length ∧ (∀ k ∈ advancesLoop fuel src, 0 < k) ∧
      (advancesLoop fuel src).length = (latin1Chars fuel src).length := by
  induction fuel generalizing src with
  | zero =>
      have hn : src = [] := List.length_eq_zero_iff.mp (by omega)
      subst hn
      simp [advancesLoop, latin1Chars]
  | succ fuel ih =>
      cases src with
      | nil => simp [advancesLoop, latin1Chars]
      | cons b src =>
          obtain ⟨hpos, hle⟩ := advance_bounds b src
          have hnext := utf8ToLatin1Next_snd (b :: src)
          have hrest : (utf8ToLatin1Next (b :: src)).2.length ≤ fuel := by
            rw [hnext, List.length_drop]
            omega
          obtain ⟨hsum, hall, hlen⟩ := ih hrest
          refine ⟨?_, ?_, ?_⟩
          · rw [advancesLoop, List.sum_cons, hsum, hnext, List.length_drop]
            omega
          · intro k hk
            rcases List.mem_cons.mp hk with rfl | hk
            · exact hpos
            · exact hall k hk
          · rw [advancesLoop, latin1Chars, List.length_cons, List.length_cons, hlen]

theorem sequenceCodepoint_append {size : Nat} {a : List UInt8} (h : size ≤ a.length) (b : List UInt8) :
    sequenceCodepoint size (a ++ b) = sequenceCodepoint size a := by
  rcases a with _ | ⟨b₀, _ | ⟨b₁, _ | ⟨b₂, _ | ⟨b₃, a⟩⟩⟩⟩
  all_goals
    simp only [List.length_nil, List.length_cons] at h
    rcases size with _ | _ | _ | _ | _ | size
    all_goals first | rfl | omega

theorem utf8DecodeOne_append {a : List UInt8} {r : Nat × Nat} (h : utf8DecodeOne a = some r) (b : List UInt8) :
    utf8DecodeOne (a ++ b) = some r := by
  cases a with
  | nil => simp [utf8DecodeOne] at h
  | cons c a =>
      simp only [utf8DecodeOne] at h
      split_ifs at h with hz hall
      rw [not_or, Nat.not_lt] at hz
      have hsize : ¬(utf8SequenceSize c = 0 ∨ (c :: (a ++ b)).length < utf8SequenceSize c) := by
        have hlen := hz.2
        simp only [List.length_cons, List.length_append] at hlen ⊢
        omega
      have htake : (a ++ b).take (utf8SequenceSize c - 1) = a.take (utf8SequenceSize c - 1) := by
        have hlen := hz.2
        rw [List.length_cons] at hlen
        exact List.take_append_of_le_length (by omega)
      have hcode := sequenceCodepoint_append hz.2 b
      rw [List.cons_append] at hcode
      rw [List.cons_append]
      simp only [utf8DecodeOne]
      rw [if_neg hsize, htake, if_pos hall, hcode, h]

theorem utf8DecodeOne_append_none {c : UInt8} {a b : List UInt8} (hb : StartsCharacter b)
    (h : utf8DecodeOne (c :: a) = none) : utf8DecodeOne (c :: (a ++ b)) = none := by
  simp only [utf8DecodeOne] at h ⊢
  by_cases hz : utf8SequenceSize c = 0
  · rw [if_pos (Or.inl hz)]
  · by_cases hlen : (c :: (a ++ b)).length < utf8SequenceSize c
    · rw [if_pos (Or.inr hlen)]
    · rw [if_neg (not_or.mpr ⟨hz, hlen⟩), if_neg]
      intro hall
      by_cases hshort : (c :: a).length < utf8SequenceSize c
      · rw [List.length_cons] at hshort
        rw [List.length_cons, List.length_append] at hlen
        cases b with
        | nil => simp only [List.length_nil] at hlen; omega
        | cons d b =>
            -- the sequence would reach over the byte `d`
            have hmem : d ∈ (a ++ d :: b).take (utf8SequenceSize c - 1) := by
              rw [List.take_append, show utf8SequenceSize c - 1 - a.length =
                utf8SequenceSize c - 2 - a.length + 1 by omega, List.take_succ_cons]
              exact List.mem_append_right _ List.mem_cons_self
            have htrail := List.all_eq_true.mp hall d hmem
            rw [hb d rfl] at htrail
            cases htrail
      · have htake : (a ++ b).take (utf8SequenceSize c - 1) = a.take (utf8SequenceSize c - 1) := by
          rw [List.length_cons] at hshort
          exact List.take_append_of_le_length (by omega)
        rw [htake] at hall
        rw [if_neg (not_or.mpr ⟨hz, hshort⟩), if_pos hall] at h
        cases h

theorem utf8FindNextLeadingByte_append {b : List UInt8} (hb : StartsCharacter b) (c : UInt8) (a : List UInt8) :
    utf8FindNextLeadingByte (c :: (a ++ b)) = utf8FindNextLeadingByte (c :: a) := by
  have hstop : b.takeWhile utf8IsTrailingByte = [] := by
    cases b with
    | nil => rfl
    | cons d b => simp [hb d rfl]
  have hsame : (a ++ b).takeWhile utf8IsTrailingByte = a.takeWhile utf8IsTrailingByte := by
    rw [List.takeWhile_append, hstop, List.append_nil]
    split_ifs with hall
    · exact ((List.takeWhile_prefix _).eq_of_length hall).symm
    · rfl
  rw [utf8FindNextLeadingByte, utf8FindNextLeadingByte, hsame]

theorem utf8ToLatin1Next_append {b : List UInt8} (hb : StartsCharacter b) (c : UInt8) (a : List UInt8) :
    utf8ToLatin1Next (c :: (a ++ b)) =
      ((utf8ToLatin1Next (c :: a)).1, (utf8ToLatin1Next (c :: a)).2 ++ b) := by
  cases h : utf8DecodeOne (c :: a) with
  | none =>
      have hle := utf8FindNextLeadingByte_le (c :: a)
      have hdrop : (c :: a ++ b).drop _ = (c :: a).drop _ ++ b := List.drop_append_of_le_length hle
      rw [List.cons_append] at hdrop
      simp only [utf8ToLatin1Next, h, utf8DecodeOne_append_none hb h, utf8FindNextLeadingByte_append hb, hdrop]
  | some r =>
      have hle := utf8DecodeOne_size h
      have hdrop : (c :: a ++ b).drop _ = (c :: a).drop _ ++ b := List.drop_append_of_le_length hle
      have hdec := utf8DecodeOne_append h b
      rw [List.cons_append] at hdrop hdec
      simp only [utf8ToLatin1Next, h, hdec, hdrop]

theorem toLatin1_append {b : List UInt8} (hb : StartsCharacter b) (a : List UInt8) :
    toLatin1 (a ++ b) = toLatin1 a ++ toLatin1 b := by
  induction hn : a.length using Nat.strong_induction_on generalizing a with
  | _ n ih =>
      cases a with
      | nil => rfl
      | cons c a =>
          have hshort := utf8ToLatin1Next_shorter c a
          rw [List.length_cons] at hn
          have hrest := ih _ (by omega) (utf8ToLatin1Next (c :: a)).2 rfl
          rw [List.cons_append, toLatin1_cons, utf8ToLatin1Next_append hb, toLatin1_cons, hrest, List.cons_append]

theorem utf8ToLatin1_ok (dest src : List UInt8) :
    ∃ out, utf8ToLatin1 dest 0 dest.length src = .ok (out, (toLatin1 src).length) ∧
      ((toLatin1 src).length ≤ dest.length → out.take (toLatin1 src).length = toLatin1 src) := by
  have heq := utf8ToLatin1_eq dest 0 dest.length src (by omega)
  refine ⟨_, heq, ?_⟩
  intro hfit
  rw [List.take_of_length_le hfit, take_overwrite_zero hfit]

/-- Conversion splits where a character may start, whatever is broken before
it, and on every input the read position moves in positive steps, one for
each output character, from the start to exactly the end. -/
theorem error_recovery_local (a b : List UInt8) (hb : StartsCharacter b) :
    (∀ dest destA destB : List UInt8, ∃ out n outA nA outB nB,
      utf8ToLatin1 dest 0 dest.length (a ++ b) = .ok (out, n) ∧
      utf8ToLatin1 destA 0 destA.length a = .ok (outA, nA) ∧
      utf8ToLatin1 destB 0 destB.length b = .ok (outB, nB) ∧
      n = nA + nB ∧
      (n ≤ dest.length → nA ≤ destA.length → nB ≤ destB.length →
        out.take n = outA.take nA ++ outB.take nB)) ∧
    (∀ src dest : List UInt8, (advances src).sum = src.length ∧ (∀ k ∈ advances src, 0 < k) ∧
      ∃ out, utf8ToLatin1 dest 0 dest.length src = .ok (out, (advances src).length)) := by
  constructor
  · intro dest destA destB
    obtain ⟨out, hout, htake⟩ := utf8ToLatin1_ok dest (a ++ b)
    obtain ⟨outA, houtA, htakeA⟩ := utf8ToLatin1_ok destA a
    obtain ⟨outB, houtB, htakeB⟩ := utf8ToLatin1_ok destB b
    refine ⟨out, _, outA, _, outB, _, hout, houtA, houtB, ?_, ?_⟩
    · rw [toLatin1_append hb, List.length_append]
    · intro hfit hfitA hfitB
      rw [htake hfit, htakeA hfitA, htakeB hfitB, toLatin1_append hb]
  · intro src dest
    obtain ⟨hsum, hpos, hlen⟩ := advancesLoop_spec (Nat.le_refl src.length)
    obtain ⟨out, hout, -⟩ := utf8ToLatin1_ok dest src
    refine ⟨hsum, hpos, out, ?_⟩
    rw [advances, hlen]
    exact hout

theorem error_recovery_local_cut :
    StartsCharacter [65] ∧ utf8ToLatin1 [0, 0] 0 2 [0xE2, 0x82, 65] = .ok ([63, 65], 2) ∧
      (∃ out n outA nA outB nB, utf8ToLatin1 [0, 0] 0 2 ([0xE2, 0x82] ++ [65]) = .ok (out, n) ∧
        utf8ToLatin1 [0] 0 1 [0xE2, 0x82] = .ok (outA, nA) ∧ utf8ToLatin1 [0] 0 1 [65] = .ok (outB, nB) ∧
        n = nA + nB ∧ (n ≤ 2 → nA ≤ 1 → nB ≤ 1 → out.take n = outA.take nA ++ outB.take nB)) :=
  ⟨by decide, by decide, (error_recovery_local [0xE2, 0x82] [65] (by decide)).1 [0, 0] [0] [0]⟩

end TibiaLogin.Conversion
