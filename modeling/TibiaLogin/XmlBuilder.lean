import TibiaLogin.BufferWriter
import TibiaLogin.Text

namespace TibiaLogin.XmlBuilder

open MachineInt Memory Text

/-- The ways an append can go wrong. A variadic argument that is missing or of
another type than the one fetched is undefined behaviour. -/
inductive XmlError
  | fault (f : Fault)
  | assertion
  | argument
  deriving DecidableEq, Repr

/-- The data is the writable object itself, so its length is the size. -/
structure XmlBuffer where
  data : List UInt8
  position : Int
  deriving DecidableEq, Repr

def wrap64 (x : Int) : Int := (x + 9223372036854775808) % 18446744073709551616 - 9223372036854775808

def storeChar (data : List UInt8) (offset : Int) (ch : UInt8) : Except XmlError (List UInt8) :=
  match storeBytes data offset [ch] with
  | .ok data => .ok data
  | .error f => .error (.fault f)

def xmlNullTerminate (buffer : XmlBuffer) : Except XmlError XmlBuffer := do
  if buffer.data.length = 0 then .error .assertion
  else
    let data ←
      if buffer.position < buffer.data.length then storeChar buffer.data buffer.position 0
      else storeChar buffer.data (buffer.data.length - 1) 0
    pure { buffer with data }

def xmlAppendChar (buffer : XmlBuffer) (ch : UInt8) : Except XmlError XmlBuffer := do
  let data ← if buffer.position < buffer.data.length then storeChar buffer.data buffer.position ch else pure buffer.data
  pure ⟨data, wrap32 (buffer.position + 1)⟩

def numberDigits : Nat → Int → Except XmlError (List UInt8)
  | 0, num => if 0 < num then .error .assertion else pure []
  | room + 1, num =>
      if 0 < num then do
        let digits ← numberDigits room (num / 10)
        pure (toU8 (num % 10 + 48) :: digits)
      else pure []

def xmlAppendNumber (buffer : XmlBuffer) (num : Int) : Except XmlError XmlBuffer := do
  if num = 0 then xmlAppendChar buffer 48
  else
    let buffer ← if num < 0 then xmlAppendChar buffer 45 else pure buffer
    let string ← numberDigits 64 (if num < 0 then wrap64 (-num) else num)
    string.reverse.foldlM xmlAppendChar buffer

def xmlAppendString (buffer : XmlBuffer) : List UInt8 → Except XmlError XmlBuffer
  | [] => pure buffer
  | ch :: p =>
      if ch = 0 then pure buffer
      else do
        let buffer ← xmlAppendChar buffer ch
        xmlAppendString buffer p

def xmlAppendEscaped (buffer : XmlBuffer) (ch : UInt8) : Except XmlError XmlBuffer :=
  if ch = 9 then xmlAppendString buffer (text "&#9;")
  else if ch = 10 then xmlAppendString buffer (text "&#10;")
  else if ch = 34 then xmlAppendString buffer (text "&quot;")
  else if ch = 38 then xmlAppendString buffer (text "&amp;")
  else if ch = 39 then xmlAppendString buffer (text "&apos;")
  else if ch = 60 then xmlAppendString buffer (text "&lt;")
  else if ch = 62 then xmlAppendString buffer (text "&gt;")
  else xmlAppendChar buffer ch

def xmlAppendStringEscaped (buffer : XmlBuffer) : List UInt8 → Except XmlError XmlBuffer
  | [] => pure buffer
  | ch :: p =>
      if ch = 0 then pure buffer
      else do
        let buffer ← xmlAppendEscaped buffer ch
        xmlAppendStringEscaped buffer p

/-- A variadic argument after the default promotions. -/
inductive Arg
  | int (value : Int)
  | int64 (value : Int)
  | str (value : List UInt8)
  deriving DecidableEq, Repr

def lengthModifier (p : List UInt8) : Nat × List UInt8 :=
  if p.headD 0 = 104 ∧ p.tail.headD 0 = 104 then (4, p.drop 2)
  else if p.headD 0 = 108 ∧ p.tail.headD 0 = 108 then (8, p.drop 2)
  else if p.headD 0 = 104 then (4, p.drop 1)
  else if p.headD 0 = 108 then (8, p.drop 1)
  else (4, p)

def argInt : List Arg → Except XmlError (Int × List Arg)
  | .int value :: args => pure (value, args)
  | _ => .error .argument

def argInt64 : List Arg → Except XmlError (Int × List Arg)
  | .int64 value :: args => pure (value, args)
  | _ => .error .argument

def argStr : List Arg → Except XmlError (List UInt8 × List Arg)
  | .str value :: args => pure (value, args)
  | _ => .error .argument

def xmlAppendArgument (buffer : XmlBuffer) (length : Nat) (specifier : UInt8) (args : List Arg) :
    Except XmlError (XmlBuffer × List Arg) := do
  if specifier = 37 then
    let buffer ← xmlAppendChar buffer 37
    pure (buffer, args)
  else if specifier = 99 then
    let (value, args) ← argInt args
    let buffer ← xmlAppendChar buffer (toU8 value)
    pure (buffer, args)
  else if specifier = 100 then
    let (value, args) ← if length = 4 then argInt args else argInt64 args
    let buffer ← xmlAppendNumber buffer value
    pure (buffer, args)
  else if specifier = 115 then
    let (value, args) ← argStr args
    let buffer ← xmlAppendStringEscaped buffer value
    pure (buffer, args)
  else pure (buffer, args)

/-- Every round consumes a byte of the format, so its length bounds the rounds. -/
def xmlAppendFormatV (buffer : XmlBuffer) : Nat → List UInt8 → List Arg → Except XmlError XmlBuffer
  | 0, _, _ => pure buffer
  | fuel + 1, p, args =>
      if p.headD 0 = 0 then pure buffer
      else if p.headD 0 = 37 then do
        let (length, p) := lengthModifier p.tail
        let (buffer, args) ← xmlAppendArgument buffer length (p.headD 0) args
        xmlAppendFormatV buffer fuel (if p.headD 0 ≠ 0 then p.tail else p) args
      else do
        let buffer ← xmlAppendChar buffer (p.headD 0)
        xmlAppendFormatV buffer fuel p.tail args

def xmlAppendFormat (buffer : XmlBuffer) (format : List UInt8) (args : List Arg) : Except XmlError XmlBuffer :=
  xmlAppendFormatV buffer format.length format args

def appendAll (buffer : XmlBuffer) (chars : List UInt8) : Except XmlError XmlBuffer := chars.foldlM xmlAppendChar buffer

def escapeChar (ch : UInt8) : List UInt8 :=
  if ch = 9 then text "&#9;"
  else if ch = 10 then text "&#10;"
  else if ch = 34 then text "&quot;"
  else if ch = 38 then text "&amp;"
  else if ch = 39 then text "&apos;"
  else if ch = 60 then text "&lt;"
  else if ch = 62 then text "&gt;"
  else [ch]

def escape (str : List UInt8) : List UInt8 := str.flatMap escapeChar

theorem appendAll_cons (buffer : XmlBuffer) (ch : UInt8) (chars : List UInt8) :
    appendAll buffer (ch :: chars) = xmlAppendChar buffer ch >>= fun buffer => appendAll buffer chars :=
  List.foldlM_cons ..

theorem appendAll_append (buffer : XmlBuffer) (chars chars' : List UInt8) :
    appendAll buffer (chars ++ chars') = appendAll buffer chars >>= fun buffer => appendAll buffer chars' :=
  List.foldlM_append

theorem appendAll_singleton (buffer : XmlBuffer) (ch : UInt8) : appendAll buffer [ch] = xmlAppendChar buffer ch := by
  rw [appendAll_cons]
  cases xmlAppendChar buffer ch with
  | ok buffer => rfl
  | error e => rfl

theorem xmlAppendString_eq (buffer : XmlBuffer) (str : List UInt8) :
    xmlAppendString buffer str = appendAll buffer (cString str) := by
  induction str generalizing buffer with
  | nil => rfl
  | cons ch p ih =>
      rw [xmlAppendString]
      split_ifs with hz
      · rw [hz, cString_cons_zero]
        rfl
      · rw [cString_cons_of_ne hz, appendAll_cons]
        exact bind_congr fun buffer => ih buffer

theorem xmlAppendEscaped_eq (buffer : XmlBuffer) (ch : UInt8) :
    xmlAppendEscaped buffer ch = appendAll buffer (escapeChar ch) := by
  rw [xmlAppendEscaped, escapeChar]
  split_ifs
  all_goals first | exact xmlAppendString_eq buffer _ | exact (appendAll_singleton buffer ch).symm

theorem xmlAppendStringEscaped_eq (buffer : XmlBuffer) (str : List UInt8) :
    xmlAppendStringEscaped buffer str = appendAll buffer (escape (cString str)) := by
  induction str generalizing buffer with
  | nil => rfl
  | cons ch p ih =>
      rw [xmlAppendStringEscaped]
      split_ifs with hz
      · rw [hz, cString_cons_zero]
        rfl
      · rw [cString_cons_of_ne hz, escape, List.flatMap_cons, appendAll_append, xmlAppendEscaped_eq]
        exact bind_congr fun buffer => ih buffer

theorem numberDigits_eq {room n : Nat} (hpos : 0 < n) (hlt : n < 10 ^ room) :
    numberDigits room n = .ok (decimal n).reverse := by
  induction room generalizing n with
  | zero => omega
  | succ room ih =>
      have hdigit : ∀ d : Nat, d < 10 → toU8 ((d : Int) + 48) = UInt8.ofNat d.digitChar.toNat := by decide
      have hlast : toU8 ((n : Int) % 10 + 48) = UInt8.ofNat (n % 10).digitChar.toNat := hdigit (n % 10) (by omega)
      have hdiv : (n : Int) / 10 = ((n / 10 : Nat) : Int) := rfl
      rw [numberDigits, if_pos (by omega), hlast, hdiv]
      by_cases hsmall : n < 10
      · have hzero : n / 10 = 0 := by omega
        have hstop : numberDigits room (0 : Nat) = .ok [] := by cases room <;> rfl
        rw [hzero, hstop, decimal_of_lt hsmall, Nat.mod_eq_of_lt hsmall]
        rfl
      · rw [Nat.pow_succ] at hlt
        have hrest := ih (show 0 < n / 10 by omega) (by omega)
        rw [hrest, decimal_of_le (show 10 ≤ n by omega), List.reverse_append]
        rfl

theorem xmlAppendNumber_eq (buffer : XmlBuffer) {num : Int} (hlo : -9223372036854775808 < num)
    (hhi : num < 9223372036854775808) : xmlAppendNumber buffer num = appendAll buffer (signedDecimal num) := by
  rw [xmlAppendNumber, signedDecimal]
  by_cases hz : num = 0
  · subst hz
    exact (appendAll_singleton buffer 48).symm
  · have hdigits : numberDigits 64 num.natAbs = .ok (decimal num.natAbs).reverse :=
      numberDigits_eq (by omega) (Nat.lt_trans (show num.natAbs < 10 ^ 19 by omega) (by decide))
    rw [if_neg hz]
    by_cases hneg : num < 0
    · have hwrap : wrap64 (-num) = num.natAbs := by
        rw [wrap64]
        omega
      rw [if_pos hneg, if_pos hneg, if_pos hneg, hwrap, hdigits, appendAll_cons]
      refine bind_congr fun buffer => ?_
      simp only [ok_bind, List.reverse_reverse]
      rfl
    · have habs : num = num.natAbs := by omega
      rw [if_neg hneg, if_neg hneg, if_neg hneg, pure_bind]
      rw [← habs] at hdigits
      simp only [hdigits, ok_bind, List.reverse_reverse]
      rfl

/-- The text that a format makes of its arguments, with any fuel that is enough. -/
def Formats (p : List UInt8) (args : List Arg) (chars : List UInt8) : Prop :=
  ∀ fuel buffer, p.length ≤ fuel → xmlAppendFormatV buffer fuel p args = appendAll buffer chars

theorem formats_nil (args : List Arg) : Formats [] args [] := by
  intro fuel buffer _
  cases fuel <;> rfl

theorem formats_char (ch : UInt8) (hz : ch ≠ 0) (hp : ch ≠ 37) {p : List UInt8} {args : List Arg}
    {chars : List UInt8} (h : Formats p args chars) : Formats (ch :: p) args (ch :: chars) := by
  intro fuel buffer hfuel
  rw [List.length_cons] at hfuel
  obtain ⟨fuel, rfl⟩ : ∃ k, fuel = k + 1 := ⟨fuel - 1, by omega⟩
  rw [xmlAppendFormatV, List.headD_cons, if_neg hz, if_neg hp, List.tail_cons, appendAll_cons]
  exact bind_congr fun buffer => h fuel buffer (by omega)

theorem formats_literal {literal : List UInt8} (hlit : ∀ ch ∈ literal, ch ≠ 0 ∧ ch ≠ 37) {p : List UInt8}
    {args : List Arg} {chars : List UInt8} (h : Formats p args chars) :
    Formats (literal ++ p) args (literal ++ chars) := by
  induction literal with
  | nil => exact h
  | cons ch literal ih =>
      obtain ⟨⟨hz, hp⟩, hrest⟩ := List.forall_mem_cons.mp hlit
      exact formats_char ch hz hp (ih hrest)

theorem formats_string (str : List UInt8) {p : List UInt8} {args : List Arg} {chars : List UInt8}
    (h : Formats p args chars) : Formats (37 :: 115 :: p) (.str str :: args) (escape (cString str) ++ chars) := by
  intro fuel buffer hfuel
  rw [List.length_cons, List.length_cons] at hfuel
  obtain ⟨fuel, rfl⟩ : ∃ k, fuel = k + 1 := ⟨fuel - 1, by omega⟩
  have hstep : xmlAppendFormatV buffer (fuel + 1) (37 :: 115 :: p) (.str str :: args) =
      xmlAppendStringEscaped buffer str >>= fun buffer => xmlAppendFormatV buffer fuel p args := by
    simp [xmlAppendFormatV, lengthModifier, xmlAppendArgument, argStr]
  rw [hstep, xmlAppendStringEscaped_eq, appendAll_append]
  exact bind_congr fun buffer => h fuel buffer (by omega)

theorem formats_int (num : Int) (hlo : -9223372036854775808 < num) (hhi : num < 9223372036854775808)
    {p : List UInt8} {args : List Arg} {chars : List UInt8} (h : Formats p args chars) :
    Formats (37 :: 100 :: p) (.int num :: args) (signedDecimal num ++ chars) := by
  intro fuel buffer hfuel
  rw [List.length_cons, List.length_cons] at hfuel
  obtain ⟨fuel, rfl⟩ : ∃ k, fuel = k + 1 := ⟨fuel - 1, by omega⟩
  have hstep : xmlAppendFormatV buffer (fuel + 1) (37 :: 100 :: p) (.int num :: args) =
      xmlAppendNumber buffer num >>= fun buffer => xmlAppendFormatV buffer fuel p args := by
    simp [xmlAppendFormatV, lengthModifier, xmlAppendArgument, argInt]
  rw [hstep, xmlAppendNumber_eq buffer hlo hhi, appendAll_append]
  exact bind_congr fun buffer => h fuel buffer (by omega)

theorem xmlAppendFormat_eq {format : List UInt8} {args : List Arg} {chars : List UInt8} (h : Formats format args chars)
    (buffer : XmlBuffer) : xmlAppendFormat buffer format args = appendAll buffer chars :=
  h format.length buffer (Nat.le_refl _)

theorem appendAll_eq {data : List UInt8} {p : Nat} (chars : List UInt8) (hdata : data.length < 2147483648)
    (hp : p + chars.length < 2147483648) :
    appendAll ⟨data, (p : Nat)⟩ chars =
      .ok ⟨overwrite data p (chars.take (data.length - p)), ((p + chars.length : Nat) : Int)⟩ := by
  induction chars generalizing data p with
  | nil => rw [List.take_nil, overwrite_nil]; rfl
  | cons ch chars ih =>
      rw [List.length_cons] at hp
      have hnext : wrap32 ((p : Int) + 1) = ((p + 1 : Nat) : Int) := wrap32_of_mem (by omega) (by omega)
      have hcount : ((p + 1 + chars.length : Nat) : Int) = ((p + (ch :: chars).length : Nat) : Int) := by
        rw [List.length_cons]
        omega
      rw [appendAll_cons, xmlAppendChar]
      simp only [hnext]
      by_cases hfit : p < data.length
      · have hone : p + [ch].length ≤ data.length := by
          rw [List.length_singleton]
          omega
        have hlen := length_overwrite hone
        have hroom : (chars.take (data.length - (p + 1))).length ≤ data.length - (p + 1) := List.length_take_le ..
        have hstore : storeChar data p ch = .ok (overwrite data p [ch]) := by
          rw [storeChar, storeBytes_of_within hone]
        have hover : overwrite (overwrite data p [ch]) (p + 1) (chars.take (data.length - (p + 1))) =
            overwrite data p (ch :: chars.take (data.length - (p + 1))) :=
          overwrite_overwrite (by simp only [List.length_singleton]; omega)
        have hsplit : data.length - p = data.length - (p + 1) + 1 := by omega
        rw [if_pos (by omega), hstore, ok_bind, pure_bind, ih (by omega) (by omega), hlen, hover, hcount, hsplit,
          List.take_succ_cons]
      · have hfull : data.length - p = 0 := by omega
        have hfull' : data.length - (p + 1) = 0 := by omega
        rw [if_neg (by omega), pure_bind, pure_bind, ih hdata (by omega), hcount, hfull, hfull', List.take_zero,
          List.take_zero, overwrite_nil, overwrite_nil]

theorem xmlNullTerminate_appendAll {data : List UInt8} (chars : List UInt8) (hpos : 0 < data.length)
    (hdata : data.length < 2147483648) (hchars : chars.length < 2147483648) :
    appendAll ⟨data, (0 : Nat)⟩ chars >>= xmlNullTerminate =
      .ok ⟨overwrite data 0 (chars.take (data.length - 1) ++ [0]), (chars.length : Nat)⟩ := by
  have hlen : (overwrite data 0 (chars.take data.length)).length = data.length :=
    length_overwrite (by rw [List.length_take]; omega)
  rw [appendAll_eq chars hdata (by omega), Nat.sub_zero, Nat.zero_add, ok_bind, xmlNullTerminate]
  simp only [hlen]
  rw [if_neg (by omega)]
  by_cases hfit : chars.length < data.length
  · have hlast : 0 + chars.length + [(0 : UInt8)].length ≤ data.length := by
      rw [List.length_singleton]
      omega
    have hover : overwrite (overwrite data 0 chars) (0 + chars.length) [0] = overwrite data 0 (chars ++ [0]) :=
      overwrite_overwrite hlast
    rw [Nat.zero_add] at hover hlast
    have hroom : chars.length + [(0 : UInt8)].length ≤ (overwrite data 0 chars).length := by
      rw [length_overwrite (by omega)]
      exact hlast
    rw [if_pos (by omega), List.take_of_length_le (by omega), List.take_of_length_le (by omega), storeChar,
      storeBytes_of_within hroom, hover]
    rfl
  · -- the text fills the buffer, and its last byte there gives way to the terminator
    have hfull : overwrite data 0 (chars.take data.length) = chars.take data.length :=
      overwrite_all (by rw [List.length_take]; omega)
    have hkept : overwrite data 0 (chars.take (data.length - 1) ++ [0]) = chars.take (data.length - 1) ++ [0] :=
      overwrite_all (by rw [List.length_append, List.length_take, List.length_singleton]; omega)
    have hlast : data.length - 1 + [(0 : UInt8)].length ≤ (chars.take data.length).length := by
      rw [List.length_take, List.length_singleton]
      omega
    have hover : overwrite (chars.take data.length) (data.length - 1) [0] = chars.take (data.length - 1) ++ [0] := by
      rw [overwrite, List.take_take, Nat.min_eq_left (by omega), List.drop_eq_nil_of_le, List.append_nil]
      rw [List.length_take, List.length_singleton]
      omega
    have hoffset : (data.length : Int) - 1 = (data.length - 1 : Nat) := by omega
    rw [if_neg (by omega), hfull, hoffset, storeChar, storeBytes_of_within hlast, hover, hkept]
    rfl

end TibiaLogin.XmlBuilder
