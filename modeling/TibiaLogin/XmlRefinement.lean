import TibiaLogin.XmlBuilder

namespace TibiaLogin.XmlRefinement

open MachineInt Memory Text XmlBuilder

inductive Op
  | char (ch : UInt8)
  | number (num : Int)
  | string (str : List UInt8)
  | escaped (str : List UInt8)
  | format (fmt : List UInt8) (args : List Arg)
  deriving DecidableEq, Repr

def Op.apply : Op → XmlBuffer → Except XmlError XmlBuffer
  | .char ch, buffer => xmlAppendChar buffer ch
  | .number num, buffer => xmlAppendNumber buffer num
  | .string str, buffer => xmlAppendString buffer str
  | .escaped str, buffer => xmlAppendStringEscaped buffer str
  | .format fmt args, buffer => xmlAppendFormat buffer fmt args

def run (ops : List Op) (buffer : XmlBuffer) : Except XmlError XmlBuffer :=
  ops.foldlM (fun buffer op => op.apply buffer) buffer

inductive Piece
  | chars (str : List UInt8)
  | number (num : Int)
  deriving DecidableEq, Repr

def Piece.text : Piece → List UInt8
  | .chars str => str
  | .number num => signedDecimal num

def intArg : List Arg → Option (Int × List Arg)
  | .int value :: args => some (value, args)
  | _ => none

def int64Arg : List Arg → Option (Int × List Arg)
  | .int64 value :: args => some (value, args)
  | _ => none

def strArg : List Arg → Option (List UInt8 × List Arg)
  | .str value :: args => some (value, args)
  | _ => none

/-- The piece of a conversion and the arguments behind it. There is none when
the next argument is not of the type that the conversion takes. -/
def conversion (length : Nat) (specifier : UInt8) (args : List Arg) : Option (List Piece × List Arg) :=
  if specifier = 37 then some ([.chars [37]], args)
  else if specifier = 99 then (intArg args).map fun (value, args) => ([.chars [toU8 value]], args)
  else if specifier = 100 then
    (if length = 4 then intArg args else int64Arg args).map fun (value, args) => ([.number value], args)
  else if specifier = 115 then (strArg args).map fun (value, args) => ([.chars (escape (cString value))], args)
  else some ([], args)

def formatPieces : Nat → List UInt8 → List Arg → Option (List Piece)
  | 0, _, _ => some []
  | fuel + 1, p, args =>
      if p.headD 0 = 0 then some []
      else if p.headD 0 = 37 then do
        let (pieces, rest) ← conversion (lengthModifier p.tail).1 ((lengthModifier p.tail).2.headD 0) args
        let p := (lengthModifier p.tail).2
        let more ← formatPieces fuel (if p.headD 0 ≠ 0 then p.tail else p) rest
        some (pieces ++ more)
      else do
        let more ← formatPieces fuel p.tail args
        some (.chars [p.headD 0] :: more)

def Op.pieces : Op → Option (List Piece)
  | .char ch => some [.chars [ch]]
  | .number num => some [.number num]
  | .string str => some [.chars (cString str)]
  | .escaped str => some [.chars (escape (cString str))]
  | .format fmt args => formatPieces fmt.length fmt args

/-- The pieces of a sequence of calls. A call of a format with the wrong
arguments has none. -/
def pieces : List Op → Option (List Piece)
  | [] => some []
  | op :: ops => do
      let first ← op.pieces
      let more ← pieces ops
      some (first ++ more)

def wholeText (pieces : List Piece) : List UInt8 := pieces.flatMap Piece.text

/-- The numbers are values of the type int64. -/
def Int64s (pieces : List Piece) : Prop :=
  ∀ num, .number num ∈ pieces → -9223372036854775808 ≤ num ∧ num < 9223372036854775808

/-- The terminated buffer shows the text: the position counts all of it, and
the string is what fits in front of the terminator. -/
def Refines (data : List UInt8) (ops : List Op) (whole : List UInt8) : Prop :=
  ∃ buffer, run ops ⟨data, 0⟩ >>= xmlNullTerminate = .ok buffer ∧ buffer.position = whole.length ∧
    buffer.data.length = data.length ∧ cString buffer.data = whole.take (min whole.length (data.length - 1))

/-- What the source appends of a piece: the least number has no negation, so
only its sign goes out. -/
def Piece.appended : Piece → List UInt8
  | .chars str => str
  | .number num => if num = -9223372036854775808 then [45] else signedDecimal num

theorem xmlAppendNumber_least (buffer : XmlBuffer) :
    xmlAppendNumber buffer (-9223372036854775808) = appendAll buffer [45] := by
  have hdigits : numberDigits 64 (wrap64 9223372036854775808) = .ok [] := rfl
  rw [xmlAppendNumber, appendAll_singleton]
  simp only [if_neg (show ¬(-9223372036854775808 : Int) = 0 by decide),
    if_pos (show (-9223372036854775808 : Int) < 0 by decide), Int.neg_neg, hdigits, ok_bind]
  cases xmlAppendChar buffer 45 with
  | ok buffer => rfl
  | error e => rfl

theorem xmlAppendNumber_appended (buffer : XmlBuffer) {num : Int} (hlo : -9223372036854775808 ≤ num)
    (hhi : num < 9223372036854775808) : xmlAppendNumber buffer num = appendAll buffer (Piece.number num).appended := by
  rw [Piece.appended]
  split_ifs with hleast
  · rw [hleast]
    exact xmlAppendNumber_least buffer
  · exact xmlAppendNumber_eq buffer (by omega) hhi

theorem int64s_append {a b : List Piece} : Int64s (a ++ b) ↔ Int64s a ∧ Int64s b := by
  constructor
  · intro h
    exact ⟨fun num hnum => h num (List.mem_append_left _ hnum), fun num hnum => h num (List.mem_append_right _ hnum)⟩
  · rintro ⟨ha, hb⟩ num hnum
    rcases List.mem_append.mp hnum with hnum | hnum
    · exact ha num hnum
    · exact hb num hnum

theorem appendAll_piece (buffer : XmlBuffer) (piece : Piece) :
    appendAll buffer ([piece].flatMap Piece.appended) = appendAll buffer piece.appended := by
  rw [List.flatMap_singleton]

theorem argInt_of_intArg {args : List Arg} {r : Int × List Arg} (h : intArg args = some r) : argInt args = .ok r := by
  rcases args with _ | ⟨value | value | value, args⟩
  case cons.int => cases h; rfl
  all_goals cases h

theorem argInt64_of_int64Arg {args : List Arg} {r : Int × List Arg} (h : int64Arg args = some r) :
    argInt64 args = .ok r := by
  rcases args with _ | ⟨value | value | value, args⟩
  case cons.int64 => cases h; rfl
  all_goals cases h

theorem argStr_of_strArg {args : List Arg} {r : List UInt8 × List Arg} (h : strArg args = some r) :
    argStr args = .ok r := by
  rcases args with _ | ⟨value | value | value, args⟩
  case cons.str => cases h; rfl
  all_goals cases h

theorem xmlAppendArgument_conversion {length : Nat} {specifier : UInt8} {args rest : List Arg} {ps : List Piece}
    (h : conversion length specifier args = some (ps, rest)) (hps : Int64s ps) (buffer : XmlBuffer) :
    xmlAppendArgument buffer length specifier args =
      appendAll buffer (ps.flatMap Piece.appended) >>= fun buffer => pure (buffer, rest) := by
  rw [conversion] at h
  rw [xmlAppendArgument]
  by_cases hpercent : specifier = 37
  · rw [if_pos hpercent] at h ⊢
    cases h
    rw [appendAll_piece, Piece.appended, appendAll_singleton]
  rw [if_neg hpercent] at h ⊢
  by_cases hchar : specifier = 99
  · rw [if_pos hchar] at h ⊢
    obtain ⟨⟨value, args'⟩, harg, h⟩ := Option.map_eq_some_iff.mp h
    cases h
    rw [argInt_of_intArg harg, appendAll_piece, Piece.appended, appendAll_singleton, ok_bind]
  rw [if_neg hchar] at h ⊢
  by_cases hdecimal : specifier = 100
  · rw [if_pos hdecimal] at h ⊢
    obtain ⟨⟨value, args'⟩, harg, h⟩ := Option.map_eq_some_iff.mp h
    cases h
    obtain ⟨hlo, hhi⟩ := hps value List.mem_cons_self
    rw [appendAll_piece, ← xmlAppendNumber_appended buffer hlo hhi]
    split_ifs at harg ⊢
    · rw [argInt_of_intArg harg]
      rfl
    · rw [argInt64_of_int64Arg harg]
      rfl
  rw [if_neg hdecimal] at h ⊢
  by_cases hstring : specifier = 115
  · rw [if_pos hstring] at h ⊢
    obtain ⟨⟨value, args'⟩, harg, h⟩ := Option.map_eq_some_iff.mp h
    cases h
    rw [argStr_of_strArg harg, appendAll_piece, Piece.appended, ← xmlAppendStringEscaped_eq]
    rfl
  rw [if_neg hstring] at h ⊢
  cases h
  rfl

theorem xmlAppendFormatV_pieces {fuel : Nat} {p : List UInt8} {args : List Arg} {ps : List Piece}
    (h : formatPieces fuel p args = some ps) (hps : Int64s ps) (buffer : XmlBuffer) :
    xmlAppendFormatV buffer fuel p args = appendAll buffer (ps.flatMap Piece.appended) := by
  induction fuel generalizing p args ps buffer with
  | zero =>
      cases h
      rfl
  | succ fuel ih =>
      rw [formatPieces] at h
      rw [xmlAppendFormatV]
      by_cases hend : p.headD 0 = 0
      · rw [if_pos hend] at h ⊢
        cases h
        rfl
      rw [if_neg hend] at h ⊢
      by_cases hpercent : p.headD 0 = 37
      · rw [if_pos hpercent, Option.bind_eq_bind, Option.bind_eq_some_iff] at h
        obtain ⟨⟨first, rest⟩, hfirst, h⟩ := h
        rw [Option.bind_eq_bind, Option.bind_eq_some_iff] at h
        obtain ⟨more, hmore, h⟩ := h
        cases h
        obtain ⟨hfirst64, hmore64⟩ := int64s_append.mp hps
        rw [if_pos hpercent, List.flatMap_append, appendAll_append]
        simp only [xmlAppendArgument_conversion hfirst hfirst64, bind_assoc, pure_bind]
        exact bind_congr fun buffer => ih hmore hmore64 buffer
      · rw [if_neg hpercent, Option.bind_eq_bind, Option.bind_eq_some_iff] at h
        obtain ⟨more, hmore, h⟩ := h
        cases h
        obtain ⟨-, hmore64⟩ := int64s_append.mp (show Int64s ([.chars [p.headD 0]] ++ more) from hps)
        rw [if_neg hpercent, List.flatMap_cons, Piece.appended, List.singleton_append, appendAll_cons]
        exact bind_congr fun buffer => ih hmore hmore64 buffer

theorem apply_pieces {op : Op} {ps : List Piece} (h : op.pieces = some ps) (hps : Int64s ps) (buffer : XmlBuffer) :
    op.apply buffer = appendAll buffer (ps.flatMap Piece.appended) := by
  cases op with
  | char ch =>
      cases h
      rw [appendAll_piece, Piece.appended, appendAll_singleton]
      rfl
  | number num =>
      cases h
      obtain ⟨hlo, hhi⟩ := hps num List.mem_cons_self
      rw [appendAll_piece, ← xmlAppendNumber_appended buffer hlo hhi]
      rfl
  | string str =>
      cases h
      rw [appendAll_piece, Piece.appended, ← xmlAppendString_eq]
      rfl
  | escaped str =>
      cases h
      rw [appendAll_piece, Piece.appended, ← xmlAppendStringEscaped_eq]
      rfl
  | format fmt args => exact xmlAppendFormatV_pieces h hps buffer

theorem run_pieces {ops : List Op} {ps : List Piece} (h : pieces ops = some ps) (hps : Int64s ps) (buffer : XmlBuffer) :
    run ops buffer = appendAll buffer (ps.flatMap Piece.appended) := by
  induction ops generalizing ps buffer with
  | nil =>
      cases h
      rfl
  | cons op ops ih =>
      rw [pieces, Option.bind_eq_bind, Option.bind_eq_some_iff] at h
      obtain ⟨first, hfirst, h⟩ := h
      rw [Option.bind_eq_some_iff] at h
      obtain ⟨more, hmore, h⟩ := h
      cases h
      obtain ⟨hfirst64, hmore64⟩ := int64s_append.mp hps
      rw [run, List.foldlM_cons, apply_pieces hfirst hfirst64, List.flatMap_append, appendAll_append]
      exact bind_congr fun buffer => ih hmore hmore64 buffer

theorem appended_eq {piece : Piece} (h : piece ≠ .number (-9223372036854775808)) : piece.appended = piece.text := by
  cases piece with
  | chars str => rfl
  | number num =>
      rw [Piece.appended, if_neg, Piece.text]
      rintro rfl
      exact h rfl

theorem flatMap_appended {ps : List Piece} (h : .number (-9223372036854775808) ∉ ps) :
    ps.flatMap Piece.appended = wholeText ps := by
  refine List.flatMap_congr fun piece hpiece => appended_eq ?_
  rintro rfl
  exact h hpiece

theorem length_appended (piece : Piece) : piece.appended.length +
    (if piece = .number (-9223372036854775808) then 19 else 0) = piece.text.length := by
  by_cases h : piece = .number (-9223372036854775808)
  · rw [h]
    decide
  · rw [if_neg h, appended_eq h]
    rfl

theorem length_flatMap_appended (ps : List Piece) :
    (ps.flatMap Piece.appended).length + 19 * ps.count (.number (-9223372036854775808)) = (wholeText ps).length := by
  induction ps with
  | nil => rfl
  | cons piece ps ih =>
      have hpiece := length_appended piece
      rw [wholeText, List.flatMap_cons, List.flatMap_cons, List.length_append, List.length_append, ← wholeText, ← ih,
        ← hpiece, List.count_cons]
      by_cases h : piece = .number (-9223372036854775808)
      · rw [if_pos h, if_pos (beq_iff_eq.mpr h)]
        omega
      · rw [if_neg h, if_neg (beq_iff_eq.not.mpr h)]
        omega

theorem position_xmlAppendChar {ch : UInt8} {buffer buffer' : XmlBuffer} (h : xmlAppendChar buffer ch = .ok buffer') :
    buffer'.position = wrap32 (buffer.position + 1) := by
  rw [xmlAppendChar] at h
  split_ifs at h
  · obtain ⟨data, -, hdata⟩ := bind_eq_ok.mp h
    cases hdata
    rfl
  · cases h
    rfl

theorem appendAll_position {chars : List UInt8} {buffer buffer' : XmlBuffer}
    (hstart : -2147483648 ≤ buffer.position ∧ buffer.position < 2147483648)
    (h : appendAll buffer chars = .ok buffer') :
    -2147483648 ≤ buffer'.position ∧ buffer'.position < 2147483648 := by
  induction chars generalizing buffer with
  | nil =>
      cases h
      exact hstart
  | cons ch chars ih =>
      rw [appendAll_cons] at h
      obtain ⟨next, hnext, h⟩ := bind_eq_ok.mp h
      refine ih ?_ h
      rw [position_xmlAppendChar hnext, wrap32]
      omega

theorem position_xmlNullTerminate {buffer buffer' : XmlBuffer} (h : xmlNullTerminate buffer = .ok buffer') :
    buffer'.position = buffer.position := by
  rw [xmlNullTerminate] at h
  split_ifs at h
  all_goals
    obtain ⟨data, -, hdata⟩ := bind_eq_ok.mp h
    cases hdata
    rfl

/-- The buffer refines an unbounded string as long as the position can count
it and no number is the least one, whose negation overflows. -/
theorem xml_buffer_refines_iff {data : List UInt8} (hpos : 0 < data.length) (hdata : data.length < 2147483648)
    {ops : List Op} {ps : List Piece} (hops : pieces ops = some ps) (hint : Int64s ps) (hz : 0 ∉ wholeText ps) :
    Refines data ops (wholeText ps) ↔
      (wholeText ps).length < 2147483648 ∧ .number (-9223372036854775808) ∉ ps := by
  have hrun := run_pieces hops hint ⟨data, 0⟩
  have hcount := length_flatMap_appended ps
  constructor
  · rintro ⟨buffer, hbuffer, hposition, -, -⟩
    rw [hrun] at hbuffer
    obtain ⟨before, hbefore, hend⟩ := bind_eq_ok.mp hbuffer
    rw [position_xmlNullTerminate hend] at hposition
    have hrange := appendAll_position (show (-2147483648 : Int) ≤ 0 ∧ (0 : Int) < 2147483648 by decide) hbefore
    have hshort : (wholeText ps).length < 2147483648 := by omega
    refine ⟨hshort, fun hmem => ?_⟩
    have hleast := List.count_pos_iff.mpr hmem
    have happend := appendAll_eq (p := 0) (ps.flatMap Piece.appended) hdata (by omega)
    rw [Int.natCast_zero, hbefore] at happend
    have hsame := congrArg XmlBuffer.position (Except.ok.inj happend)
    simp only [hposition] at hsame
    omega
  · rintro ⟨hshort, hleast⟩
    rw [flatMap_appended hleast] at hrun
    have hend := xmlNullTerminate_appendAll (wholeText ps) hpos hdata hshort
    have hcut : 0 ∉ (wholeText ps).take (data.length - 1) := fun h => hz (List.mem_of_mem_take h)
    rw [Int.natCast_zero, ← hrun] at hend
    refine ⟨_, hend, rfl, ?_, ?_⟩
    · rw [length_overwrite]
      rw [List.length_append, List.length_take, List.length_singleton]
      omega
    · rw [cString_overwrite data hcut, Nat.min_comm, ← List.take_eq_take_min]

def elementOps : List Op := [.string (text "<a>"), .format (text "%d%c%s") [.int (-7), .int 44, .str (text "&")]]

def elementPieces : List Piece := [.chars (text "<a>"), .number (-7), .chars [44], .chars (text "&amp;")]

theorem xml_buffer_refines_element :
    Refines [1, 2, 3, 4, 5, 6] elementOps (wholeText elementPieces) ↔
      (wholeText elementPieces).length < 2147483648 ∧ .number (-9223372036854775808) ∉ elementPieces := by
  have hint : Int64s elementPieces := by
    intro num h
    have hnum : num = -7 := by simpa [elementPieces] using h
    omega
  have hpos : 0 < ([1, 2, 3, 4, 5, 6] : List UInt8).length := by decide
  exact xml_buffer_refines_iff hpos (by decide) (by decide) hint (by decide)

/-- The least number leaves only its sign. -/
theorem least_number_cut :
    ¬Refines (List.replicate 32 0) [.number (-9223372036854775808)] (wholeText [.number (-9223372036854775808)]) ∧
      run [.number (-9223372036854775808)] ⟨List.replicate 32 0, 0⟩ >>= xmlNullTerminate =
        .ok ⟨45 :: List.replicate 31 0, 1⟩ := by
  have hrun : run [.number (-9223372036854775808)] ⟨List.replicate 32 0, 0⟩ >>= xmlNullTerminate =
      .ok ⟨45 :: List.replicate 31 0, 1⟩ := by decide
  refine ⟨?_, hrun⟩
  rintro ⟨buffer, hbuffer, hposition, -, -⟩
  rw [hrun] at hbuffer
  cases hbuffer
  exact absurd hposition (by decide)

/-- A minus sign for a negative number, then digits without a leading zero. -/
def Canonical (str : List UInt8) (num : Int) : Prop :=
  ∃ digits, str = (if num < 0 then 45 :: digits else digits) ∧ digits ≠ [] ∧ Digits digits ∧
    (digits.head? = some 48 → digits = [48])

def numberCalls (num : Int) : List (List UInt8 × Arg) :=
  [(text "%ld", .int64 num), (text "%lld", .int64 num)] ++
    if -2147483648 ≤ num ∧ num < 2147483648 then [(text "%d", .int num)] else []

/-- The appender and the formats append the decimal representation to any
buffer, and the negation in between does not overflow. -/
def NumberFormatted (num : Int) : Prop :=
  (num < 0 → wrap64 (-num) = -num) ∧
    (∀ buffer, xmlAppendNumber buffer num = appendAll buffer (signedDecimal num)) ∧
    ∀ call ∈ numberCalls num, ∀ buffer,
      xmlAppendFormat buffer call.1 [call.2] = appendAll buffer (signedDecimal num)

theorem head_decimal_zero {n : Nat} (h : (decimal n).head? = some 48) : decimal n = [48] := by
  induction n using Nat.strongRecOn with
  | ind n ih =>
      by_cases hsmall : n < 10
      · rw [decimal_of_lt hsmall] at h ⊢
        rw [Option.some.inj h]
      · rw [decimal_of_le (by omega), List.head?_append_of_ne_nil _ (decimal_ne_nil _)] at h
        -- the digits in front are those of a number that is not zero
        have hrest := ih (n / 10) (by omega) h
        have hvalue := digitsValue_decimal (n / 10)
        rw [hrest] at hvalue
        have hzero : digitsValue [48] = 0 := by decide
        omega

theorem canonical_signedDecimal (num : Int) : Canonical (signedDecimal num) num :=
  ⟨decimal num.natAbs, rfl, decimal_ne_nil _, digits_decimal _, head_decimal_zero⟩

theorem numberCalls_pieces {num : Int} {call : List UInt8 × Arg} (h : call ∈ numberCalls num) :
    formatPieces call.1.length call.1 [call.2] = some [.number num] := by
  rw [numberCalls] at h
  rcases List.mem_append.mp h with h | h
  · rcases List.mem_cons.mp h with rfl | h
    · rfl
    · rw [List.mem_singleton.mp h]
      rfl
  · split_ifs at h
    · rw [List.mem_singleton.mp h]
      rfl
    · cases h

/-- Every number of 64 bits but the least one is formatted, and read back from
its text. -/
theorem number_formatting_iff {num : Int} (hlo : -9223372036854775808 ≤ num) (hhi : num < 9223372036854775808) :
    Canonical (signedDecimal num) num ∧ parseSigned (signedDecimal num) = some num ∧
      (NumberFormatted num ↔ num ≠ -9223372036854775808) := by
  refine ⟨canonical_signedDecimal num, parseSigned_signedDecimal num, ?_⟩
  constructor
  · rintro ⟨hneg, -, -⟩ rfl
    exact absurd (hneg (by decide)) (by decide)
  · intro hne
    have hint : Int64s [.number num] := by
      intro value hvalue
      cases List.mem_singleton.mp hvalue
      exact ⟨hlo, hhi⟩
    have hpiece : [Piece.number num].flatMap Piece.appended = signedDecimal num := by
      rw [List.flatMap_singleton, Piece.appended, if_neg hne]
    refine ⟨fun hneg => ?_, fun buffer => ?_, fun call hcall buffer => ?_⟩
    · rw [wrap64]
      omega
    · exact xmlAppendNumber_eq buffer (by omega) hhi
    · rw [xmlAppendFormat, xmlAppendFormatV_pieces (numberCalls_pieces hcall) hint, hpiece]

theorem number_formatting_minus : Canonical (signedDecimal (-42)) (-42) ∧ parseSigned (signedDecimal (-42)) = some (-42) ∧
    (NumberFormatted (-42) ↔ (-42 : Int) ≠ -9223372036854775808) :=
  number_formatting_iff (by decide) (by decide)

/-- The least number comes out as a minus sign alone. -/
theorem least_number_sign : ¬NumberFormatted (-9223372036854775808) ∧
    xmlAppendFormat ⟨[0, 0], 0⟩ (text "%ld") [.int64 (-9223372036854775808)] = .ok ⟨[45, 0], 1⟩ := by
  have hrun : xmlAppendFormat ⟨[0, 0], 0⟩ (text "%ld") [.int64 (-9223372036854775808)] = .ok ⟨[45, 0], 1⟩ := by decide
  refine ⟨?_, hrun⟩
  rintro ⟨hneg, -, -⟩
  exact absurd (hneg (by decide)) (by decide)

end TibiaLogin.XmlRefinement
