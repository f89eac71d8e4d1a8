import TibiaLogin.Text
import Mathlib.Data.List.TakeWhile

namespace TibiaLogin.XmlAttribute

open Text

def normalizeLineEnds : List UInt8 → List UInt8
  | [] => []
  | ch :: doc =>
      if ch = 13 then
        if doc.head? = some 10 then normalizeLineEnds doc else 10 :: normalizeLineEnds doc
      else ch :: normalizeLineEnds doc

def hexDigit (ch : UInt8) : Option Nat :=
  if 48 ≤ ch ∧ ch ≤ 57 then some (ch.toNat - 48)
  else if 65 ≤ ch ∧ ch ≤ 70 then some (ch.toNat - 55)
  else if 97 ≤ ch ∧ ch ≤ 102 then some (ch.toNat - 87)
  else none

def parseHex (digits : List UInt8) : Option Nat :=
  if digits = [] then none else digits.foldlM (fun value ch => (hexDigit ch).map (16 * value + ·)) 0

/-- The characters of XML 1.0. -/
def XmlChar (n : Nat) : Prop :=
  n = 9 ∨ n = 10 ∨ n = 13 ∨ 0x20 ≤ n ∧ n ≤ 0xD7FF ∨ 0xE000 ≤ n ∧ n ≤ 0xFFFD ∨ 0x10000 ≤ n ∧ n ≤ 0x10FFFF

instance (n : Nat) : Decidable (XmlChar n) := inferInstanceAs (Decidable (_ ∨ _))

variable (encode : Nat → List UInt8)

def reference (name : List UInt8) : Option (List UInt8) :=
  let charRef (value : Option Nat) : Option (List UInt8) := do
    let n ← value
    if XmlChar n then some (encode n) else none
  if name = text "quot" then some [34]
  else if name = text "amp" then some [38]
  else if name = text "apos" then some [39]
  else if name = text "lt" then some [60]
  else if name = text "gt" then some [62]
  else if name.take 2 = text "#x" then charRef (parseHex (name.drop 2))
  else if name.take 1 = text "#" then charRef (parseDecimal (name.drop 1))
  else none

/-- Raw white space becomes a blank, a reference what it stands for. -/
def normalizeLoop : Nat → List UInt8 → Option (List UInt8)
  | _, [] => some []
  | 0, _ :: _ => none
  | fuel + 1, ch :: raw =>
      if ch = 38 then
        let name := raw.takeWhile (· != 59)
        if name.length < raw.length then do
          let chars ← reference encode name
          let rest ← normalizeLoop fuel (raw.drop (name.length + 1))
          some (chars ++ rest)
        else none
      else if ch = 60 then none
      else do
        let rest ← normalizeLoop fuel raw
        some ((if ch = 9 ∨ ch = 10 ∨ ch = 13 then 32 else ch) :: rest)

def normalizeValue (raw : List UInt8) : Option (List UInt8) := normalizeLoop encode raw.length raw

/-- The value of the attribute with which a document starts. The raw value ends
at the next quote. -/
def attributeValue (name doc : List UInt8) : Option (List UInt8) :=
  let doc := normalizeLineEnds doc
  let opening := name ++ text "=\""
  if opening.isPrefixOf doc then
    let doc := doc.drop opening.length
    let raw := doc.takeWhile (· != 34)
    if raw.length < doc.length then normalizeValue encode raw else none
  else none

/-- A CR without an LF behind it. -/
def endLine (ch : UInt8) : UInt8 := if ch = 13 then 10 else ch

theorem normalizeLineEnds_append {chars doc : List UInt8} (hchars : 10 ∉ chars) (hdoc : doc.head? ≠ some 10) :
    normalizeLineEnds (chars ++ doc) = chars.map endLine ++ normalizeLineEnds doc := by
  induction chars with
  | nil => rfl
  | cons ch chars ih =>
      obtain ⟨-, hrest⟩ := not_or.mp (List.mem_cons.not.mp hchars)
      have hhead : (chars ++ doc).head? ≠ some 10 := by
        cases chars with
        | nil => exact hdoc
        | cons next chars =>
            rintro hnext
            exact hrest (List.mem_cons.mpr (Or.inl (Option.some.inj hnext).symm))
      rw [List.cons_append, normalizeLineEnds, if_neg hhead, ih hrest, List.map_cons, endLine]
      split_ifs <;> rfl

theorem endLine_of_ne {chars : List UInt8} (h : 13 ∉ chars) : chars.map endLine = chars := by
  refine (List.map_congr_left fun ch hch => ?_).trans (List.map_id chars)
  rw [endLine, if_neg]
  · rfl
  · rintro rfl
    exact h hch

theorem takeWhile_stop {chars : List UInt8} {stop : UInt8} (h : stop ∉ chars) (rest : List UInt8) :
    (chars ++ stop :: rest).takeWhile (· != stop) = chars := by
  have hchars : ∀ ch ∈ chars, (ch != stop) = true := by
    intro ch hch
    rw [bne_iff_ne]
    rintro rfl
    exact h hch
  rw [List.takeWhile_append_of_pos hchars, List.takeWhile_cons_of_neg (by simp), List.append_nil]

theorem normalizeLoop_reference {name chars : List UInt8} (hname : 59 ∉ name) (href : reference encode name = some chars)
    (fuel : Nat) (raw : List UInt8) :
    normalizeLoop encode (fuel + 1) (38 :: (name ++ 59 :: raw)) =
      (normalizeLoop encode fuel raw).map (chars ++ ·) := by
  have htake := takeWhile_stop hname raw
  have hlt : name.length < (name ++ 59 :: raw).length := by
    rw [List.length_append, List.length_cons]
    omega
  have hdrop : (name ++ 59 :: raw).drop (name.length + 1) = raw := by
    rw [← List.drop_drop, List.drop_left]
    rfl
  rw [normalizeLoop, if_pos rfl]
  simp only [htake, if_pos hlt, href, hdrop, Option.bind_eq_bind, Option.bind_some]
  cases normalizeLoop encode fuel raw <;> rfl

theorem normalizeLoop_char {ch : UInt8} (hamp : ch ≠ 38) (hlt : ch ≠ 60) (fuel : Nat) (raw : List UInt8) :
    normalizeLoop encode (fuel + 1) (ch :: raw) =
      (normalizeLoop encode fuel raw).map ((if ch = 9 ∨ ch = 10 ∨ ch = 13 then 32 else ch) :: ·) := by
  rw [normalizeLoop, if_neg hamp, if_neg hlt]
  cases normalizeLoop encode fuel raw <;> rfl

theorem attributeValue_eq {name raw : List UInt8} (hname : 10 ∉ name ∧ 13 ∉ name) (hraw : 10 ∉ raw ∧ 34 ∉ raw)
    (rest : List UInt8) :
    attributeValue encode name (name ++ text "=\"" ++ (raw ++ 34 :: rest)) = normalizeValue encode (raw.map endLine) := by
  have hopening : 10 ∉ name ++ text "=\"" ∧ 13 ∉ name ++ text "=\"" := by
    rw [List.mem_append, List.mem_append, not_or, not_or]
    exact ⟨⟨hname.1, by decide⟩, hname.2, by decide⟩
  have hquote : (34 :: rest).head? ≠ some 10 := fun h => absurd (Option.some.inj h) (by decide)
  have hhead : (raw ++ 34 :: rest).head? ≠ some 10 := by
    cases raw with
    | nil => exact hquote
    | cons ch raw =>
        intro h
        exact hraw.1 (List.mem_cons.mpr (Or.inl (Option.some.inj h).symm))
  have hdoc : normalizeLineEnds (name ++ text "=\"" ++ (raw ++ 34 :: rest)) =
      name ++ text "=\"" ++ (raw.map endLine ++ 34 :: normalizeLineEnds rest) := by
    rw [normalizeLineEnds_append hopening.1 hhead, normalizeLineEnds_append hraw.1 hquote,
      endLine_of_ne hopening.2]
    rfl
  have hstop : 34 ∉ raw.map endLine := by
    intro h
    obtain ⟨ch, hch, heq⟩ := List.mem_map.mp h
    rw [endLine] at heq
    split_ifs at heq
    · exact absurd heq (by decide)
    · exact hraw.2 (heq ▸ hch)
  have hlt : (raw.map endLine).length < (raw.map endLine ++ 34 :: normalizeLineEnds rest).length := by
    rw [List.length_append, List.length_cons]
    omega
  simp only [attributeValue]
  rw [hdoc, if_pos (List.isPrefixOf_iff_prefix.mpr (List.prefix_append _ _)), List.drop_left, takeWhile_stop hstop,
    if_pos hlt]

end TibiaLogin.XmlAttribute
