import TibiaLogin.StatusDocument
import TibiaLogin.XmlAttribute

namespace TibiaLogin.EscapedText

open MachineInt Text Utf8 XmlBuilder StatusDocument XmlAttribute

/-- The bytes of text that XML 1.0 allows. -/
def Allowed (ch : UInt8) : Prop := ch = 9 ∨ ch = 10 ∨ ch = 13 ∨ 32 ≤ ch

instance (ch : UInt8) : Decidable (Allowed ch) := inferInstanceAs (Decidable (_ ∨ _))

/-- The names of the attributes in the source consist of letters. -/
def Name (name : List UInt8) : Prop := ∀ ch ∈ name, 97 ≤ ch ∧ ch ≤ 122

instance (name : List UInt8) : Decidable (Name name) := List.decidableBAll _ name

def attributeText (name s : List UInt8) : List UInt8 := name ++ text "=\"" ++ (escape s ++ [34])

/-- The text is appended to any buffer as the value of an attribute, and an
XML 1.0 parser reads it from there as it is, whatever follows. -/
def Survives (s : List UInt8) : Prop :=
  ∀ name, Name name →
    (∀ buffer, xmlAppendFormat buffer (name ++ text "=\"%s\"") [.str s] = appendAll buffer (attributeText name s)) ∧
    ∀ rest, attributeValue utf8Bytes name (attributeText name s ++ rest) = some s

def blankReturn (ch : UInt8) : UInt8 := if ch = 13 then 32 else ch

theorem normalizeLoop_escapeChar (ch : UInt8) (fuel : Nat) (raw : List UInt8) :
    normalizeLoop utf8Bytes (fuel + 1) ((escapeChar ch).map endLine ++ raw) =
      (normalizeLoop utf8Bytes fuel raw).map (blankReturn ch :: ·) := by
  have hentity : ∀ (name : List UInt8) (ch : UInt8), 59 ∉ name → reference utf8Bytes name = some [ch] →
      normalizeLoop utf8Bytes (fuel + 1) (38 :: (name ++ [59]) ++ raw) =
        (normalizeLoop utf8Bytes fuel raw).map (ch :: ·) := by
    intro name ch hname href
    have h := normalizeLoop_reference utf8Bytes hname href fuel raw
    rw [List.cons_append, List.append_assoc]
    exact h
  rw [escapeChar]
  split_ifs with h₁ h₂ h₃ h₄ h₅ h₆ h₇
  · subst h₁
    exact hentity (text "#9") 9 (by decide) (by decide)
  · subst h₂
    exact hentity (text "#10") 10 (by decide) (by decide)
  · subst h₃
    exact hentity (text "quot") 34 (by decide) (by decide)
  · subst h₄
    exact hentity (text "amp") 38 (by decide) (by decide)
  · subst h₅
    exact hentity (text "apos") 39 (by decide) (by decide)
  · subst h₆
    exact hentity (text "lt") 60 (by decide) (by decide)
  · subst h₇
    exact hentity (text "gt") 62 (by decide) (by decide)
  · -- of the characters that stay as they are only the carriage return is white space
    rw [List.map_singleton, List.singleton_append, endLine, blankReturn]
    split_ifs with h₈
    · exact normalizeLoop_char utf8Bytes (by decide) (by decide) fuel raw
    · rw [normalizeLoop_char utf8Bytes h₄ h₆, if_neg (by simp [h₁, h₂, h₈])]

theorem normalizeLoop_escape {fuel : Nat} (s : List UInt8) (h : s.length ≤ fuel) :
    normalizeLoop utf8Bytes fuel ((escape s).map endLine) = some (s.map blankReturn) := by
  induction s generalizing fuel with
  | nil => cases fuel <;> rfl
  | cons ch s ih =>
      rw [List.length_cons] at h
      obtain ⟨fuel, rfl⟩ : ∃ k, fuel = k + 1 := ⟨fuel - 1, by omega⟩
      rw [escape, List.flatMap_cons, List.map_append, normalizeLoop_escapeChar, ← escape, ih (by omega)]
      rfl

theorem newline_not_mem_escape (s : List UInt8) : 10 ∉ escape s := by
  intro h
  obtain ⟨ch, -, hch⟩ := List.mem_flatMap.mp h
  have hchar : ∀ ch : UInt8, 10 ∉ escapeChar ch := forall_byte (by decide +kernel)
  exact hchar ch hch

theorem attributeValue_attributeText {name : List UInt8} (hname : Name name) (s rest : List UInt8) :
    attributeValue utf8Bytes name (attributeText name s ++ rest) = some (s.map blankReturn) := by
  have hletter : ∀ {ch : UInt8}, ch < 97 → ch ∉ name := by
    intro ch hlt h
    exact absurd (hname ch h).1 (UInt8.not_le.mpr hlt)
  have hlen : s.length ≤ ((escape s).map endLine).length := by
    rw [List.length_map]
    exact length_le_length_escape s
  have hsplit : attributeText name s ++ rest = name ++ text "=\"" ++ (escape s ++ 34 :: rest) := by simp [attributeText]
  rw [hsplit, attributeValue_eq utf8Bytes ⟨hletter (by decide), hletter (by decide)⟩
    ⟨newline_not_mem_escape s, not_mem_escape (Or.inl rfl) s⟩, normalizeValue, normalizeLoop_escape s hlen]

theorem map_blankReturn_iff (s : List UInt8) : s.map blankReturn = s ↔ 13 ∉ s := by
  induction s with
  | nil => simp
  | cons ch s ih =>
      rw [List.map_cons, List.cons_eq_cons, ih, List.mem_cons, not_or, blankReturn]
      split_ifs with h
      · simp [h]
      · simp [Ne.symm h]

theorem formats_attribute {name s : List UInt8} (hname : Name name) (hz : 0 ∉ s) :
    Formats (name ++ text "=\"%s\"") [.str s] (attributeText name s) := by
  have hplain : ∀ ch ∈ name ++ text "=\"", ch ≠ 0 ∧ ch ≠ 37 := by
    intro ch hch
    rcases List.mem_append.mp hch with hch | hch
    · have hlo := (hname ch hch).1
      constructor
      · rintro rfl
        exact absurd hlo (by decide)
      · rintro rfl
        exact absurd hlo (by decide)
    · have hopening : Plain (text "=\"") := by decide
      exact hopening ch hch
  have hstr := formats_string s (formats_char 34 (by decide) (by decide) (formats_nil []))
  rw [cString_of_nonzero hz] at hstr
  have h := formats_literal hplain hstr
  rw [List.append_assoc name] at h
  exact h

/-- A text survives exactly when it has no carriage return. A tab and a line
feed are escaped for the same reason, the carriage return is not. -/
theorem escaped_text_survives_iff {s : List UInt8} (hs : ∀ ch ∈ s, Allowed ch) : Survives s ↔ 13 ∉ s := by
  have hz : 0 ∉ s := by
    intro h
    rcases hs 0 h with h | h | h | h
    all_goals exact absurd h (by decide)
  rw [← map_blankReturn_iff]
  constructor
  · intro h
    have hname : Name (text "url") := by decide
    have hread := (h (text "url") hname).2 []
    rw [attributeValue_attributeText hname] at hread
    exact Option.some.inj hread
  · intro h name hname
    refine ⟨xmlAppendFormat_eq (formats_attribute hname hz), fun rest => ?_⟩
    rw [attributeValue_attributeText hname, h]

theorem escaped_text_survives_lines : Survives (text "a\t<b>\nc") ↔ 13 ∉ text "a\t<b>\nc" :=
  escaped_text_survives_iff (s := text "a\t<b>\nc") (List.forall_mem_iff_forall_getElem.mpr (by decide))

/-- A line end of two characters comes back as a blank and a line feed. -/
theorem carriage_return_lost : ¬Survives [65, 13, 10, 66] ∧
    attributeValue utf8Bytes (text "url") (attributeText (text "url") [65, 13, 10, 66]) = some [65, 32, 10, 66] := by
  have hread : attributeValue utf8Bytes (text "url") (attributeText (text "url") [65, 13, 10, 66]) =
      some [65, 32, 10, 66] := by decide
  refine ⟨fun h => ?_, hread⟩
  have hsame := (h (text "url") (by decide)).2 []
  rw [List.append_nil, hread] at hsame
  exact absurd hsame (by decide)

end TibiaLogin.EscapedText
