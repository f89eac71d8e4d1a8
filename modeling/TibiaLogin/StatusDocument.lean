import TibiaLogin.XmlBuilder

namespace TibiaLogin.StatusDocument

open Memory Text XmlBuilder

structure StatusFields where
  worldName : List UInt8
  uptime : Int
  url : List UInt8
  location : List UInt8
  serverType : List UInt8
  serverVersion : List UInt8
  clientVersion : List UInt8
  numPlayers : Int
  maxPlayers : Int
  onlinePeak : Int
  motd : List UInt8
  deriving DecidableEq, Repr

def serverinfoFormat : List UInt8 :=
  text ("<serverinfo servername=\"%s\" uptime=\"%d\" url=\"%s\"" ++
    " location=\"%s\" server=\"%s\" version=\"%s\"" ++
    " client=\"%s\"/>")

def playersFormat : List UInt8 := text "<players online=\"%d\" max=\"%d\" peak=\"%d\"/>"

def motdFormat : List UInt8 := text "<motd>%s</motd>"

def appendStatus (f : StatusFields) (buffer : XmlBuffer) : Except XmlError XmlBuffer := do
  let buffer ← xmlAppendString buffer (text "<?xml version=\"1.0\" encoding=\"UTF-8\"?>")
  let buffer ← xmlAppendString buffer (text "<tsqp version=\"1.0\">")
  let buffer ← xmlAppendFormat buffer serverinfoFormat
    [.str f.worldName, .int f.uptime, .str f.url, .str f.location, .str f.serverType, .str f.serverVersion,
      .str f.clientVersion]
  let buffer ← xmlAppendFormat buffer playersFormat [.int f.numPlayers, .int f.maxPlayers, .int f.onlinePeak]
  let buffer ← xmlAppendFormat buffer motdFormat [.str f.motd]
  xmlAppendString buffer (text "</tsqp>")

/-- The numbers are values of the type int. -/
def StatusFields.Ints (f : StatusFields) : Prop :=
  ∀ num ∈ [f.uptime, f.numPlayers, f.maxPlayers, f.onlinePeak], -2147483648 ≤ num ∧ num < 2147483648

/-- The strings have no terminator inside. -/
def StatusFields.Strings (f : StatusFields) : Prop :=
  ∀ str ∈ [f.worldName, f.url, f.location, f.serverType, f.serverVersion, f.clientVersion, f.motd], 0 ∉ str

def StatusFields.cStrings (f : StatusFields) : StatusFields :=
  { f with
    worldName := cString f.worldName
    url := cString f.url
    location := cString f.location
    serverType := cString f.serverType
    serverVersion := cString f.serverVersion
    clientVersion := cString f.clientVersion
    motd := cString f.motd }

def quoted (name : String) (value : List UInt8) : List UInt8 := text name ++ (value ++ [34])

def serverinfoText (f : StatusFields) : List UInt8 :=
  text "<serverinfo" ++ (quoted " servername=\"" (escape (cString f.worldName)) ++ (quoted " uptime=\"" (signedDecimal f.uptime) ++
    (quoted " url=\"" (escape (cString f.url)) ++ (quoted " location=\"" (escape (cString f.location)) ++
      (quoted " server=\"" (escape (cString f.serverType)) ++ (quoted " version=\"" (escape (cString f.serverVersion)) ++
        (quoted " client=\"" (escape (cString f.clientVersion)) ++ text "/>")))))))

def playersText (f : StatusFields) : List UInt8 :=
  text "<players" ++ (quoted " online=\"" (signedDecimal f.numPlayers) ++
    (quoted " max=\"" (signedDecimal f.maxPlayers) ++ (quoted " peak=\"" (signedDecimal f.onlinePeak) ++ text "/>")))

def motdText (f : StatusFields) : List UInt8 := text "<motd>" ++ (escape (cString f.motd) ++ text "</motd>")

def statusText (f : StatusFields) : List UInt8 :=
  text "<?xml version=\"1.0\" encoding=\"UTF-8\"?>" ++ (text "<tsqp version=\"1.0\">" ++
    (serverinfoText f ++ (playersText f ++ (motdText f ++ text "</tsqp>"))))

/-- The bytes of a literal have no terminator and no conversion. -/
def Plain (literal : List UInt8) : Prop := ∀ ch ∈ literal, ch ≠ 0 ∧ ch ≠ 37

instance (literal : List UInt8) : Decidable (Plain literal) := List.decidableBAll _ literal

theorem formats_stringAttribute {name : String} (hname : Plain (text name)) (str : List UInt8)
    {p : List UInt8} {args : List Arg} {chars : List UInt8} (h : Formats p args chars) :
    Formats (text name ++ 37 :: 115 :: 34 :: p) (.str str :: args) (quoted name (escape (cString str)) ++ chars) := by
  have hquote := formats_char 34 (by decide) (by decide) h
  have hstr := formats_string str hquote
  rw [quoted, List.append_assoc, List.append_assoc]
  exact formats_literal hname hstr

theorem formats_intAttribute {name : String} (hname : Plain (text name)) {num : Int}
    (hnum : -2147483648 ≤ num ∧ num < 2147483648) {p : List UInt8} {args : List Arg} {chars : List UInt8}
    (h : Formats p args chars) :
    Formats (text name ++ 37 :: 100 :: 34 :: p) (.int num :: args) (quoted name (signedDecimal num) ++ chars) := by
  have hquote := formats_char 34 (by decide) (by decide) h
  have hint := formats_int num (by omega) (by omega) hquote
  rw [quoted, List.append_assoc, List.append_assoc]
  exact formats_literal hname hint

theorem serverinfo_formats {f : StatusFields} (hf : f.Ints) :
    Formats serverinfoFormat
      [.str f.worldName, .int f.uptime, .str f.url, .str f.location, .str f.serverType, .str f.serverVersion,
        .str f.clientVersion] (serverinfoText f) := by
  have hsplit : serverinfoFormat = text "<serverinfo" ++ (text " servername=\"" ++ 37 :: 115 :: 34 ::
      (text " uptime=\"" ++ 37 :: 100 :: 34 :: (text " url=\"" ++ 37 :: 115 :: 34 ::
        (text " location=\"" ++ 37 :: 115 :: 34 :: (text " server=\"" ++ 37 :: 115 :: 34 ::
          (text " version=\"" ++ 37 :: 115 :: 34 :: (text " client=\"" ++ 37 :: 115 :: 34 :: text "/>"))))))) := by
    decide
  have hend := formats_literal (show Plain (text "/>") by decide) (formats_nil [])
  rw [List.append_nil] at hend
  have huptime := hf f.uptime (by simp)
  rw [hsplit, serverinfoText]
  exact formats_literal (show Plain (text "<serverinfo") by decide)
    (formats_stringAttribute (by decide) _ (formats_intAttribute (by decide) huptime
      (formats_stringAttribute (by decide) _ (formats_stringAttribute (by decide) _
        (formats_stringAttribute (by decide) _ (formats_stringAttribute (by decide) _
          (formats_stringAttribute (by decide) _ hend)))))))

theorem players_formats {f : StatusFields} (hf : f.Ints) :
    Formats playersFormat [.int f.numPlayers, .int f.maxPlayers, .int f.onlinePeak] (playersText f) := by
  have hsplit : playersFormat = text "<players" ++ (text " online=\"" ++ 37 :: 100 :: 34 ::
      (text " max=\"" ++ 37 :: 100 :: 34 :: (text " peak=\"" ++ 37 :: 100 :: 34 :: text "/>"))) := by
    decide
  have hend := formats_literal (show Plain (text "/>") by decide) (formats_nil [])
  rw [List.append_nil] at hend
  rw [hsplit, playersText]
  exact formats_literal (show Plain (text "<players") by decide)
    (formats_intAttribute (by decide) (hf f.numPlayers (by simp))
      (formats_intAttribute (by decide) (hf f.maxPlayers (by simp))
        (formats_intAttribute (by decide) (hf f.onlinePeak (by simp)) hend)))

theorem motd_formats (f : StatusFields) : Formats motdFormat [.str f.motd] (motdText f) := by
  have hsplit : motdFormat = text "<motd>" ++ 37 :: 115 :: text "</motd>" := by decide
  have hend := formats_literal (show Plain (text "</motd>") by decide) (formats_nil [])
  rw [List.append_nil] at hend
  have hstr := formats_string f.motd hend
  rw [hsplit, motdText]
  exact formats_literal (show Plain (text "<motd>") by decide) hstr

theorem appendStatus_eq {f : StatusFields} (hf : f.Ints) (buffer : XmlBuffer) :
    appendStatus f buffer = appendAll buffer (statusText f) := by
  have hliteral : ∀ (literal : String) (buffer : XmlBuffer), 0 ∉ text literal →
      xmlAppendString buffer (text literal) = appendAll buffer (text literal) := by
    intro literal buffer hz
    rw [xmlAppendString_eq, cString_of_nonzero hz]
  rw [appendStatus, statusText, appendAll_append, hliteral _ _ (by decide)]
  refine bind_congr fun buffer => ?_
  rw [appendAll_append, hliteral _ _ (by decide)]
  refine bind_congr fun buffer => ?_
  rw [appendAll_append, xmlAppendFormat_eq (serverinfo_formats hf)]
  refine bind_congr fun buffer => ?_
  rw [appendAll_append, xmlAppendFormat_eq (players_formats hf)]
  refine bind_congr fun buffer => ?_
  rw [appendAll_append, xmlAppendFormat_eq (motd_formats f)]
  exact bind_congr fun buffer => hliteral _ _ (by decide)

def expect (literal : String) (doc : List UInt8) : Option (List UInt8) :=
  if (text literal).isPrefixOf doc then some (doc.drop (text literal).length) else none

/-- The raw bytes before the next one that stops the reading, and what follows from there on. -/
def readUpTo (stop : UInt8) (doc : List UInt8) : Option (List UInt8 × List UInt8) :=
  match doc.dropWhile (· != stop) with
  | [] => none
  | rest => some (doc.takeWhile (· != stop), rest)

def entities : List (List UInt8 × UInt8) :=
  [(text "&#9;", 9), (text "&#10;", 10), (text "&quot;", 34), (text "&amp;", 38), (text "&apos;", 39),
    (text "&lt;", 60), (text "&gt;", 62)]

def unescapeLoop : Nat → List UInt8 → Option (List UInt8)
  | _, [] => some []
  | 0, _ :: _ => none
  | fuel + 1, ch :: raw =>
      if ch = 38 then do
        let entity ← entities.find? fun entity => entity.1.isPrefixOf (ch :: raw)
        let rest ← unescapeLoop fuel ((ch :: raw).drop entity.1.length)
        some (entity.2 :: rest)
      else do
        let rest ← unescapeLoop fuel raw
        some (ch :: rest)

def unescape (raw : List UInt8) : Option (List UInt8) := unescapeLoop raw.length raw

/-- An attribute: its name up to the opening quote, and a value up to the next raw quote. -/
def readAttribute {α : Type} (name : String) (value : List UInt8 → Option α) (doc : List UInt8) :
    Option (α × List UInt8) := do
  let doc ← expect name doc
  let (raw, doc) ← readUpTo 34 doc
  let value ← value raw
  some (value, doc.tail)

def readServerinfo (f : StatusFields) (doc : List UInt8) : Option (StatusFields × List UInt8) := do
  let doc ← expect "<serverinfo" doc
  let (worldName, doc) ← readAttribute " servername=\"" unescape doc
  let (uptime, doc) ← readAttribute " uptime=\"" parseSigned doc
  let (url, doc) ← readAttribute " url=\"" unescape doc
  let (location, doc) ← readAttribute " location=\"" unescape doc
  let (serverType, doc) ← readAttribute " server=\"" unescape doc
  let (serverVersion, doc) ← readAttribute " version=\"" unescape doc
  let (clientVersion, doc) ← readAttribute " client=\"" unescape doc
  let doc ← expect "/>" doc
  some ({ f with worldName, uptime, url, location, serverType, serverVersion, clientVersion }, doc)

def readPlayers (f : StatusFields) (doc : List UInt8) : Option (StatusFields × List UInt8) := do
  let doc ← expect "<players" doc
  let (numPlayers, doc) ← readAttribute " online=\"" parseSigned doc
  let (maxPlayers, doc) ← readAttribute " max=\"" parseSigned doc
  let (onlinePeak, doc) ← readAttribute " peak=\"" parseSigned doc
  let doc ← expect "/>" doc
  some ({ f with numPlayers, maxPlayers, onlinePeak }, doc)

def readMotd (f : StatusFields) (doc : List UInt8) : Option (StatusFields × List UInt8) := do
  let doc ← expect "<motd>" doc
  let (raw, doc) ← readUpTo 60 doc
  let motd ← unescape raw
  let doc ← expect "</motd>" doc
  some ({ f with motd }, doc)

def parseStatus (doc : List UInt8) : Option StatusFields := do
  let doc ← expect "<?xml version=\"1.0\" encoding=\"UTF-8\"?>" doc
  let doc ← expect "<tsqp version=\"1.0\">" doc
  let (f, doc) ← readServerinfo ⟨[], 0, [], [], [], [], [], 0, 0, 0, []⟩ doc
  let (f, doc) ← readPlayers f doc
  let (f, doc) ← readMotd f doc
  let doc ← expect "</tsqp>" doc
  if doc = [] then some f else none

theorem expect_append (literal : String) (doc : List UInt8) : expect literal (text literal ++ doc) = some doc := by
  rw [expect, if_pos (List.isPrefixOf_iff_prefix.mpr (List.prefix_append _ _)), List.drop_left]

theorem readUpTo_append {stop : UInt8} {raw : List UInt8} (h : stop ∉ raw) (rest : List UInt8) :
    readUpTo stop (raw ++ stop :: rest) = some (raw, stop :: rest) := by
  have hraw : ∀ ch ∈ raw, (ch != stop) = true := by
    intro ch hch
    rw [bne_iff_ne]
    rintro rfl
    exact h hch
  have hdrop : (raw ++ stop :: rest).dropWhile (· != stop) = stop :: rest := by
    rw [List.dropWhile_append_of_pos hraw, List.dropWhile_cons_of_neg (by simp)]
  have htake : (raw ++ stop :: rest).takeWhile (· != stop) = raw := by
    rw [List.takeWhile_append_of_pos hraw, List.takeWhile_cons_of_neg (by simp), List.append_nil]
  rw [readUpTo, hdrop, htake]

theorem find_entity {entity : List UInt8 × UInt8} (h : entity ∈ entities) (raw : List UInt8) :
    entities.find? (fun other => other.1.isPrefixOf (entity.1 ++ raw)) = some entity := by
  have hfree : ∀ a ∈ entities, ∀ b ∈ entities, a.1 <+: b.1 → a = b := by decide
  rw [List.find?_eq_some_iff_append]
  obtain ⟨before, after, hsplit⟩ := List.append_of_mem h
  refine ⟨List.isPrefixOf_iff_prefix.mpr (List.prefix_append _ _), before, after, hsplit, ?_⟩
  intro other hother
  have hmem : other ∈ entities := by
    rw [hsplit]
    exact List.mem_append_left _ hother
  have hnodup : entities.Nodup := by decide
  rw [hsplit] at hnodup
  rw [Bool.not_eq_true', Bool.eq_false_iff, ne_eq, List.isPrefixOf_iff_prefix]
  intro hprefix
  have hsame : other = entity := by
    rcases List.prefix_or_prefix_of_prefix hprefix (List.prefix_append entity.1 raw) with hle | hle
    · exact hfree other hmem entity h hle
    · exact (hfree entity h other hmem hle).symm
  rw [hsame] at hother
  exact (List.nodup_append.mp hnodup).2.2 entity hother entity List.mem_cons_self rfl

theorem unescapeLoop_entity {entity : List UInt8 × UInt8} (h : entity ∈ entities) (fuel : Nat) (raw : List UInt8) :
    unescapeLoop (fuel + 1) (entity.1 ++ raw) = (unescapeLoop fuel raw).map (entity.2 :: ·) := by
  have hhead : ∀ a ∈ entities, a.1.head? = some 38 := by decide
  obtain ⟨rest, hrest⟩ := List.head?_eq_some_iff.mp (hhead entity h)
  have hfind := find_entity h raw
  have hdrop : (entity.1 ++ raw).drop entity.1.length = raw := List.drop_left
  rw [hrest, List.cons_append] at hfind hdrop ⊢
  rw [unescapeLoop, if_pos rfl, hfind]
  simp only [Option.bind_eq_bind, Option.bind_some, hrest, hdrop]
  cases unescapeLoop fuel raw <;> rfl

theorem unescapeLoop_escapeChar (ch : UInt8) (fuel : Nat) (raw : List UInt8) :
    unescapeLoop (fuel + 1) (escapeChar ch ++ raw) = (unescapeLoop fuel raw).map (ch :: ·) := by
  by_cases hentity : (escapeChar ch, ch) ∈ entities
  · exact unescapeLoop_entity hentity fuel raw
  · have hplain : escapeChar ch = [ch] ∧ ch ≠ 38 := by
      rw [escapeChar] at hentity ⊢
      split_ifs at hentity ⊢ with h₁ h₂ h₃ h₄
      all_goals first | exact ⟨rfl, h₄⟩ | exact absurd (by subst ch; decide) hentity
    rw [hplain.1, List.singleton_append, unescapeLoop, if_neg hplain.2]
    cases unescapeLoop fuel raw <;> rfl

theorem unescapeLoop_escape {fuel : Nat} (str : List UInt8) (h : str.length ≤ fuel) :
    unescapeLoop fuel (escape str) = some str := by
  induction str generalizing fuel with
  | nil => cases fuel <;> rfl
  | cons ch str ih =>
      rw [List.length_cons] at h
      obtain ⟨fuel, rfl⟩ : ∃ k, fuel = k + 1 := ⟨fuel - 1, by omega⟩
      rw [escape, List.flatMap_cons, unescapeLoop_escapeChar, ← escape, ih (by omega)]
      rfl

theorem escapeChar_ne_nil (ch : UInt8) : escapeChar ch ≠ [] := by
  rw [escapeChar]
  split_ifs
  all_goals first | decide | exact List.cons_ne_nil _ _

theorem length_le_length_escape (str : List UInt8) : str.length ≤ (escape str).length := by
  induction str with
  | nil => exact Nat.le_refl _
  | cons ch str ih =>
      have hpos := List.length_pos_of_ne_nil (escapeChar_ne_nil ch)
      rw [escape, List.flatMap_cons, List.length_append, ← escape, List.length_cons]
      omega

theorem unescape_escape (str : List UInt8) : unescape (escape str) = some str :=
  unescapeLoop_escape str (length_le_length_escape str)

theorem not_mem_escape {stop : UInt8} (hstop : stop = 34 ∨ stop = 60) (str : List UInt8) : stop ∉ escape str := by
  intro h
  obtain ⟨ch, -, hch⟩ := List.mem_flatMap.mp h
  rw [escapeChar] at hch
  split_ifs at hch with h₁ h₂ h₃ h₄ h₅ h₆ h₇
  all_goals rcases hstop with rfl | rfl
  all_goals first | exact absurd hch (by decide) | exact h₃ (List.mem_singleton.mp hch).symm |
    exact h₆ (List.mem_singleton.mp hch).symm

theorem not_mem_signedDecimal {stop : UInt8} (hstop : stop = 34) (num : Int) : stop ∉ signedDecimal num := by
  intro h
  rcases mem_signedDecimal h with rfl | ⟨hlo, -⟩
  · cases hstop
  · rw [hstop] at hlo
    exact absurd hlo (by decide)

theorem readAttribute_quoted {α : Type} (name : String) {value : List UInt8 → Option α} {raw : List UInt8} {a : α}
    (hraw : 34 ∉ raw) (hvalue : value raw = some a) (rest : List UInt8) :
    readAttribute name value (quoted name raw ++ rest) = some (a, rest) := by
  have hdoc : quoted name raw ++ rest = text name ++ (raw ++ 34 :: rest) := by simp [quoted]
  rw [readAttribute, hdoc, expect_append]
  simp only [Option.bind_eq_bind, Option.bind_some, readUpTo_append hraw, hvalue, List.tail_cons]

theorem readAttribute_escape (name : String) (str rest : List UInt8) :
    readAttribute name unescape (quoted name (escape str) ++ rest) = some (str, rest) :=
  readAttribute_quoted name (not_mem_escape (Or.inl rfl) str) (unescape_escape str) rest

theorem readAttribute_int (name : String) (num : Int) (rest : List UInt8) :
    readAttribute name parseSigned (quoted name (signedDecimal num) ++ rest) = some (num, rest) :=
  readAttribute_quoted name (not_mem_signedDecimal rfl num) (parseSigned_signedDecimal num) rest

theorem readServerinfo_serverinfoText (f g : StatusFields) (rest : List UInt8) :
    readServerinfo g (serverinfoText f ++ rest) =
      some ({ f.cStrings with numPlayers := g.numPlayers, maxPlayers := g.maxPlayers, onlinePeak := g.onlinePeak,
                              motd := g.motd }, rest) := by
  simp only [serverinfoText, List.append_assoc]
  simp only [readServerinfo, expect_append, readAttribute_escape, readAttribute_int, Option.bind_eq_bind,
    Option.bind_some]
  rfl

theorem readPlayers_playersText (f g : StatusFields) (rest : List UInt8) :
    readPlayers g (playersText f ++ rest) =
      some ({ g with numPlayers := f.numPlayers, maxPlayers := f.maxPlayers, onlinePeak := f.onlinePeak }, rest) := by
  simp only [playersText, List.append_assoc]
  simp only [readPlayers, expect_append, readAttribute_int, Option.bind_eq_bind, Option.bind_some]

theorem readMotd_motdText (f g : StatusFields) (rest : List UInt8) :
    readMotd g (motdText f ++ rest) = some ({ g with motd := cString f.motd }, rest) := by
  have hclose : text "</motd>" ++ rest = 60 :: (text "/motd>" ++ rest) := rfl
  have hread := readUpTo_append (not_mem_escape (Or.inr rfl) (cString f.motd)) (text "/motd>" ++ rest)
  rw [← hclose] at hread
  rw [motdText, List.append_assoc, List.append_assoc, readMotd, expect_append]
  simp only [Option.bind_eq_bind, Option.bind_some, hread, unescape_escape, expect_append]

theorem parseStatus_statusText (f : StatusFields) : parseStatus (statusText f) = some f.cStrings := by
  have hend := expect_append "</tsqp>" []
  rw [List.append_nil] at hend
  rw [parseStatus, statusText, expect_append]
  simp only [Option.bind_eq_bind, Option.bind_some, expect_append, readServerinfo_serverinfoText,
    readPlayers_playersText, readMotd_motdText, hend, if_true]
  rfl

theorem cStrings_eq {f : StatusFields} (hf : f.Strings) : f.cStrings = f := by
  have hz : ∀ str ∈ [f.worldName, f.url, f.location, f.serverType, f.serverVersion, f.clientVersion, f.motd],
      cString str = str := fun str hstr => cString_of_nonzero (hf str hstr)
  simp only [List.mem_cons, List.not_mem_nil, or_false, forall_eq_or_imp, forall_eq] at hz
  obtain ⟨hworld, hurl, hlocation, htype, hversion, hclient, hmotd⟩ := hz
  rw [StatusFields.cStrings, hworld, hurl, hlocation, htype, hversion, hclient, hmotd]

/-- The text that is appended reads back to the values it was made from,
whatever they contain; a buffer with room for it holds exactly that text. -/
theorem status_document_round_trip (f : StatusFields) (hstrings : f.Strings) (hints : f.Ints) :
    ∃ doc, (∀ buffer, appendStatus f buffer = appendAll buffer doc) ∧
      (∀ data : List UInt8, doc.length ≤ data.length → data.length < 2147483648 →
        appendStatus f ⟨data, 0⟩ = .ok ⟨overwrite data 0 doc, doc.length⟩) ∧
      parseStatus doc = some f := by
  refine ⟨statusText f, appendStatus_eq hints, ?_, ?_⟩
  · intro data hfit hdata
    have hall : appendAll ⟨data, (0 : Nat)⟩ (statusText f) = _ := appendAll_eq (statusText f) hdata (by omega)
    rw [Nat.sub_zero, List.take_of_length_le hfit, Nat.zero_add] at hall
    exact (appendStatus_eq hints ⟨data, 0⟩).trans hall
  · rw [parseStatus_statusText, cStrings_eq hstrings]

def markupFields : StatusFields :=
  ⟨text "\"/><players online=\"9", -2147483648, text "%s&quot;", [], [], [], text "&#10;\n", 1, 2, 3, text "</motd>&lt;"⟩

theorem status_document_round_trip_markup :
    ∃ doc, (∀ buffer, appendStatus markupFields buffer = appendAll buffer doc) ∧
      (∀ data : List UInt8, doc.length ≤ data.length → data.length < 2147483648 →
        appendStatus markupFields ⟨data, 0⟩ = .ok ⟨overwrite data 0 doc, doc.length⟩) ∧
      parseStatus doc = some markupFields :=
  status_document_round_trip markupFields (by unfold StatusFields.Strings; decide) (by unfold StatusFields.Ints; decide)

end TibiaLogin.StatusDocument
