import TibiaLogin.ReadConfig
import TibiaLogin.StatusDocument
import TibiaLogin.WorldQuery
import Mathlib.Data.Nat.Log

namespace TibiaLogin.StatusHandler

open MachineInt Memory Text Query LoginQuery Server WorldQuery XmlBuilder StatusDocument ReadConfig

structure StatusCache where
  lastStatusRefresh : Int
  statusString : List UInt8
  deriving DecidableEq, Repr

def StatusCache.zeroed : StatusCache := ⟨0, List.replicate 2048 0⟩

def skipLine : List UInt8 → List UInt8
  | [] => []
  | ch :: motd => if ch = 0 then ch :: motd else if ch = 10 then motd else skipLine motd

/-- The values that go into the document, those of the world only where its query succeeded. -/
def statusFields (config : Config) (timeNow : Int) (result : Int) (world : WorldInfo) : StatusFields where
  worldName := if result = 0 then world.name else []
  uptime :=
    if result = 0 then
      if world.lastStartup ≠ 0 ∧ world.lastShutdown < world.lastStartup then wrap32 (timeNow - world.lastStartup) else 0
    else 0
  url := config.url
  location := config.location
  serverType := config.serverType
  serverVersion := config.serverVersion
  clientVersion := config.clientVersion
  numPlayers := if result = 0 then world.numPlayers else 0
  maxPlayers := if result = 0 then world.maxPlayers else 0
  onlinePeak :=
    if result = 0 then if world.onlinePeak < world.numPlayers then world.numPlayers else world.onlinePeak else 0
  motd := skipLine config.motd

def getStatusString {σ : Type} (enc : ClientEncoding) (exchange : Exchange σ) (stray : WorldInfo) (config : Config)
    (time : Int) (cache : StatusCache) (s : Session σ) : Except XmlError (List UInt8 × StatusCache × Session σ) := do
  let timeNow := wrap32 time
  if config.minStatusInterval ≤ wrap32 (timeNow - cache.lastStatusRefresh) then
    let (result, world, s) ← (getWorld enc exchange stray config.statusWorld s).mapError .fault
    let buffer ← appendStatus (statusFields config timeNow result world) ⟨cache.statusString, 0⟩
    let buffer ← xmlNullTerminate buffer
    pure (buffer.data, ⟨timeNow, buffer.data⟩, s)
  else pure (cache.statusString, cache, s)

def escapedSize (str : List UInt8) : Nat :=
  str.length + 3 * str.count 9 + 4 * str.count 10 + 5 * str.count 34 + 4 * str.count 38 + 5 * str.count 39 +
    3 * str.count 60 + 3 * str.count 62

def decimalSize (num : Int) : Nat := (if num < 0 then 1 else 0) + (Nat.log 10 num.natAbs + 1)

/-- What the configuration takes up of a document; the message starts behind its first line. -/
def configSize (config : Config) : Nat :=
  escapedSize (cString config.url) + escapedSize (cString config.location) + escapedSize (cString config.serverType) +
    escapedSize (cString config.serverVersion) + escapedSize (cString config.clientVersion) +
    escapedSize ((cString config.motd).dropWhile (· != 10)).tail

def worldSize (timeNow : Int) (world : WorldInfo) : Nat :=
  escapedSize (cString world.name) +
    decimalSize
      (if world.lastStartup ≠ 0 ∧ world.lastShutdown < world.lastStartup then wrap32 (timeNow - world.lastStartup)
        else 0) +
    decimalSize world.numPlayers + decimalSize world.maxPlayers + decimalSize (max world.numPlayers world.onlinePeak)

/-- The size of the document: the fixed skeleton and the values; without a
world its name is empty and its numbers are zero. -/
def documentSize (config : Config) (timeNow : Int) (result : Int) (world : WorldInfo) : Nat :=
  200 + configSize config + if result = 0 then worldSize timeNow world else 4

theorem length_escapeChar (ch : UInt8) : (escapeChar ch).length = escapedSize [ch] := by
  revert ch
  exact forall_byte (by decide +kernel)

theorem escapedSize_cons (ch : UInt8) (str : List UInt8) :
    escapedSize (ch :: str) = escapedSize [ch] + escapedSize str := by
  simp only [escapedSize, List.count_cons, List.count_nil, List.length_cons, List.length_nil]
  omega

theorem length_escape (str : List UInt8) : (escape str).length = escapedSize str := by
  induction str with
  | nil => rfl
  | cons ch str ih =>
      rw [escape, List.flatMap_cons, List.length_append, ← escape, ih, length_escapeChar, ← escapedSize_cons]

theorem length_decimal (n : Nat) : (decimal n).length = Nat.log 10 n + 1 := by
  induction n using Nat.strongRecOn with
  | ind n ih =>
      by_cases hsmall : n < 10
      · rw [decimal_of_lt hsmall, Nat.log_of_lt hsmall]
        rfl
      · rw [decimal_of_le (by omega), List.length_append, ih (n / 10) (by omega), List.length_singleton,
          Nat.log_of_one_lt_of_le (by omega) (show 10 ≤ n by omega)]

theorem length_signedDecimal (num : Int) : (signedDecimal num).length = decimalSize num := by
  rw [signedDecimal, decimalSize]
  split_ifs
  · rw [List.length_cons, length_decimal]
    omega
  · rw [length_decimal, Nat.zero_add]

theorem cString_skipLine (motd : List UInt8) : cString (skipLine motd) = ((cString motd).dropWhile (· != 10)).tail := by
  induction motd with
  | nil => rfl
  | cons ch motd ih =>
      rw [skipLine]
      split_ifs with hz hline
      · rw [hz, cString_cons_zero]
        rfl
      · rw [cString_cons_of_ne hz, hline]
        rfl
      · have hskip : (ch != 10) = true := bne_iff_ne.mpr hline
        rw [cString_cons_of_ne hz, List.dropWhile_cons_of_pos (p := fun ch : UInt8 => ch != 10) hskip, ih]

theorem skip_hashLine (n : Nat) (motd : List UInt8) : ((decimal n ++ 10 :: motd).dropWhile (· != 10)).tail = motd := by
  have hdigits : ∀ ch ∈ decimal n, (ch != 10) = true := by
    intro ch hch
    rw [bne_iff_ne]
    rintro rfl
    exact absurd (digits_decimal n 10 hch).1 (by decide)
  rw [List.dropWhile_append_of_pos hdigits, List.dropWhile_cons_of_neg (by decide), List.tail_cons]

theorem length_statusText (f : StatusFields) :
    (statusText f).length = 200 + escapedSize (cString f.worldName) + decimalSize f.uptime +
      escapedSize (cString f.url) + escapedSize (cString f.location) + escapedSize (cString f.serverType) +
      escapedSize (cString f.serverVersion) + escapedSize (cString f.clientVersion) + decimalSize f.numPlayers +
      decimalSize f.maxPlayers + decimalSize f.onlinePeak + escapedSize (cString f.motd) := by
  have hquoted : ∀ (name : String) (value : List UInt8),
      (quoted name value).length = (text name).length + value.length + 1 := by
    intro name value
    rw [quoted, List.length_append, List.length_append, List.length_singleton, Nat.add_assoc]
  have hliteral :
      (text "<?xml version=\"1.0\" encoding=\"UTF-8\"?>").length = 38 ∧ (text "<tsqp version=\"1.0\">").length = 20 ∧
      (text "<serverinfo").length = 11 ∧ (text " servername=\"").length = 13 ∧ (text " uptime=\"").length = 9 ∧
      (text " url=\"").length = 6 ∧ (text " location=\"").length = 11 ∧ (text " server=\"").length = 9 ∧
      (text " version=\"").length = 10 ∧ (text " client=\"").length = 9 ∧ (text "/>").length = 2 ∧
      (text "<players").length = 8 ∧ (text " online=\"").length = 9 ∧ (text " max=\"").length = 6 ∧
      (text " peak=\"").length = 7 ∧ (text "<motd>").length = 6 ∧ (text "</motd>").length = 7 ∧
      (text "</tsqp>").length = 7 := by
    decide
  simp only [statusText, serverinfoText, playersText, motdText, List.length_append, hquoted, length_escape,
    length_signedDecimal, hliteral]
  omega

theorem length_statusFields (config : Config) (timeNow result : Int) (world : WorldInfo) :
    (statusText (statusFields config timeNow result world)).length = documentSize config timeNow result world := by
  have hpeak : (if world.onlinePeak < world.numPlayers then world.numPlayers else world.onlinePeak) =
      max world.numPlayers world.onlinePeak := by
    split_ifs <;> omega
  have hempty : escapedSize (cString []) = 0 ∧ decimalSize 0 = 1 := by decide
  rw [length_statusText, documentSize, configSize, worldSize]
  simp only [statusFields, cString_skipLine, hpeak]
  by_cases hresult : result = 0
  · simp only [if_pos hresult]
    omega
  · simp only [if_neg hresult, hempty]
    omega

theorem zero_not_mem_statusText (f : StatusFields) : 0 ∉ statusText f := by
  have hescape : ∀ str : List UInt8, 0 ∉ escape (cString str) := by
    intro str h
    obtain ⟨ch, hch, h⟩ := List.mem_flatMap.mp h
    have hne : ch ≠ 0 := by
      rintro rfl
      exact zero_not_mem_cString str hch
    have hchar : ∀ ch : UInt8, ch ≠ 0 → 0 ∉ escapeChar ch := forall_byte (by decide +kernel)
    exact hchar ch hne h
  have hnumber : ∀ num : Int, 0 ∉ signedDecimal num := by
    intro num h
    rcases mem_signedDecimal h with h | ⟨h, -⟩
    · cases h
    · exact absurd h (by decide)
  have hquoted : ∀ {name : String} {value : List UInt8}, 0 ∉ text name → 0 ∉ value → 0 ∉ quoted name value := by
    intro name value hname hvalue h
    simp only [quoted, List.mem_append, List.mem_singleton] at h
    rcases h with h | h | h
    · exact hname h
    · exact hvalue h
    · cases h
  have hstring : ∀ {name : String} (str : List UInt8), 0 ∉ text name → 0 ∉ quoted name (escape (cString str)) :=
    fun str hname => hquoted hname (hescape str)
  have hint : ∀ {name : String} (num : Int), 0 ∉ text name → 0 ∉ quoted name (signedDecimal num) :=
    fun num hname => hquoted hname (hnumber num)
  simp only [statusText, serverinfoText, playersText, motdText, List.mem_append, not_or]
  refine ⟨by decide, by decide, ?_, ?_, ⟨by decide, hescape _, by decide⟩, by decide⟩
  · exact ⟨by decide, hstring _ (by decide), hint _ (by decide), hstring _ (by decide), hstring _ (by decide),
      hstring _ (by decide), hstring _ (by decide), hstring _ (by decide), by decide⟩
  · exact ⟨by decide, hint _ (by decide), hint _ (by decide), hint _ (by decide), by decide⟩

theorem statusFields_ints (config : Config) (timeNow result : Int) {world : WorldInfo} (h : world.Stored) :
    (statusFields config timeNow result world).Ints := by
  obtain ⟨-, hints⟩ := h
  simp only [List.mem_cons, List.not_mem_nil, or_false, forall_eq_or_imp, forall_eq] at hints
  obtain ⟨hplayers, hmax, hpeak⟩ := hints
  simp only [StatusFields.Ints, statusFields, List.mem_cons, List.not_mem_nil, or_false, forall_eq_or_imp, forall_eq]
  refine ⟨?_, ?_, ?_, ?_⟩
  · split_ifs
    · rw [wrap32]
      omega
    · omega
    · omega
  all_goals split_ifs <;> omega

theorem escapedSize_le (str : List UInt8) : escapedSize str ≤ 6 * str.length := by
  induction str with
  | nil => exact Nat.le_refl _
  | cons ch str ih =>
      have hchar : ∀ ch : UInt8, escapedSize [ch] ≤ 6 := forall_byte (by decide +kernel)
      have hfirst := hchar ch
      rw [escapedSize_cons, List.length_cons]
      omega

theorem decimalSize_le {num : Int} (h : -2147483648 ≤ num ∧ num < 2147483648) : decimalSize num ≤ 11 := by
  have hlog : Nat.log 10 num.natAbs < 10 := Nat.log_lt_of_lt_pow' (by decide) (by omega)
  rw [decimalSize]
  split_ifs <;> omega

theorem length_skipLine_le (motd : List UInt8) : (skipLine motd).length ≤ motd.length := by
  induction motd with
  | nil => exact Nat.le_refl _
  | cons ch motd ih =>
      rw [skipLine, List.length_cons]
      split_ifs
      · exact Nat.le_refl _
      · omega
      · omega

theorem documentSize_le {config : Config} (hconfig : config.Sized) (timeNow result : Int) {world : WorldInfo}
    (hworld : world.Stored) : documentSize config timeNow result world ≤ 3280 := by
  have hfield : ∀ {n : Nat} {str : List UInt8}, str.length ≤ n → escapedSize (cString str) ≤ 6 * n := by
    intro n str hn
    have hle := escapedSize_le (cString str)
    have hlen := length_cString_le str
    omega
  obtain ⟨f, hf⟩ : ∃ f, f = statusFields config timeNow result world := ⟨_, rfl⟩
  have hints : f.Ints := by rw [hf]; exact statusFields_ints config timeNow result hworld
  have hname : f.worldName.length ≤ 30 := by
    simp only [hf, statusFields]
    split_ifs
    · exact hworld.name.le
    · exact Nat.zero_le 30
  have hmotd : f.motd.length ≤ 256 := by rw [hf]; exact (length_skipLine_le config.motd).trans hconfig.motd.le
  have h₁ := hfield hname
  have h₂ := hfield (show f.url.length ≤ 100 by rw [hf]; exact hconfig.url.le)
  have h₃ := hfield (show f.location.length ≤ 30 by rw [hf]; exact hconfig.location.le)
  have h₄ := hfield (show f.serverType.length ≤ 30 by rw [hf]; exact hconfig.serverType.le)
  have h₅ := hfield (show f.serverVersion.length ≤ 30 by rw [hf]; exact hconfig.serverVersion.le)
  have h₆ := hfield (show f.clientVersion.length ≤ 30 by rw [hf]; exact hconfig.clientVersion.le)
  have h₇ := hfield hmotd
  have h₈ := decimalSize_le (hints f.uptime (by simp))
  have h₉ := decimalSize_le (hints f.numPlayers (by simp))
  have h₁₀ := decimalSize_le (hints f.maxPlayers (by simp))
  have h₁₁ := decimalSize_le (hints f.onlinePeak (by simp))
  rw [← length_statusFields, ← hf, length_statusText]
  omega

/-- What a call makes of the buffer when the text in it is due: all of the
document but what leaves no room for the terminator. -/
theorem getStatusString_due {σ : Type} (enc : ClientEncoding) (exchange : Exchange σ) (stray : WorldInfo)
    {config : Config} (hconfig : config.Sized) {time : Int} {cache : StatusCache} {s s' : Session σ} {result : Int}
    {world : WorldInfo} (hdue : config.minStatusInterval ≤ wrap32 (wrap32 time - cache.lastStatusRefresh))
    (hcache : cache.statusString.length = 2048) (hworld : world.Stored)
    (hget : getWorld enc exchange stray config.statusWorld s = .ok (result, world, s')) :
    ∃ returned, getStatusString enc exchange stray config time cache s =
        .ok (returned, ⟨wrap32 time, returned⟩, s') ∧
      returned.length = 2048 ∧
      cString returned = (statusText (statusFields config (wrap32 time) result world)).take 2047 := by
  obtain ⟨doc, hdoc⟩ : ∃ doc, doc = statusText (statusFields config (wrap32 time) result world) := ⟨_, rfl⟩
  have hsize : doc.length ≤ 3280 := by
    rw [hdoc, length_statusFields]
    exact documentSize_le hconfig (wrap32 time) result hworld
  have happend := appendStatus_eq (statusFields_ints config (wrap32 time) result hworld) ⟨cache.statusString, 0⟩
  have hterminate : appendAll ⟨cache.statusString, (0 : Nat)⟩ doc >>= xmlNullTerminate = _ :=
    xmlNullTerminate_appendAll doc (by omega) (by omega) (by omega)
  have hzero : 0 ∉ doc.take 2047 := fun h => zero_not_mem_statusText _ (hdoc ▸ List.mem_of_mem_take h)
  refine ⟨overwrite cache.statusString 0 (doc.take 2047 ++ [0]), ?_, ?_, ?_⟩
  · rw [hcache] at hterminate
    obtain ⟨buffer, hbuffer, hend⟩ := bind_eq_ok.mp hterminate
    rw [← hdoc] at happend
    rw [getStatusString]
    simp only [if_pos hdue, hget, Except.mapError, ok_bind]
    rw [happend, show appendAll ⟨cache.statusString, 0⟩ doc = _ from hbuffer, ok_bind, hend]
    rfl
  · rw [length_overwrite, hcache]
    rw [List.length_append, List.length_take, List.length_singleton]
    omega
  · rw [overwrite, List.take_zero, List.nil_append, List.append_assoc, hdoc]
    rw [hdoc] at hzero
    exact cString_terminated hzero _

def pending (c : Connection) : List UInt8 := (c.buffer.take c.rwSize.toNat).drop c.rwPosition.toNat

theorem pending_sendStatusString {statusString : List UInt8} {c : Connection} (hstate : c.state = .processing)
    (hbuffer : c.buffer.length = 2048) (hfit : (cString statusString).length ≤ 2048) :
    pending (sendStatusString statusString c) = cString statusString := by
  have hmin : min (cString statusString).length 2048 = (cString statusString).length := Nat.min_eq_left hfit
  have htake : (overwrite c.buffer 0 (cString statusString)).take (0 + (cString statusString).length) = _ :=
    take_overwrite (by omega)
  rw [Nat.zero_add, List.take_zero, List.nil_append] at htake
  rw [sendStatusString, if_neg (not_not.mpr hstate)]
  simp only [pending, hmin, List.take_length, Int.toNat_natCast, Int.toNat_zero, List.drop_zero, htake]

/-- The document that a call publishes is complete: it has room for its
terminator, and it is what is returned and sent. -/
structure Complete (doc returned : List UInt8) (c : Connection) : Prop where
  fits : doc.length < 2048
  handed : cString returned = doc
  sent : pending (sendStatusString returned c) = doc
  closed : text "</tsqp>" <:+ cString returned

theorem tsqp_suffix_statusText (f : StatusFields) : text "</tsqp>" <:+ statusText f := by
  simp only [statusText, ← List.append_assoc]
  exact List.suffix_append _ _

/-- The document of a call that refreshes it is complete just where its size,
the sum of the fixed skeleton and the sizes of the values, leaves room for the
terminator. Nothing looks at that sum, and what exceeds it is cut. The calls up
to the next refresh return the same string. -/
theorem status_complete_iff {σ : Type} {env : Env} {config : Config}
    (hconfig : readConfig env .zeroed = (true, config)) (enc : ClientEncoding) (exchange : Exchange σ)
    {stray : WorldInfo} (hstray : stray.Stored) (time : Int) {cache : StatusCache}
    (hcache : cache.statusString.length = 2048)
    (hdue : config.minStatusInterval ≤ wrap32 (wrap32 time - cache.lastStatusRefresh)) (s : Session σ)
    {c : Connection} (hstate : c.state = .processing) (hbuffer : c.buffer.length = 2048) :
    ∃ result world s' returned,
      getWorld enc exchange stray config.statusWorld s = .ok (result, world, s') ∧
      getStatusString enc exchange stray config time cache s = .ok (returned, ⟨wrap32 time, returned⟩, s') ∧
      (Complete (statusText (statusFields config (wrap32 time) result world)) returned c ↔
        documentSize config (wrap32 time) result world ≤ 2047) ∧
      ∀ time' s', ¬config.minStatusInterval ≤ wrap32 (wrap32 time' - wrap32 time) →
        getStatusString enc exchange stray config time' ⟨wrap32 time, returned⟩ s' =
          .ok (returned, ⟨wrap32 time, returned⟩, s') := by
  obtain ⟨result, world, s', hget, hworld⟩ := getWorld_stored enc exchange hstray config.statusWorld s
  have hsized := readConfig_sized zeroed_sized hconfig
  obtain ⟨returned, hcall, -, hreturned⟩ := getStatusString_due enc exchange stray hsized hdue hcache hworld hget
  have hlater : ∀ time' s', ¬config.minStatusInterval ≤ wrap32 (wrap32 time' - wrap32 time) →
      getStatusString enc exchange stray config time' ⟨wrap32 time, returned⟩ s' =
        .ok (returned, ⟨wrap32 time, returned⟩, s') := by
    intro time' s' hearly
    rw [getStatusString]
    simp only [if_neg hearly]
    rfl
  refine ⟨result, world, s', returned, hget, hcall, ?_, hlater⟩
  rw [← length_statusFields]
  constructor
  · intro h
    have hfits := h.fits
    omega
  · intro h
    rw [List.take_of_length_le h] at hreturned
    have hsent := pending_sendStatusString hstate hbuffer (show (cString returned).length ≤ 2048 by rw [hreturned]; omega)
    refine ⟨by omega, hreturned, hsent.trans hreturned, ?_⟩
    rw [hreturned]
    exact tsqp_suffix_statusText _

def waiting : Connection := { Connection.zeroed with state := .processing }

def unanswered : Exchange Unit := fun _ _ _ => (none, ())

theorem getWorld_unanswered (enc : ClientEncoding) (stray : WorldInfo) (worldName : List UInt8) (s : Session Unit) :
    getWorld enc unanswered stray worldName s =
      .ok (-1, .zeroed, ⟨(), s.queries ++ [⟨requestFrame worldsRequest, none⟩]⟩) := by
  rw [getWorld_eq]
  rfl

def passwordEnv : Env := fun name => if name = "SENJA_QM_PASSWORD" then some (text "x") else none

theorem status_complete_defaults :
    ∃ result world s' returned,
      getWorld .latin1 unanswered .zeroed (readConfig passwordEnv .zeroed).2.statusWorld ⟨(), []⟩ =
        .ok (result, world, s') ∧
      getStatusString .latin1 unanswered .zeroed (readConfig passwordEnv .zeroed).2 1000 .zeroed ⟨(), []⟩ =
        .ok (returned, ⟨1000, returned⟩, s') ∧
      Complete (statusText (statusFields (readConfig passwordEnv .zeroed).2 1000 result world)) returned waiting := by
  have hconfig : readConfig passwordEnv .zeroed = (true, (readConfig passwordEnv .zeroed).2) := rfl
  have hcache : StatusCache.zeroed.statusString.length = 2048 := List.length_replicate
  obtain ⟨result, world, s', returned, hget, hcall, hiff, -⟩ := status_complete_iff hconfig .latin1 unanswered
    zeroed_stored 1000 hcache (by decide) ⟨(), []⟩ (c := waiting) rfl List.length_replicate
  refine ⟨result, world, s', returned, hget, hcall, hiff.mpr ?_⟩
  rw [getWorld_unanswered] at hget
  cases hget
  decide +kernel

def quotesEnv (n m : Nat) : Env := fun name =>
  if name = "SENJA_QM_PASSWORD" then some (text "x")
  else if name = "SENJA_LOGINSERVER_URL" then some (List.replicate n 34)
  else if name = "SENJA_LOGINSERVER_MOTD" then some (List.replicate m 34)
  else none

section

variable {n m : Nat} (hn : n < 100) (hpos : 0 < m) (hm : m ≤ 240)

theorem escapedSize_quotes (n : Nat) : escapedSize (List.replicate n 34) = 6 * n := by
  simp [escapedSize, List.count_replicate]
  omega

theorem cString_quotes (n : Nat) : cString (List.replicate n 34) = List.replicate n 34 :=
  cString_of_nonzero (by simp [List.mem_replicate])

theorem readConfig_quotes (n m : Nat) :
    readConfig (quotesEnv n m) .zeroed =
      (true, readServiceInfo (quotesEnv n m) (text "x") (readService (quotesEnv n m) .zeroed)) :=
  readConfig_of_password rfl .zeroed

include hn in
theorem cString_url_quotes : cString (readConfig (quotesEnv n m) .zeroed).2.url = List.replicate n 34 := by
  have henv : envStr (quotesEnv n m) "SENJA_LOGINSERVER_URL" "" = List.replicate n 34 := by simp [envStr, quotesEnv]
  have hlen : (cString (List.replicate n 34)).length < (List.replicate 100 (0 : UInt8)).length := by
    rw [cString_quotes, List.length_replicate, List.length_replicate]
    exact hn
  rw [readConfig_quotes, readServiceInfo, readService, Config.zeroed]
  simp only [henv]
  rw [cString_stringBufCopy hlen (by rw [List.length_replicate]; omega), cString_quotes]

include hpos hm in
theorem cString_motd_quotes : ∃ hash : UInt32,
    cString (readConfig (quotesEnv n m) .zeroed).2.motd = decimal hash.toNat ++ 10 :: List.replicate m 34 := by
  have henv : envStr (quotesEnv n m) "SENJA_LOGINSERVER_MOTD" "Welcome to Tibia!" = List.replicate m 34 := by
    simp [envStr, quotesEnv]
  obtain ⟨hash, hhash⟩ : ∃ hash, hash = stringHash (List.replicate m 34) := ⟨_, rfl⟩
  have hne : cString (List.replicate m 34) ≠ [] := by
    rw [cString_quotes, ne_eq, List.replicate_eq_nil_iff]
    omega
  have hlog : Nat.log 10 hash.toNat < 10 :=
    Nat.log_lt_of_lt_pow' (by decide) (Nat.lt_trans hash.toNat_lt (by decide))
  have hmotd : cString (loadMotd (List.replicate m 34) (List.replicate 256 0)) = _ :=
    cString_loadMotd List.length_replicate hne
  have hfit : (decimal hash.toNat ++ 10 :: List.replicate m 34).length ≤ 255 := by
    rw [List.length_append, length_decimal, List.length_cons, List.length_replicate]
    omega
  have hcopied : copied 256 (List.replicate m 34) = List.replicate m 34 :=
    copied_of_lt (by rw [List.length_replicate]; omega) (by decide)
  rw [cString_quotes] at hne
  rw [cString_quotes, hcopied, if_neg hne, ← hhash, List.take_of_length_le hfit] at hmotd
  refine ⟨hash, ?_⟩
  rw [readConfig_quotes, readServiceInfo, readService, Config.zeroed]
  simp only [henv, hmotd]

include hn hpos hm in
theorem documentSize_quotes (timeNow result : Int) (world : WorldInfo) :
    200 + 6 * n + 6 * m ≤ documentSize (readConfig (quotesEnv n m) .zeroed).2 timeNow result world := by
  obtain ⟨hash, hmotd⟩ := cString_motd_quotes hpos hm
  rw [documentSize, configSize, cString_url_quotes hn, hmotd, skip_hashLine, escapedSize_quotes, escapedSize_quotes]
  omega

end

/-- A url of 99 quotes and a message of 240 are within the capacities of their
arrays, but the document with their entities is cut. -/
theorem status_truncated_quotes :
    ∃ config result world s' returned, readConfig (quotesEnv 99 240) .zeroed = (true, config) ∧
      getWorld .latin1 unanswered .zeroed config.statusWorld ⟨(), []⟩ = .ok (result, world, s') ∧
      getStatusString .latin1 unanswered .zeroed config 1000 .zeroed ⟨(), []⟩ =
        .ok (returned, ⟨1000, returned⟩, s') ∧
      2048 ≤ (statusText (statusFields config 1000 result world)).length ∧
      ¬Complete (statusText (statusFields config 1000 result world)) returned waiting := by
  obtain ⟨config, hread⟩ : ∃ config, readConfig (quotesEnv 99 240) .zeroed = (true, config) :=
    ⟨_, readConfig_quotes 99 240⟩
  have hinterval : (readConfig (quotesEnv 99 240) .zeroed).2.minStatusInterval = 300 := by
    rw [readConfig_quotes]
    rfl
  have hsize := documentSize_quotes (n := 99) (m := 240) (by omega) (by omega) (by omega) 1000 (-1) .zeroed
  rw [← length_statusFields, hread] at hsize
  rw [hread] at hinterval
  simp only at hsize hinterval
  have hdue : config.minStatusInterval ≤ wrap32 (wrap32 1000 - StatusCache.zeroed.lastStatusRefresh) := by
    rw [hinterval]
    decide
  have hget := getWorld_unanswered .latin1 .zeroed config.statusWorld ⟨(), []⟩
  obtain ⟨returned, hcall, -, -⟩ := getStatusString_due .latin1 unanswered .zeroed
    (readConfig_sized zeroed_sized hread) hdue List.length_replicate zeroed_stored hget
  refine ⟨config, _, _, _, returned, hread, hget, hcall, by omega, ?_⟩
  intro h
  have hfits := h.fits
  omega

end TibiaLogin.StatusHandler
