import TibiaLogin.Server

namespace TibiaLogin.ReadConfig

open MachineInt Memory BufferWriter Text Server

inductive TransportMode
  | tcp
  | websocket
  | both
  deriving DecidableEq, Repr

/-- The record behind `g_config`, with its character arrays as they lie in memory. -/
structure Config where
  loginPort : Int
  connectionTimeout : Int
  maxConnections : Int
  maxStatusRecords : Int
  minStatusInterval : Int
  queryManagerHost : List UInt8
  queryManagerPort : Int
  queryManagerPassword : List UInt8
  statusWorld : List UInt8
  url : List UInt8
  location : List UInt8
  serverType : List UInt8
  serverVersion : List UInt8
  clientVersion : List UInt8
  motd : List UInt8
  transportMode : TransportMode
  websocketPort : Int
  websocketAddress : List UInt8
  deriving DecidableEq, Repr

/-- The record has static storage, so it starts out zeroed. -/
def Config.zeroed : Config where
  loginPort := 0
  connectionTimeout := 0
  maxConnections := 0
  maxStatusRecords := 0
  minStatusInterval := 0
  queryManagerHost := List.replicate 100 0
  queryManagerPort := 0
  queryManagerPassword := List.replicate 30 0
  statusWorld := List.replicate 30 0
  url := List.replicate 100 0
  location := List.replicate 30 0
  serverType := List.replicate 30 0
  serverVersion := List.replicate 30 0
  clientVersion := List.replicate 30 0
  motd := List.replicate 256 0
  transportMode := .tcp
  websocketPort := 0
  websocketAddress := List.replicate 16 0

structure Config.Sized (config : Config) : Prop where
  queryManagerHost : config.queryManagerHost.length = 100
  queryManagerPassword : config.queryManagerPassword.length = 30
  statusWorld : config.statusWorld.length = 30
  url : config.url.length = 100
  location : config.location.length = 30
  serverType : config.serverType.length = 30
  serverVersion : config.serverVersion.length = 30
  clientVersion : config.clientVersion.length = 30
  motd : config.motd.length = 256
  websocketAddress : config.websocketAddress.length = 16

def stringCopyN (dest src : List UInt8) (srcLength : Int) : Bool × List UInt8 :=
  (srcLength < dest.length,
    if srcLength < dest.length ∧ 0 < srcLength then overwrite dest 0 (src.take srcLength.toNat ++ [0])
    else overwrite dest 0 [0])

def stringCopy (dest src : List UInt8) : Bool × List UInt8 := stringCopyN dest src (wrap32 (cString src).length)

def stringBufCopy (dest src : List UInt8) : List UInt8 := (stringCopy dest src).2

/-- The formatted text is cut to what the array holds besides the terminator. -/
def stringFormat (dest formatted : List UInt8) : Bool × List UInt8 :=
  (formatted.length < dest.length, overwrite dest 0 (formatted.take (dest.length - 1) ++ [0]))

def charToU32 (ch : UInt8) : UInt32 := if ch < 128 then ch.toUInt32 else ch.toUInt32 ||| 0xFFFFFF00

def stringHash (str : List UInt8) : UInt32 :=
  (cString str).foldl (fun hash ch => (hash ^^^ charToU32 ch) * 0x01000193) 0x811C9DC5

def parseMotd (dest str : List UInt8) : List UInt8 :=
  let motdBuf := stringBufCopy (List.replicate 256 0) str
  if motdBuf.headD 0 ≠ 0 then
    (stringFormat dest (decimal (stringHash motdBuf).toNat ++ 10 :: cString motdBuf)).2
  else dest

def isSpace (ch : UInt8) : Bool := ch = 32 ∨ 9 ≤ ch ∧ ch ≤ 13

def isDigit (ch : UInt8) : Bool := 48 ≤ ch ∧ ch ≤ 57

/-- Values out of range stop at the nearest 64-bit one. -/
def strtol (str : List UInt8) : Int :=
  let str := (cString str).dropWhile isSpace
  let digits := if str.headD 0 = 45 ∨ str.headD 0 = 43 then str.tail else str
  let value : Int := digitsValue (digits.takeWhile isDigit)
  if str.headD 0 = 45 then max (-value) (-9223372036854775808) else min value 9223372036854775807

def atoi (str : List UInt8) : Int := wrap32 (strtol str)

abbrev Env := String → Option (List UInt8)

def envStr (env : Env) (name : String) (default : String) : List UInt8 := (env name).getD (text default)

def envInt (env : Env) (name : String) (default : Int) : Int := ((env name).map atoi).getD default

def transportModeOf (mode : List UInt8) : TransportMode :=
  if stringEqualsIgnoreCase mode (text "tcp") then .tcp
  else if stringEqualsIgnoreCase mode (text "websocket") then .websocket
  else .both

def readService (env : Env) (config : Config) : Config :=
  { config with
    loginPort := envInt env "SENJA_LOGINSERVER_TCP_PORT" 7171
    connectionTimeout := envInt env "SENJA_LOGINSERVER_CONNECTION_TIMEOUT" 5
    maxConnections := envInt env "SENJA_LOGINSERVER_MAX_CONNECTIONS" 10
    maxStatusRecords := envInt env "SENJA_LOGINSERVER_MAX_STATUS_RECORDS" 1024
    minStatusInterval := envInt env "SENJA_LOGINSERVER_MIN_STATUS_INTERVAL" 300
    queryManagerHost := stringBufCopy config.queryManagerHost (envStr env "SENJA_QM_HOST" "127.0.0.1")
    queryManagerPort := envInt env "SENJA_QM_PORT" 7173 }

def loadMotd (motd dest : List UInt8) : List UInt8 :=
  let dest := overwrite dest 0 [0]
  if motd.headD 0 ≠ 0 then parseMotd dest motd else dest

def readServiceInfo (env : Env) (qmPassword : List UInt8) (config : Config) : Config :=
  { config with
    queryManagerPassword := stringBufCopy config.queryManagerPassword qmPassword
    statusWorld := stringBufCopy config.statusWorld (envStr env "SENJA_WORLD_NAME" "Senja")
    url := stringBufCopy config.url (envStr env "SENJA_LOGINSERVER_URL" "")
    location := stringBufCopy config.location (envStr env "SENJA_LOGINSERVER_LOCATION" "")
    serverType := stringBufCopy config.serverType (envStr env "SENJA_LOGINSERVER_SERVER_TYPE" "Tibia")
    serverVersion := stringBufCopy config.serverVersion (envStr env "SENJA_LOGINSERVER_SERVER_VERSION" "7.7")
    clientVersion := stringBufCopy config.clientVersion (envStr env "SENJA_LOGINSERVER_CLIENT_VERSION" "7.7")
    motd := loadMotd (envStr env "SENJA_LOGINSERVER_MOTD" "Welcome to Tibia!") config.motd
    transportMode := transportModeOf (envStr env "SENJA_TRANSPORT_MODE" "both")
    websocketPort := envInt env "SENJA_LOGINSERVER_WS_PORT" 9172
    websocketAddress := stringBufCopy config.websocketAddress (envStr env "SENJA_LOGINSERVER_WS_ADDRESS" "0.0.0.0") }

def readConfig (env : Env) (config : Config) : Bool × Config :=
  let config := readService env config
  match env "SENJA_QM_PASSWORD" with
  | none => (false, config)
  | some qmPassword => (true, readServiceInfo env qmPassword config)

/-- The part of a string that gets into a buffer of the given size, none of it
when it is too long. Its length is taken as a 32-bit value. -/
def copied (size : Nat) (str : List UInt8) : List UInt8 :=
  if 0 < wrap32 str.length ∧ wrap32 str.length < size then str.take (wrap32 str.length).toNat else []

theorem cString_stringBufCopy_eq (dest src : List UInt8) :
    cString (stringBufCopy dest src) = copied dest.length (cString src) := by
  have hsplit : cString src = src.take (cString src).length :=
    List.prefix_iff_eq_take.mp (List.takeWhile_prefix _)
  have htake : ∀ n ≤ (cString src).length, src.take n = (cString src).take n := by
    intro n hn
    conv_rhs => rw [hsplit, List.take_take, Nat.min_eq_left hn]
  rw [stringBufCopy, stringCopy, stringCopyN, copied]
  by_cases hfit : 0 < wrap32 (cString src).length ∧ wrap32 (cString src).length < dest.length
  · have hle : (wrap32 (cString src).length).toNat ≤ (cString src).length := by
      rw [wrap32] at hfit ⊢
      omega
    rw [if_pos hfit, if_pos hfit.symm, htake _ hle]
    exact cString_overwrite dest fun h => zero_not_mem_cString src (List.mem_of_mem_take h)
  · rw [if_neg hfit, if_neg fun h => hfit h.symm]
    exact cString_overwrite dest List.not_mem_nil

theorem length_stringBufCopy (dest src : List UInt8) (hpos : 0 < dest.length) :
    (stringBufCopy dest src).length = dest.length := by
  rw [stringBufCopy, stringCopy, stringCopyN]
  split_ifs with hcond
  · refine length_overwrite ?_
    rw [List.length_append, List.length_take, List.length_singleton]
    omega
  · exact length_overwrite (by rw [List.length_singleton]; omega)

theorem copied_of_lt {size : Nat} {str : List UInt8} (hlt : str.length < size) (hsize : size < 2147483648) :
    copied size str = str := by
  have hlen : wrap32 str.length = str.length := wrap32_natCast (by omega)
  rw [copied, hlen, Int.toNat_natCast, List.take_length]
  split_ifs with hpos
  · rfl
  · exact (List.length_eq_zero_iff.mp (by omega)).symm

theorem cString_stringBufCopy {dest src : List UInt8} (hlt : (cString src).length < dest.length)
    (hdest : dest.length < 2147483648) : cString (stringBufCopy dest src) = cString src := by
  rw [cString_stringBufCopy_eq, copied_of_lt hlt hdest]

theorem zero_not_mem_hashLine {str : List UInt8} (hz : 0 ∉ str) (n : Nat) : 0 ∉ decimal n ++ 10 :: str := by
  intro h
  rcases List.mem_append.mp h with h | h
  · exact absurd (digits_decimal n 0 h).1 (by decide)
  · rcases List.mem_cons.mp h with h | h
    · exact absurd h (by decide)
    · exact hz h

theorem length_stringFormat (dest formatted : List UInt8) (hpos : 0 < dest.length) :
    (stringFormat dest formatted).2.length = dest.length := by
  refine length_overwrite ?_
  rw [List.length_append, List.length_take, List.length_singleton]
  omega

theorem length_parseMotd (dest str : List UInt8) (hpos : 0 < dest.length) :
    (parseMotd dest str).length = dest.length := by
  rw [parseMotd]
  split_ifs
  · exact length_stringFormat dest _ hpos
  · rfl

theorem length_loadMotd (motd dest : List UInt8) (hpos : 0 < dest.length) :
    (loadMotd motd dest).length = dest.length := by
  have hclear : (overwrite dest 0 [0]).length = dest.length :=
    length_overwrite (by rw [List.length_singleton]; omega)
  simp only [loadMotd]
  split_ifs
  · rw [length_parseMotd _ _ (by omega), hclear]
  · exact hclear

theorem stringBufCopy_sized {n : Nat} {dest : List UInt8} (src : List UInt8) (h : dest.length = n) (hpos : 0 < n) :
    (stringBufCopy dest src).length = n := by
  rw [length_stringBufCopy dest src (by omega), h]

theorem cString_loadMotd {motd dest : List UInt8} (hlen : dest.length = 256) (hne : cString motd ≠ []) :
    cString (loadMotd motd dest) =
      if copied 256 (cString motd) = [] then []
      else (decimal (stringHash (copied 256 (cString motd))).toNat ++ 10 :: copied 256 (cString motd)).take 255 := by
  have hclear : (overwrite dest 0 [0]).length = 256 := by
    rw [length_overwrite (by rw [List.length_singleton]; omega), hlen]
  have hcopy := cString_stringBufCopy_eq (List.replicate 256 0) motd
  rw [List.length_replicate] at hcopy
  have hcopied : 0 ∉ copied 256 (cString motd) := by
    rw [← hcopy]
    exact zero_not_mem_cString _
  have hhash : stringHash (stringBufCopy (List.replicate 256 0) motd) = stringHash (copied 256 (cString motd)) := by
    rw [stringHash, stringHash, hcopy, cString_of_nonzero hcopied]
  rw [ne_eq, cString_eq_nil] at hne
  simp only [loadMotd, if_pos hne, parseMotd]
  by_cases hempty : copied 256 (cString motd) = []
  · rw [if_neg (not_not.mpr (cString_eq_nil.mp (hcopy.trans hempty))), if_pos hempty]
    exact cString_overwrite dest List.not_mem_nil
  · have hcut : 0 ∉ (decimal (stringHash (copied 256 (cString motd))).toNat ++
        10 :: copied 256 (cString motd)).take 255 :=
      fun h => zero_not_mem_hashLine hcopied _ (List.mem_of_mem_take h)
    have hbuf : (stringBufCopy (List.replicate 256 0) motd).headD 0 ≠ 0 := by
      rw [ne_eq, ← cString_eq_nil, hcopy]
      exact hempty
    rw [if_pos hbuf, if_neg hempty, hhash, hcopy, stringFormat, hclear]
    exact cString_overwrite _ hcut

theorem readService_sized (env : Env) {config : Config} (h : config.Sized) : (readService env config).Sized := by
  refine { h with queryManagerHost := ?_ }
  rw [readService, stringBufCopy_sized _ h.queryManagerHost (by decide)]

theorem readServiceInfo_sized (env : Env) (qmPassword : List UInt8) {config : Config} (h : config.Sized) :
    (readServiceInfo env qmPassword config).Sized := by
  have hmotd := length_loadMotd (envStr env "SENJA_LOGINSERVER_MOTD" "Welcome to Tibia!") config.motd
    (by rw [h.motd]; decide)
  constructor
  case queryManagerHost => rw [readServiceInfo, h.queryManagerHost]
  case queryManagerPassword => rw [readServiceInfo, stringBufCopy_sized _ h.queryManagerPassword (by decide)]
  case statusWorld => rw [readServiceInfo, stringBufCopy_sized _ h.statusWorld (by decide)]
  case url => rw [readServiceInfo, stringBufCopy_sized _ h.url (by decide)]
  case location => rw [readServiceInfo, stringBufCopy_sized _ h.location (by decide)]
  case serverType => rw [readServiceInfo, stringBufCopy_sized _ h.serverType (by decide)]
  case serverVersion => rw [readServiceInfo, stringBufCopy_sized _ h.serverVersion (by decide)]
  case clientVersion => rw [readServiceInfo, stringBufCopy_sized _ h.clientVersion (by decide)]
  case motd => rw [readServiceInfo, hmotd, h.motd]
  case websocketAddress => rw [readServiceInfo, stringBufCopy_sized _ h.websocketAddress (by decide)]

theorem readConfig_of_password {env : Env} {qmPassword : List UInt8} (h : env "SENJA_QM_PASSWORD" = some qmPassword)
    (config : Config) : readConfig env config = (true, readServiceInfo env qmPassword (readService env config)) := by
  simp only [readConfig, h]

theorem readConfig_eq_true {env : Env} {config config' : Config} (h : readConfig env config = (true, config')) :
    ∃ qmPassword, config' = readServiceInfo env qmPassword (readService env config) := by
  rw [readConfig] at h
  cases hpassword : env "SENJA_QM_PASSWORD" with
  | none => simp [hpassword] at h
  | some qmPassword =>
      simp only [hpassword, Prod.mk.injEq, true_and] at h
      exact ⟨qmPassword, h.symm⟩

theorem readConfig_sized {env : Env} {config config' : Config} (h : config.Sized)
    (hread : readConfig env config = (true, config')) : config'.Sized := by
  obtain ⟨qmPassword, rfl⟩ := readConfig_eq_true hread
  exact readServiceInfo_sized env qmPassword (readService_sized env h)

theorem zeroed_sized : Config.zeroed.Sized where
  queryManagerHost := List.length_replicate
  queryManagerPassword := List.length_replicate
  statusWorld := List.length_replicate
  url := List.length_replicate
  location := List.length_replicate
  serverType := List.length_replicate
  serverVersion := List.length_replicate
  clientVersion := List.length_replicate
  motd := List.length_replicate
  websocketAddress := List.length_replicate

end TibiaLogin.ReadConfig
