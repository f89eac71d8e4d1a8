import TibiaLogin.TableRefinement

namespace TibiaLogin.TableLimits

open MachineInt Memory Text Query LoginHandler ReadConfig CheckedTable TableIndices TableBounds TableRefinement
open Server hiding State initConnections assignConnection acceptConnections processStatusRequest checkConnectionRequest
  visitConnection visitIndex processConnections

/-- No run uses an index outside of a table, and the tables have the sizes that
the configuration gives. -/
def IndicesInBounds (config : Config) : Prop :=
  ∀ (σ : Type) build rsa randR (exchange : Exchange σ) statusString listener session cycles,
    InBounds (Limits config) (run build rsa randR exchange statusString config listener session cycles)

theorem envInt_range (env : Env) (name : String) {default : Int} (h : -2147483648 ≤ default ∧ default < 2147483648) :
    -2147483648 ≤ envInt env name default ∧ envInt env name default < 2147483648 := by
  rw [envInt]
  cases env name with
  | none => exact h
  | some str =>
      simp only [Option.map_some, Option.getD_some, atoi, wrap32]
      omega

theorem readConfig_maxConnections {env : Env} {config₀ config : Config} (hread : readConfig env config₀ = (true, config)) :
    -2147483648 ≤ config.maxConnections ∧ config.maxConnections < 2147483648 := by
  obtain ⟨qmPassword, rfl⟩ := readConfig_eq_true hread
  exact envInt_range env "SENJA_LOGINSERVER_MAX_CONNECTIONS" (by decide)

theorem read_outside {α : Type} {limit i : Int} (name : TableName) (t : Table α limit) (h : ¬(0 ≤ i ∧ i < limit)) :
    t.read name i = (.error (.index name i) : Checked α) := dif_neg h

theorem write_outside {α : Type} {limit i : Int} (name : TableName) (t : Table α limit) (entry : α)
    (h : ¬(0 ≤ i ∧ i < limit)) : t.write name i entry = (.error (.index name i) : Checked (Table α limit)) := if_neg h

theorem polledIndices_cons (c : Connection) (connections : List Connection) :
    polledIndices (c :: connections) =
      (if c.state = .free then [] else [0]) ++ (polledIndices connections).map (· + 1) := by
  rw [polledIndices, polledIndices, List.length_cons, List.range_succ_eq_map, List.filter_cons, List.filter_map]
  by_cases hfree : c.state = .free
  · simp [hfree, Function.comp_def]
  · simp [hfree, Function.comp_def]

theorem polledIndices_zeroed (n : Nat) : polledIndices (List.replicate n .zeroed) = [] := by
  induction n with
  | zero => rfl
  | succ n ih =>
      rw [List.replicate_succ, polledIndices_cons, ih]
      rfl

section

variable {σ : Type} (build : Build) (rsa : RsaKey) (randR : UInt32 → Int × UInt32) (exchange : Exchange σ)
  (statusString : Session σ → List UInt8 × Session σ) {config : Config}

theorem processConnections_no_room {s : State σ} (hmax : s.maxConnections = -1) (hlistener : s.listener ≠ -1)
    (cycle : Cycle) :
    processConnections build rsa randR exchange statusString config s cycle = .error (.index .pollFds 0) := by
  have hmaxFds : wrap32 (s.maxConnections + 1) = 0 := by
    rw [hmax]
    rfl
  simp only [processConnections]
  rw [if_neg (by omega), addListener, if_pos hlistener, addPolled, write_outside _ _ _ (by simp only; omega)]
  rfl

def accepted : Connection :=
  { Connection.zeroed with
    state := .reading
    socket := (5 : Nat)
    ipAddress := wrap32 (0 : UInt32).toNat
    startTime := 0
    randomSeed := 0 }

def statusVisit : Visit := ⟨true, false, false, [.bytes 1, .bytes 0], [], 0, 0, default, (false, [])⟩

def acceptCycle : Cycle := ⟨false, true, [.socket 5 0 0 0], fun _ => statusVisit, fun _ => [1, 0, 255]⟩

def statusCycle : Cycle := ⟨false, false, [], fun _ => statusVisit, fun _ => [1, 0, 255]⟩

theorem acceptCycle_follows (hroom : Room config) (hpos : 0 < config.maxConnections) {listener : Int}
    (hlistener : listener ≠ -1) {session : Session σ} {s : State σ}
    (hs : Follows config listener s (Server.initConnections (serverConfig config) session)) :
    ∃ s', processConnections build rsa randR exchange statusString config s acceptCycle = .ok s' ∧
      Follows config listener s' ⟨accepted :: List.replicate (config.maxConnections.toNat - 1) .zeroed,
        session, List.replicate config.maxStatusRecords.toNat ⟨0, 0⟩⟩ := by
  obtain ⟨n, hn⟩ : ∃ n, config.maxConnections.toNat = n + 1 := ⟨config.maxConnections.toNat - 1, by omega⟩
  have hconnections : s.connections.entries = List.replicate config.maxConnections.toNat .zeroed :=
    congrArg Server.State.connections hs.view_eq
  obtain ⟨s', haccept, hs'⟩ := acceptRound_follows hs acceptCycle
  rw [processConnections_eq build rsa randR exchange statusString hroom hs.limits (by rw [hs.listener_eq]; exact hlistener),
    if_neg (by decide), haccept, hconnections, polledIndices_zeroed]
  refine ⟨s', rfl, ?_⟩
  have hassign : Server.acceptConnections acceptCycle.accepted (List.replicate (n + 1) .zeroed) =
      accepted :: List.replicate n .zeroed := by
    rw [List.replicate_succ, acceptCycle]
    simp only [Server.acceptConnections, Server.assignConnection]
    rw [if_pos (show Connection.zeroed.state = .free from rfl)]
    rfl
  rw [if_pos (show acceptCycle.listenerPollin = true from rfl)] at hs'
  simp only [Server.initConnections, serverConfig, hn, hassign] at hs'
  rw [hn, Nat.add_sub_cancel]
  exact hs'

omit σ in
theorem statusVisit_input :
    ∃ c stream, checkConnectionInput statusVisit accepted [1, 0, 255] = .ok (c, stream) ∧ c.socket ≠ -1 ∧
      c.state = .processing ∧ 0 < c.rwSize ∧ c.buffer.headD 0 = 255 := by
  have hrun : ((checkConnectionInput statusVisit accepted [1, 0, 255]).toOption.map fun r =>
      (r.1.socket, r.1.state, r.1.rwSize, r.1.buffer.headD 0)) = some (5, .processing, 1, 255) := by
    decide +kernel
  cases hinput : checkConnectionInput statusVisit accepted [1, 0, 255] with
  | error stop =>
      rw [hinput] at hrun
      cases hrun
  | ok r =>
      obtain ⟨c, stream⟩ := r
      rw [hinput] at hrun
      simp only [Except.toOption, Option.map_some, Option.some.injEq, Prod.mk.injEq] at hrun
      obtain ⟨hsocket, hstate, hsize, hcommand⟩ := hrun
      refine ⟨c, stream, rfl, ?_, hstate, ?_, hcommand⟩
      · rw [hsocket]
        decide
      · rw [hsize]
        decide

theorem allowStatusRequest_empty {limit : Int} (hlimit : limit ≤ 0) (maxStatusRecords : Int)
    (records : Table StatusRecord limit) (ipAddress timeNow : Int) :
    allowStatusRequest config maxStatusRecords records ipAddress timeNow = .error (.index .statusRecords 0) := by
  rw [allowStatusRequest, read_outside _ _ (by omega)]
  rfl

theorem statusCycle_outside (hroom : Room config) (hrecords : config.maxStatusRecords ≤ 0) {listener : Int}
    (hlistener : listener ≠ -1) {s : State σ} {n : Nat} {shared : Shared σ}
    (hs : Follows config listener s ⟨accepted :: List.replicate n .zeroed, shared⟩) :
    processConnections build rsa randR exchange statusString config s statusCycle =
      .error (.index .statusRecords 0) := by
  have hconnections : s.connections.entries = accepted :: List.replicate n .zeroed :=
    congrArg Server.State.connections hs.view_eq
  have hread : s.connections.entries[0]? = some accepted := by
    rw [hconnections]
    rfl
  have hpolled : polledIndices s.connections.entries = [0] := by
    rw [hconnections, polledIndices_cons, polledIndices_zeroed, if_neg (show ¬accepted.state = .free by decide)]
    rfl
  obtain ⟨c, stream, hinput, hsocket, hstate, hsize, hcommand⟩ := statusVisit_input
  have hvisit : visitConnection build rsa randR exchange statusString config statusVisit accepted [1, 0, 255] s =
      .error (.index .statusRecords 0) := by
    rw [visitConnection, hinput]
    simp only [stopping, ok_bind, checkConnectionRequest]
    rw [if_neg hsocket, if_neg (not_not.mpr hstate), if_neg (not_not.mpr hsize), hcommand, if_neg (by decide), if_pos rfl,
      processStatusRequest, allowStatusRequest_empty (by rw [hs.limits.statusRecords]; exact hrecords)]
    rfl
  rw [processConnections_eq build rsa randR exchange statusString hroom hs.limits (by rw [hs.listener_eq]; exact hlistener),
    if_neg (by decide), hpolled]
  have haccept : acceptRound config statusCycle s = .ok s := rfl
  rw [haccept, ok_bind, List.foldlM_cons, TableRefinement.visitIndex, Table.read_eq TableName.connections hread, ok_bind,
    show statusCycle.visits 0 = statusVisit from rfl, show statusCycle.streams 0 = [1, 0, 255] from rfl, hvisit]
  rfl

end

theorem not_indicesInBounds_no_room {config : Config} (hmax : config.maxConnections = -1) : ¬IndicesInBounds config := by
  intro h
  obtain ⟨s, hinit, hs⟩ := initConnections_follows config (show (3 : Int) ≠ -1 by decide) (⟨(), []⟩ : Session Unit)
  have hrun := h Unit ⟨.latin1, false⟩ default (fun seed => (0, seed)) (fun _ _ _ => (none, ())) (fun s => ([], s)) 3
    ⟨(), []⟩ [acceptCycle]
  rw [run, hinit, ok_bind, List.foldlM_cons, processConnections_no_room _ _ _ _ _ (hs.limits.connections.trans hmax)
    (by rw [hs.listener_eq]; decide)] at hrun
  exact hrun

theorem not_indicesInBounds_no_record {config : Config} (hroom : Room config) (hpos : 0 < config.maxConnections)
    (hrecords : config.maxStatusRecords ≤ 0) : ¬IndicesInBounds config := by
  intro h
  obtain ⟨s, hinit, hs⟩ := initConnections_follows config (show (3 : Int) ≠ -1 by decide) (⟨(), []⟩ : Session Unit)
  have hrun := h Unit ⟨.latin1, false⟩ default (fun seed => (0, seed)) (fun _ _ _ => (none, ())) (fun s => ([], s)) 3
    ⟨(), []⟩ [acceptCycle, statusCycle]
  obtain ⟨s', haccept, hs'⟩ := acceptCycle_follows ⟨.latin1, false⟩ default (fun seed => (0, seed))
    (fun _ _ _ => (none, ())) (fun s => ([], s)) hroom hpos (by decide) hs
  rw [run, hinit, ok_bind, List.foldlM_cons, haccept, ok_bind, List.foldlM_cons,
    statusCycle_outside _ _ _ _ _ hroom hrecords (by decide) hs'] at hrun
  exact hrun

theorem indicesInBounds_iff {config : Config} (hlo : -2147483648 ≤ config.maxConnections)
    (hhi : config.maxConnections < 2147483648) : IndicesInBounds config ↔ Admissible config := by
  constructor
  · intro h
    refine ⟨fun hmax => not_indicesInBounds_no_room hmax h, ?_⟩
    by_contra hcond
    rw [not_or, not_or] at hcond
    obtain ⟨hpos, hmax, hrecords⟩ := hcond
    exact not_indicesInBounds_no_record ⟨by omega, by omega⟩ (by omega) (by omega) h
  · intro ha σ build rsa randR exchange statusString listener session cycles
    exact run_inBounds build rsa randR exchange statusString hlo hhi ha listener session cycles

/-- The indices of every run stay in their tables exactly under the admissible
configurations. -/
theorem tables_in_bounds_iff {env : Env} {config₀ config : Config} (hread : readConfig env config₀ = (true, config)) :
    IndicesInBounds config ↔ config.maxConnections ≠ -1 ∧
      (config.maxConnections ≤ 0 ∨ config.maxConnections = 2147483647 ∨ 1 ≤ config.maxStatusRecords) := by
  obtain ⟨hlo, hhi⟩ := readConfig_maxConnections hread
  exact indicesInBounds_iff hlo hhi

def recordsEnv (maxStatusRecords : String) : Env := fun name =>
  if name = "SENJA_QM_PASSWORD" then some (text "x")
  else if name = "SENJA_LOGINSERVER_MAX_STATUS_RECORDS" then some (text maxStatusRecords)
  else none

theorem readConfig_recordsEnv (maxStatusRecords : String) :
    readConfig (recordsEnv maxStatusRecords) .zeroed =
      (true, (readConfig (recordsEnv maxStatusRecords) .zeroed).2) := by
  rw [readConfig_of_password (show recordsEnv maxStatusRecords "SENJA_QM_PASSWORD" = some (text "x") from rfl)]

theorem tables_in_bounds_one : IndicesInBounds (readConfig (recordsEnv "1") .zeroed).2 := by
  have hmax : (readConfig (recordsEnv "1") .zeroed).2.maxConnections = 10 := rfl
  have hrecords : (readConfig (recordsEnv "1") .zeroed).2.maxStatusRecords = 1 := by decide +kernel
  exact (tables_in_bounds_iff (readConfig_recordsEnv "1")).mpr ⟨by omega, by omega⟩

/-- Without a status record the first status request looks at one all the same. -/
theorem status_record_outside : ¬IndicesInBounds (readConfig (recordsEnv "0") .zeroed).2 := by
  have hmax : (readConfig (recordsEnv "0") .zeroed).2.maxConnections = 10 := rfl
  have hrecords : (readConfig (recordsEnv "0") .zeroed).2.maxStatusRecords = 0 := by decide +kernel
  exact not_indicesInBounds_no_record ⟨by omega, by omega⟩ (by omega) (by omega)

end TibiaLogin.TableLimits
