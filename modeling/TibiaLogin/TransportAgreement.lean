import TibiaLogin.InputDelivery
import TibiaLogin.PeerAddress
import TibiaLogin.StrayReads
import TibiaLogin.WebSocket

namespace TibiaLogin.TransportAgreement

open MachineInt Memory Text BufferReader Query LoginHandler LoginOutcome LoginAgreement StrayReads Server ConnectionInput
  InputDelivery PeerAddress WebSocket

def assigned (fd : Nat) (addr : UInt32) (uptime : Int) (seed : UInt32) : Connection :=
  { Connection.zeroed with
    state := .reading
    socket := fd
    ipAddress := wrap32 addr.toNat
    startTime := uptime
    randomSeed := seed }

section

variable {σ : Type} (build : Build) (rsa : RsaKey) (randR : UInt32 → Int × UInt32) (exchange : Exchange σ)
  (statusString : Session σ → List UInt8 × Session σ) (config : ServerConfig)

def tcpLogin : List Visit → Connection → List UInt8 → Shared σ → Except Stop (Connection × Shared σ)
  | [], c, _, shared => .ok (c, shared)
  | visit :: visits, c, stream, shared => do
      let (c, stream) ← checkConnectionInput visit c stream
      let (c, shared) ← checkConnectionRequest build rsa randR exchange statusString config visit c shared
      if c.state = .reading then tcpLogin visits c stream shared else .ok (c, shared)

def wsLogin (message : LoginMessage) (run : WorkerRun σ) : Except Fault (Action × Session σ) := do
  if !run.connected then pure (.close, run.session)
  else
    let (c, session) ← processLoginRequest build rsa randR exchange config run.stray
      (wsConnection message run.randomSeed) run.session
    pure (if c.state = .writing ∧ 0 < c.rwSize then .send (c.buffer.take c.rwSize.toNat) else .close, session)

theorem processWsLogin_eq (message : LoginMessage) (run : WorkerRun σ) :
    processWsLogin build rsa randR exchange config message run =
      Prod.fst <$> wsLogin build rsa randR exchange config message run := by
  rw [processWsLogin, wsLogin]
  by_cases hc : (!run.connected) = true
  · rw [if_pos hc, if_pos hc]
    rfl
  · rw [if_neg hc, if_neg hc]
    cases processLoginRequest build rsa randR exchange config run.stray (wsConnection message run.randomSeed)
        run.session with
    | error fault => rfl
    | ok r =>
        simp only [ok_bind]
        split_ifs
        · rfl
        · rfl

end

/-- The input of a connection leaves its peer and its seed alone. -/
structure SamePeer (c c' : Connection) : Prop where
  ip_eq : c'.ipAddress = c.ipAddress
  seed_eq : c'.randomSeed = c.randomSeed

theorem samePeer_of_outcome {arrival : Arrival} {c : Connection} {stream : List UInt8}
    {r : Bool × Connection × List UInt8} (h : InputOutcome arrival c stream r) : SamePeer c r.2.1 := by
  cases h with
  | idle | partly | complete | header => exact ⟨rfl, rfl⟩
  | closed | refused =>
      rw [closeConnection_eq]
      exact ⟨rfl, rfl⟩

theorem inputLoop_samePeer {arrivals : List Arrival} {start : Int} {s rest rest' : List UInt8} {c c' : Connection}
    (h : Reading start s c rest) (hcalm : ∀ a ∈ arrivals, a ≠ .failed ∧ a ≠ .eof)
    (hl : inputLoop arrivals c rest = .ok (c', rest')) : SamePeer c c' := by
  induction arrivals generalizing c rest with
  | nil =>
      cases hl
      exact ⟨rfl, rfl⟩
  | cons arrival arrivals ih =>
      obtain ⟨ha, hcalm⟩ := List.forall_mem_cons.mp hcalm
      obtain ⟨⟨more, c₁, rest₁⟩, hstep, ho⟩ := inputStep_outcome h.slot.sized h.shape arrival rest
      have hsame := samePeer_of_outcome ho
      rw [inputLoop, hstep, ok_bind] at hl
      cases more with
      | false =>
          cases hl
          exact hsame
      | true =>
          have hrest := ih ((inputStep_delivered h ha ho).2 rfl) hcalm hl
          exact ⟨hrest.ip_eq.trans hsame.ip_eq, hrest.seed_eq.trans hsame.seed_eq⟩

theorem checkConnectionInput_samePeer {visit : Visit} {start : Int} {s rest rest' : List UInt8} {c c' : Connection}
    (h : Reading start s c rest) (hcalm : ∀ a ∈ visit.arrivals, a ≠ .failed ∧ a ≠ .eof)
    (hi : checkConnectionInput visit c rest = .ok (c', rest')) : SamePeer c c' := by
  rw [checkConnectionInput] at hi
  split_ifs at hi with hidle hreading
  · cases hi
    exact ⟨rfl, rfl⟩
  · exact absurd h.shape.1 hreading
  · exact inputLoop_samePeer h hcalm hi

/-- A login message as the client sends it over either transport. -/
structure LoginPacket (m : List UInt8) : Prop where
  length_le : m.length ≤ 2048
  size_eq : announcedSize m = m.length - 2
  command : (m.drop 2).head? = some 1

theorem LoginPacket.length_pos {m : List UInt8} (h : LoginPacket m) : 2 < m.length := by
  have hne : m.drop 2 ≠ [] := by
    intro he
    have hc := h.command
    rw [he] at hc
    cases hc
  have hpos := List.length_pos_of_ne_nil hne
  rw [List.length_drop] at hpos
  omega

theorem assigned_reading (m : List UInt8) (fd : Nat) (addr : UInt32) (uptime : Int) (seed : UInt32) :
    Reading uptime m (assigned fd addr uptime seed) m := by
  have hshape : ReadingOk (assigned fd addr uptime seed) := ⟨rfl, Or.inl ⟨rfl, Or.inl rfl⟩⟩
  refine ⟨⟨List.length_replicate, ?_, Or.inr (Or.inl hshape)⟩, hshape, rfl, Or.inl ⟨rfl, 0, ?_⟩⟩
  · simp only [assigned]
    omega
  · exact ⟨rfl, Nat.zero_le _, rfl, rfl⟩

theorem wsConnection_sized (message : LoginMessage) (h : message.bytes.length ≤ 2048) (seed : UInt32) :
    (wsConnection message seed).buffer.length = 2048 ∧
      (wsConnection message seed).buffer.take message.bytes.length = message.bytes := by
  have hfit : 0 + message.bytes.length ≤ (List.replicate 2048 (0 : UInt8)).length := by
    rw [List.length_replicate]
    omega
  have htake := take_overwrite hfit
  rw [Nat.zero_add] at htake
  exact ⟨by rw [wsConnection, length_overwrite hfit, List.length_replicate], htake⟩

theorem sameRequest_of_delivered {m : List UInt8} (hm : LoginPacket m) {c : Connection} (hb : c.buffer.length = 2048)
    (hr : Requesting c) (hsize : c.rwSize = announcedSize m)
    (hdata : c.buffer.take (announcedSize m) = (m.drop 2).take (announcedSize m)) (seed : UInt32) :
    SameRequest c (wsConnection ⟨m.drop 2, c.ipAddress⟩ seed) := by
  have hlen : (m.drop 2).length = announcedSize m := by rw [List.length_drop, hm.size_eq]
  have hle := hm.length_le
  obtain ⟨hb', htake⟩ := wsConnection_sized ⟨m.drop 2, c.ipAddress⟩
    (by simp only [List.length_drop]; omega) seed
  refine ⟨⟨hb, hb'⟩, ⟨hr.1, rfl⟩, ?_, ?_, rfl⟩
  · rw [hsize, ← hlen]
    rfl
  · rw [hsize, Int.toNat_natCast, hdata, ← hlen, List.take_length]
    exact htake.symm

theorem headD_of_take {buffer bytes : List UInt8} (h : buffer.take bytes.length = bytes) (hc : bytes.head? = some 1) :
    buffer.headD 0 = 1 := by
  cases bytes with
  | nil => cases hc
  | cons b bytes =>
      cases hc
      cases buffer with
      | nil => cases h
      | cons a buffer => exact (List.cons.inj h).1

theorem inputStep_consumes {more : Nat} {c : Connection} {stream : List UInt8} {r : Bool × Connection × List UInt8}
    (h : ReadingOk c) (hne : stream ≠ []) (hrun : inputStep (.bytes more) c stream = .ok r) :
    r.2.2.length < stream.length := by
  obtain ⟨h0, hlt, hmax⟩ := readSize_bounds h
  obtain ⟨count, hcount⟩ := Int.eq_ofNat_of_zero_le (show 0 ≤ readSize c - c.rwPosition by omega)
  have hsize : toSize (readSize c - c.rwPosition) = count := by
    rw [hcount]
    exact toSize_natCast (by omega)
  have hread : readSocket count (.bytes more) stream =
      (.bytes (stream.take (min (more + 1) count)), stream.drop (min (more + 1) count)) := by
    cases stream with
    | nil => exact absurd rfl hne
    | cons b stream => rfl
  have hstream : r.2.2 = stream.drop (min (more + 1) count) := by
    simp only [inputStep, hsize, hread] at hrun
    split_ifs at hrun <;> cases hrun <;> rfl
  have hpos := List.length_pos_of_ne_nil hne
  rw [hstream, List.length_drop]
  omega

theorem LoginPacket.length_drop_le {m : List UInt8} (h : LoginPacket m) : (m.drop 2).length ≤ 2048 := by
  have hmax := h.length_le
  rw [List.length_drop]
  omega

theorem LoginPacket.rest_ne_nil {m : List UInt8} (hm : LoginPacket m) {start : Int} {c : Connection} {rest : List UInt8}
    (h : Reading start m c rest) : rest ≠ [] := by
  intro hnil
  have hmin := hm.length_pos
  have hsize := hm.size_eq
  obtain ⟨-, hlt, -⟩ := readSize_bounds h.shape
  rw [readSize] at hlt
  rcases h.progress with ⟨hz, pos, hw⟩ | ⟨hn, ⟨h1, -⟩, -, pos, hw⟩
  · have hend := congrArg List.length hw.rest_eq
    have hpos := hw.position
    rw [hnil, List.length_nil, List.length_drop] at hend
    rw [if_neg (by omega)] at hlt
    omega
  · have hend := congrArg List.length hw.rest_eq
    have hpos := hw.position
    rw [hnil, List.length_nil, List.length_drop, List.length_drop] at hend
    rw [if_pos (by omega)] at hlt
    omega

theorem inputLoop_arrives {m : List UInt8} (hm : LoginPacket m) (n : Nat) {start : Int} {c : Connection}
    {rest : List UInt8} (h : Reading start m c rest) (hn : rest.length ≤ n) :
    ∃ c' rest', inputLoop (List.replicate n (.bytes 0)) c rest = .ok (c', rest') ∧ c'.state ≠ .reading := by
  induction n generalizing c rest with
  | zero => exact absurd (List.length_eq_zero_iff.mp (Nat.le_zero.mp hn)) (hm.rest_ne_nil h)
  | succ n ih =>
      obtain ⟨⟨more, c₁, rest₁⟩, hstep, ho⟩ := inputStep_outcome h.slot.sized h.shape (.bytes 0) rest
      have hless : rest₁.length < rest.length := inputStep_consumes h.shape (hm.rest_ne_nil h) hstep
      obtain ⟨hd, hr⟩ := inputStep_delivered h ⟨by simp, by simp⟩ ho
      rw [List.replicate_succ, inputLoop, hstep, ok_bind]
      simp only
      cases more with
      | true => exact ih (hr rfl) (by omega)
      | false =>
          refine ⟨c₁, rest₁, rfl, ?_⟩
          cases hd with
          | request _ _ hrequest =>
              have hstate : c₁.state = .processing := hrequest.1
              rw [hstate]
              simp
          | refused _ _ _ hbad =>
              have hmin := hm.length_pos
              have hmax := hm.length_le
              rw [hm.size_eq] at hbad
              omega
          | reading hread =>
              cases ho with
              | idle => exact absurd hless (Nat.lt_irrefl _)
              | closed hc => exact absurd hc (by simp)
              | complete => simp
              | refused =>
                  have hopen := hread.slot.socket
                  simp only [closeConnection_eq] at hopen
                  exact absurd rfl hopen

theorem tcpLogin_arrives {σ : Type} (build : Build) (rsa : RsaKey) (randR : UInt32 → Int × UInt32)
    (exchange : Exchange σ) (statusString : Session σ → List UInt8 × Session σ) (config : ServerConfig)
    {m : List UInt8} (hm : LoginPacket m) (stray : Stray) (shared : Shared σ) (fd : Nat) (addr : UInt32)
    (uptime : Int) (seed : UInt32) :
    ∃ visits : List Visit, (∀ visit ∈ visits, ∀ a ∈ visit.arrivals, a ≠ .failed ∧ a ≠ .eof) ∧
      (∀ visit ∈ visits, visit.stray = stray) ∧ ∃ c shared',
        tcpLogin build rsa randR exchange statusString config visits (assigned fd addr uptime seed) m shared =
          .ok (c, shared') ∧ c.state ≠ .reading := by
  have hreading := assigned_reading m fd addr uptime seed
  have hcalm : ∀ a ∈ List.replicate m.length (Arrival.bytes 0), a ≠ .failed ∧ a ≠ .eof := by
    intro a ha
    rw [List.eq_of_mem_replicate ha]
    simp
  obtain ⟨c₁, rest₁, hloop, hstate⟩ := inputLoop_arrives hm m.length hreading (Nat.le_refl _)
  obtain ⟨visit, hpollin, harrivals, hstray⟩ : ∃ visit : Visit, visit.pollin = true ∧
      visit.arrivals = List.replicate m.length (.bytes 0) ∧ visit.stray = stray :=
    ⟨⟨true, false, false, List.replicate m.length (.bytes 0), [], 0, 0, stray, (false, [])⟩, rfl, rfl, rfl⟩
  have hidle : ¬((assigned fd addr uptime seed).socket = -1 ∨ visit.pollin = false) := by
    rw [hpollin]
    exact not_or.mpr ⟨hreading.slot.socket, by simp⟩
  have hinput : checkConnectionInput visit (assigned fd addr uptime seed) m = .ok (c₁, rest₁) := by
    rw [checkConnectionInput, if_neg hidle, if_neg (not_not.mpr hreading.shape.1), harrivals]
    exact hloop
  refine ⟨[visit], ?_, ?_, ?_⟩
  · intro v hv
    rw [List.mem_singleton.mp hv, harrivals]
    exact hcalm
  · intro v hv
    rw [List.mem_singleton.mp hv]
    exact hstray
  · rw [← harrivals] at hcalm
    obtain ⟨c', rest', hdelivered, hd⟩ := checkConnectionInput_delivered hreading hcalm
    rw [hinput] at hdelivered
    cases hdelivered
    obtain ⟨c, shared', hrequest, hsettled⟩ : ∃ c shared',
        checkConnectionRequest build rsa randR exchange statusString config visit c₁ shared = .ok (c, shared') ∧
          c.state ≠ .reading := by
      cases hd with
      | reading hread => exact absurd hread.shape.1 hstate
      | request hb hopen hr =>
          obtain ⟨c, shared', hrequest, hresponded⟩ := ConnectionTable.dispatch_responded build rsa randR exchange
            statusString config visit hb hr shared
          refine ⟨c, shared', hrequest, ?_⟩
          rcases hresponded.replied with hs | hs <;> simp [hs]
      | refused hb hclosed =>
          exact ⟨c₁, shared, ConnectionTable.checkConnectionRequest_idle build rsa randR exchange statusString config
            visit (Or.inl hclosed) shared, hstate⟩
    refine ⟨c, shared', ?_, hsettled⟩
    rw [tcpLogin, hinput, ok_bind]
    simp only
    rw [hrequest, ok_bind]
    simp only [if_neg hsettled]

section

variable {σ τ : Type} (build : Build) (rsa : RsaKey) (randR : UInt32 → Int × UInt32) {exchange : Exchange σ}
  {exchange' : Exchange τ} (statusString : Session σ → List UInt8 × Session σ) (config : ServerConfig)
  {Agree : σ → τ → Prop} (hsame : SameReplies exchange exchange' Agree) {m : List UInt8} (hm : LoginPacket m)
  {shared : Shared σ} (run : WorkerRun τ) (hconn : run.connected = true)
  (hagree : Agree shared.session.client run.session.client)

/-- How a TCP connection and a worker ended: with the same bytes for the client
or both without any, and over the same queries. -/
structure Agreement (shared shared' : Shared σ) (run : WorkerRun τ) (c : Connection) (action : Action)
    (session : Session τ) : Prop where
  sends : ∀ response, action = .send response ↔ c.state = .writing ∧ c.buffer.take c.rwSize.toNat = response
  closes : action = .close ↔ c.state ≠ .writing ∧ c.socket = -1
  queries : ∃ queries, shared'.session.queries = shared.session.queries ++ queries ∧
    session.queries = run.session.queries ++ queries

include hsame hm hconn hagree

theorem checkConnectionRequest_agreement {visit : Visit} {c : Connection}
    (hstray : wsLogin build rsa randR exchange' config ⟨m.drop 2, c.ipAddress⟩ { run with stray := visit.stray } =
      wsLogin build rsa randR exchange' config ⟨m.drop 2, c.ipAddress⟩ run) (hseed : c.randomSeed = run.randomSeed) (hb : c.buffer.length = 2048) (hopen : c.socket ≠ -1)
    (hr : Requesting c) (hsize : c.rwSize = announcedSize m)
    (hdata : c.buffer.take (announcedSize m) = (m.drop 2).take (announcedSize m)) :
    ∃ c' shared',
      checkConnectionRequest build rsa randR exchange statusString config visit c shared = .ok (c', shared') ∧
      c'.state ≠ .reading ∧ ∃ action session,
        wsLogin build rsa randR exchange' config ⟨m.drop 2, c.ipAddress⟩ run = .ok (action, session) ∧
        Agreement shared shared' run c' action session := by
  have hlen : (m.drop 2).length = announcedSize m := by rw [List.length_drop, hm.size_eq]
  have hhead : c.buffer.headD 0 = 1 := by
    refine headD_of_take ?_ hm.command
    rw [hlen, hdata, ← hlen, List.take_length]
  have hrequest := sameRequest_of_delivered hm hb hr hsize hdata run.randomSeed
  obtain ⟨d, d', a, b, queries, hp, hp', hanswer⟩ := processLoginRequest_alike build rsa randR config visit.stray hsame
    hagree hrequest hseed
  refine ⟨d, { shared with session := ⟨a, shared.session.queries ++ queries⟩ }, ?_, ?_, ?_⟩
  · have hpos : ¬¬0 < c.rwSize := not_not.mpr (by have := hr.2.1; omega)
    rw [checkConnectionRequest, if_neg hopen, if_neg (not_not.mpr hr.1), if_neg hpos]
    simp only [hhead, if_true, hp]
  · cases hanswer with
    | sent hw => simp [hw]
    | closed hp => simp [hp]
  · have hws : wsLogin build rsa randR exchange' config ⟨m.drop 2, c.ipAddress⟩ run =
        .ok (if d'.state = .writing ∧ 0 < d'.rwSize then .send (d'.buffer.take d'.rwSize.toNat) else .close,
          ⟨b, run.session.queries ++ queries⟩) := by
      rw [← hstray, wsLogin, if_neg (by simp [hconn]), hp', ok_bind]
      rfl
    refine ⟨_, _, hws, ?_, ?_, queries, rfl, rfl⟩
    · intro response
      cases hanswer with
      | sent hw hw' hpos hbytes =>
          rw [if_pos ⟨hw', hpos⟩, hbytes]
          simp [hw]
      | closed hp hp' hclosed =>
          rw [if_neg (by simp [hp'])]
          simp [hp]
    · cases hanswer with
      | sent hw hw' hpos hbytes =>
          rw [if_pos ⟨hw', hpos⟩]
          simp [hw]
      | closed hp hp' hclosed =>
          rw [if_neg (by simp [hp'])]
          simp [hp, hclosed]

theorem tcpLogin_agreement {visits : List Visit} (hcalm : ∀ visit ∈ visits, ∀ a ∈ visit.arrivals, a ≠ .failed ∧ a ≠ .eof)
    {start : Int} {c : Connection} {rest : List UInt8}
    (hstray : ∀ visit ∈ visits,
      wsLogin build rsa randR exchange' config ⟨m.drop 2, c.ipAddress⟩ { run with stray := visit.stray } =
        wsLogin build rsa randR exchange' config ⟨m.drop 2, c.ipAddress⟩ run)
    (h : Reading start m c rest) (hseed : c.randomSeed = run.randomSeed) :
    ∃ c' shared',
      tcpLogin build rsa randR exchange statusString config visits c rest shared = .ok (c', shared') ∧
      (c'.state ≠ .reading → ∃ action session,
        wsLogin build rsa randR exchange' config ⟨m.drop 2, c.ipAddress⟩ run = .ok (action, session) ∧
        Agreement shared shared' run c' action session) := by
  induction visits generalizing c rest with
  | nil => exact ⟨c, shared, rfl, fun hne => absurd h.shape.1 hne⟩
  | cons visit visits ih =>
      obtain ⟨hcalm₁, hcalm⟩ := List.forall_mem_cons.mp hcalm
      obtain ⟨hstray₁, hstray⟩ := List.forall_mem_cons.mp hstray
      obtain ⟨c₁, rest₁, hi, hd⟩ := checkConnectionInput_delivered h hcalm₁
      have hpeer := checkConnectionInput_samePeer h hcalm₁ hi
      rw [tcpLogin, hi, ok_bind]
      simp only
      rw [← hpeer.ip_eq] at hstray₁ hstray ⊢
      cases hd with
      | reading hread =>
          have hnot : c₁.state ≠ .processing := by simp [hread.shape.1]
          rw [checkConnectionRequest, if_neg hread.slot.socket, if_pos hnot, ok_bind]
          simp only [if_pos hread.shape.1]
          exact ih hcalm hstray hread (hpeer.seed_eq.trans hseed)
      | request hb hopen hr hsize hle hdata hrest =>
          obtain ⟨c', shared', hreq, hstate, hagreement⟩ := checkConnectionRequest_agreement build rsa randR statusString
            config hsame hm run hconn hagree hstray₁ (hpeer.seed_eq.trans hseed) hb hopen hr hsize hdata
          rw [hreq, ok_bind]
          simp only [if_neg hstate]
          exact ⟨c', shared', rfl, fun _ => hagreement⟩
      | refused hb hclosed hpolled hbad hle hrest =>
          have hpos := hm.length_pos
          have hmax := hm.length_le
          rw [hm.size_eq] at hbad
          omega

omit hsame hm hconn hagree in
theorem Agreement.action_eq {shared' : Shared σ} {run' : WorkerRun τ} {c : Connection} {action action' : Action}
    {session session' : Session τ} (h : Agreement shared shared' run c action session)
    (h' : Agreement shared shared' run' c action' session') : action = action' := by
  cases action with
  | send response => exact ((h'.sends response).mpr ((h.sends response).mp rfl)).symm
  | close => exact (h'.closes.mpr (h.closes.mp rfl)).symm

theorem tcpLogin_delivers (fd : Nat) (addr : UInt32) (uptime : Int) :
    ∃ visits : List Visit, (∀ visit ∈ visits, ∀ a ∈ visit.arrivals, a ≠ .failed ∧ a ≠ .eof) ∧
      ∃ c shared' action session,
        tcpLogin build rsa randR exchange statusString config visits (assigned fd addr uptime run.randomSeed) m shared =
          .ok (c, shared') ∧ c.state ≠ .reading ∧
        wsLogin build rsa randR exchange' config ⟨m.drop 2, wrap32 addr.toNat⟩ run = .ok (action, session) ∧
        Agreement shared shared' run c action session := by
  obtain ⟨visits, hcalm, hstray, c, shared', htcp, hstate⟩ := tcpLogin_arrives build rsa randR exchange statusString
    config hm run.stray shared fd addr uptime run.randomSeed
  obtain ⟨c', shared'', htcp', hagreement⟩ := tcpLogin_agreement build rsa randR statusString config hsame hm run hconn
    hagree hcalm (fun visit hv => by rw [hstray visit hv]) (assigned_reading m fd addr uptime run.randomSeed) rfl
  rw [htcp] at htcp'
  cases htcp'
  obtain ⟨action, session, hws, hagreed⟩ := hagreement hstate
  exact ⟨visits, hcalm, c, shared', action, session, htcp, hstate, hws, hagreed⟩

omit hsame hm hagree in
theorem wsLogin_handled {message : LoginMessage} (hlen : message.bytes.length ≤ 2048) {d : Connection} {t : Session τ}
    (hrun : processLoginRequest build rsa randR exchange' config run.stray (wsConnection message run.randomSeed)
      run.session = .ok (d, t)) :
    ∃ action, wsLogin build rsa randR exchange' config message run = .ok (action, t) ∧
      (∀ response, action = .send response ↔ d.state = .writing ∧ d.buffer.take d.rwSize.toNat = response) := by
  obtain ⟨outcome, d', t', key, -, hrun', hcases⟩ := processLoginRequest_outcome build rsa exchange' run.stray randR config
    (wsConnection_sized message hlen run.randomSeed).1 rfl run.session
  rw [hrun] at hrun'
  cases hrun'
  refine ⟨if d.state = .writing ∧ 0 < d.rwSize then .send (d.buffer.take d.rwSize.toNat) else .close, ?_, ?_⟩
  · rw [wsLogin, if_neg (by simp [hconn]), hrun]
    rfl
  · intro response
    have hpos (hw : d.state = .writing) : 0 < d.rwSize := by
      rcases hcases with ⟨-, rfl⟩ | ⟨-, -, hreplied⟩
      · rw [closeConnection_eq] at hw
        cases hw
      · rw [hreplied.size_eq hw, LoginResponse.length_responseBytes]
        omega
    by_cases hw : d.state = .writing
    · rw [if_pos ⟨hw, hpos hw⟩, Action.send.injEq]
      simp only [hw, true_and]
    · rw [if_neg fun h => hw h.1]
      simp [hw]

end

section

variable {σ τ : Type} (build : Build) (rsa : RsaKey) (randR : UInt32 → Int × UInt32) (exchange : Exchange σ)
  (exchange' : Exchange τ) (statusString : Session σ → List UInt8 × Session σ) (config : ServerConfig) (m : List UInt8)
  (shared : Shared σ) (run : WorkerRun τ) (fd : Nat) (addr : UInt32) (uptime : Int)

/-- A login packet gets the same answer from the worker that the message
handler starts and from a TCP connection, however its bytes arrive there. What
lies beside the buffers of the two threads may be anything, so they must agree
for whatever each of them finds there. -/
def TransportsAgree (peer : List UInt8) (address : Nat) (data : PerSocketData) (s : Acceptor) : Prop :=
  ∃ worker, (receiveMessage address data true m (peerAddress peer) s).workers = s.workers ++ [worker] ∧
    ∀ stray : Stray, ∃ action session,
      processWsLogin build rsa randR exchange' config worker.message { run with stray } = .ok action ∧
      wsLogin build rsa randR exchange' config worker.message { run with stray } = .ok (action, session) ∧
      (∀ visits : List Visit, (∀ visit ∈ visits, ∀ a ∈ visit.arrivals, a ≠ .failed ∧ a ≠ .eof) → ∃ c shared',
        tcpLogin build rsa randR exchange statusString config visits (assigned fd addr uptime run.randomSeed) m shared =
          .ok (c, shared') ∧
        (c.state ≠ .reading → Agreement shared shared' { run with stray } c action session)) ∧
      ∃ visits : List Visit, (∀ visit ∈ visits, ∀ a ∈ visit.arrivals, a ≠ .failed ∧ a ≠ .eof) ∧ ∃ c shared',
        tcpLogin build rsa randR exchange statusString config visits (assigned fd addr uptime run.randomSeed) m shared =
          .ok (c, shared') ∧ c.state ≠ .reading

theorem receiveMessage_login {m} (hm : LoginPacket m) {addr} {peer : List UInt8}
    (hpeer : peer = dottedQuad addr ∨ peer = mappedMark ++ dottedQuad addr) (address : Nat) (data : PerSocketData)
    (s : Acceptor) :
    (receiveMessage address data true m (peerAddress peer) s).workers =
      s.workers ++ [⟨data.requestId, ⟨m.drop 2, wrap32 addr.toNat⟩, data.number⟩] := by
  have hmin := hm.length_pos
  have hmax := hm.length_le
  have hhead : (m.drop 2).headD 0 = 1 := by
    rw [List.headD_eq_head?_getD, hm.command]
    rfl
  rw [receiveMessage, if_neg (by decide), if_neg (by omega), peerAddress_eq addr hpeer]
  simp only [hhead, if_true]

end

section

variable {σ τ : Type} {build : Build} {rsa : RsaKey} {randR : UInt32 → Int × UInt32} {exchange : Exchange σ}
  {exchange' : Exchange τ} {statusString : Session σ → List UInt8 × Session σ} {config : ServerConfig}
  {Agree : σ → τ → Prop} (hsame : SameReplies exchange exchange' Agree) {m : List UInt8} (hm : LoginPacket m)
  {shared : Shared σ} {run : WorkerRun τ} (hconn : run.connected = true)
  (hagree : Agree shared.session.client run.session.client) {fd : Nat} {addr : UInt32} {uptime : Int} {peer : List UInt8}
  (hpeer : peer = dottedQuad addr ∨ peer = mappedMark ++ dottedQuad addr) {address : Nat} {data : PerSocketData}
  {s : Acceptor}

include hsame hm hconn hagree hpeer

theorem transportsAgree_of_inside
    (h : ReadsInside build rsa exchange' (wsConnection ⟨m.drop 2, wrap32 addr.toNat⟩ run.randomSeed)
      run.session.client) :
    TransportsAgree build rsa randR exchange exchange' statusString config m shared run fd addr uptime peer address data
      s := by
  refine ⟨_, receiveMessage_login hm hpeer address data s, fun stray => ?_⟩
  have hsized := (wsConnection_sized ⟨m.drop 2, wrap32 addr.toNat⟩ hm.length_drop_le run.randomSeed).1
  have haddress : (assigned fd addr uptime run.randomSeed).ipAddress = wrap32 addr.toNat := rfl
  have hindifferent (stray' : Stray) :
      wsLogin build rsa randR exchange' config ⟨m.drop 2, wrap32 addr.toNat⟩ { run with stray := stray' } =
        wsLogin build rsa randR exchange' config ⟨m.drop 2, wrap32 addr.toNat⟩ { run with stray } := by
    rw [wsLogin, wsLogin]
    simp only [processLoginRequest_inside stray' stray hsized h randR config]
  obtain ⟨visits, hcalm, c, shared', action, session, htcp, hstate, hws, -⟩ := tcpLogin_delivers build rsa randR
    statusString config hsame hm { run with stray } hconn hagree fd addr uptime
  refine ⟨action, session, ?_, hws, fun visits hcalm => ?_, visits, hcalm, c, shared', htcp, hstate⟩
  · rw [processWsLogin_eq]
    exact congrArg (Prod.fst <$> ·) hws
  · obtain ⟨c, shared', htcp, hagreement⟩ := tcpLogin_agreement build rsa randR statusString config hsame hm
      { run with stray } hconn hagree hcalm (fun visit _ => by rw [haddress]; exact hindifferent visit.stray)
      (assigned_reading m fd addr uptime run.randomSeed) rfl
    refine ⟨c, shared', htcp, fun hstate => ?_⟩
    obtain ⟨action', session', hws', hag⟩ := hagreement hstate
    have hboth := hws.symm.trans hws'
    cases hboth
    exact hag

theorem inside_of_transportsAgree
    (h : TransportsAgree build rsa randR exchange exchange' statusString config m shared run fd addr uptime peer address
      data s) :
    ReadsInside build rsa exchange' (wsConnection ⟨m.drop 2, wrap32 addr.toNat⟩ run.randomSeed) run.session.client := by
  obtain ⟨worker, hworker, hall⟩ := h
  rw [receiveMessage_login hm hpeer address data s] at hworker
  cases List.append_cancel_left hworker
  have hlen := hm.length_drop_le
  refine readsInside_of_same (wsConnection_sized ⟨m.drop 2, wrap32 addr.toNat⟩ hlen run.randomSeed).1 rfl randR
    config fun stray stray' d d' t t' hd hd' => ?_
  obtain ⟨action, hws, hsent⟩ := wsLogin_handled build rsa randR config { run with stray } hconn hlen hd
  obtain ⟨action', hws', hsent'⟩ := wsLogin_handled build rsa randR config { run with stray := stray' } hconn hlen
    hd'
  -- The TCP thread is given the stray bytes of the second worker, and agrees with the first one as well.
  obtain ⟨visits, hcalm, c, shared', action₂, session₂, htcp, hstate, hws₂, hag'⟩ := tcpLogin_delivers build rsa randR
    statusString config hsame hm { run with stray := stray' } hconn hagree fd addr uptime
  obtain ⟨action₁, session₁, -, hws₁, hevery, -⟩ := hall stray
  rw [hws] at hws₁
  cases hws₁
  obtain ⟨c₁, shared₁, htcp₁, hag⟩ := hevery visits hcalm
  rw [htcp] at htcp₁
  cases htcp₁
  rw [hws'] at hws₂
  cases hws₂
  obtain rfl := Agreement.action_eq { run with stray } (hag hstate) hag'
  constructor
  · constructor
    · intro hw
      exact ((hsent' _).mp ((hsent _).mpr ⟨hw, rfl⟩)).1
    · intro hw
      exact ((hsent _).mp ((hsent' _).mpr ⟨hw, rfl⟩)).1
  · intro hw
    exact ((hsent' _).mp ((hsent _).mpr ⟨hw, rfl⟩)).2.symm

/-- The two transports agree just where a login reads nothing beside its buffers. -/
theorem transports_agree_iff :
    TransportsAgree build rsa randR exchange exchange' statusString config m shared run fd addr uptime peer address data
        s ↔
      ReadsInside build rsa exchange' (wsConnection ⟨m.drop 2, wrap32 addr.toNat⟩ run.randomSeed) run.session.client :=
  ⟨inside_of_transportsAgree hsame hm hconn hagree hpeer, transportsAgree_of_inside hsame hm hconn hagree hpeer⟩

end

def loginPacketOf (fields : List UInt8) : List UInt8 :=
  [145, 0, 1, 0, 0, 2, 3] ++ List.replicate 29 0 ++ fields ++ List.replicate (111 - fields.length) 0

theorem sameReplies_answering (reply : List UInt8) :
    SameReplies (answering reply) (answering reply) fun _ _ => True :=
  ⟨fun _ _ _ => rfl, fun _ _ _ => trivial⟩

theorem transports_agree_iff_plain :
    TransportsAgree ⟨.latin1, false⟩ default (fun seed => (7, seed))
      (answering [0, 1, 1, 0, 65, 1, 0, 66, 127, 0, 0, 1, 3, 28, 7, 0])
      (answering [0, 1, 1, 0, 65, 1, 0, 66, 127, 0, 0, 1, 3, 28, 7, 0]) (fun s => ([], s)) default
      (loginPacketOf [1, 0, 97, 1, 0, 98]) ⟨⟨(), []⟩, []⟩ ⟨true, ⟨(), []⟩, default, 9, false⟩ 5 0x7F000001 0
      (text "127.0.0.1") 3 ⟨1, 1⟩ .initial := by
  refine (transports_agree_iff (sameReplies_answering _) (by refine ⟨?_, ?_, ?_⟩ <;> decide +kernel) rfl trivial
    (Or.inl (by decide))).mpr ?_
  intro data hsize hdata hz
  cases hdata
  refine ⟨some ⟨97 :: List.replicate 50 0, 98 :: List.replicate 29 0⟩, by decide +kernel, ?_⟩
  intro cred hcred he hversion reply hreply
  cases hcred
  cases hreply
  intro hok hcount
  exact ⟨([⟨65 :: List.replicate 29 0, 66 :: List.replicate 29 0, 0x7F000001, 0x1C03⟩], 7), by decide +kernel⟩

/-- An email address of 2^32 - 256 bytes moves the position 233 bytes before the
block, so that the password is what the thread has there. -/
theorem stray_password_disagrees :
    ¬TransportsAgree ⟨.latin1, false⟩ default (fun seed => (7, seed)) (answering [1, 1]) (answering [1, 1])
      (fun s => ([], s)) default (loginPacketOf [0xFF, 0xFF, 0, 0xFF, 0xFF, 0xFF]) ⟨⟨(), []⟩, []⟩
      ⟨true, ⟨(), []⟩, default, 9, false⟩ 5 0x7F000001 0 (text "127.0.0.1") 3 ⟨1, 1⟩ .initial := by
  intro h
  have hinside := inside_of_transportsAgree (sameReplies_answering _) (by refine ⟨?_, ?_, ?_⟩ <;> decide +kernel) rfl
    trivial (Or.inl (by decide)) h
  obtain ⟨credentials, hread, -⟩ := hinside _ (by decide +kernel) rfl (by decide +kernel)
  have hfault : (readCredentials .latin1 ⟨asymmetricBlock (wsConnection
      ⟨(loginPacketOf [0xFF, 0xFF, 0, 0xFF, 0xFF, 0xFF]).drop 2, wrap32 (0x7F000001 : UInt32).toNat⟩ 9), 17⟩).toOption =
      none := by
    decide +kernel
  rw [hread] at hfault
  cases hfault

end TibiaLogin.TransportAgreement
