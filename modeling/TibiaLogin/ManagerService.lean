import TibiaLogin.LoginService
import TibiaLogin.QueryFraming
import TibiaLogin.StatusService

namespace TibiaLogin.ManagerService

open MachineInt Memory ByteOrder BufferWriter Query LoginHandler Server QueryClient QueryAttempt QueryLockstep
  QueryFraming ClientExchange StatusService ConnectionTable FollowedClient AccountService
  LoginService
open ClientReader (Answer)

/-- A query manager that answers the queries of a login from its accounts. -/
def Honest (accounts : Accounts) (manager : Manager) : Prop :=
  ∀ connection frame frames answer, accounts.reply frame = some answer →
    (manager connection (frame :: frames)).body = answer

/-- A query manager that lets the server in. -/
def Welcoming (manager : Manager) : Prop :=
  ∀ connection body frames, body.length ≤ 512 →
    (manager connection (requestFrame (QueryType.login.code :: body) :: frames)).body.head? = some 0 ∧
      (manager connection (requestFrame (QueryType.login.code :: body) :: frames)).body.length ≤ 1024

structure Healthy (net : Network) : Prop extends NoFailures net where
  resolves : ∀ i, net.resolves i = true
  sockets : ∀ i, net.sockets i = true
  connects : ∀ i, net.connects i = true

theorem length_reply_le {accounts : Accounts} {frame answer : List UInt8} (h : accounts.reply frame = some answer) :
    answer.length ≤ 4096 := by
  rw [Accounts.reply] at h
  split_ifs at h
  · obtain ⟨email, -, h⟩ := Option.bind_eq_some_iff.mp h
    cases h
    cases accounts.resolve email <;> simp [resolveReply]
  · obtain ⟨password, -, h⟩ := Option.bind_eq_some_iff.mp h
    obtain ⟨address, -, h⟩ := Option.bind_eq_some_iff.mp h
    cases h
    cases hverdict : accounts.verdict (readU32Le ((frame.drop 3).take 4)) password address with
    | granted characters premiumDays =>
        obtain ⟨hcount, hstorable⟩ := accounts.listable hverdict
        exact length_verdictReply hcount hstorable
    | refused code => simp [Verdict.reply]

section

variable {accounts : Accounts} {net : Network} {manager : Manager} (hhonest : Honest accounts manager)
  (enc : ClientEncoding)

include hhonest

theorem serves_clientExchange : Serves accounts (clientExchange net manager enc) (Rested manager) where
  faithful := by
    intro c body capacity reply answer hrested hne hreply hanswer
    have hreconnect : ∀ c, Ready manager c → c.socket = none → ∃ ready c',
        connect net manager enc c.host c.port c.password c = .ok (ready, c') ∧ Ready manager c' ∧ LoggedIn c' :=
      fun c hc hs => connect_ready net manager enc c.host c.port c.password hc (loggedIn_of_none hs)
    obtain ⟨bytes, c', hr, he⟩ := attempts_ended net manager hreconnect ⟨body, hne, rfl⟩ capacity 2 hrested.toReady
      (Or.inr hrested.loggedIn)
    have hrun : reconnecting net manager enc (requestFrame body) capacity c = .ok (bytes, c') := hr
    rw [clientExchange, hrun] at hreply
    cases bytes with
    | none => cases hreply
    | some bytes =>
        obtain ⟨hpos, hle, n, log, -, hlog⟩ := he.answers bytes rfl
        simp only at hreply
        rw [dif_pos ⟨hpos, hle⟩] at hreply
        cases hreply
        have hlockstep := he.ready.lockstep
        rw [hlog] at hlockstep
        obtain ⟨-, hbytes, -⟩ := hlockstep
        change bytes = answer
        rw [hbytes, requestsOn, if_pos rfl]
        exact hhonest n (requestFrame body) _ answer hanswer
  keeps := by
    intro c body hrested hne capacity
    obtain ⟨reply, c', -, hkept, -, hsame⟩ := clientExchange_eq net manager enc hrested hne capacity
    rw [hsame]
    exact hkept

end

section

variable {net : Network} (hnet : NoFailures net)

include hnet

theorem readReply_frame (connection : Nat) (frame : List UInt8) {capacity : Nat} {c : Client} {r : Response}
    (hpos : 0 < r.body.length) (hbody : r.body.length < 2147483648) (hcapacity : r.body.length ≤ capacity)
    (h : c.unread = r.frame) :
    ∃ c', readReply net connection frame capacity c = (.response r.body, c') ∧ c'.socket = c.socket := by
  obtain ⟨extended, body, hannounced⟩ := r
  have hheader : ∃ header, Announces header body.length ∧ c.unread = header ++ body := by
    cases extended with
    | false =>
        have hlt : body.length < 65535 := hannounced
        have hsize : (toU16 body.length).toNat = body.length := toNat_toU16 (by omega)
        refine ⟨writeU16Le (toU16 body.length), ?_, h⟩
        have hshort := Announces.short (toU16 body.length) (by
          intro he
          rw [he] at hsize
          rw [show (0xFFFF : UInt16).toNat = 65535 from rfl] at hsize
          omega)
        rw [hsize] at hshort
        exact hshort
    | true =>
        have hsize : (toU32 body.length).toNat = body.length := toNat_toU32 (by simp only at hbody; omega)
        refine ⟨writeU16Le 0xFFFF ++ writeU32Le (toU32 body.length), ?_, h⟩
        have hextended := Announces.extended (toU32 body.length)
        rw [hsize] at hextended
        exact hextended
  obtain ⟨header, hannounces, hunread⟩ := hheader
  obtain ⟨clock₁, hr₁⟩ := readReply_header hnet connection frame capacity hannounces hunread
  obtain ⟨clock₂, hr₂⟩ := readExact_calm hnet body [] (c := { c with clock := clock₁, unread := body })
    (List.append_nil body).symm
  simp only at hpos hbody hcapacity ⊢
  rw [hr₁, wrap32_natCast hbody, readResponse, if_neg (by omega), Int.toNat_natCast, hr₂]
  exact ⟨_, rfl, rfl⟩

theorem attempts_open (manager : Manager) (reconnect : Client → Except Fault (Bool × Client)) {connection : Nat}
    (frame : List UInt8) {capacity : Nat} (left : Nat) {c : Client} (hs : c.socket = some connection) (hunread : c.unread = [])
    (hpos : 0 < (manager connection (frame :: requestsOn connection c.log)).body.length)
    (hbody : (manager connection (frame :: requestsOn connection c.log)).body.length < 2147483648)
    (hcapacity : (manager connection (frame :: requestsOn connection c.log)).body.length ≤ capacity) :
    ∃ c', attempts net manager reconnect frame capacity (left + 1) c =
      .ok (some (manager connection (frame :: requestsOn connection c.log)).body, c') := by
  obtain ⟨clock, outcome, c', hread, hrun, -⟩ := attempts_sent hnet manager reconnect frame capacity left hs
  obtain ⟨d, hresponse, -⟩ := readReply_frame hnet connection frame
    (c := transmit manager connection frame { c with clock }) hpos hbody hcapacity (by simp only [transmit, hunread, List.nil_append])
  rw [hread] at hresponse
  cases hresponse
  exact ⟨_, hrun⟩

end

theorem attempts_reconnected (net : Network) (manager : Manager) (reconnect : Client → Except Fault (Bool × Client))
    (frame : List UInt8) (capacity left : Nat) {c c₁ : Client} {connection : Nat} (hs : c.socket = none)
    (hreconnect : reconnect c = .ok (true, c₁)) (hs₁ : c₁.socket = some connection) :
    attempts net manager reconnect frame capacity (left + 1) c =
      attempts net manager reconnect frame capacity (left + 1) c₁ := by
  have hround : attemptRound net manager reconnect frame capacity c =
      attemptRound net manager reconnect frame capacity c₁ := by
    rw [attemptRound, attemptRound, hs, hs₁, Option.isNone_none, if_pos rfl, hreconnect, ok_bind, Option.isNone_some,
      if_neg Bool.false_ne_true, pure_bind]
  rw [attempts, attempts, hround]

section

variable {net : Network} (hhealthy : Healthy net) {manager : Manager} (hwelcoming : Welcoming manager)
  (enc : ClientEncoding)

include hhealthy hwelcoming

theorem login_accepted {c : Client} {connection : Nat} (hs : c.socket = some connection) (hunread : c.unread = [])
    (hpassword : c.password.length ≤ 255) :
    ∃ c', login net manager enc c = .ok (true, c') ∧ c'.socket = some connection := by
  obtain ⟨w, body, hw, hholds, hlen⟩ := loginQuery_holds enc hpassword
  obtain ⟨hhead, hle⟩ := hwelcoming connection body (requestsOn connection c.log) hlen
  have hpos : 0 < (manager connection (requestFrame (QueryType.login.code :: body) ::
      requestsOn connection c.log)).body.length := by
    rw [List.length_pos_iff]
    rintro hnil
    rw [hnil] at hhead
    cases hhead
  rcases exchange_sent hhealthy.toNoFailures manager (fun c => pure (false, c)) hholds (by decide)
    (by rw [List.length_cons]; omega) hs with ⟨hlong, -⟩ | ⟨-, clock, outcome, c', hread, hrun, -⟩
  · rw [requestFrame_short (by rw [List.length_cons]; omega)] at hlong
    simp only [shortFrame, List.length_append, length_writeU16Le, List.length_cons] at hlong
    omega
  · obtain ⟨d, hresponse, hsocket⟩ := readReply_frame hhealthy.toNoFailures connection
      (requestFrame (QueryType.login.code :: body))
      (c := transmit manager connection (requestFrame (QueryType.login.code :: body)) { c with clock }) hpos (by omega)
      hle (by simp only [transmit, hunread, List.nil_append])
    rw [hread] at hresponse
    cases hresponse
    have hstatus : statusOf (some (manager connection (requestFrame (QueryType.login.code :: body) ::
        requestsOn connection c.log)).body) = .ok := by
      rw [statusOf, List.headD_eq_head?_getD, hhead]
      rfl
    rw [login, hw, ok_bind, hrun, ok_bind]
    simp only [Outcome.body, hstatus, ne_eq, not_true_eq_false, if_false]
    exact ⟨c', rfl, hsocket.trans hs⟩

theorem connect_accepted (host : List UInt8) (port : Int) (password : List UInt8) {c : Client} (hs : c.socket = none) :
    ∃ c' connection, connect net manager enc host port password c = .ok (true, c') ∧ c'.socket = some connection := by
  have hresolve := hhealthy.resolves c.clock
  have hsocket := hhealthy.sockets (c.clock + 1)
  have hconnect := hhealthy.connects (c.clock + 1 + 1)
  rw [connect, if_neg (by simp [hs]), if_neg (by simp [hresolve]), if_neg (by simp [Client.tick, hsocket]),
    if_neg (by simp [Client.tick, hconnect])]
  obtain ⟨c', hlogin, hopen⟩ := login_accepted hhealthy hwelcoming enc
    (c := { c with host := (cString host).take 255, port, password := (cString password).take 255,
                   clock := c.clock + 1 + 1 + 1, socket := some c.opened, opened := c.opened + 1, unread := [],
                   log := .opened c.opened :: c.log }) rfl rfl (List.length_take_le ..)
  exact ⟨c', c.opened, hlogin, hopen⟩

theorem reliable_clientExchange {accounts : Accounts} (hhonest : Honest accounts manager) :
    Reliable accounts (clientExchange net manager enc) (Rested manager) := by
  intro c body answer hrested hanswer capacity hcapacity
  have hpos := reply_nonempty hanswer
  have hle := length_reply_le hanswer
  have hanswered : ∃ c', reconnecting net manager enc (requestFrame body) capacity c = .ok (some answer, c') := by
    have hopen : ∀ d, Ready manager d → ∀ connection, d.socket = some connection → ∃ reply,
        reconnecting net manager enc (requestFrame body) capacity d = .ok (some answer, reply) := by
      intro d hd connection hs
      have hbody := hhonest connection (requestFrame body) (requestsOn connection d.log) answer hanswer
      have hroom : (manager connection (requestFrame body :: requestsOn connection d.log)).body.length ≤ capacity := by
        rw [hbody]
        exact hcapacity
      obtain ⟨reply, hrun⟩ := attempts_open hhealthy.toNoFailures manager
        (fun c => connect net manager enc c.host c.port c.password c) (requestFrame body) 1 hs hd.boundary
        (by rw [hbody]; exact hpos) (by rw [hbody]; omega) hroom
      rw [hbody] at hrun
      exact ⟨reply, hrun⟩
    cases hs : c.socket with
    | some connection => exact hopen c hrested.toReady connection hs
    | none =>
        obtain ⟨d, connection, hconnect, hd⟩ := connect_accepted hhealthy hwelcoming enc c.host c.port c.password hs
        obtain ⟨ready, d', hagain, hready, -⟩ := connect_ready net manager enc c.host c.port c.password hrested.toReady
          hrested.loggedIn
        rw [hconnect] at hagain
        cases hagain
        obtain ⟨reply, hrun⟩ := hopen d hready connection hd
        refine ⟨reply, ?_⟩
        rw [reconnecting, attempts_reconnected net manager (fun c => connect net manager enc c.host c.port c.password c)
          (requestFrame body) capacity 1 hs hconnect hd]
        exact hrun
  obtain ⟨c', hrun⟩ := hanswered
  rw [clientExchange, hrun]
  simp only
  rw [dif_pos ⟨hpos, hcapacity⟩]
  simp

end

/-- A login server with its query manager, and a client that logs in. -/
structure Deployment where
  accounts : Accounts
  net : Network
  manager : Manager
  honest : Honest accounts manager
  status : ReadConfig.Config
  status_sized : status.Sized
  around : Surroundings
  build : Build
  latin1 : build.encoding = .latin1
  rsa : RsaKey
  publicKey : PublicKey rsa
  config : ServerConfig
  randR : UInt32 → Int × UInt32
  form : LoginForm
  extra : List UInt8

section

variable (d : Deployment)

def Deployment.exchange : Exchange (Service Client) :=
  serviceExchange (clientExchange d.net d.manager d.build.encoding)

/-- The query client rests, and the status handler has its whole string. -/
def Deployment.Resting (s : Service Client) : Prop :=
  Rested d.manager s.client ∧ s.cache.statusString.length = 2048

theorem Deployment.serves : Serves d.accounts d.exchange d.Resting where
  faithful hresting := (serves_clientExchange d.honest d.build.encoding).faithful hresting.1
  keeps hresting hne capacity := ⟨(serves_clientExchange d.honest d.build.encoding).keeps hresting.1 hne capacity, hresting.2⟩

theorem Deployment.reliable (hhealthy : Healthy d.net) (hwelcoming : Welcoming d.manager) :
    Reliable d.accounts d.exchange d.Resting := fun hresting =>
  reliable_clientExchange hhealthy hwelcoming d.build.encoding d.honest hresting.1

theorem Deployment.status_keeps (s : Session (Service Client)) (h : d.Resting s.client) :
    d.Resting (statusString d.build.encoding (clientExchange d.net d.manager d.build.encoding) d.status d.around s).2.client := by
  obtain ⟨hrested, hsized⟩ := h
  rcases statusString_cases d.build.encoding (clientExchange d.net d.manager d.build.encoding) d.status d.around
    d.status_sized hsized with ⟨-, returned, hlen, -, hrun⟩ | ⟨-, hrun⟩
  · rw [hrun]
    exact ⟨(serves_clientExchange d.honest d.build.encoding).keeps hrested (by decide) 4096, hlen⟩
  · rw [hrun]
    exact ⟨hrested, hsized⟩

theorem Deployment.status_logs (s : Session (Service Client)) (h : d.Resting s.client) : s.queries <+:
    (statusString d.build.encoding (clientExchange d.net d.manager d.build.encoding) d.status d.around s).2.queries := by
  rcases statusString_cases d.build.encoding (clientExchange d.net d.manager d.build.encoding) d.status d.around
    d.status_sized h.2 with ⟨-, returned, -, -, hrun⟩ | ⟨-, hrun⟩
  · rw [hrun]
    exact List.prefix_append ..
  · rw [hrun]

def Deployment.login : LoginService.Login (Service Client) where
  accounts := d.accounts
  exchange := d.exchange
  P := d.Resting
  keeps hresting hne capacity := d.serves.keeps hresting hne capacity
  serves := d.serves
  build := d.build
  latin1 := d.latin1
  rsa := d.rsa
  publicKey := d.publicKey
  config := d.config
  randR := d.randR
  statusString := statusString d.build.encoding (clientExchange d.net d.manager d.build.encoding) d.status d.around
  status_keeps := d.status_keeps
  status_logs := d.status_logs
  form := d.form
  extra := d.extra

/-- The answer for a login, unless one of the queries made since it was accepted
has failed, which takes a call that fails or a manager that turns the server away. -/
def Deployment.Tells (later : List Executed) (c : Connection) (answer : Answer) : Prop :=
  answer = d.accounts.answer d.build d.config.motd d.form (ipString c.ipAddress) ∨
    (d.form.Unanswered (ipString c.ipAddress) later answer ∧ ¬(Healthy d.net ∧ Welcoming d.manager))

theorem Deployment.tells_of_expects {later : List Executed} {c : Connection} {answer : Answer}
    (h : d.login.Expects later c answer) : d.Tells later c answer :=
  h.imp_right fun hfailed => ⟨hfailed.1, fun hwell => hfailed.2 (d.reliable hwell.1 hwell.2)⟩

theorem Deployment.resting_connected {host : List UInt8} {port : Int} {password : List UInt8} {ready : Bool}
    {client : Client} (h : connect d.net d.manager d.build.encoding host port password .initial = .ok (ready, client)) :
    d.Resting (Service.initial client) := by
  obtain ⟨ready', client', hrun, hready, hloggedIn⟩ := connect_ready d.net d.manager d.build.encoding host port password
    (c := .initial) ⟨⟨trivial, rfl, fun n hn => by cases hn⟩, rfl⟩ (loggedIn_of_none rfl)
  rw [h] at hrun
  cases hrun
  exact ⟨⟨hready, hloggedIn⟩, List.length_replicate⟩

section

variable {host : List UInt8} {port : Int} {password : List UInt8} {ready : Bool} {client : Client}
  (hconnect : connect d.net d.manager d.build.encoding host port password .initial = .ok (ready, client))
  {before : List Cycle} {state : State (Service Client)}
  (hreach : before.foldlM (processConnections d.build d.rsa d.randR d.exchange d.login.statusString d.config)
    (initConnections d.config ⟨Service.initial client, []⟩) = .ok state)
  {i : Nat} {c : Connection} (hc : state.connections[i]? = some c) (haccepted : JustAccepted c)

include hconnect hreach hc haccepted

end

end

def Accounts.manager (accounts : Accounts) : Manager := fun _ frames =>
  ⟨false, (accounts.reply (frames.headD [])).getD [0], by
    rw [if_neg Bool.false_ne_true]
    cases hreply : accounts.reply (frames.headD []) with
    | none => decide
    | some answer => exact Nat.lt_of_le_of_lt (length_reply_le hreply) (by decide)⟩

theorem honest_manager (accounts : Accounts) : Honest accounts (Accounts.manager accounts) := by
  intro connection frame frames answer hanswer
  simp only [Accounts.manager, List.headD_cons, hanswer, Option.getD_some]

theorem welcoming_manager (accounts : Accounts) : Welcoming (Accounts.manager accounts) := by
  intro connection body frames hlen
  have hnone : accounts.reply (requestFrame (QueryType.login.code :: body)) = none := by
    rw [requestFrame_short (by rw [List.length_cons]; omega)]
    rfl
  simp only [Accounts.manager, List.headD_cons, hnone, Option.getD_none]
  decide

theorem steady_healthy : Healthy steady := ⟨steady_noFailures, fun _ => rfl, fun _ => rfl, fun _ => rfl⟩

def plainDeployment : Deployment where
  accounts := oneAccount
  net := steady
  manager := Accounts.manager oneAccount
  honest := honest_manager oneAccount
  status := .zeroed
  status_sized := ReadConfig.zeroed_sized
  around := standing
  build := plainService.build
  latin1 := plainService.latin1
  rsa := default
  publicKey := plainKey
  config := Framing.oneConnection
  randR seed := (0, seed)
  form := plainForm
  extra := []

def plainClient : Client :=
  ((connect steady (Accounts.manager oneAccount) .latin1 [104] 7173 [112] .initial).toOption.map Prod.snd).getD .initial

theorem plainClient_connected :
    connect plainDeployment.net plainDeployment.manager plainDeployment.build.encoding [104] 7173 [112] .initial =
      .ok (true, plainClient) := by
  obtain ⟨c', connection, hconnect, -⟩ := connect_accepted steady_healthy (welcoming_manager oneAccount) .latin1 [104] 7173
    [112] (c := .initial) rfl
  rw [plainClient, hconnect]
  exact hconnect

def plainAccepted : State (Service Client) :=
  ⟨Framing.justAccepted.connections, ⟨⟨Service.initial plainClient, []⟩, []⟩⟩

theorem plainAccepted_reached :
    [Framing.deliver [.socket 5 0 0 0] []].foldlM (processConnections plainDeployment.build plainDeployment.rsa
      plainDeployment.randR plainDeployment.exchange plainDeployment.login.statusString plainDeployment.config)
      (initConnections plainDeployment.config ⟨Service.initial plainClient, []⟩) = .ok plainAccepted := by
  have haccept : acceptConnections [.socket 5 0 0 0] (List.replicate 1 .zeroed) = plainAccepted.connections := by
    decide +kernel
  have hpolled : polledIndices (List.replicate 1 .zeroed) = [] := by decide
  rw [List.foldlM_cons]
  simp only [processConnections, Framing.deliver, initConnections, plainDeployment, Framing.oneConnection, haccept, hpolled]
  rfl

theorem plainDeployment_completed :
    (followCycle plainDeployment.build plainDeployment.rsa plainDeployment.randR plainDeployment.exchange
        plainDeployment.login.statusString plainDeployment.config 0
        (plainAccepted, ⟨plainDeployment.login.stream, .fresh, false⟩) exchanging).toOption.map
          (fun t => (t.2.life.completed, t.2.released)) = some (true, true) := by
  decide +kernel

end TibiaLogin.ManagerService
