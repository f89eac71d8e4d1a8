import TibiaLogin.Framing
import TibiaLogin.SharedRun
import TibiaLogin.StatusHandler

namespace TibiaLogin.StatusService

open MachineInt Memory Text BufferReader Query LoginQuery LoginHandler Authorisation Server WorldQuery StatusDocument
  ReadConfig StatusHandler QueryLockstep ClientExchange Framing Observation SharedRun

/-- A refresh of the document, with what the query of the worlds came to. -/
structure Refresh where
  time : Int
  stray : WorldInfo
  reply : Option (List UInt8)

/-- The query client with the static variables of the status handler, the
number of its calls and the refreshes among them. -/
structure Service (σ : Type) where
  client : σ
  cache : StatusCache
  calls : Nat
  refreshes : List Refresh

def Service.initial {σ : Type} (client : σ) : Service σ := ⟨client, .zeroed, 0, []⟩

/-- What the handler is given from outside: the clock at each of its calls, and
the worlds left by undefined behaviour. -/
structure Surroundings where
  clock : Nat → Int
  stray : Nat → WorldInfo
  stored : ∀ call, (stray call).Stored

section

variable {σ : Type} (enc : ClientEncoding) (exchange : Exchange σ) (config : Config) (around : Surroundings)

def serviceExchange : Exchange (Service σ) := fun s frame capacity =>
  ((exchange s.client frame capacity).1, { s with client := (exchange s.client frame capacity).2 })

def newReply (s s' : Session (Service σ)) : Option (List UInt8) :=
  (s'.queries.drop s.queries.length).head?.bind (·.reply)

/-- The status string of the server, with the handler's variables in the session. -/
def statusString (s : Session (Service σ)) : List UInt8 × Session (Service σ) :=
  match getStatusString enc (serviceExchange exchange) (around.stray s.client.calls) config
      (around.clock s.client.calls) s.client.cache s with
  | .error _ => ([], s)
  | .ok (status, cache, s') =>
      (status, { s' with
        client := { s'.client with
          cache
          calls := s.client.calls + 1
          refreshes :=
            if config.minStatusInterval ≤
                wrap32 (wrap32 (around.clock s.client.calls) - s.client.cache.lastStatusRefresh) then
              ⟨around.clock s.client.calls, around.stray s.client.calls, newReply s s'⟩ :: s.client.refreshes
            else s.client.refreshes } })

def Refresh.world (r : Refresh) : Int × WorldInfo :=
  orStray (worldResult enc r.stray config.statusWorld (statusOf r.reply) (readerOf r.reply)) (-1, .zeroed)

def Refresh.document (r : Refresh) : List UInt8 :=
  statusText (statusFields config (wrap32 r.time) (r.world enc config).1 (r.world enc config).2)

def refreshed : List Refresh → Int
  | [] => 0
  | r :: _ => wrap32 r.time

/-- The refreshes, the last one first, keep their distance. -/
def Spaced : List Refresh → Prop
  | [] => True
  | r :: refreshes => config.minStatusInterval ≤ wrap32 (wrap32 r.time - refreshed refreshes) ∧ Spaced refreshes

/-- The handler holds the document of its last refresh, and each refresh has
asked for the worlds once. -/
structure Cached (s : Session (Service σ)) : Prop where
  sized : s.client.cache.statusString.length = 2048
  time_eq : s.client.cache.lastStatusRefresh = refreshed s.client.refreshes
  text_eq : cString s.client.cache.statusString =
    match s.client.refreshes with
    | [] => []
    | r :: _ => (r.document enc config).take 2047
  spaced : Spaced config s.client.refreshes
  queries_eq : s.queries.filter (fun e => e.request = requestFrame worldsRequest) =
    (s.client.refreshes.map fun r => ⟨requestFrame worldsRequest, r.reply⟩).reverse

theorem worldResult_ok (stray : WorldInfo) (worldName : List UInt8) (status : QueryStatus) (bytes : List UInt8) :
    ∃ result, worldResult enc stray worldName status ⟨bytes, 1⟩ = .ok result := by
  cases status with
  | ok => exact ⟨_, by rw [worldResult, readU8_second, ok_bind]; rfl⟩
  | error | failed | other => exact ⟨_, rfl⟩

theorem getWorld_refresh (r : Refresh) {s : Session (Service σ)}
    (hreply : replyOf (serviceExchange exchange s.client (requestFrame worldsRequest) 4096) = r.reply) :
    getWorld enc (serviceExchange exchange) r.stray config.statusWorld s =
      .ok ((r.world enc config).1, (r.world enc config).2,
        afterQuery (serviceExchange exchange) worldsRequest 4096 s) := by
  rw [getWorld_eq, afterQuery, Refresh.world, ← hreply]
  generalize serviceExchange exchange s.client (requestFrame worldsRequest) 4096 = outcome
  obtain ⟨reply, client⟩ := outcome
  cases reply with
  | none => rfl
  | some reply =>
      obtain ⟨result, hresult⟩ := worldResult_ok enc r.stray config.statusWorld (.ofByte (reply.bytes.headD 0)) reply.bytes
      have hsame : worldResult enc r.stray config.statusWorld (statusOf (replyOf (some reply, client)))
          (readerOf (replyOf (some reply, client))) = .ok result := hresult
      rw [received_some, ok_bind, hsame]
      simp only [hresult, ok_bind]
      rfl

theorem world_stored {r : Refresh} (hstray : r.stray.Stored) {s : Session (Service σ)}
    (hreply : replyOf (serviceExchange exchange s.client (requestFrame worldsRequest) 4096) = r.reply) :
    (r.world enc config).2.Stored := by
  obtain ⟨result, world, s', hget, hworld⟩ := getWorld_stored enc (serviceExchange exchange) hstray config.statusWorld s
  rw [getWorld_refresh enc exchange config r hreply] at hget
  cases hget
  exact hworld

def nextRefresh (s : Session (Service σ)) : Refresh :=
  ⟨around.clock s.client.calls, around.stray s.client.calls,
    replyOf (serviceExchange exchange s.client (requestFrame worldsRequest) 4096)⟩

def Due (s : Session (Service σ)) : Prop :=
  config.minStatusInterval ≤ wrap32 (wrap32 (around.clock s.client.calls) - s.client.cache.lastStatusRefresh)

theorem statusString_cases (hconfig : config.Sized) {s : Session (Service σ)}
    (hsized : s.client.cache.statusString.length = 2048) :
    (Due config around s ∧ ∃ returned : List UInt8, returned.length = 2048 ∧
      cString returned = ((nextRefresh exchange around s).document enc config).take 2047 ∧
      statusString enc exchange config around s = (returned,
        ⟨⟨(exchange s.client.client (requestFrame worldsRequest) 4096).2,
          ⟨wrap32 (around.clock s.client.calls), returned⟩, s.client.calls + 1,
          nextRefresh exchange around s :: s.client.refreshes⟩,
          s.queries ++ [⟨requestFrame worldsRequest, (nextRefresh exchange around s).reply⟩]⟩)) ∨
    (¬Due config around s ∧ statusString enc exchange config around s =
      (s.client.cache.statusString, { s with client := { s.client with calls := s.client.calls + 1 } })) := by
  by_cases hdue : Due config around s
  · have hget := getWorld_refresh enc exchange config (nextRefresh exchange around s) (s := s) rfl
    obtain ⟨returned, hrun, hlen, htext⟩ := getStatusString_due enc (serviceExchange exchange)
      (around.stray s.client.calls) hconfig hdue hsized
      (world_stored enc exchange config (around.stored s.client.calls) (s := s) rfl) hget
    refine Or.inl ⟨hdue, returned, hlen, htext, ?_⟩
    have hnew : newReply s (afterQuery (serviceExchange exchange) worldsRequest 4096 s) =
        (nextRefresh exchange around s).reply := by
      rw [newReply, afterQuery, List.drop_left]
      rfl
    rw [Due] at hdue
    simp only [statusString, hrun, if_pos hdue, hnew]
    rfl
  · refine Or.inr ⟨hdue, ?_⟩
    rw [Due] at hdue
    have hrun : getStatusString enc (serviceExchange exchange) (around.stray s.client.calls) config
        (around.clock s.client.calls) s.client.cache s = .ok (s.client.cache.statusString, s.client.cache, s) :=
      if_neg hdue
    simp only [statusString, hrun, if_neg hdue]

theorem cached_status (hconfig : config.Sized) {s : Session (Service σ)} (h : Cached enc config s) :
    Cached enc config (statusString enc exchange config around s).2 := by
  rcases statusString_cases enc exchange config around hconfig h.sized with ⟨hdue, returned, hlen, htext, hrun⟩ | ⟨-, hrun⟩
  · rw [hrun]
    refine ⟨hlen, rfl, htext, ⟨?_, h.spaced⟩, ?_⟩
    · rw [← h.time_eq]
      exact hdue
    · rw [List.filter_append, h.queries_eq, List.map_cons, List.reverse_cons]
      simp
  · rw [hrun]
    exact ⟨h.sized, h.time_eq, h.text_eq, h.spaced, h.queries_eq⟩

theorem worlds_not_login {body : List UInt8} (hlen : body.length < 0xFFFF)
    (htype : body.head? = some QueryType.resolveEmail.code ∨ body.head? = some QueryType.loginAccount.code) :
    requestFrame body ≠ requestFrame worldsRequest := by
  intro h
  obtain ⟨a, b, hf⟩ := requestFrame_short hlen
  obtain ⟨a', b', hf'⟩ := requestFrame_short (show worldsRequest.length < 0xFFFF by decide)
  rw [hf, hf'] at h
  injection h with _ h
  injection h with _ h
  rw [h] at htype
  revert htype
  decide

theorem cached_asked {s s' : Session (Service σ)} (ha : Asked (serviceExchange exchange) s s')
    (h : Cached enc config s) : Cached enc config s' := by
  induction ha with
  | start => exact h
  | query hbefore body capacity hlen htype ih =>
      refine ⟨ih.sized, ih.time_eq, ih.text_eq, ih.spaced, ?_⟩
      rw [afterQuery, List.filter_append, ih.queries_eq]
      simp only [List.filter_cons, decide_eq_true_eq, if_neg (worlds_not_login hlen htype), List.filter_nil,
        List.append_nil]
      rfl

omit enc config in
theorem service_asked {s s' : Session (Service σ)} (ha : Asked (serviceExchange exchange) s s') :
    s'.client.calls = s.client.calls ∧ s'.client.refreshes = s.client.refreshes := by
  induction ha with
  | start => exact ⟨rfl, rfl⟩
  | query hbefore body capacity hlen htype ih => exact ih

omit exchange in
theorem cached_initial (client : σ) : Cached enc config ⟨Service.initial client, []⟩ :=
  ⟨List.length_replicate, rfl, rfl, trivial, rfl⟩

end

def answersObserver : Observer (List (List UInt8)) where
  refused _ w := w
  assigned _ _ w := w
  visited _ visit _ st w :=
    if (statusAsked visit st).isSome ∧ st.handled.state = .writing then
      w ++ [st.handled.buffer.take st.handled.rwSize.toNat]
    else w

section

variable {σ : Type} (enc : ClientEncoding) (exchange : Exchange σ) (config : Config) (around : Surroundings)

/-- The text of a call is the document of a refresh, made by this very call or
within the interval before it. Up to an interval after time zero it can be empty,
for want of a refresh. -/
def UpToDate (refreshes : List Refresh) (call : Nat) (text : List UInt8) : Prop :=
  (text = [] ∧ ¬config.minStatusInterval ≤ wrap32 (wrap32 (around.clock call))) ∨
    ∃ r ∈ refreshes, text = (r.document enc config).take 2047 ∧ (r.time = around.clock call ∨
      ¬config.minStatusInterval ≤ wrap32 (wrap32 (around.clock call) - wrap32 r.time))

structure Published (shared : Shared (Service σ)) (answers : List (List UInt8)) : Prop where
  cached : Cached enc config shared.session
  calls_eq : shared.session.client.calls = answers.length
  upToDate : ∀ (call : Nat) (text : List UInt8), answers[call]? = some text →
    UpToDate enc config around shared.session.client.refreshes call text

theorem UpToDate.mono {refreshes refreshes' : List Refresh} (h : refreshes ⊆ refreshes') {call : Nat}
    {text : List UInt8} (hu : UpToDate enc config around refreshes call text) :
    UpToDate enc config around refreshes' call text :=
  hu.imp_right fun ⟨r, hr, hrest⟩ => ⟨r, h hr, hrest⟩

theorem statusString_upToDate (hconfig : config.Sized) {s : Session (Service σ)} (h : Cached enc config s) :
    s.client.refreshes ⊆ (statusString enc exchange config around s).2.client.refreshes ∧
      (statusString enc exchange config around s).2.client.calls = s.client.calls + 1 ∧
      UpToDate enc config around (statusString enc exchange config around s).2.client.refreshes s.client.calls
        (cString (statusString enc exchange config around s).1) := by
  rcases statusString_cases enc exchange config around hconfig h.sized with ⟨hdue, returned, hlen, htext, hrun⟩ | ⟨hdue, hrun⟩
  · rw [hrun]
    exact ⟨List.subset_cons_self _ _, rfl, Or.inr ⟨_, List.mem_cons_self .., htext, Or.inl rfl⟩⟩
  · rw [hrun]
    refine ⟨List.Subset.refl _, rfl, ?_⟩
    rw [Due, h.time_eq] at hdue
    have htext := h.text_eq
    cases hr : s.client.refreshes with
    | nil =>
        rw [hr] at htext hdue
        rw [refreshed, Int.sub_zero] at hdue
        exact Or.inl ⟨htext, hdue⟩
    | cons r refreshes =>
        rw [hr] at htext hdue
        exact Or.inr ⟨r, List.mem_cons_self .., htext, Or.inr hdue⟩

theorem published_upheld (hconfig : config.Sized) (server : ServerConfig) :
    Upheld answersObserver (serviceExchange exchange) (statusString enc exchange config around) server
      (Published enc config around) where
  refused _ _ _ h := h
  assigned _ _ _ _ h := h
  visited i visit c st shared shared' answers heffect h := by
    have hvisited : answersObserver.visited i visit c st answers =
        if (statusAsked visit st).isSome ∧ st.handled.state = .writing then
          answers ++ [st.handled.buffer.take st.handled.rwSize.toNat]
        else answers := rfl
    obtain ⟨hcached, hcalls, hupToDate⟩ := h
    cases heffect with
    | none hnone =>
        rw [hvisited, if_neg (by simp [hnone])]
        exact ⟨hcached, hcalls, hupToDate⟩
    | login hnone hasked =>
        obtain ⟨hsame, hrefreshes⟩ := service_asked exchange hasked
        rw [hvisited, if_neg (by simp [hnone])]
        exact ⟨cached_asked enc exchange config hasked hcached, hsame.trans hcalls, by rw [hrefreshes]; exact hupToDate⟩
    | refused hq hallowed hhandled =>
        have hstate : st.handled.state ≠ .writing := by
          rw [hhandled, closeConnection_eq, statusAsked_processing hq]
          simp
        rw [hvisited, if_neg fun hn => hstate hn.2]
        exact ⟨hcached, hcalls, hupToDate⟩
    | told hq hallowed hsized hhandled =>
        obtain ⟨hgrown, hcalls', htext⟩ := statusString_upToDate enc exchange config around hconfig hcached
        have hprocessing := statusAsked_processing hq
        have hfits : (cString (statusString enc exchange config around shared.session).1).length ≤ 2048 := by
          rcases statusString_cases enc exchange config around hconfig hcached.sized with
            ⟨-, returned, hlen, -, hrun⟩ | ⟨-, hrun⟩
          · rw [hrun, ← hlen]
            exact length_cString_le returned
          · rw [hrun, ← hcached.sized]
            exact length_cString_le _
        have hsent := pending_sendStatusString hprocessing hsized hfits
        have hwriting : st.handled.state = .writing ∧ st.handled.rwPosition = 0 := by
          rw [hhandled, sendStatusString, if_neg (not_not.mpr hprocessing)]
          exact ⟨rfl, rfl⟩
        rw [← hhandled, pending, hwriting.2] at hsent
        have hnote : answersObserver.visited i visit c st answers =
            answers ++ [cString (statusString enc exchange config around shared.session).1] := by
          rw [hvisited, if_pos ⟨by simp [hq], hwriting.1⟩, ← hsent]
          rfl
        rw [hnote]
        refine ⟨cached_status enc exchange config around hconfig hcached, ?_, fun call text hcall => ?_⟩
        · rw [hcalls', hcalls, List.length_append]
          rfl
        · rw [List.getElem?_append] at hcall
          split_ifs at hcall with hlt
          · exact (hupToDate call text hcall).mono enc config around hgrown
          · have hlast : call = answers.length := by
              have hbound := (List.getElem?_eq_some_iff.mp hcall).1
              rw [List.length_singleton] at hbound
              omega
            rw [hlast, Nat.sub_self] at hcall
            cases hcall
            rw [hlast, ← hcalls]
            exact htext

/-- Whatever the clients of the server do, each status request that is answered
gets the document of a refresh that is no older than the interval, or no text
in the interval after time zero, the manager is asked once for every refresh, and
refreshes keep the interval apart. -/
theorem status_service (hconfig : config.Sized) (build : Build) (rsa : RsaKey) (randR : UInt32 → Int × UInt32)
    (server : ServerConfig) (client : σ) (cycles : List KernelCycle) :
    ∃ s answers, cycles.foldlM (observeCycle answersObserver build rsa randR (serviceExchange exchange)
        (statusString enc exchange config around) server)
        (initConnections server ⟨Service.initial client, []⟩, []) = .ok (s, answers) ∧
      (cycles.map KernelCycle.toCycle).foldlM (processConnections build rsa randR (serviceExchange exchange)
        (statusString enc exchange config around) server)
        (initConnections server ⟨Service.initial client, []⟩) = .ok s ∧
      Published enc config around s.shared answers := by
  obtain ⟨t, hobserve, hrun, hpublished⟩ := (published_upheld enc exchange config around hconfig server).run build rsa
    randR ⟨Service.initial client, []⟩ cycles (w := [])
    ⟨cached_initial enc config client, rfl, fun call text h => by cases h⟩
  exact ⟨t.1, t.2, hobserve, hrun, hpublished⟩

end

def standing : Surroundings := ⟨fun _ => 1000, fun _ => .zeroed, fun _ => zeroed_stored⟩

def statusCycles : List KernelCycle :=
  [serve [.socket 5 0 0 0] [] [] [], serve [] [6, 0, 255, 255, 105, 110, 102, 111] [.bytes 1, .bytes 5] [.bytes 2047]]

theorem status_service_unanswered :
    ∃ s answers, statusCycles.foldlM (observeCycle answersObserver ⟨.latin1, false⟩ default (fun seed => (0, seed))
        (serviceExchange unanswered) (statusString .latin1 unanswered .zeroed standing)
        { oneConnection with maxStatusRecords := 1 })
        (initConnections { oneConnection with maxStatusRecords := 1 } ⟨Service.initial (), []⟩, []) = .ok (s, answers) ∧
      answers.length = 1 ∧ Published .latin1 Config.zeroed standing s.shared answers := by
  obtain ⟨s, answers, hobserve, -, hpublished⟩ := status_service .latin1 unanswered .zeroed standing zeroed_sized
    ⟨.latin1, false⟩ default (fun seed => (0, seed)) { oneConnection with maxStatusRecords := 1 } () statusCycles
  have hcount : (statusCycles.foldlM (observeCycle answersObserver ⟨.latin1, false⟩ default (fun seed => (0, seed))
      (serviceExchange unanswered) (statusString .latin1 unanswered .zeroed standing)
      { oneConnection with maxStatusRecords := 1 })
      (initConnections { oneConnection with maxStatusRecords := 1 } ⟨Service.initial (), []⟩, [])).toOption.map
        (fun t => t.2.length) = some 1 := by
    decide +kernel
  rw [hobserve] at hcount
  exact ⟨s, answers, hobserve, Option.some.inj hcount, hpublished⟩

end TibiaLogin.StatusService
