import TibiaLogin.Authorisation
import TibiaLogin.ClientExchange
import TibiaLogin.LoginOutcome
import TibiaLogin.Observation
import TibiaLogin.StatusLimit

namespace TibiaLogin.SharedRun

open MachineInt Memory BufferReader Text Query Authorisation LoginQuery LoginResponse LoginHandler LoginOutcome StatusRecords
  StatusLimit Server ConnectionInput ConnectionTable Observation

def afterQuery {σ : Type} (exchange : Exchange σ) (body : List UInt8) (capacity : Nat) (s : Session σ) : Session σ :=
  ⟨(exchange s.client (requestFrame body) capacity).2,
    s.queries ++ [⟨requestFrame body, replyOf (exchange s.client (requestFrame body) capacity)⟩]⟩

inductive Asked {σ : Type} (exchange : Exchange σ) (s : Session σ) : Session σ → Prop
  | start : Asked exchange s s
  | query {s' : Session σ} (h : Asked exchange s s') (body : List UInt8) (capacity : Nat)
      (hbody : body.length < 0xFFFF)
      (htype : body.head? = some QueryType.resolveEmail.code ∨ body.head? = some QueryType.loginAccount.code) :
      Asked exchange s (afterQuery exchange body capacity s')

theorem Asked.logs {σ : Type} {exchange : Exchange σ} {s s' : Session σ} (h : Asked exchange s s') :
    s.queries <+: s'.queries := by
  induction h with
  | start => exact List.prefix_rfl
  | query _ _ _ _ _ ih => exact ih.trans (List.prefix_append ..)

def statusAsked (visit : Visit) (st : Stages) : Option Request :=
  if st.read.socket ≠ -1 ∧ st.read.state = .processing ∧ st.read.buffer.headD 0 = 255 then
    some ⟨st.read.ipAddress, visit.requestTime⟩
  else none

theorem statusAsked_processing {visit : Visit} {st : Stages} {q : Request} (h : statusAsked visit st = some q) :
    st.read.state = .processing := by
  rw [statusAsked] at h
  split_ifs at h with hasked
  exact hasked.2.1

section

variable {σ : Type} (exchange : Exchange σ) (statusString : Session σ → List UInt8 × Session σ) (config : ServerConfig)

/-- What a visit does to what the connections share. -/
inductive SharedEffect (visit : Visit) (st : Stages) (shared : Shared σ) : Shared σ → Prop
  | none (hnone : statusAsked visit st = none) : SharedEffect visit st shared shared
  | login (hnone : statusAsked visit st = none) {session : Session σ} (h : Asked exchange shared.session session) :
      SharedEffect visit st shared { shared with session }
  | refused {q : Request} (hq : statusAsked visit st = some q) {allowed : Bool} {records : List StatusRecord}
      (h : orStray (allowStatusRequest config.minStatusInterval shared.records q.ipAddress q.uptime)
        visit.strayStatus = (allowed, records)) (hhandled : st.handled = closeConnection st.read) :
      SharedEffect visit st shared { shared with records }
  | told {q : Request} (hq : statusAsked visit st = some q) {records : List StatusRecord}
      (h : orStray (allowStatusRequest config.minStatusInterval shared.records q.ipAddress q.uptime)
        visit.strayStatus = (true, records))
      (hsized : st.read.buffer.length = 2048)
      (hhandled : st.handled = sendStatusString (statusString shared.session).1 st.read) :
      SharedEffect visit st shared ⟨(statusString shared.session).2, records⟩

variable {exchange statusString config} {build : Build} {rsa : RsaKey} {randR : UInt32 → Int × UInt32}

theorem requestOutcome_asked {stray : Stray} {ipAddress : Int} {cred : Credentials} (hcred : cred.Fits)
    {s s' : Session σ} {outcome : Outcome}
    (h : requestOutcome build exchange stray ipAddress cred s = .ok (outcome, s')) : Asked exchange s s' := by
  have he := hcred.email
  have hp := hcred.password
  have hi := length_ipString_le ipAddress
  generalize hr : exchange s.client (requestFrame (resolveRequest build.encoding cred.email)) 1024 = resolved at h
  rw [requestOutcome, resolveEmail_outcome build.encoding exchange cred.email s (by omega) rfl hr, ok_bind] at h
  have hfirst : Asked exchange s
      ⟨resolved.2, s.queries ++ [⟨requestFrame (resolveRequest build.encoding cred.email), replyOf resolved⟩]⟩ := by
    have hstep := (Asked.start : Asked exchange s s).query (resolveRequest build.encoding cred.email) 1024
      (length_resolveRequest_lt build.encoding cred.email (by omega)) (Or.inl rfl)
    rw [afterQuery, hr] at hstep
    exact hstep
  simp only at h
  by_cases hcode : (resolveOutcome (replyOf resolved)).1 ≠ 0
  · rw [if_pos hcode] at h
    cases h
    exact hfirst
  · obtain ⟨code, characters, premiumDays, hl, -⟩ := loginAccount_outcome build.encoding exchange stray.toStrayReply
      (resolveOutcome (replyOf resolved)).2 cred.password (ipString ipAddress) 50
      ⟨resolved.2, s.queries ++ [⟨_, replyOf resolved⟩]⟩ (by omega) (by omega) rfl rfl
    rw [if_neg hcode, hl, ok_bind] at h
    cases h
    exact hfirst.query _ 4096 (length_loginRequest_lt build.encoding _ cred.password (ipString ipAddress) (by omega)
      (by omega)) (Or.inr rfl)

theorem processLoginRequest_asked {stray : Stray} {c c' : Connection} (hb : c.buffer.length = 2048)
    {s s' : Session σ} (h : processLoginRequest build rsa randR exchange config stray c s = .ok (c', s')) :
    Asked exchange s s' := by
  obtain ⟨key, decoded, hd, hfits⟩ := decodeLogin_spec build rsa stray hb
  rw [processLoginRequest_eq, hd, ok_bind] at h
  obtain ⟨⟨outcome, s₁⟩, h₁, h⟩ := bind_eq_ok.mp h
  obtain ⟨c₁, -, h⟩ := bind_eq_ok.mp h
  cases h
  cases decoded with
  | none =>
      cases h₁
      exact .start
  | some login =>
      obtain ⟨version, cred⟩ := login
      simp only [decodedOutcome] at h₁
      split_ifs at h₁
      · cases h₁
        exact .start
      · cases h₁
        exact .start
      · exact requestOutcome_asked (hfits version cred rfl).1 h₁

theorem SharedEffect.logs {visit : Visit} {st : Stages} {shared shared' : Shared σ}
    (hstatus : shared.session.queries <+: (statusString shared.session).2.queries)
    (h : SharedEffect exchange statusString config visit st shared shared') :
    shared.session.queries <+: shared'.session.queries := by
  cases h with
  | none | refused => exact List.prefix_rfl
  | login _ h => exact h.logs
  | told => exact hstatus

theorem visitStages_shared {visit : Visit} {c : Connection} (hslot : SlotOk c) (hbusy : c.state ≠ .free)
    {stream stream' : List UInt8} {shared shared' : Shared σ} {st : Stages}
    (h : visitStages build rsa randR exchange statusString config visit c stream shared = .ok (st, stream', shared')) :
    SharedEffect exchange statusString config visit st shared shared' := by
  obtain ⟨⟨read, stream₁⟩, h₁, h⟩ := bind_eq_ok.mp h
  obtain ⟨⟨handled, shared₁⟩, h₂, h⟩ := bind_eq_ok.mp h
  obtain ⟨sent, h₃, h⟩ := bind_eq_ok.mp h
  cases h
  obtain ⟨read', stream₂, h₁', hactive⟩ := checkConnectionInput_active visit hslot hbusy stream
  rw [h₁] at h₁'
  cases h₁'
  rw [checkConnectionRequest] at h₂
  simp only at h₂
  split_ifs at h₂ with hsocket hstate hassert hlogin hstatus
  · cases h₂
    exact .none (if_neg fun hn => hn.1 hsocket)
  · cases h₂
    exact .none (if_neg fun hn => hstate hn.2.1)
  · split at h₂
    · next hrun =>
        cases h₂
        exact .login (if_neg fun hn => by rw [hlogin] at hn; exact absurd hn.2.2 (by decide))
          (processLoginRequest_asked hactive.sized hrun)
    · cases h₂
  · split at h₂
    · next hrun =>
        cases h₂
        have hq : statusAsked visit ⟨read, handled, sent, expire config visit sent⟩ =
            some ⟨read.ipAddress, visit.requestTime⟩ := if_pos ⟨hsocket, not_not.mp hstate, hstatus⟩
        simp only [processStatusRequest] at hrun
        split_ifs at hrun with hallowed
        · cases hrun
          exact .refused hq rfl rfl
        · obtain ⟨⟨command, r₁⟩, -, hrun⟩ := bind_eq_ok.mp hrun
          obtain ⟨⟨format, r₂⟩, -, hrun⟩ := bind_eq_ok.mp hrun
          simp only at hrun
          split_ifs at hrun
          · obtain ⟨⟨request, r₃⟩, -, hrun⟩ := bind_eq_ok.mp hrun
            simp only at hrun
            split_ifs at hrun
            · cases hrun
              refine .told hq (Prod.ext ?_ rfl) hactive.sized rfl
              simpa using hallowed
            · cases hrun
              exact .refused hq rfl rfl
          · cases hrun
            exact .refused hq rfl rfl
    · cases h₂
  · cases h₂
    exact .none (if_neg fun hn => hstatus hn.2.2)

end

/-- What holds of the shared state and the notes through every step. -/
structure Upheld {σ ω : Type} (obs : Observer ω) (exchange : Exchange σ)
    (statusString : Session σ → List UInt8 × Session σ) (config : ServerConfig) (P : Shared σ → ω → Prop) : Prop where
  refused : ∀ fd shared w, P shared w → P shared (obs.refused fd w)
  assigned : ∀ fd connections shared w, P shared w → P shared (obs.assigned fd connections w)
  visited : ∀ i visit c st shared shared' w, SharedEffect exchange statusString config visit st shared shared' →
    P shared w → P shared' (obs.visited i visit c st w)

section

variable {σ ω : Type} {obs : Observer ω} {exchange : Exchange σ}
  {statusString : Session σ → List UInt8 × Session σ} {config : ServerConfig} {P : Shared σ → ω → Prop}
  (hp : Upheld obs exchange statusString config P) (build : Build) (rsa : RsaKey) (randR : UInt32 → Int × UInt32)

omit hp in
theorem preserved_nothing (obs : Observer ω) (config : ServerConfig) : Preserved obs config fun _ _ => True :=
  ⟨fun _ _ _ _ => trivial, fun _ _ _ _ _ _ _ _ => trivial, fun _ _ _ _ _ _ _ _ _ _ _ _ => trivial⟩

include hp

theorem Upheld.accept (accepted : List AcceptResult) {connections : List Connection} {shared : Shared σ} {w : ω}
    (h : P shared w) : P shared (observeAccept obs accepted connections w).2 := by
  induction accepted generalizing connections w with
  | nil => exact h
  | cons result accepted ih =>
      cases result with
      | none => exact h
      | unusable fd => exact ih (hp.refused fd shared w h)
      | socket fd addr uptime seed => exact ih (hp.assigned fd connections shared w h)

theorem Upheld.visits {n : Nat} (cycle : KernelCycle) {indices : List Nat} {t : State σ × ω}
    (hv : Visiting n indices t.1.connections) (h : P t.1.shared t.2) :
    ∃ t', indices.foldlM (observeVisit obs build rsa randR exchange statusString config cycle) t = .ok t' ∧
      indices.foldlM (visitIndex build rsa randR exchange statusString config cycle.toCycle) t.1 = .ok t'.1 ∧
      (∀ c ∈ t'.1.connections, SlotOk c) ∧ P t'.1.shared t'.2 := by
  induction indices generalizing t with
  | nil => exact ⟨t, rfl, rfl, hv.slots, h⟩
  | cons i indices ih =>
      obtain ⟨t₁, hobserve, hvisit, hv₁, -⟩ := (preserved_nothing obs config).visit build rsa randR exchange statusString
        cycle i indices t hv trivial
      obtain ⟨c, hc, hbusy⟩ := hv.busy i (List.mem_cons_self ..)
      have hslot := hv.slots c (List.mem_of_getElem? hc)
      have hnext := hobserve
      simp only [observeVisit, hc] at hnext
      obtain ⟨⟨st, stream', shared'⟩, hst, hnext⟩ := bind_eq_ok.mp hnext
      cases hnext
      have h₁ := hp.visited i _ c st _ _ t.2 (visitStages_shared hslot hbusy hst) h
      obtain ⟨t', hobserve', hvisit', hslots, h'⟩ := ih hv₁ h₁
      refine ⟨t', ?_, ?_, hslots, h'⟩
      · rw [List.foldlM_cons, hobserve]
        exact hobserve'
      · rw [List.foldlM_cons, hvisit]
        exact hvisit'

theorem Upheld.cycle (cycle : KernelCycle) {t : State σ × ω} (hslots : ∀ c ∈ t.1.connections, SlotOk c)
    (h : P t.1.shared t.2) :
    ∃ t', observeCycle obs build rsa randR exchange statusString config t cycle = .ok t' ∧
      processConnections build rsa randR exchange statusString config t.1 cycle.toCycle = .ok t'.1 ∧
      (∀ c ∈ t'.1.connections, SlotOk c) ∧ P t'.1.shared t'.2 := by
  by_cases hpoll : cycle.pollFailed = true
  · exact ⟨t, if_pos hpoll, if_pos hpoll, hslots, h⟩
  · have hstart : P t.1.shared (observeListener obs cycle t.1.connections t.2).2 := by
      rw [observeListener]
      split_ifs
      · exact hp.accept cycle.accepted h
      · exact h
    have hv := visiting_start cycle.toCycle hslots
    rw [← observeListener_fst obs cycle t.1.connections t.2] at hv
    obtain ⟨t', hobserve, hvisit, hslots', h'⟩ := hp.visits build rsa randR cycle
      (t := (⟨(observeListener obs cycle t.1.connections t.2).1, t.1.shared⟩, _)) hv hstart
    refine ⟨t', ?_, ?_, hslots', h'⟩
    · rw [observeCycle, if_neg hpoll]
      exact hobserve
    · rw [processConnections, if_neg (show ¬cycle.toCycle.pollFailed = true from hpoll), ← observeListener_fst obs]
      exact hvisit

theorem Upheld.run (session : Session σ) (cycles : List KernelCycle) {w : ω}
    (h : P (initConnections config session).shared w) :
    ∃ t, cycles.foldlM (observeCycle obs build rsa randR exchange statusString config)
        (initConnections config session, w) = .ok t ∧
      (cycles.map KernelCycle.toCycle).foldlM (processConnections build rsa randR exchange statusString config)
        (initConnections config session) = .ok t.1 ∧ P t.1.shared t.2 := by
  have hslots : ∀ c ∈ (initConnections config session).connections, SlotOk c := by
    intro c hc
    rw [List.eq_of_mem_replicate hc]
    exact slotOk_zeroed
  generalize initConnections config session = s at h hslots ⊢
  induction cycles generalizing s w with
  | nil => exact ⟨(s, w), rfl, rfl, h⟩
  | cons cycle cycles ih =>
      obtain ⟨t₁, hobserve, hprocess, hslots₁, h₁⟩ := hp.cycle build rsa randR cycle (t := (s, w)) hslots h
      obtain ⟨t', hobserve', hprocess', h'⟩ := ih t₁.1 h₁ hslots₁
      refine ⟨t', ?_, ?_, h'⟩
      · rw [List.foldlM_cons, hobserve]
        exact hobserve'
      · rw [List.map_cons, List.foldlM_cons, show processConnections _ _ _ _ _ _ s _ = _ from hprocess]
        exact hprocess'

end

end TibiaLogin.SharedRun
