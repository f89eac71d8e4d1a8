import TibiaLogin.QueryLockstep
import TibiaLogin.ConnectionTable

namespace TibiaLogin.ClientExchange

open Memory BufferWriter Query LoginQuery LoginHandler Server ConnectionInput ConnectionTable QueryClient QueryAttempt
open QueryLockstep

structure Rested (manager : Manager) (c : Client) : Prop extends Ready manager c where
  loggedIn : LoggedIn c

def readerOf : Option (List UInt8) → BufferReader
  | none => ⟨[], 0⟩
  | some body => ⟨body, 1⟩

section

variable (net : Network) (manager : Manager) (enc : ClientEncoding)

def reconnecting (frame : List UInt8) (capacity : Nat) (c : Client) : Except Fault (Option (List UInt8) × Client) :=
  attempts net manager (fun c => connect net manager enc c.host c.port c.password c) frame capacity 2 c

def clientExchange : Exchange Client := fun c frame capacity =>
  match reconnecting net manager enc frame capacity c with
  | .error _ => (none, c)
  | .ok (none, c') => (none, c')
  | .ok (some body, c') =>
      if h : 0 < body.length ∧ body.length ≤ capacity then (some ⟨body, h.1, h.2⟩, c') else (none, c')

theorem clientExchange_eq {c : Client} (h : Rested manager c) {body : List UInt8} (hne : body ≠ []) (capacity : Nat) :
    ∃ reply c', reconnecting net manager enc (requestFrame body) capacity c = .ok (reply, c') ∧ Rested manager c' ∧
      replyOf (clientExchange net manager enc c (requestFrame body) capacity) = reply ∧
      (clientExchange net manager enc c (requestFrame body) capacity).2 = c' := by
  have hreconnect : ∀ c, Ready manager c → c.socket = none → ∃ ready c',
      connect net manager enc c.host c.port c.password c = .ok (ready, c') ∧ Ready manager c' ∧ LoggedIn c' :=
    fun c hc hs => connect_ready net manager enc c.host c.port c.password hc (loggedIn_of_none hs)
  obtain ⟨reply, c', hr, he⟩ := attempts_ended net manager hreconnect ⟨body, hne, rfl⟩ capacity 2 h.toReady
    (Or.inr h.loggedIn)
  have hrun : reconnecting net manager enc (requestFrame body) capacity c = .ok (reply, c') := hr
  refine ⟨reply, c', hrun, ⟨he.ready, he.loggedIn h.loggedIn⟩, ?_⟩
  rw [clientExchange, hrun]
  cases reply with
  | none => exact ⟨rfl, rfl⟩
  | some bytes =>
      obtain ⟨hpos, hle, -⟩ := he.answers bytes rfl
      simp only
      rw [dif_pos ⟨hpos, hle⟩]
      exact ⟨rfl, rfl⟩

theorem executeQuery_refines (query : Prepared) {c : Client} (h : Rested manager c) (queries : List Executed) :
    ∃ status reply c' queries', QueryClient.executeQuery net manager enc true query.writer c = .ok (status, reply, c') ∧
      Rested manager c' ∧ Query.executeQuery (clientExchange net manager enc) query.writer ⟨c, queries⟩ =
        .ok (status, readerOf reply, ⟨c', queries'⟩) := by
  obtain ⟨a, b, body, hholds, hne, hbody⟩ := query.holds
  obtain ⟨w, hlen, htake, hframe⟩ := frameRequest_eq hholds query.sized hbody
  rw [QueryClient.executeQuery, exchange, Query.executeQuery, hframe, ok_bind, ok_bind]
  by_cases hfit : (requestFrame body).length ≤ query.writer.buffer.length
  · obtain ⟨reply, c', hr, hrested, hreply, hclient⟩ := clientExchange_eq net manager enc h hne w.buffer.length
    rw [reconnecting] at hr
    rw [if_pos hfit]
    simp only [htake hfit, if_true, hr, ok_bind]
    generalize clientExchange net manager enc c (requestFrame body) w.buffer.length = outcome at hreply hclient ⊢
    obtain ⟨o, client⟩ := outcome
    cases hclient
    cases o with
    | none =>
        cases hreply
        exact ⟨_, none, client, _, rfl, hrested, rfl⟩
    | some answer =>
        cases hreply
        simp only [replyOf, Option.map_some]
        rw [readU8_status, received_some]
        exact ⟨_, some answer.bytes, client, _, rfl, hrested, rfl⟩
  · rw [if_neg hfit]
    exact ⟨_, none, c, queries, rfl, h, rfl⟩

end

section

variable {σ : Type} (build : Build) (rsa : RsaKey) (randR : UInt32 → Int × UInt32) {exchange : Exchange σ}
  {statusString : Session σ → List UInt8 × Session σ} (config : ServerConfig) {P : σ → Prop}
  (hexchange : ∀ client body capacity, body ≠ [] → P client → P (exchange client (requestFrame body) capacity).2)

include hexchange

theorem requestCharacters_keeps {cred : Credentials} (hcred : cred.Fits) {c : Connection}
    (hs : c.state = .processing) (hb : c.buffer.length = 2048) (stray : Stray) {s : Session σ} (h : P s.client) :
    ∃ c' s', requestCharacters build randR exchange config stray cred c s = .ok (c', s') ∧ P s'.client := by
  have hresolve := hexchange s.client (resolveRequest build.encoding cred.email) 1024 (List.cons_ne_nil _ _) h
  generalize hr : exchange s.client (requestFrame (resolveRequest build.encoding cred.email)) 1024 = outcome at hresolve
  by_cases hcode : (resolveOutcome (replyOf outcome)).1 = 0
  · obtain ⟨c', code, characters, premiumDays, hc', -⟩ := requestCharacters_granted build randR exchange config stray
      hcred hs hb s rfl hr hcode rfl rfl
    exact ⟨c', _, hc', hexchange outcome.2 _ 4096 (List.cons_ne_nil _ _) hresolve⟩
  · obtain ⟨c', hc', -⟩ := requestCharacters_refused build randR exchange config stray hcred hs hb s rfl hr hcode
    exact ⟨c', _, hc', hresolve⟩

theorem processLoginRequest_keeps {c : Connection} (hs : c.state = .processing) (hb : c.buffer.length = 2048)
    (stray : Stray) {s : Session σ} (h : P s.client) :
    ∃ c' s', processLoginRequest build rsa randR exchange config stray c s = .ok (c', s') ∧ P s'.client := by
  cases hq : queryCredentials build rsa stray c with
  | none =>
      obtain ⟨key, c', hp, -⟩ := processLoginRequest_settled build rsa randR exchange config stray hb s hs hq
      exact ⟨c', s, hp, h⟩
  | some cred =>
      obtain ⟨data, hfits, -, hp⟩ := processLoginRequest_asked build rsa randR exchange config stray hb s hq
      rw [hp]
      exact requestCharacters_keeps build randR config hexchange hfits (c := { c with xtea := keyOf data }) hs hb stray h

variable (hstatus : ∀ s : Session σ, P s.client → P (statusString s).2.client)

include hstatus

omit hexchange in
theorem processStatusRequest_keeps (visit : Visit) {c c' : Connection} {shared shared' : Shared σ}
    (h : P shared.session.client)
    (hrun : processStatusRequest statusString config visit c shared = .ok (c', shared')) :
    P shared'.session.client := by
  simp only [processStatusRequest] at hrun
  split_ifs at hrun
  · cases hrun
    exact h
  · obtain ⟨⟨command, r₁⟩, -, hrun⟩ := bind_eq_ok.mp hrun
    obtain ⟨⟨format, r₂⟩, -, hrun⟩ := bind_eq_ok.mp hrun
    simp only at hrun
    split_ifs at hrun
    · obtain ⟨⟨request, r₃⟩, -, hrun⟩ := bind_eq_ok.mp hrun
      simp only at hrun
      split_ifs at hrun
      · cases hrun
        exact hstatus shared.session h
      · cases hrun
        exact h
    · cases hrun
      exact h

theorem checkConnectionRequest_keeps (visit : Visit) {c c' : Connection} (ha : Active c) {shared shared' : Shared σ}
    (h : P shared.session.client)
    (hrun : checkConnectionRequest build rsa randR exchange statusString config visit c shared = .ok (c', shared')) :
    P shared'.session.client := by
  simp only [checkConnectionRequest] at hrun
  split_ifs at hrun with _ hidle
  · cases hrun
    exact h
  · cases hrun
    exact h
  · obtain ⟨c₁, s₁, hl, h₁⟩ := processLoginRequest_keeps build rsa randR config hexchange (not_not.mp hidle) ha.sized
      visit.stray h
    rw [hl] at hrun
    cases hrun
    exact h₁
  · cases hs : processStatusRequest statusString config visit c shared with
    | error f =>
        rw [hs] at hrun
        cases hrun
    | ok result =>
        rw [hs] at hrun
        cases hrun
        exact processStatusRequest_keeps config hstatus visit h hs
  · cases hrun
    exact h

theorem visitConnection_keeps (visit : Visit) {c c' : Connection} (hslot : SlotOk c) (hbusy : c.state ≠ .free)
    {stream stream' : List UInt8} {shared shared' : Shared σ} (h : P shared.session.client)
    (hrun : visitConnection build rsa randR exchange statusString config visit c stream shared =
      .ok (c', stream', shared')) : P shared'.session.client := by
  obtain ⟨c₁, stream₁, h₁, ha⟩ := checkConnectionInput_active visit hslot hbusy stream
  rw [visitConnection, h₁, ok_bind] at hrun
  obtain ⟨⟨c₂, shared₂⟩, h₂, hrun⟩ := bind_eq_ok.mp hrun
  obtain ⟨c₃, -, hrun⟩ := bind_eq_ok.mp hrun
  cases hrun
  exact checkConnectionRequest_keeps build rsa randR config hexchange hstatus visit ha h h₂

theorem processConnections_keeps (cycle : Cycle) {s : State σ} (hslots : ∀ c ∈ s.connections, SlotOk c)
    (h : P s.shared.session.client) :
    ∃ s', processConnections build rsa randR exchange statusString config s cycle = .ok s' ∧
      (∀ c ∈ s'.connections, SlotOk c) ∧ P s'.shared.session.client := by
  rw [processConnections]
  by_cases hf : cycle.pollFailed = true
  · exact ⟨s, if_pos hf, hslots, h⟩
  · rw [if_neg hf]
    obtain ⟨s', hrun, hv, hkept⟩ := foldlM_invariant
      (fun l (st : State σ) => Visiting s.connections.length l st.connections ∧ P st.shared.session.client)
      (fun i l st hst => by
        obtain ⟨c, hc, hbusy⟩ := hst.1.busy i (List.mem_cons_self ..)
        obtain ⟨d, d', stream', shared', hd, hvisit, hrun, hv'⟩ :=
          visitIndex_visiting build rsa randR exchange statusString config cycle i l st hst.1
        cases hc.symm.trans hd
        exact ⟨_, hrun, hv', visitConnection_keeps build rsa randR config hexchange hstatus (cycle.visits i)
          (hst.1.slots c (List.mem_of_getElem? hc)) hbusy hst.2 hvisit⟩)
      (b := ⟨_, s.shared⟩) ⟨visiting_start cycle hslots, h⟩
    exact ⟨s', hrun, hv.slots, hkept⟩

theorem run_keeps {session : Session σ} (h : P session.client) (cycles : List Cycle) :
    ∃ s, cycles.foldlM (processConnections build rsa randR exchange statusString config)
        (initConnections config session) = .ok s ∧ P s.shared.session.client := by
  obtain ⟨s, hrun, -, hkept⟩ := foldlM_invariant
    (fun _ (s : State σ) => (∀ c ∈ s.connections, SlotOk c) ∧ P s.shared.session.client)
    (fun cycle _ s hs => processConnections_keeps build rsa randR config hexchange hstatus cycle hs.1 hs.2)
    (l := cycles) (b := initConnections config session) ⟨fun c hc => by
      rw [List.eq_of_mem_replicate hc]
      exact slotOk_zeroed, h⟩
  exact ⟨s, hrun, hkept⟩

end

/-- The server's own query client stays in lockstep with the manager through
every run, as long as the status queries keep it so. -/
theorem server_in_lockstep (net : Network) (manager : Manager) (build : Build) (rsa : RsaKey)
    (randR : UInt32 → Int × UInt32) (statusString : Session Client → List UInt8 × Session Client)
    (config : ServerConfig) (hstatus : ∀ s, Rested manager s.client → Rested manager (statusString s).2.client)
    {session : Session Client} (h : Rested manager session.client) (cycles : List Cycle) :
    ∃ s, cycles.foldlM (processConnections build rsa randR (clientExchange net manager build.encoding) statusString
        config) (initConnections config session) = .ok s ∧ Rested manager s.shared.session.client := by
  refine run_keeps build rsa randR config (fun client body capacity hne hc => ?_) hstatus h cycles
  obtain ⟨reply, c', -, hrested, -, hclient⟩ := clientExchange_eq net manager build.encoding hc hne capacity
  rw [hclient]
  exact hrested

end TibiaLogin.ClientExchange
