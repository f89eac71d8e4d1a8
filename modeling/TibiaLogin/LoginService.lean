import TibiaLogin.AccountService
import TibiaLogin.Deadline
import TibiaLogin.FollowedClient

namespace TibiaLogin.LoginService

open MachineInt Memory ByteOrder Query LoginQuery LoginResponse LoginHandler Server ConnectionInput ConnectionTable
  InputDelivery Framing Observation ConnectionLife Deadline FollowedClient ClientReader AccountService

def LoginForm.stream (form : LoginForm) {rsa : RsaKey} (publicKey : PublicKey rsa) (extra : List UInt8) : List UInt8 :=
  writeU16Le 145 ++ (form.request publicKey ++ extra)

section

variable (form : LoginForm) {rsa : RsaKey} (publicKey : PublicKey rsa) (extra : List UInt8)

theorem length_request : (form.request publicKey).length = 145 := by
  have hlen := publicKey.length_encrypt form.length_block
  have hsigned := form.signed
  simp only [LoginForm.request, List.length_cons, List.length_append, length_writeU16Le]
  omega

theorem announcedSize_stream : announcedSize (LoginForm.stream form publicKey extra) = 145 := by
  rw [announcedSize, LoginForm.stream, readU16Le_writeU16Le]
  rfl

theorem request_of_stream :
    ((LoginForm.stream form publicKey extra).drop 2).take 145 = form.request publicKey := by
  rw [LoginForm.stream, List.drop_left' (length_writeU16Le 145), List.take_left' (length_request form publicKey)]

variable {form publicKey extra}

theorem holding_of_delivered {start : Int} {c : Connection} {rest : List UInt8}
    (h : Delivered start (LoginForm.stream form publicKey extra) c rest) (hopen : c.socket ≠ -1)
    (hs : c.state = .processing) : Holding publicKey form c ∧ rest = extra := by
  cases h with
  | reading hr => exact absurd (hr.shape.1.symm.trans hs) (by simp)
  | refused _ hclosed => exact absurd hclosed hopen
  | request hb _ _ hsize _ hdata hrest =>
      rw [announcedSize_stream] at hsize hdata hrest
      refine ⟨⟨hb, hs, hsize, hdata.trans (request_of_stream form publicKey extra)⟩, ?_⟩
      rw [hrest, ← List.drop_drop, LoginForm.stream, List.drop_left' (length_writeU16Le 145),
        List.drop_left' (length_request form publicKey)]

end

/-- A client that logs in, and the server that it meets. -/
structure Login (σ : Type) extends Host σ where
  accounts : Accounts
  serves : Serves accounts exchange P
  latin1 : build.encoding = .latin1
  publicKey : PublicKey rsa
  form : LoginForm
  extra : List UInt8

section

variable {σ : Type} (login : Login σ)

def Login.stream : List UInt8 := LoginForm.stream login.form login.publicKey login.extra

/-- The answers for a connection, by the address of its peer and the queries made
since it was accepted. -/
def Login.Expects (later : List Executed) (c : Connection) (answer : Answer) : Prop :=
  Expected login.accounts login.exchange login.P login.build login.config.motd login.form (ipString c.ipAddress) later
    answer

def Login.response (c : Connection) (answer : Answer) : List UInt8 :=
  responseBytes login.randR login.form.key c.randomSeed answer.bytes

/-- A response that carries an answer. -/
def Carries (later : List Executed) (c : Connection) (r : Outgoing) : Prop :=
  ∃ answer, login.Expects later c answer ∧ answer.bytes.length ≤ 2038 ∧ r.data = login.response c answer ∧
    r.size = r.data.length

variable (c₀ : Connection)

/-- The connection of the client between two visits. -/
structure Current (c : Connection) (peer : Peer) : Prop where
  busy : c.state ≠ .free
  life : LifeOk c peer.life
  reading : c.state = .reading → Reading c.startTime login.stream c peer.unread ∧ SamePeer c₀ c

structure Served (later : List Executed) (life : Life) : Prop where
  one : OneResponse life
  carries : ∀ r ∈ life.responses, Carries login later c₀ r

variable {c₀}

theorem Carries.mono {later later' : List Executed} {c : Connection} {r : Outgoing} (h : Carries login later c r)
    (hsub : later ⊆ later') : Carries login later' c r := by
  obtain ⟨answer, hexpected, hresponse⟩ := h
  exact ⟨answer, hexpected.mono hsub, hresponse⟩

theorem Served.mono {later later' : List Executed} {life : Life} (h : Served login c₀ later life)
    (hsub : later ⊆ later') : Served login c₀ later' life :=
  ⟨h.one, fun r hr => (h.carries r hr).mono login hsub⟩

omit login in
theorem queries_later {base later later' log log' : List Executed} {shared shared' : Shared σ}
    (hlog : log = base ++ later) (hlog' : log' = base ++ later') (hbefore : log <+: shared.session.queries)
    (hafter : shared'.session.queries <+: log') {queries : List Executed}
    (hqueries : shared'.session.queries = shared.session.queries ++ queries) : queries ⊆ later' := by
  subst hlog hlog'
  obtain ⟨more, hmore⟩ := hbefore
  rw [hqueries, ← hmore, List.append_assoc, List.append_assoc, List.prefix_append_right_inj] at hafter
  intro q hq
  exact hafter.subset (List.mem_append_right _ (List.mem_append_right _ hq))

theorem request_answered {visit : Visit} {c read handled : Connection} {unread unread' : List UInt8}
    {shared shared' : Shared σ} (hslot : SlotOk c) (hreading : Reading c.startTime login.stream c unread)
    (hpeer : SamePeer c₀ c) (hP : login.P shared.session.client)
    (hinput : checkConnectionInput visit c unread = .ok (read, unread')) (hopen : read.socket ≠ -1)
    (hrequest : Requesting read)
    (hrun : checkConnectionRequest login.build login.rsa login.randR login.exchange login.statusString login.config
      visit read shared = .ok (handled, shared')) :
    unread' = login.extra ∧ ∃ answer queries, shared'.session.queries = shared.session.queries ++ queries ∧
      login.Expects queries c₀ answer ∧ SamePeer c₀ read ∧
      Replied login.randR answer.bytes { read with xtea := login.form.key } handled := by
  have hbusy : c.state ≠ .free := by simp [hreading.shape.1]
  have hsame := hpeer.trans (checkConnectionInput_peer hslot hbusy hinput)
  obtain ⟨hholding, hrest⟩ := holding_of_delivered ((checkConnectionInput_followed hreading hinput).resolve_right hopen)
    hopen hrequest.1
  have hcommand : read.buffer.headD 0 = 1 := by
    have hhead : (read.buffer.take 145).headD 0 = read.buffer.headD 0 := by
      cases read.buffer <;> rfl
    rw [← hhead, hholding.content]
    rfl
  obtain ⟨answer, c', session, queries, hlogin, -, hlog, hexpected, hreplied⟩ := processLoginRequest_answer login.serves
    login.config visit.stray login.latin1 hholding login.randR hP
  rw [checkConnectionRequest, if_neg hopen, if_neg (not_not.mpr hrequest.1),
    if_neg (not_not.mpr (Int.lt_of_lt_of_le Int.zero_lt_one hrequest.2.1)), if_pos hcommand, hlogin] at hrun
  cases hrun
  rw [hsame.ipAddress] at hexpected
  exact ⟨hrest, answer, queries, hlog, hexpected, hsame, hreplied⟩

theorem entered_carries {visit : Visit} {c : Connection} {st : Stages} {unread unread' : List UInt8}
    {shared shared' : Shared σ} (hslot : SlotOk c) (hbusy : c.state ≠ .free)
    (hreading : c.state = .reading → Reading c.startTime login.stream c unread ∧ SamePeer c₀ c)
    (hP : login.P shared.session.client) {later : List Executed}
    (hlater : ∀ queries, shared'.session.queries = shared.session.queries ++ queries → queries ⊆ later)
    (h : visitStages login.build login.rsa login.randR login.exchange login.statusString login.config visit c unread
      shared = .ok (st, unread', shared')) : ∀ r ∈ entered st.read st.handled, Carries login later c₀ r := by
  obtain ⟨hvisited, -⟩ := visited_of_stages login.build login.rsa login.randR login.exchange login.statusString
    login.config hslot hbusy h
  obtain ⟨⟨read, stream₁⟩, h₁, h⟩ := bind_eq_ok.mp h
  obtain ⟨⟨handled, shared₁⟩, h₂, h⟩ := bind_eq_ok.mp h
  obtain ⟨sent, h₃, h⟩ := bind_eq_ok.mp h
  cases h
  intro r hr
  simp only [entered] at hr
  split_ifs at hr with hentered
  · obtain rfl := List.mem_singleton.mp hr
    cases hvisited with
    | waiting _ hread _ hhandled =>
        simp only at hhandled hread
        rw [hhandled, hread] at hentered
        exact absurd hentered.2 (by simp)
    | writing hw hread hhandled =>
        simp only at hhandled hread
        rw [hhandled] at hentered
        exact absurd hentered.2 hentered.1
    | requested hstate hsocket hrequest hresponded =>
        simp only at hsocket hrequest
        obtain ⟨hread, hpeer⟩ := hreading hstate
        have hopen : read.socket ≠ -1 := by
          rw [hsocket]
          exact hslot.socket
        obtain ⟨-, answer, queries, hlog, hexpected, hsame, hreplied⟩ := request_answered login hslot hread hpeer hP h₁
          hopen hrequest h₂
        have hbytes := hreplied.bytes_eq hentered.2
        have hsize := hreplied.size_eq hentered.2
        simp only [hsame.randomSeed] at hbytes hsize
        refine ⟨answer, hexpected.mono (hlater queries hlog), hreplied.fits.mp hentered.2, hbytes, ?_⟩
        simp only
        rw [hbytes]
        exact hsize
  · cases hr

theorem visit_served {visit : Visit} {c : Connection} {peer : Peer} {st : Stages} {unread : List UInt8}
    {shared shared' : Shared σ} (hslot : SlotOk c) (hcurrent : Current login c₀ c peer)
    {later : List Executed} (hserved : Served login c₀ later peer.life) (hP : login.P shared.session.client)
    (hlater : ∀ queries, shared'.session.queries = shared.session.queries ++ queries → queries ⊆ later)
    (hst : visitStages login.build login.rsa login.randR login.exchange login.statusString login.config visit c
      peer.unread shared = .ok (st, unread, shared')) :
    Served login c₀ later (peer.life.visit visit st) ∧ ((settle st.expired).state ≠ .free →
      ∀ released, Current login c₀ (settle st.expired) ⟨unread, peer.life.visit visit st, released⟩) := by
  obtain ⟨hbusy, hlife, hreading⟩ := hcurrent
  obtain ⟨hvisited, hexpired⟩ := visited_of_stages login.build login.rsa login.randR login.exchange
    login.statusString login.config hslot hbusy hst
  obtain ⟨hone, hpolled, hok⟩ := visit_lifeAfter hslot hvisited hlife
  have hentered := entered_carries login hslot hbusy hreading hP hlater hst
  refine ⟨⟨hone, ?_⟩, ?_⟩
  · intro r hr
    rcases List.mem_append.mp hr with hr | hr
    · exact hserved.carries r hr
    · exact hentered r hr
  · intro hkept released
    have hstages := hst
    refine ⟨hkept, ?_, fun hstate => ?_⟩
    · rw [hexpired] at hkept ⊢
      obtain ⟨hsame, hopen⟩ := settle_kept hpolled hkept
      rw [hsame]
      exact hok hopen
    · obtain ⟨hbefore, hsame, hreads⟩ := visitStages_reading login.toHost hslot hbusy (fun hs => (hreading hs).1) hst
        hstate
      refine ⟨hreads, ?_⟩
      obtain ⟨⟨read, stream₁⟩, h₁, h⟩ := bind_eq_ok.mp hstages
      obtain ⟨⟨handled, shared₁⟩, h₂, h⟩ := bind_eq_ok.mp h
      obtain ⟨sent, h₃, h⟩ := bind_eq_ok.mp h
      cases h
      rw [hsame]
      exact (hreading hbefore).2.trans (checkConnectionInput_peer hslot hbusy h₁)

/-- The server with the notes on a client, and the queries made so far: those
before it was accepted and those since. -/
structure Following (base later : List Executed) (c₀ : Connection) (i : Nat) (t : State σ × Peer) : Prop where
  slots : ∀ c ∈ t.1.connections, SlotOk c
  keeps : login.P t.1.shared.session.client
  logged : t.1.shared.session.queries = base ++ later
  served : Served login c₀ later t.2.life
  place : t.2.released = false → ∃ c, t.1.connections[i]? = some c ∧ Current login c₀ c t.2

theorem followCycle_following (i : Nat) (cycle : Cycle) {base later : List Executed} {t : State σ × Peer}
    (h : Following login base later c₀ i t) :
    ∃ t' later', followCycle login.build login.rsa login.randR login.exchange login.statusString login.config i t cycle =
      .ok t' ∧ later ⊆ later' ∧ Following login base later' c₀ i t' := by
  obtain ⟨t', hfollow, -, hslots', hP', hgrows, hcases⟩ := followCycle_seen login.toHost cycle i h.slots h.keeps
    fun hover => by
      obtain ⟨c, hc, hcurrent⟩ := h.place hover
      exact ⟨c, hc, hcurrent.busy⟩
  obtain ⟨more, hmore⟩ := hgrows
  rw [h.logged, List.append_assoc] at hmore
  have hsub : later ⊆ later ++ more := List.subset_append_left ..
  refine ⟨t', later ++ more, hfollow, hsub, ?_⟩
  rcases hcases with ⟨-, rfl⟩ | ⟨hgone, hpeer⟩ | ⟨-, hover, c, st, unread, hc, hnoted⟩
  · exact ⟨h.slots, h.keeps, hmore.symm, h.served.mono login hsub, h.place⟩
  · refine ⟨hslots', hP', hmore.symm, by rw [hpeer]; exact h.served.mono login hsub, fun hover => ?_⟩
    rw [hpeer, hgone] at hover
    cases hover
  · obtain ⟨d, hd, hcurrent⟩ := h.place hover
    obtain rfl : c = d := by rwa [hc, Option.some.injEq] at hd
    obtain ⟨shared, shared', hP, hbefore, hafter, hst⟩ := hnoted.stages
    obtain ⟨hserved, hnext⟩ := visit_served login (h.slots c (List.mem_of_getElem? hc)) hcurrent (h.served.mono login hsub)
      hP (fun queries hqueries => queries_later h.logged hmore.symm hbefore hafter hqueries) hst
    refine ⟨hslots', hP', hmore.symm, ?_, fun hkept => ⟨_, hnoted.place, ?_⟩⟩
    · rw [hnoted.peer_eq]
      exact hserved
    · rw [hnoted.peer_eq] at hkept ⊢
      exact hnext (of_decide_eq_false hkept) _

/-- The client has got nothing, or a part of the response to one answer, which
it can read once the response is complete. -/
def Got (later : List Executed) (c : Connection) (life : Life) : Prop :=
  (life.written = [] ∧ life.completed = false) ∨
    ∃ answer, login.Expects later c answer ∧ answer.bytes.length ≤ 2038 ∧ life.written <+: login.response c answer ∧
      (life.completed = true ↔ life.written = login.response c answer) ∧
      (life.completed = true → readResponse login.form.key life.written = some answer)

theorem got_of_served {later : List Executed} {life : Life} (h : Served login c₀ later life) :
    Got login later c₀ life := by
  cases hr : life.responses with
  | nil => exact Or.inl (h.one.silent hr)
  | cons r rs =>
      have hmem : r ∈ life.responses := by
        rw [hr]
        exact List.mem_cons_self ..
      obtain ⟨answer, hexpected, hfits, hdata, hsize⟩ := h.carries r hmem
      obtain ⟨hpart, hwhole⟩ := h.one.sent r hmem
      have hpos : 0 < r.size := by
        rw [hsize, hdata, Login.response, length_responseBytes]
        omega
      rw [hdata] at hpart hwhole
      refine Or.inr ⟨answer, hexpected, hfits, hpart, (hwhole hpos).symm, fun hcompleted => ?_⟩
      rw [(hwhole hpos).mpr hcompleted]
      exact readResponse_responseBytes login.randR login.form.key c₀.randomSeed
        (hexpected.sendable login.config.motd_fits) (by omega)

/-- What the kernel and the client do in a visit without trouble: only bytes
that are there are reported, and nothing fails or comes too late. -/
structure Calm (config : ServerConfig) (start : Int) (visit : Visit) (unread : List UInt8) : Prop
    extends Quiet config start visit where
  polled : visit.pollin = true → unread ≠ []
  sending : ∀ d ∈ visit.departures, d ≠ .failed

omit login in
theorem outputTrace_done {departures : List Departure} (hsend : ∀ d ∈ departures, d ≠ .failed) {c c' : Connection}
    (hrun : outputLoop departures c = .ok c') : c'.socket = c.socket ∨ (outputTrace departures c).2 = true := by
  induction departures generalizing c with
  | nil =>
      cases hrun
      exact Or.inl rfl
  | cons departure departures ih =>
      obtain ⟨hd, hrest⟩ := List.forall_mem_cons.mp hsend
      simp only [outputLoop] at hrun
      split_ifs at hrun
      cases departure with
      | again =>
          cases hrun
          exact Or.inl rfl
      | failed => exact absurd rfl hd
      | bytes more =>
          simp only [outputTrace]
          simp only at hrun
          split_ifs at hrun ⊢
          · exact Or.inr rfl
          · exact ih hrest hrun

omit login in
theorem outputOf_done {visit : Visit} (hsend : ∀ d ∈ visit.departures, d ≠ .failed) {c c' : Connection}
    (hrun : checkConnectionOutput visit c = .ok c') : c'.socket = c.socket ∨ (outputOf visit c).2 = true := by
  rw [checkConnectionOutput] at hrun
  split_ifs at hrun with hclosed hstate
  · cases hrun
    exact Or.inl rfl
  · cases hrun
    exact Or.inl rfl
  · rw [outputOf, if_pos ⟨hclosed, not_not.mp hstate⟩]
    exact outputTrace_done hsend hrun

/-- The client loses its connection with its whole answer, or for one that is
too long for the buffer. -/
def Dismissed (later : List Executed) (c : Connection) (life : Life) : Prop :=
  life.completed = true ∨ ∃ answer, login.Expects later c answer ∧ 2038 < answer.bytes.length

/-- A connection that waits for its request has not read all of what is sent. -/
structure Attended (c₀ c : Connection) (peer : Peer) : Prop extends Current login c₀ c peer where
  origin : SameOrigin c₀ c
  drained : c.state ≠ .reading → peer.unread = []

theorem settle_calm {visit : Visit} {start : Int} {unread : List UInt8} {c : Connection}
    (hcalm : Calm login.config start visit unread) (hstart : c.startTime = start) (hopen : c.socket ≠ -1) :
    settle (expire login.config visit c) = c := by
  have hquiet := hcalm.toQuiet
  rw [← hstart] at hquiet
  rw [← checkConnection_eq, checkConnection_quiet hquiet hopen]

theorem visit_attended (hextra : login.extra = []) {visit : Visit} {c : Connection} {peer : Peer} {st : Stages}
    {unread : List UInt8} {shared shared' : Shared σ} (hslot : SlotOk c) (h : Attended login c₀ c peer)
    (hP : login.P shared.session.client) (hcalm : Calm login.config c₀.startTime visit peer.unread) {later : List Executed}
    (hlater : ∀ queries, shared'.session.queries = shared.session.queries ++ queries → queries ⊆ later)
    (hst : visitStages login.build login.rsa login.randR login.exchange login.statusString login.config visit c
      peer.unread shared = .ok (st, unread, shared')) :
    ((settle st.expired).state ≠ .free → SameOrigin c₀ (settle st.expired) ∧
      ((settle st.expired).state ≠ .reading → unread = [])) ∧
    ((settle st.expired).state = .free → Dismissed login later c₀ (peer.life.visit visit st)) := by
  obtain ⟨⟨hbusy, -, hreading⟩, horigin, hdrained⟩ := h
  obtain ⟨hvisited, hexpired⟩ := visited_of_stages login.build login.rsa login.randR login.exchange
    login.statusString login.config hslot hbusy hst
  have hsent := horigin.trans (visitStages_origin hslot hbusy hst)
  have hkept : st.sent.socket ≠ -1 → settle st.expired = st.sent := by
    intro hopen
    rw [hexpired]
    exact settle_calm login hcalm hsent.startTime hopen
  have hdone : ∀ d, checkConnectionOutput visit d = .ok st.sent → st.handled = d → d.socket ≠ -1 →
      st.sent.socket = -1 → (peer.life.visit visit st).completed = true := by
    intro d hrun hd hopen hclosed
    have hend := (outputOf_done hcalm.sending hrun).resolve_left fun hsame => hopen (hsame ▸ hclosed)
    rw [Life.visit, hd, hend, Bool.or_true]
  have hclosed_of_free : st.sent.state ≠ .free → (settle st.expired).state = .free → st.sent.socket = -1 := by
    intro hpolled hfree
    by_contra hopen
    rw [hkept hopen] at hfree
    exact hpolled hfree
  obtain ⟨-, -, -, hpolled⟩ := SocketOwnership.kept_of_visited hvisited
  have horigin' : (settle st.expired).state ≠ .free → SameOrigin c₀ (settle st.expired) := by
    intro hbusy'
    rw [hexpired] at hbusy' ⊢
    rw [(settle_kept hpolled hbusy').1]
    exact hsent
  obtain ⟨⟨read, stream₁⟩, h₁, hst⟩ := bind_eq_ok.mp hst
  obtain ⟨⟨handled, shared₁⟩, h₂, hst⟩ := bind_eq_ok.mp hst
  obtain ⟨sent, h₃, hst⟩ := bind_eq_ok.mp hst
  cases hst
  simp only at hkept hdone hclosed_of_free hpolled
  cases hvisited with
  | waiting hstate hread hopen hhandled hsent' =>
      simp only at hread hhandled hsent'
      obtain ⟨hreads, -⟩ := hreading hstate
      obtain ⟨read', rest', h₁', hdelivered⟩ := checkConnectionInput_delivered hreads hcalm.calm
      rw [h₁] at h₁'
      cases h₁'
      have hsocket : read.socket ≠ -1 := by
        cases hdelivered with
        | reading hr => exact hr.slot.socket
        | request _ hs => exact hs
        | refused _ _ _ hbad =>
            have hsize : announcedSize login.stream = 145 := announcedSize_stream login.form login.publicKey login.extra
            omega
      have hwaits : (settle (expire login.config visit sent)).state = .reading := by
        rw [hkept (by rw [hsent']; exact hsocket), hsent', hread]
      exact ⟨fun hb => ⟨horigin' hb, fun hne => absurd hwaits hne⟩,
        fun hfree => absurd (hwaits.symm.trans hfree) (by simp)⟩
  | requested hstate hsocket hrequest hresponded =>
      simp only at hsocket hrequest
      obtain ⟨hreads, hpeer⟩ := hreading hstate
      have hopen : read.socket ≠ -1 := by
        rw [hsocket]
        exact hslot.socket
      obtain ⟨hrest, answer, queries, hlog, hexpected, -, hreplied⟩ := request_answered login hslot hreads hpeer hP h₁ hopen
        hrequest h₂
      refine ⟨fun hb => ⟨horigin' hb, fun _ => hrest.trans hextra⟩, fun hfree => ?_⟩
      by_cases hfits : answer.bytes.length ≤ 2038
      · have hwriting := hreplied.fits.mpr hfits
        rcases hreplied.outcome with ⟨hsame, -⟩ | ⟨hprocessing, -⟩
        · exact Or.inl (hdone handled h₃ rfl (by rw [hsame]; exact hopen) (hclosed_of_free hpolled hfree))
        · exact absurd (hprocessing.symm.trans hwriting) (by simp)
      · exact Or.inr ⟨answer, hexpected.mono (hlater queries hlog), Nat.lt_of_not_le hfits⟩
  | writing hw hread hhandled =>
      simp only at hhandled
      have hnone : peer.unread = [] := hdrained (by simp [hw.1])
      have hpollin : visit.pollin = false := by
        by_contra hpolled
        exact hcalm.polled (by simpa using hpolled) hnone
      rw [checkConnectionInput, if_pos (Or.inr hpollin)] at h₁
      cases h₁
      refine ⟨fun hb => ⟨horigin' hb, fun _ => hnone⟩, fun hfree => Or.inl ?_⟩
      exact hdone handled h₃ rfl (by rw [hhandled]; exact hslot.socket) (hclosed_of_free hpolled hfree)

/-- Runs in which nothing disturbs the client. -/
inductive CalmRun (i : Nat) (c₀ : Connection) (t₀ : State σ × Peer) : State σ × Peer → Prop
  | start : CalmRun i c₀ t₀ t₀
  | next {t t' : State σ × Peer} {cycle : Cycle} (h : CalmRun i c₀ t₀ t)
      (hcalm : Calm login.config c₀.startTime (cycle.visits i) t.2.unread)
      (hrun : followCycle login.build login.rsa login.randR login.exchange login.statusString login.config i t cycle =
        .ok t') : CalmRun i c₀ t₀ t'

structure Attending (base later : List Executed) (c₀ : Connection) (i : Nat) (t : State σ × Peer) : Prop
    extends Following login base later c₀ i t where
  attended : t.2.released = false → ∀ c, t.1.connections[i]? = some c → Attended login c₀ c t.2
  dismissed : t.2.released = true → Dismissed login later c₀ t.2.life

theorem followCycle_attending (hextra : login.extra = []) {i : Nat} {cycle : Cycle} {base later : List Executed}
    {t t' : State σ × Peer} (h : Attending login base later c₀ i t)
    (hcalm : Calm login.config c₀.startTime (cycle.visits i) t.2.unread)
    (hrun : followCycle login.build login.rsa login.randR login.exchange login.statusString login.config i t cycle =
      .ok t') : ∃ later', Attending login base later' c₀ i t' := by
  obtain ⟨u, later', hu, hsub, hfollowing⟩ := followCycle_following login i cycle h.toFollowing
  obtain ⟨v, hv, -, -, -, -, hcases⟩ := followCycle_seen login.toHost cycle i h.slots h.keeps fun hover => by
    obtain ⟨c, hc, hcurrent⟩ := h.place hover
    exact ⟨c, hc, hcurrent.busy⟩
  rw [hrun] at hu hv
  cases hu
  cases hv
  refine ⟨later', ?_⟩
  have hdismissed (hgone : t.2.released = true) : Dismissed login later' c₀ t.2.life :=
    (h.dismissed hgone).imp_right fun hlong => by
      obtain ⟨answer, hexpected, hlong⟩ := hlong
      exact ⟨answer, hexpected.mono hsub, hlong⟩
  rcases hcases with ⟨-, rfl⟩ | ⟨hgone, hpeer⟩ | ⟨-, hover, c, st, unread, hc, hnoted⟩
  · exact ⟨hfollowing, h.attended, hdismissed⟩
  · refine ⟨hfollowing, fun hover => ?_, fun _ => ?_⟩
    · rw [hpeer, hgone] at hover
      cases hover
    · rw [hpeer]
      exact hdismissed hgone
  · obtain ⟨shared, shared', hP, hbefore, hafter, hst⟩ := hnoted.stages
    obtain ⟨hkept, hfree⟩ := visit_attended login hextra (h.slots c (List.mem_of_getElem? hc)) (h.attended hover c hc)
      hP hcalm (fun queries hqueries => queries_later h.logged hfollowing.logged hbefore hafter hqueries) hst
    refine ⟨hfollowing, fun hover' c' hc' => ?_, fun hgone => ?_⟩
    · obtain ⟨d, hd, hcurrent⟩ := hfollowing.place hover'
      obtain rfl : c' = d := by rwa [hc', Option.some.injEq] at hd
      rw [hnoted.place, Option.some.injEq] at hc'
      subst hc'
      obtain ⟨horigin, hdrained⟩ := hkept hcurrent.busy
      refine ⟨hcurrent, horigin, ?_⟩
      rw [hnoted.peer_eq]
      exact hdrained
    · rw [hnoted.peer_eq] at hgone ⊢
      exact hfree (of_decide_eq_true hgone)

theorem attending_accepted {session : Session σ} (hP : login.P session.client) {before : List Cycle} {state : State σ}
    (hreach : before.foldlM (processConnections login.build login.rsa login.randR login.exchange login.statusString
      login.config) (initConnections login.config session) = .ok state)
    {i : Nat} {c : Connection} (hc : state.connections[i]? = some c) (haccepted : JustAccepted c) :
    Attending login state.shared.session.queries [] c i (state, ⟨login.stream, .fresh, false⟩) := by
  obtain ⟨hslots, hkept⟩ := reached_host login.toHost hP hreach
  have hreads := haccepted.reads (hslots c (List.mem_of_getElem? hc)) login.stream
  have hcurrent : Current login c c ⟨login.stream, .fresh, false⟩ :=
    ⟨by simp [haccepted.reading], .reading hreads.shape, fun _ => ⟨hreads, ⟨rfl, rfl⟩, rfl⟩⟩
  refine ⟨⟨hslots, hkept, (List.append_nil _).symm, ⟨oneResponse_fresh, by simp [Life.fresh]⟩,
    fun _ => ⟨c, hc, hcurrent⟩⟩, fun _ d hd => ?_, nofun⟩
  rw [hc, Option.some.injEq] at hd
  subst hd
  exact ⟨hcurrent, .refl c, fun hne => absurd haccepted.reading hne⟩

theorem whole_of_attending {i : Nat} {base later : List Executed} {c : Connection} {t : State σ × Peer}
    (h : Attending login base later c i t) (hreleased : t.2.released = true) :
    ∃ answer, login.Expects later c answer ∧
      (2038 < answer.bytes.length ∨ (t.2.life.written = login.response c answer ∧
        readResponse login.form.key t.2.life.written = some answer)) := by
  rcases h.dismissed hreleased with hcompleted | ⟨answer, hexpected, hlong⟩
  · rcases got_of_served login h.served with ⟨-, hnot⟩ | ⟨answer, hexpected, -, -, hwhole, hread⟩
    · exact absurd (hcompleted.symm.trans hnot) (by simp)
    · exact ⟨answer, hexpected, Or.inr ⟨hwhole.mp hcompleted, hread hcompleted⟩⟩
  · exact ⟨answer, hexpected, Or.inl hlong⟩

section

variable {session : Session σ} (hP : login.P session.client) {before : List Cycle} {state : State σ}
  (hreach : before.foldlM (processConnections login.build login.rsa login.randR login.exchange login.statusString
    login.config) (initConnections login.config session) = .ok state)
  {i : Nat} {c : Connection} (hc : state.connections[i]? = some c) (haccepted : JustAccepted c)

include hP hreach hc haccepted

theorem followed (cycles : List Cycle) :
    ∃ t later, cycles.foldlM (followCycle login.build login.rsa login.randR login.exchange login.statusString login.config
        i) (state, ⟨login.stream, .fresh, false⟩) = .ok t ∧
      Following login state.shared.session.queries later c i t := by
  obtain ⟨t, hrun, later, hfollowing⟩ := foldlM_invariant
    (fun _ (t : State σ × Peer) => ∃ later, Following login state.shared.session.queries later c i t)
    (fun cycle _ _ ht => by
      obtain ⟨later, ht⟩ := ht
      obtain ⟨t', later', hfollow, -, ht'⟩ := followCycle_following login i cycle ht
      exact ⟨t', hfollow, later', ht'⟩) (l := cycles)
    (b := (state, ⟨login.stream, .fresh, false⟩)) ⟨[], (attending_accepted login hP hreach hc haccepted).toFollowing⟩
  exact ⟨t, later, hrun, hfollowing⟩

theorem calmRun_attending (hextra : login.extra = []) {t : State σ × Peer}
    (hrun : CalmRun login i c (state, ⟨login.stream, .fresh, false⟩) t) :
    ∃ later, Attending login state.shared.session.queries later c i t := by
  induction hrun with
  | start => exact ⟨[], attending_accepted login hP hreach hc haccepted⟩
  | next hbefore hcalm hstep ih =>
      obtain ⟨later, h⟩ := ih
      exact followCycle_attending login hextra h hcalm hstep

end

end

def oneAccount : Accounts where
  resolve email := if email = [97] then some 7 else none
  verdict _ password _ := if password = [98, 98] then .granted [] 3 else .refused 2
  listable h := by
    split_ifs at h
    cases h
    simp

def plainForm : LoginForm where
  terminalType := 2
  terminalVersion := 770
  signatures := List.replicate 12 0
  key := ⟨1, 2, 3, 4⟩
  email := [97]
  password := [98, 98]
  fill := List.replicate 104 0
  signed := rfl
  email_text := by decide
  password_text := by decide
  email_fits := by decide
  password_fits := by decide
  filled := rfl

def plainKey : PublicKey default where
  encrypt := id
  length_encrypt h := h
  decrypt_encrypt _ _ := rfl

def plainService : Login Unit where
  accounts := oneAccount
  exchange := oneAccount.exchange
  P _ := True
  keeps _ _ _ := trivial
  serves := serves_exchange oneAccount
  build := ⟨.latin1, false⟩
  latin1 := rfl
  rsa := default
  publicKey := plainKey
  config := oneConnection
  randR seed := (0, seed)
  statusString s := ([], s)
  status_keeps _ _ := trivial
  status_logs _ _ := List.prefix_rfl
  form := plainForm
  extra := []

theorem plainService_accepted :
    [deliver [.socket 5 0 0 0] []].foldlM (processConnections plainService.build plainService.rsa plainService.randR
      plainService.exchange plainService.statusString plainService.config)
      (initConnections plainService.config ⟨(), []⟩) = .ok justAccepted := by
  have haccept : acceptConnections [.socket 5 0 0 0] (List.replicate 1 .zeroed) = justAccepted.connections := by
    decide +kernel
  have hpolled : polledIndices (List.replicate 1 .zeroed) = [] := by decide
  rw [List.foldlM_cons]
  simp only [processConnections, deliver, initConnections, plainService, oneConnection, haccept, hpolled]
  rfl

def exchanging : Cycle :=
  ⟨false, true, [], fun _ => ⟨true, false, false, [.bytes 1, .bytes 144], [.bytes 23], 0, 0, default, (false, [])⟩,
    fun _ => []⟩

theorem plainService_completed :
    (followCycle plainService.build plainService.rsa plainService.randR plainService.exchange
        plainService.statusString plainService.config 0 (justAccepted, ⟨plainService.stream, .fresh, false⟩)
        exchanging).toOption.map (fun t => (t.2.life.completed, t.2.released)) = some (true, true) := by
  decide +kernel

def plainConnection : Connection := { Connection.zeroed with state := .reading, socket := 5 }

end TibiaLogin.LoginService
