import TibiaLogin.ManagerService
import TibiaLogin.StrayReads

namespace TibiaLogin.Isolation

open Memory BufferReader BufferWriter Query QueryClient ClientExchange StatusService LoginQuery LoginResponse LoginHandler
  LoginOutcome LoginAgreement StrayReads Server ConnectionInput ConnectionTable InputDelivery Framing Observation ConnectionLife CredentialFlow
  AddressText AccountService FollowedClient ManagerService
open LoginService (oneAccount plainConnection exchanging)

/-- The requests of a login, each with the room that it has for the response. -/
inductive Asked (enc : ClientEncoding) : List UInt8 → Nat → Prop
  | resolve {email : List UInt8} (he : email.length ≤ 64) : Asked enc (resolveRequest enc email) 1024
  | login (accountId : Int) {password ipAddress : List UInt8} (hp : password.length ≤ 64) (hi : ipAddress.length ≤ 64) :
      Asked enc (loginRequest enc accountId password ipAddress) 4096

theorem Asked.nonempty {enc : ClientEncoding} {body : List UInt8} {capacity : Nat} (h : Asked enc body capacity) :
    body ≠ [] := by
  cases h with
  | resolve => exact List.cons_ne_nil _ _
  | login => exact List.cons_ne_nil _ _

/-- The requests of a login are answered in the same way, whatever has been asked before. -/
def Forgetful {σ : Type} (host : Host σ) : Prop :=
  ∀ {a b body capacity}, host.P a → host.P b → Asked host.build.encoding body capacity →
    (host.exchange a (requestFrame body) capacity).1 = (host.exchange b (requestFrame body) capacity).1

theorem Asked.reply (accounts : Accounts) {enc : ClientEncoding} {body : List UInt8} {capacity : Nat}
    (h : Asked enc body capacity) :
    ∃ answer, accounts.reply (requestFrame body) = some answer ∧ answer.length ≤ capacity := by
  cases h with
  | @resolve email he =>
      obtain ⟨a, b, hf⟩ := Authorisation.requestFrame_short (Authorisation.length_resolveRequest_lt enc email he)
      have hcode : (requestFrame (resolveRequest enc email))[2]? = some QueryType.resolveEmail.code := by
        rw [hf]
        rfl
      refine ⟨resolveReply (accounts.resolve (outgoing enc email)), ?_, ?_⟩
      · rw [Accounts.reply, if_pos hcode, sentEmail_frame enc he]
        rfl
      · cases accounts.resolve (outgoing enc email) <;> simp [resolveReply]
  | @login accountId password ipAddress hp hi =>
      obtain ⟨a, b, hf⟩ := Authorisation.requestFrame_short
        (Authorisation.length_loginRequest_lt enc accountId password ipAddress hp hi)
      have hcode : (requestFrame (loginRequest enc accountId password ipAddress))[2]? =
          some QueryType.loginAccount.code := by
        rw [hf]
        rfl
      have hreply : ∃ answer, accounts.reply (requestFrame (loginRequest enc accountId password ipAddress)) =
          some answer := by
        rw [Accounts.reply, if_neg (by rw [hcode]; decide), if_pos hcode, sentPassword_frame enc accountId hp hi,
          sentAddress_frame enc accountId hp hi]
        exact ⟨_, rfl⟩
      obtain ⟨answer, hanswer⟩ := hreply
      exact ⟨answer, hanswer, length_reply_le hanswer⟩

theorem forgetful_of_reliable {σ : Type} {host : Host σ} {accounts : Accounts}
    (hserves : Serves accounts host.exchange host.P) (hreliable : Reliable accounts host.exchange host.P) :
    Forgetful host := by
  intro a b body capacity ha hb hasked
  obtain ⟨answer, hanswer, hroom⟩ := hasked.reply accounts
  obtain ⟨reply, hreply⟩ := Option.ne_none_iff_exists'.mp (hreliable ha hanswer capacity hroom)
  obtain ⟨reply', hreply'⟩ := Option.ne_none_iff_exists'.mp (hreliable hb hanswer capacity hroom)
  have hbytes := hserves.faithful ha hasked.nonempty hreply hanswer
  have hbytes' := hserves.faithful hb hasked.nonempty hreply' hanswer
  rw [hreply, hreply']
  cases reply
  cases reply'
  simp only at hbytes hbytes'
  subst hbytes
  subst hbytes'
  rfl

theorem forgetful_deployment (d : Deployment) (hhealthy : Healthy d.net) (hwelcoming : Welcoming d.manager) :
    Forgetful d.login.toHost :=
  forgetful_of_reliable d.serves (d.reliable hhealthy hwelcoming)

section

variable {σ : Type} {host : Host σ} (hforget : Forgetful host) (stray : Stray) {s s' : Session σ}
  (hP : host.P s.client) (hP' : host.P s'.client)

include hforget hP hP'

theorem requestOutcome_same (ipAddress : Int) {cred : Credentials} (hcred : cred.Fits) :
    ∃ outcome t t', requestOutcome host.build host.exchange stray ipAddress cred s = .ok (outcome, t) ∧
      requestOutcome host.build host.exchange stray ipAddress cred s' = .ok (outcome, t') := by
  have he := hcred.email
  have hp := hcred.password
  have hi := length_ipString_le ipAddress
  have hreply := hforget hP hP' (.resolve (show cred.email.length ≤ 64 by omega))
  have hkept : ∀ {a}, host.P a → host.P (host.exchange a (requestFrame (resolveRequest host.build.encoding cred.email))
      1024).2 := fun ha => host.keeps ha (List.cons_ne_nil _ _) 1024
  have hnext := hkept hP
  have hnext' := hkept hP'
  rcases hr : host.exchange s.client (requestFrame (resolveRequest host.build.encoding cred.email)) 1024 with ⟨reply, a⟩
  rcases hr' : host.exchange s'.client (requestFrame (resolveRequest host.build.encoding cred.email)) 1024 with
    ⟨reply', b⟩
  rw [hr, hr'] at hreply
  rw [hr] at hnext
  rw [hr'] at hnext'
  cases hreply
  rw [requestOutcome, requestOutcome, resolveEmail_outcome host.build.encoding host.exchange cred.email s (by omega) rfl
    hr, resolveEmail_outcome host.build.encoding host.exchange cred.email s' (by omega) rfl hr', ok_bind, ok_bind]
  have hsame : replyOf (reply, a) = replyOf (reply, b) := rfl
  simp only [hsame]
  by_cases hcode : (resolveOutcome (replyOf (reply, b))).1 ≠ 0
  · rw [if_pos hcode, if_pos hcode]
    exact ⟨_, _, _, rfl, rfl⟩
  · rw [if_neg hcode, if_neg hcode]
    generalize (resolveOutcome (replyOf (reply, b))).2 = accountId
    have hanswer := hforget hnext hnext' (.login accountId (show cred.password.length ≤ 64 by omega)
      (show (ipString ipAddress).length ≤ 64 by omega))
    rcases hl : host.exchange a (requestFrame (loginRequest host.build.encoding accountId cred.password
      (ipString ipAddress))) 4096 with ⟨answer, a'⟩
    rcases hl' : host.exchange b (requestFrame (loginRequest host.build.encoding accountId cred.password
      (ipString ipAddress))) 4096 with ⟨answer', b'⟩
    rw [hl, hl'] at hanswer
    cases hanswer
    obtain ⟨code, characters, premiumDays, hlogin⟩ := loginAccount_reply host.build.encoding stray.toStrayReply accountId
      cred.password (ipString ipAddress) (by omega) (by omega) 50 answer
    rw [hlogin host.exchange ⟨a, _⟩ a' hl, hlogin host.exchange ⟨b, _⟩ b' hl', ok_bind, ok_bind]
    exact ⟨_, _, _, rfl, rfl⟩

theorem decodedOutcome_same (ipAddress : Int) {decoded : Option (UInt16 × Credentials)}
    (hfits : ∀ version cred, decoded = some (version, cred) → cred.Fits) :
    ∃ outcome t t', decodedOutcome host.build host.exchange stray ipAddress s decoded = .ok (outcome, t) ∧
      decodedOutcome host.build host.exchange stray ipAddress s' decoded = .ok (outcome, t') := by
  cases decoded with
  | none => exact ⟨_, _, _, rfl, rfl⟩
  | some login =>
      obtain ⟨version, cred⟩ := login
      simp only [decodedOutcome]
      split_ifs
      · exact ⟨_, _, _, rfl, rfl⟩
      · exact ⟨_, _, _, rfl, rfl⟩
      · exact requestOutcome_same hforget stray hP hP' ipAddress (hfits version cred rfl)

theorem processLoginRequest_same {c d d' : Connection} (hb : c.buffer.length = 2048) {t t' : Session σ}
    (hrun : processLoginRequest host.build host.rsa host.randR host.exchange host.config stray c s = .ok (d, t))
    (hrun' : processLoginRequest host.build host.rsa host.randR host.exchange host.config stray c s' = .ok (d', t')) :
    d = d' := by
  obtain ⟨key, decoded, hd, hfits⟩ := decodeLogin_spec host.build host.rsa stray hb
  obtain ⟨outcome, u, u', ho, ho'⟩ := decodedOutcome_same hforget stray hP hP' c.ipAddress
    (fun version cred h => (hfits version cred h).1)
  rw [processLoginRequest_eq, hd, ok_bind] at hrun hrun'
  simp only at hrun hrun'
  rw [ho, ok_bind] at hrun
  rw [ho', ok_bind] at hrun'
  obtain ⟨e, he, hrun⟩ := bind_eq_ok.mp hrun
  obtain ⟨e', he', hrun'⟩ := bind_eq_ok.mp hrun'
  rw [he] at he'
  cases he'
  cases hrun
  cases hrun'
  rfl

end

/-- Two visits that differ at most in what lies beside the buffers. -/
def SameVisit (visit visit' : Visit) : Prop :=
  ∃ stray strayStatus, visit' = { visit with stray, strayStatus }

/-- Whichever connection holds the request in front of a stream, all of it is
read inside the buffers, at any state of the query client. -/
def StreamInside {σ : Type} (host : Host σ) (ipAddress : Int) (stream : List UInt8) : Prop :=
  ∀ (c : Connection) (a : σ), c.buffer.length = 2048 → c.state = .processing → c.rwSize = announcedSize stream →
    c.buffer.take (announcedSize stream) = (stream.drop 2).take (announcedSize stream) → c.ipAddress = ipAddress →
    host.P a → ReadsInside host.build host.rsa host.exchange c a

section

variable {σ : Type} {host : Host σ} (hforget : Forgetful host) {shared₁ shared₂ : Shared σ}
  (hP : host.P shared₁.session.client) (hP' : host.P shared₂.session.client)

include hforget hP hP'

theorem checkConnectionRequest_same {visit visit' : Visit} {c d d' : Connection} (hb : c.buffer.length = 2048)
    (hlogin : c.socket ≠ -1 → c.state = .processing → c.buffer.headD 0 ≠ 255)
    (hinside : c.socket ≠ -1 → c.state = .processing →
      ReadsInside host.build host.rsa host.exchange c shared₂.session.client) {t t' : Shared σ}
    (hrun : checkConnectionRequest host.build host.rsa host.randR host.exchange host.statusString host.config visit c
      shared₁ = .ok (d, t))
    (hrun' : checkConnectionRequest host.build host.rsa host.randR host.exchange host.statusString host.config visit' c
      shared₂ = .ok (d', t')) : d = d' := by
  simp only [checkConnectionRequest] at hrun hrun'
  split_ifs at hrun hrun' with hclosed hstate hsize hcommand hstatus
  · cases hrun
    cases hrun'
    rfl
  · cases hrun
    cases hrun'
    rfl
  · cases h : processLoginRequest host.build host.rsa host.randR host.exchange host.config visit.stray c
      shared₁.session with
    | error fault =>
        rw [h] at hrun
        cases hrun
    | ok result =>
        cases h' : processLoginRequest host.build host.rsa host.randR host.exchange host.config visit'.stray c
          shared₂.session with
        | error fault =>
            rw [h'] at hrun'
            cases hrun'
        | ok result' =>
            rw [h] at hrun
            rw [h'] at hrun'
            cases hrun
            cases hrun'
            rw [processLoginRequest_inside visit'.stray visit.stray hb (hinside hclosed (not_not.mp hstate))] at h'
            exact processLoginRequest_same hforget visit.stray hP hP' hb h h'
  · exact absurd hstatus (hlogin hclosed (not_not.mp hstate))
  · cases hrun
    cases hrun'
    rfl

omit hforget hP hP' in
theorem command_of_delivered {start : Int} {stream rest : List UInt8} {c : Connection}
    (h : Delivered start stream c rest) (hopen : c.socket ≠ -1) (hstate : c.state = .processing)
    (hstream : stream[2]? ≠ some 255) : c.buffer.headD 0 ≠ 255 := by
  cases h with
  | reading hr => exact absurd (hr.shape.1.symm.trans hstate) (by simp)
  | refused _ hclosed => exact absurd hclosed hopen
  | request _ _ hr hsize _ hdata =>
      have hpos : announcedSize stream ≠ 0 := by
        have hone := hr.2.1
        omega
      have hhead := congrArg List.head? hdata
      rw [List.head?_take, List.head?_take, if_neg hpos, if_neg hpos, List.head?_drop] at hhead
      intro hcommand
      cases hbuffer : c.buffer with
      | nil =>
          rw [hbuffer] at hcommand
          cases hcommand
      | cons b buffer =>
          rw [hbuffer] at hhead hcommand
          obtain rfl : b = 255 := hcommand
          exact hstream hhead.symm

omit hforget hP hP' in
theorem request_of_delivered {start : Int} {stream rest : List UInt8} {c : Connection}
    (h : Delivered start stream c rest) (hopen : c.socket ≠ -1) (hstate : c.state = .processing) :
    c.buffer.length = 2048 ∧ c.rwSize = announcedSize stream ∧
      c.buffer.take (announcedSize stream) = (stream.drop 2).take (announcedSize stream) := by
  cases h with
  | reading hr => exact absurd (hr.shape.1.symm.trans hstate) (by simp)
  | refused _ hclosed => exact absurd hclosed hopen
  | request hb _ _ hsize _ hdata => exact ⟨hb, hsize, hdata⟩

/-- A visit does the same to a client that makes no status request and is read
inside the buffers, at any state of what the clients share. -/
theorem visitStages_same {visit visit' : Visit} (hsame : SameVisit visit visit') {c : Connection}
    {stream unread : List UInt8} (hslot : SlotOk c) (hbusy : c.state ≠ .free) {ipAddress : Int}
    (hreading : c.state = .reading → Reading c.startTime stream c unread ∧ c.ipAddress = ipAddress)
    (hstream : stream[2]? ≠ some 255) (hinside : StreamInside host ipAddress stream) {st st' : Stages} {rest rest' : List UInt8} {t t' : Shared σ}
    (hrun : visitStages host.build host.rsa host.randR host.exchange host.statusString host.config visit c unread
      shared₁ = .ok (st, rest, t))
    (hrun' : visitStages host.build host.rsa host.randR host.exchange host.statusString host.config visit' c unread
      shared₂ = .ok (st', rest', t')) : st = st' ∧ rest = rest' := by
  obtain ⟨stray, strayStatus, rfl⟩ := hsame
  obtain ⟨hvisited, -⟩ := visited_of_stages host.build host.rsa host.randR host.exchange host.statusString host.config
    hslot hbusy hrun
  obtain ⟨⟨read, stream₁⟩, h₁, hrun⟩ := bind_eq_ok.mp hrun
  obtain ⟨⟨handled, u⟩, h₂, hrun⟩ := bind_eq_ok.mp hrun
  obtain ⟨sent, h₃, hrun⟩ := bind_eq_ok.mp hrun
  cases hrun
  obtain ⟨⟨read', stream₁'⟩, h₁', hrun'⟩ := bind_eq_ok.mp hrun'
  obtain ⟨⟨handled', u'⟩, h₂', hrun'⟩ := bind_eq_ok.mp hrun'
  obtain ⟨sent', h₃', hrun'⟩ := bind_eq_ok.mp hrun'
  cases hrun'
  have hread : checkConnectionInput visit c unread = .ok (read', rest') := h₁'
  rw [h₁] at hread
  cases hread
  obtain ⟨c₁, stream₂, hinput, hactive⟩ := checkConnectionInput_active visit hslot hbusy unread
  rw [h₁] at hinput
  cases hinput
  have hdelivered : read.socket ≠ -1 → read.state = .processing →
      Delivered c.startTime stream read rest ∧ read.ipAddress = ipAddress := by
    intro hopen hprocessing
    cases hvisited with
    | waiting _ hread =>
        simp only at hread
        exact absurd (hread.symm.trans hprocessing) (by simp)
    | requested hstate =>
        obtain ⟨hreads, hip⟩ := hreading hstate
        exact ⟨(checkConnectionInput_followed hreads h₁).resolve_right hopen,
          (Deadline.checkConnectionInput_peer hslot hbusy h₁).ipAddress.trans hip⟩
    | writing hw hread hhandled =>
        simp only at hread
        rcases hread with rfl | rfl
        · exact absurd (hw.1.symm.trans hprocessing) (by simp)
        · rw [closeConnection_eq] at hopen
          exact absurd rfl hopen
  have hcommand : read.socket ≠ -1 → read.state = .processing → read.buffer.headD 0 ≠ 255 := fun hopen hprocessing =>
    command_of_delivered (hdelivered hopen hprocessing).1 hopen hprocessing hstream
  have hreads : read.socket ≠ -1 → read.state = .processing →
      ReadsInside host.build host.rsa host.exchange read shared₂.session.client := by
    intro hopen hprocessing
    obtain ⟨hd, hip⟩ := hdelivered hopen hprocessing
    obtain ⟨hb, hsize, hdata⟩ := request_of_delivered hd hopen hprocessing
    exact hinside read shared₂.session.client hb hprocessing hsize hdata hip hP'
  obtain rfl := checkConnectionRequest_same hforget hP hP' hactive.sized hcommand hreads h₂ h₂'
  have hsent : checkConnectionOutput visit handled = .ok sent' := h₃'
  rw [h₃] at hsent
  cases hsent
  exact ⟨rfl, rfl⟩

end

/-- The same happens at a place in two cycles, whatever happens elsewhere and
whatever it leaves on the stack. -/
structure SameAt (i : Nat) (cycle cycle' : Cycle) : Prop where
  pollFailed_eq : cycle.pollFailed = cycle'.pollFailed
  visit_eq : SameVisit (cycle.visits i) (cycle'.visits i)

section

variable {σ : Type} {host : Host σ}

/-- Two runs with one client in common, each between two cycles. -/
structure Paired (host : Host σ) (i : Nat) (ipAddress : Int) (stream : List UInt8) (t t' : State σ × Peer) : Prop where
  slots : ∀ c ∈ t.1.connections, SlotOk c
  slots' : ∀ c ∈ t'.1.connections, SlotOk c
  keeps : host.P t.1.shared.session.client
  keeps' : host.P t'.1.shared.session.client
  peer_eq : t.2 = t'.2
  place : t.2.released = false → ∃ c, t.1.connections[i]? = some c ∧ t'.1.connections[i]? = some c ∧ c.state ≠ .free ∧
    (c.state = .reading → Reading c.startTime stream c t.2.unread ∧ c.ipAddress = ipAddress)

theorem followCycle_paired (hforget : Forgetful host) {i : Nat} {ipAddress : Int} {stream : List UInt8}
    (hstream : stream[2]? ≠ some 255) (hinside : StreamInside host ipAddress stream) {cycle cycle' : Cycle}
    (hsame : SameAt i cycle cycle') {t t' : State σ × Peer} (h : Paired host i ipAddress stream t t') :
    ∃ u u', followCycle host.build host.rsa host.randR host.exchange host.statusString host.config i t cycle = .ok u ∧
      followCycle host.build host.rsa host.randR host.exchange host.statusString host.config i t' cycle' = .ok u' ∧
      Paired host i ipAddress stream u u' := by
  obtain ⟨u, hu, -, hslots, hkeeps, -, hcases⟩ := followCycle_seen host cycle i h.slots h.keeps fun hover => by
    obtain ⟨c, hc, -, hbusy, -⟩ := h.place hover
    exact ⟨c, hc, hbusy⟩
  obtain ⟨u', hu', -, hslots', hkeeps', -, hcases'⟩ := followCycle_seen host cycle' i h.slots' h.keeps' fun hover => by
    obtain ⟨c, -, hc, hbusy, -⟩ := h.place (h.peer_eq ▸ hover)
    exact ⟨c, hc, hbusy⟩
  refine ⟨u, u', hu, hu', ?_⟩
  rcases hcases with ⟨hpoll, rfl⟩ | ⟨hgone, hpeer⟩ | ⟨hpoll, hover, c, st, unread, hc, hnoted⟩
  · rcases hcases' with ⟨-, rfl⟩ | ⟨hgone, hpeer⟩ | ⟨hpoll', -⟩
    · exact h
    · refine ⟨h.slots, hslots', h.keeps, hkeeps', h.peer_eq.trans hpeer.symm, fun hover => ?_⟩
      rw [h.peer_eq, hgone] at hover
      cases hover
    · rw [hsame.pollFailed_eq, hpoll'] at hpoll
      cases hpoll
  · have hpeer' : u'.2 = t'.2 := by
      rcases hcases' with ⟨-, rfl⟩ | ⟨-, hpeer'⟩ | ⟨-, hover, -⟩
      · rfl
      · exact hpeer'
      · rw [← h.peer_eq, hgone] at hover
        cases hover
    refine ⟨hslots, hslots', hkeeps, hkeeps', by rw [hpeer, hpeer', h.peer_eq], fun hover => ?_⟩
    rw [hpeer, hgone] at hover
    cases hover
  · obtain ⟨c', st', unread', hc', hnoted'⟩ : ∃ c' st' unread', t'.1.connections[i]? = some c' ∧
        Noted host (cycle'.visits i) i c' t'.2 t'.1.shared.session.queries st' unread' u' := by
      rcases hcases' with ⟨hpoll', -⟩ | ⟨hgone, -⟩ | ⟨-, -, hnoted'⟩
      · rw [← hsame.pollFailed_eq, hpoll] at hpoll'
        cases hpoll'
      · rw [← h.peer_eq, hover] at hgone
        cases hgone
      · exact hnoted'
    obtain ⟨d, hd, hd', hbusy, hreading⟩ := h.place hover
    obtain rfl : c = d := by rwa [hc, Option.some.injEq] at hd
    obtain rfl : c' = c := by rwa [hc', Option.some.injEq] at hd'
    obtain ⟨shared₁, shared₁', hP, -, -, hst⟩ := hnoted.stages
    obtain ⟨shared₂, shared₂', hP', -, -, hst'⟩ := hnoted'.stages
    rw [← h.peer_eq] at hst'
    have hslot := h.slots c' (List.mem_of_getElem? hc)
    obtain ⟨rfl, rfl⟩ := visitStages_same hforget hP hP' hsame.visit_eq hslot hbusy hreading hstream hinside hst hst'
    have hlife : t.2.life.visit (cycle.visits i) st = t.2.life.visit (cycle'.visits i) st := by
      obtain ⟨stray, strayStatus, hvisit⟩ := hsame.visit_eq
      rw [hvisit]
      rfl
    refine ⟨hslots, hslots', hkeeps, hkeeps', ?_, fun hnext => ?_⟩
    · rw [hnoted.peer_eq, hnoted'.peer_eq, hlife, h.peer_eq]
    · rw [hnoted.peer_eq] at hnext ⊢
      refine ⟨_, hnoted.place, hnoted'.place, of_decide_eq_false hnext,
        fun hstate => ?_⟩
      obtain ⟨hbefore, hread, hreads⟩ := visitStages_reading host hslot hbusy (fun hs => (hreading hs).1) hst hstate
      refine ⟨hreads, ?_⟩
      obtain ⟨⟨read, stream₁⟩, h₁, hrest⟩ := bind_eq_ok.mp hst
      obtain ⟨⟨handled, shared⟩, h₂, hrest⟩ := bind_eq_ok.mp hrest
      obtain ⟨sent, h₃, hrest⟩ := bind_eq_ok.mp hrest
      cases hrest
      rw [hread]
      exact (Deadline.checkConnectionInput_peer hslot hbusy h₁).ipAddress.trans (hreading hbefore).2

theorem cycles_paired (hforget : Forgetful host) {i : Nat} {ipAddress : Int} {stream : List UInt8}
    (hstream : stream[2]? ≠ some 255) (hinside : StreamInside host ipAddress stream) {cycles cycles' : List Cycle}
    (hsame : List.Forall₂ (SameAt i) cycles cycles') {t t' : State σ × Peer} (h : Paired host i ipAddress stream t t') :
    ∃ u u', cycles.foldlM (followCycle host.build host.rsa host.randR host.exchange host.statusString host.config i) t =
        .ok u ∧
      cycles'.foldlM (followCycle host.build host.rsa host.randR host.exchange host.statusString host.config i) t' =
        .ok u' ∧
      Paired host i ipAddress stream u u' := by
  induction hsame generalizing t t' with
  | nil => exact ⟨t, t', rfl, rfl, h⟩
  | cons hcycle _ ih =>
      obtain ⟨t₁, t₁', hstep, hstep', h₁⟩ := followCycle_paired hforget hstream hinside hcycle h
      obtain ⟨u, u', hrun, hrun', hend⟩ := ih h₁
      refine ⟨u, u', ?_, ?_, hend⟩
      · rw [List.foldlM_cons, hstep]
        exact hrun
      · rw [List.foldlM_cons, hstep']
        exact hrun'

end

theorem readsInside_of_holding {σ : Type} {accounts : Accounts} {exchange : Exchange σ} {P : σ → Prop}
    (hserves : Serves accounts exchange P) {build : Build} (henc : build.encoding = .latin1) {rsa : RsaKey}
    {publicKey : PublicKey rsa} {form : LoginForm} {c : Connection} (h : Holding publicKey form c) {a : σ} (hP : P a) :
    ReadsInside build rsa exchange c a := by
  intro data _ hdata _
  rw [h.asymmetricBlock_eq, publicKey.decrypt_encrypt form.length_block rfl] at hdata
  cases hdata
  refine ⟨some form.credentials, by rw [henc, form.readCredentials_block], ?_⟩
  rintro cred hcred - - reply hreply
  cases hcred
  rw [henc] at hreply ⊢
  have hnext : P (exchange a (requestFrame (resolveRequest .latin1 form.credentials.email)) 1024).2 :=
    hserves.keeps hP (by simp [resolveRequest]) 1024
  simp only [loginReply] at hreply
  rcases hr : exchange a (requestFrame (resolveRequest .latin1 form.credentials.email)) 1024 with ⟨resolved, b⟩
  rw [hr] at hreply hnext
  split_ifs at hreply with hcode
  cases resolved with
  | none => exact absurd (show (resolveOutcome none).1 ≠ 0 by decide) hcode
  | some resolved =>
      have hbytes := hserves.faithful hP (by simp [resolveRequest]) (congrArg Prod.fst hr)
        (reply_resolveRequest accounts form)
      rw [show resolveOutcome (replyOf (some resolved, b)) = resolveOutcome (some resolved.bytes) from rfl, hbytes,
        resolveOutcome_reply] at hcode hreply
      cases hid : accounts.resolve form.email with
      | none =>
          rw [hid] at hcode
          exact absurd (by decide) hcode
      | some accountId =>
          rw [hid] at hreply
          obtain ⟨answer, hanswer, rfl⟩ := Option.map_eq_some_iff.mp hreply
          rw [hserves.faithful hnext (by simp [loginRequest]) hanswer (reply_loginRequest accounts form accountId
            c.ipAddress)]
          -- A stray read would put its own premium days in the result.
          have hresult := loginResult_verdict (strayWith (-1)).toStrayReply
            (fun characters premiumDays (h : accounts.verdict accountId form.password (ipString c.ipAddress) = _) =>
              accounts.listable h)
          intro hok hcount
          cases hverdict : accounts.verdict accountId form.password (ipString c.ipAddress) with
          | refused code =>
              rw [hverdict] at hok
              exact absurd hok (by simp [Verdict.reply])
          | granted characters premiumDays =>
              rw [hverdict] at hok hcount hresult
              rw [ofByte_eq_ok.mpr hok] at hresult
              simp only [loginResult] at hresult
              rw [readU8_second, ok_bind, if_neg (Nat.not_lt.mpr hcount)] at hresult
              cases hread : readReply .latin1 (((Verdict.granted characters premiumDays).reply.drop 1).headD 0).toNat
                  ⟨(Verdict.granted characters premiumDays).reply, 2⟩ with
              | ok result => exact ⟨result, rfl⟩
              | error fault =>
                  rw [hread] at hresult
                  have hdays := (Prod.mk.inj (Prod.mk.inj (Except.ok.inj hresult)).2).2
                  simp only [strayWith] at hdays
                  omega

theorem streamInside_login {σ : Type} (login : LoginService.Login σ) (ipAddress : Int) :
    StreamInside login.toHost ipAddress login.stream := by
  intro c a hb hstate hsize hdata _ hP
  rw [LoginService.Login.stream, LoginService.announcedSize_stream] at hsize hdata
  exact readsInside_of_holding login.serves login.latin1
    ⟨hb, hstate, hsize, hdata.trans (LoginService.request_of_stream login.form login.publicKey login.extra)⟩ hP

def sharedDeployment : Deployment := { plainDeployment with config := { (default : ServerConfig) with maxConnections := 2 } }

def secondConnection : Connection := { plainConnection with socket := 6 }

def bothAccepted : State (Service Client) :=
  ⟨[plainConnection, secondConnection], ⟨⟨Service.initial plainClient, []⟩, []⟩⟩

theorem bothAccepted_reached :
    [deliver [.socket 5 0 0 0, .socket 6 0 0 0] []].foldlM (processConnections sharedDeployment.build
      sharedDeployment.rsa sharedDeployment.randR sharedDeployment.exchange sharedDeployment.login.statusString
      sharedDeployment.config) (initConnections sharedDeployment.config ⟨Service.initial plainClient, []⟩) =
        .ok bothAccepted := by
  have haccept : acceptConnections [.socket 5 0 0 0, .socket 6 0 0 0] (List.replicate 2 .zeroed) =
      bothAccepted.connections := by
    decide +kernel
  have hpolled : polledIndices (List.replicate 2 .zeroed) = [] := by decide
  rw [List.foldlM_cons]
  simp only [processConnections, deliver, initConnections, sharedDeployment, haccept, hpolled]
  rfl

def strayExchanging : Cycle :=
  { exchanging with visits := fun _ => { exchanging.visits 0 with stray := strayWith 3, strayStatus := (true, []) } }

end TibiaLogin.Isolation
