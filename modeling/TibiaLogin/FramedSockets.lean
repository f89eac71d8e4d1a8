import TibiaLogin.FrameRoundTrip
import TibiaLogin.FrameSafety
import TibiaLogin.SocketService

namespace TibiaLogin.FramedSockets

open Memory Query LoginResponse LoginHandler WebSocket WebSocketProtocol FrameParsing FrameStream FrameSafety SocketService
open FrameDecoder (Decoder decode decode_append)
open FrameRoundTrip (Message)
open AccountService LoginService

/-- The parser as the acceptor sets it up. The handler closes a socket whose
binary message is no login. -/
def acceptorContext (recvBufferLength : Nat) : Context where
  maxPayloadLength := 2048
  recvBufferLength
  keepsOpen opCode data := opCode != 2 || (loginMessage true data 0).isSome

theorem acceptorContext_max (n : Nat) : (acceptorContext n).maxPayloadLength.toNat = 2048 := rfl

section

variable {σ : Type}

def asks (ipAddress : Int) : WebSocketProtocol.Event → List LoginMessage
  | .message opCode data => (loginMessage (opCode == 2) data ipAddress).toList
  | _ => []

def handlerCalls (address : Nat) (ipAddress : Int) : WebSocketProtocol.Event → List (WebSocket.Event σ)
  | .message opCode data => [.message address (opCode == 2) data ipAddress]
  | .pong _ => []
  | .ended .. | .forceClosed _ => [.closed address]

end

/-- The acceptor and what has passed over it, the parsers of its connections,
and what each socket has heard. A socket that is shutting down is kept until
its peer is gone. -/
structure System where
  noted : Acceptor × Passed
  parsers : Nat → Option Socket
  heard : Nat → List UInt8

def System.initial : System := ⟨(.initial, ⟨[], []⟩), fun _ => none, fun _ => []⟩

inductive Input (σ : Type)
  | opened (address : Nat)
  | read (address : Nat) (delivery : Delivery) (ipAddress : Int)
  | closed (address : Nat)
  | completed (index : Nat) (run : WorkerRun σ)
  | executed (index : Nat)

theorem pure_eq_ok {ε α : Type} (a : α) : (pure a : Except ε α) = .ok a := rfl

def hear (t : System) (address : Nat) (data : List UInt8) : Nat → List UInt8 :=
  match t.noted.1.sockets address with
  | none => t.heard
  | some socket => Function.update t.heard socket.number (t.heard socket.number ++ data)

section

variable {σ : Type} (ctx : Context) (build : Build) (rsa : RsaKey) (randR : UInt32 → Int × UInt32)
  (exchange : Exchange σ) (config : ServerConfig) (Q : WorkerRun σ → Prop) (ipOf : Nat → Int)

def advance (t : System) : Input σ → Except Fault (Option System)
  | .opened address =>
      match t.parsers address with
      | some _ => pure none
      | none => pure do
          let noted ← noteStep build rsa randR exchange config t.noted (.opened address)
          pure ⟨noted, Function.update t.parsers address (some .initial), t.heard⟩
  | .read address delivery ipAddress =>
      match t.parsers address with
      | none => pure none
      | some socket => do
          let after ← onData ctx socket delivery
          let calls := (after.events.drop socket.events.length).flatMap (handlerCalls address ipAddress)
          pure do
            let noted ← calls.foldlM (noteStep build rsa randR exchange config) t.noted
            pure ⟨noted, Function.update t.parsers address (if after.isClosed then none else some after),
              hear t address delivery.data⟩
  | .closed address =>
      match t.parsers address with
      | none => pure none
      | some socket => pure do
          let noted ←
            if socket.isShuttingDown then some t.noted
            else noteStep build rsa randR exchange config t.noted (.closed address)
          pure ⟨noted, Function.update t.parsers address none, t.heard⟩
  | .completed index run => pure do
      let noted ← noteStep build rsa randR exchange config t.noted (.completed index run)
      pure ⟨noted, t.parsers, t.heard⟩
  | .executed index => pure do
      let noted ← noteStep build rsa randR exchange config t.noted (.executed index)
      pure ⟨noted, fun address =>
        if t.noted.1.sockets address ≠ none ∧ noted.1.sockets address = none then none else t.parsers address, t.heard⟩

/-- The reads fit the buffer, each from the peer of its socket, and the runs of
workers meet a condition. -/
def Possible (t : System) : Input σ → Prop
  | .read address delivery ipAddress => Fits ctx delivery ∧
      ∀ data, t.noted.1.sockets address = some data → ipAddress = ipOf data.number
  | .completed _ run => Q run
  | _ => True

/-- The states of any interleaving of reads, workers and callbacks. -/
def Reachable (t : System) : Prop :=
  Relation.ReflTransGen
    (fun t t' => ∃ input : Input σ, Possible ctx Q ipOf t input ∧
      advance ctx build rsa randR exchange config t input = .ok (some t')) .initial t

inductive Advanced (t : System) : Input σ → System → Prop
  | opened {address : Nat} {noted : Acceptor × Passed} (hfree : t.parsers address = none)
      (hstep : noteStep build rsa randR exchange config t.noted (.opened address) = some noted) :
      Advanced t (.opened address) ⟨noted, Function.update t.parsers address (some .initial), t.heard⟩
  | read {address : Nat} {delivery : Delivery} {ipAddress : Int} {socket after : Socket} {noted : Acceptor × Passed}
      (hsocket : t.parsers address = some socket) (hrun : onData ctx socket delivery = .ok after)
      (hcalls : ((after.events.drop socket.events.length).flatMap (handlerCalls address ipAddress)).foldlM
        (noteStep build rsa randR exchange config) t.noted = some noted) :
      Advanced t (.read address delivery ipAddress)
        ⟨noted, Function.update t.parsers address (if after.isClosed then none else some after),
          hear t address delivery.data⟩
  | gone {address : Nat} {socket : Socket} (hsocket : t.parsers address = some socket)
      (hdown : socket.isShuttingDown = true) :
      Advanced t (.closed address) ⟨t.noted, Function.update t.parsers address none, t.heard⟩
  | closed {address : Nat} {socket : Socket} {noted : Acceptor × Passed} (hsocket : t.parsers address = some socket)
      (hup : socket.isShuttingDown = false)
      (hstep : noteStep build rsa randR exchange config t.noted (.closed address) = some noted) :
      Advanced t (.closed address) ⟨noted, Function.update t.parsers address none, t.heard⟩
  | completed {index : Nat} {run : WorkerRun σ} {noted : Acceptor × Passed}
      (hstep : noteStep build rsa randR exchange config t.noted (.completed index run) = some noted) :
      Advanced t (.completed index run) ⟨noted, t.parsers, t.heard⟩
  | executed {index : Nat} {noted : Acceptor × Passed}
      (hstep : noteStep build rsa randR exchange config t.noted (.executed index) = some noted) :
      Advanced t (.executed index) ⟨noted, fun address =>
        if t.noted.1.sockets address ≠ none ∧ noted.1.sockets address = none then none else t.parsers address, t.heard⟩

variable {ctx build rsa randR exchange config}

theorem advance_cases {t t' : System} {input : Input σ}
    (h : advance ctx build rsa randR exchange config t input = .ok (some t')) :
    Advanced ctx build rsa randR exchange config t input t' := by
  cases input with
  | opened address =>
      cases hsocket : t.parsers address with
      | some socket =>
          rw [advance, hsocket] at h
          cases h
      | none =>
          simp only [advance, hsocket, pure_eq_ok, Except.ok.injEq, Option.bind_eq_bind, Option.bind_eq_some_iff] at h
          obtain ⟨noted, hstep, h⟩ := h
          cases h
          exact .opened hsocket hstep
  | read address delivery ipAddress =>
      cases hsocket : t.parsers address with
      | none =>
          rw [advance, hsocket] at h
          cases h
      | some socket =>
          simp only [advance, hsocket, bind_eq_ok, pure_eq_ok, Except.ok.injEq, Option.bind_eq_bind,
            Option.bind_eq_some_iff] at h
          obtain ⟨after, hrun, noted, hcalls, h⟩ := h
          cases h
          exact .read hsocket hrun hcalls
  | closed address =>
      cases hsocket : t.parsers address with
      | none =>
          rw [advance, hsocket] at h
          cases h
      | some socket =>
          cases hdown : socket.isShuttingDown with
          | true =>
              simp only [advance, hsocket, hdown, if_true, pure_eq_ok, Except.ok.injEq] at h
              cases h
              exact .gone hsocket hdown
          | false =>
              simp only [advance, hsocket, hdown, Bool.false_eq_true, if_false, pure_eq_ok, Except.ok.injEq,
                Option.bind_eq_bind, Option.bind_eq_some_iff] at h
              obtain ⟨noted, hstep, h⟩ := h
              cases h
              exact .closed hsocket hdown hstep
  | completed index run =>
      simp only [advance, pure_eq_ok, Except.ok.injEq, Option.bind_eq_bind, Option.bind_eq_some_iff] at h
      obtain ⟨noted, hstep, h⟩ := h
      cases h
      exact .completed hstep
  | executed index =>
      simp only [advance, pure_eq_ok, Except.ok.injEq, Option.bind_eq_bind, Option.bind_eq_some_iff] at h
      obtain ⟨noted, hstep, h⟩ := h
      cases h
      exact .executed hstep

end

section

variable {σ : Type} (build : Build) (rsa : RsaKey) (randR : UInt32 → Int × UInt32) (exchange : Exchange σ)
  (config : ServerConfig) {n : Nat} {address : Nat} {data : PerSocketData} {s : Acceptor} {p : Passed}

theorem closeSocket_sockets (h : s.sockets address = some data) :
    (closeSocket address s).sockets = Function.update s.sockets address none := by
  rw [closeSocket, h]

theorem closeSocket_issued (address : Nat) (s : Acceptor) : (closeSocket address s).issued = s.issued := by
  rw [closeSocket]
  split <;> rfl

theorem receiveMessage_sockets (h : s.sockets address = some data) (opCode : UInt8) (bytes : List UInt8) (ipAddress : Int) :
    (receiveMessage address data (opCode == 2) bytes ipAddress s).sockets =
      if (acceptorContext n).keepsOpen opCode bytes then s.sockets else Function.update s.sockets address none := by
  by_cases hop : opCode = 2
  · subst hop
    simp only [receiveMessage, acceptorContext, loginMessage, BEq.rfl, bne_self_eq_false, Bool.false_or, Bool.not_true,
      Bool.false_eq_true, if_false]
    by_cases hlength : bytes.length < 3 ∨ 2048 < bytes.length
    · rw [if_pos hlength, if_pos hlength]
      exact closeSocket_sockets h
    · rw [if_neg hlength, if_neg hlength]
      by_cases hlogin : (bytes.drop 2).headD 0 = 1
      · rw [if_pos hlogin, if_pos hlogin]
        rfl
      · rw [if_neg hlogin, if_neg hlogin]
        exact closeSocket_sockets h
  · have hplain : (opCode == 2) = false := beq_eq_false_iff_ne.mpr hop
    have hkeeps : (acceptorContext n).keepsOpen opCode bytes = true := by
      simp only [acceptorContext, bne, hplain, Bool.not_false, Bool.true_or]
    rw [hplain, hkeeps]
    rfl

theorem receiveMessage_issued (address : Nat) (data : PerSocketData) (binary : Bool) (bytes : List UInt8) (ipAddress : Int)
    (s : Acceptor) : (receiveMessage address data binary bytes ipAddress s).issued = s.issued := by
  simp only [receiveMessage]
  split_ifs
  · rfl
  · exact closeSocket_issued address s
  · rfl
  · exact closeSocket_issued address s

theorem noteStep_closed (h : s.sockets address = some data) (p : Passed) :
    noteStep build rsa randR exchange config (s, p) (.closed address) = some (closeSocket address s, p) := by
  simp only [noteStep, step, h, askedBy, toldOn, List.append_nil]
  rfl

theorem noteStep_message (h : s.sockets address = some data) (p : Passed) (opCode : UInt8) (bytes : List UInt8)
    (ipAddress : Int) :
    noteStep build rsa randR exchange config (s, p) (.message address (opCode == 2) bytes ipAddress) =
      some (receiveMessage address data (opCode == 2) bytes ipAddress s,
        ⟨p.asked ++ (asks ipAddress (.message opCode bytes)).map (Prod.mk data.number), p.told⟩) := by
  simp only [noteStep, step, h, askedBy, asks, toldOn, List.append_nil]
  rfl

/-- What the handlers of some events have done: the socket is as it was or gone,
and the workers are asked as the events have it. -/
structure Called (address : Nat) (data : PerSocketData) (ipAddress : Int) (events : List WebSocketProtocol.Event)
    (socket : Option PerSocketData) (t t' : Acceptor × Passed) : Prop where
  sockets_eq : t'.1.sockets = Function.update t.1.sockets address socket
  issued_eq : t'.1.issued = t.1.issued
  asked_eq : t'.2.asked = t.2.asked ++ (events.flatMap (asks ipAddress)).map (Prod.mk data.number)

theorem calls_goes (ipAddress : Int) {events : List WebSocketProtocol.Event} (h : s.sockets address = some data) (p : Passed)
    (hgoes : ∀ e ∈ events, Goes (acceptorContext n) e) :
    ∃ t', (events.flatMap (handlerCalls address ipAddress)).foldlM (noteStep build rsa randR exchange config) (s, p) = some t' ∧
      Called address data ipAddress events (some data) (s, p) t' := by
  induction events generalizing s p with
  | nil => exact ⟨_, rfl, by rw [← h, Function.update_eq_self], rfl, (List.append_nil _).symm⟩
  | cons e events ih =>
      obtain ⟨he, hrest⟩ := List.forall_mem_cons.mp hgoes
      obtain ⟨s₁, p₁, hfirst, hopen, hissued, hasked⟩ : ∃ s₁ p₁, (handlerCalls address ipAddress e).foldlM
          (noteStep build rsa randR exchange config) (s, p) = some (s₁, p₁) ∧ s₁.sockets = s.sockets ∧ s₁.issued = s.issued ∧
            p₁.asked = p.asked ++ (asks ipAddress e).map (Prod.mk data.number) := by
        cases e with
        | message opCode bytes =>
            refine ⟨_, ⟨_, p.told⟩, ?_, ?_, receiveMessage_issued address data (opCode == 2) bytes ipAddress s, rfl⟩
            · rw [handlerCalls, List.foldlM_cons, noteStep_message build rsa randR exchange config h]
              rfl
            · rw [receiveMessage_sockets (n := n) h, if_pos he.2.2.2]
        | pong => exact ⟨s, p, rfl, rfl, rfl, (List.append_nil _).symm⟩
        | ended => exact he.elim
        | forceClosed => exact he.elim
      obtain ⟨t', hrun, hsockets, hissued', hasked'⟩ := ih (hopen ▸ h) p₁ hrest
      refine ⟨t', by rw [List.flatMap_cons, List.foldlM_append, hfirst]; exact hrun, ?_, hissued'.trans hissued, ?_⟩
      · rw [hsockets, hopen]
      · rw [hasked', hasked, List.flatMap_cons, List.map_append, List.append_assoc]

theorem calls_ended (ipAddress : Int) {events : List WebSocketProtocol.Event} (h : s.sockets address = some data) (p : Passed)
    (hended : Ended (acceptorContext n) events) :
    ∃ t', (events.flatMap (handlerCalls address ipAddress)).foldlM (noteStep build rsa randR exchange config) (s, p) = some t' ∧
      Called address data ipAddress events none (s, p) t' := by
  obtain ⟨before, last, rfl, hbefore, hlast⟩ := hended
  obtain ⟨⟨s₁, p₁⟩, hrun, hsockets, hissued, hasked⟩ := calls_goes build rsa randR exchange config ipAddress h p hbefore
  have hopen : s₁.sockets address = some data := by rw [hsockets, Function.update_self]
  obtain ⟨s₂, p₂, hend, hclosed, hissued₂, hasked₂⟩ : ∃ s₂ p₂, (handlerCalls address ipAddress last).foldlM
      (noteStep build rsa randR exchange config) (s₁, p₁) = some (s₂, p₂) ∧ s₂.sockets = Function.update s₁.sockets address none ∧
        s₂.issued = s₁.issued ∧ p₂.asked = p₁.asked ++ (asks ipAddress last).map (Prod.mk data.number) := by
    cases last with
    | message opCode bytes =>
        refine ⟨_, ⟨_, p₁.told⟩, ?_, ?_, receiveMessage_issued address data (opCode == 2) bytes ipAddress s₁, rfl⟩
        · rw [handlerCalls, List.foldlM_cons, noteStep_message build rsa randR exchange config hopen]
          rfl
        · rw [receiveMessage_sockets (n := n) hopen, hlast.2.2.2, if_neg Bool.false_ne_true]
    | pong => exact hlast.elim
    | ended | forceClosed =>
        refine ⟨_, p₁, ?_, closeSocket_sockets hopen, closeSocket_issued address s₁, (List.append_nil _).symm⟩
        rw [handlerCalls, List.foldlM_cons, noteStep_closed build rsa randR exchange config hopen]
        rfl
  refine ⟨(s₂, p₂), ?_, ?_, hissued₂.trans hissued, ?_⟩
  · rw [List.flatMap_append, List.foldlM_append, hrun, List.flatMap_singleton]
    exact hend
  · rw [hclosed, hsockets, Function.update_idem]
  · rw [hasked₂, hasked, List.flatMap_append, List.map_append, List.append_assoc, List.flatMap_singleton]

end

/-- The parser of a socket. When the acceptor has no more of a socket, its parser
is shutting down or gone. -/
def AgreedAt (ctx : Context) (heard : Nat → List UInt8) : Option PerSocketData → Option Socket → Prop
  | some data, some parser => parser.isClosed = false ∧ parser.isShuttingDown = false ∧
      Matches ctx parser (decode ctx .initial (heard data.number))
  | some _, none => False
  | none, some parser => parser.isClosed = false ∧ parser.isShuttingDown = true
  | none, none => True

structure Agreed (ctx : Context) (ipOf : Nat → Int) (t : System) : Prop where
  at_eq : ∀ address, AgreedAt ctx t.heard (t.noted.1.sockets address) (t.parsers address)
  asked_eq : ∀ n, (t.noted.2.asked.filter (·.1 = n)).map Prod.snd =
    (decode ctx .initial (t.heard n)).events.flatMap (asks (ipOf n))
  unheard : ∀ n, t.noted.1.issued.length < n → t.heard n = []
  numbered : ∀ address data, t.noted.1.sockets address = some data → data.number ≤ t.noted.1.issued.length
  distinct : ∀ address data address' data', t.noted.1.sockets address = some data →
    t.noted.1.sockets address' = some data' → data.number = data'.number → address = address'

section

variable {σ : Type} {ctx : Context} {build : Build} {rsa : RsaKey} {randR : UInt32 → Int × UInt32} {exchange : Exchange σ}
  {config : ServerConfig} {ipOf : Nat → Int} {n : Nat} {address : Nat} {t t' : System}

theorem filter_numbered {β : Type} (number m : Nat) (bs : List β) :
    ((bs.map (Prod.mk number)).filter (·.1 = m)).map Prod.snd = if number = m then bs else [] := by
  induction bs with
  | nil => simp
  | cons b bs ih =>
      by_cases h : number = m
      · rw [if_pos h] at ih ⊢
        rw [List.map_cons, List.filter_cons_of_pos (by simpa using h), List.map_cons, ih]
      · rw [if_neg h] at ih ⊢
        rw [List.map_cons, List.filter_cons_of_neg (by simpa using h), ih]

theorem AgreedAt.heard {heard heard' : Nat → List UInt8} {socket : Option PerSocketData} {parser : Option Socket}
    (h : AgreedAt ctx heard socket parser)
    (hsame : ∀ data, socket = some data → heard' data.number = heard data.number) : AgreedAt ctx heard' socket parser := by
  cases socket with
  | none => cases parser <;> exact h
  | some data =>
      cases parser with
      | none => exact h
      | some parser =>
          rw [AgreedAt, hsame data rfl]
          exact h

theorem Agreed.frame (h : Agreed ctx ipOf t) (hheard : t'.heard = t.heard) (hasked : t'.noted.2.asked = t.noted.2.asked)
    (hissued : t'.noted.1.issued = t.noted.1.issued)
    (hat : ∀ a, (t'.noted.1.sockets a = t.noted.1.sockets a ∧ t'.parsers a = t.parsers a) ∨
      (t'.noted.1.sockets a = none ∧ AgreedAt ctx t.heard none (t'.parsers a))) : Agreed ctx ipOf t' := by
  have hsome : ∀ a data, t'.noted.1.sockets a = some data → t.noted.1.sockets a = some data := by
    intro a data ha
    rcases hat a with ⟨hsame, -⟩ | ⟨hnone, -⟩
    · rw [← hsame, ha]
    · rw [hnone] at ha
      cases ha
  refine ⟨fun a => ?_, fun m => ?_, fun m hm => ?_, fun a data ha => ?_, fun a data b data' ha hb hnumber => ?_⟩
  · rw [hheard]
    rcases hat a with ⟨hsockets, hparsers⟩ | ⟨hnone, hparser⟩
    · rw [hsockets, hparsers]
      exact h.at_eq a
    · rw [hnone]
      exact hparser
  · rw [hasked, hheard]
    exact h.asked_eq m
  · rw [hheard]
    exact h.unheard m (hissued ▸ hm)
  · rw [hissued]
    exact h.numbered a data (hsome a data ha)
  · exact h.distinct a data b data' (hsome a data ha) (hsome b data' hb) hnumber

theorem Agreed.read (h : Agreed ctx ipOf t) {data : PerSocketData} (hdata : t.noted.1.sockets address = some data)
    {bytes : List UInt8} {new : List WebSocketProtocol.Event}
    (hnew : (decode ctx .initial (t.heard data.number ++ bytes)).events =
      (decode ctx .initial (t.heard data.number)).events ++ new)
    {socket : Option PerSocketData} (hsocket : socket = none ∨ socket = some data) {noted : Acceptor × Passed}
    (hcalled : Called address data (ipOf data.number) new socket t.noted noted) {parser : Option Socket}
    (hat : AgreedAt ctx (hear t address bytes) socket parser) :
    Agreed ctx ipOf ⟨noted, Function.update t.parsers address parser, hear t address bytes⟩ := by
  have hhear : hear t address bytes = Function.update t.heard data.number (t.heard data.number ++ bytes) := by
    rw [hear, hdata]
  obtain ⟨hsockets, hissued, hasked⟩ := hcalled
  have hsome : ∀ a data', noted.1.sockets a = some data' → t.noted.1.sockets a = some data' := by
    intro a data' ha
    rw [hsockets] at ha
    by_cases haddress : a = address
    · subst haddress
      rw [Function.update_self] at ha
      rcases hsocket with rfl | rfl
      · cases ha
      · rw [← ha, hdata]
    · rwa [Function.update_of_ne haddress] at ha
  refine ⟨fun a => ?_, fun m => ?_, fun m hm => ?_, fun a data' ha => ?_, fun a data₁ b data₂ ha hb hnumber => ?_⟩
  · by_cases haddress : a = address
    · subst haddress
      simp only [hsockets, Function.update_self]
      exact hat
    · simp only [hsockets, Function.update_of_ne haddress]
      refine (h.at_eq a).heard fun data' hs => ?_
      have hnumber : data'.number ≠ data.number := fun hsame => haddress (h.distinct a data' address data hs hdata hsame)
      rw [hhear, Function.update_of_ne hnumber]
  · have hbefore := h.asked_eq m
    simp only [hasked, List.filter_append, List.map_append, hbefore, hhear, filter_numbered]
    by_cases hm : data.number = m
    · subst hm
      rw [if_pos rfl, Function.update_self, hnew, List.flatMap_append]
    · rw [if_neg hm, Function.update_of_ne (Ne.symm hm), List.append_nil]
  · have hle := h.numbered address data hdata
    simp only [hissued] at hm
    simp only [hhear]
    rw [Function.update_of_ne (by omega)]
    exact h.unheard m hm
  · simp only [hissued]
    exact h.numbered a data' (hsome a data' ha)
  · exact h.distinct a data₁ b data₂ (hsome a data₁ ha) (hsome b data₂ hb) hnumber

theorem agreedAt_iff (h : Agreed ctx ipOf t) (address : Nat) :
    t.noted.1.sockets address ≠ none ↔ ∃ parser, t.parsers address = some parser ∧ parser.isShuttingDown = false := by
  have hat := h.at_eq address
  cases hs : t.noted.1.sockets address with
  | none =>
      rw [hs] at hat
      refine iff_of_false (fun hne => hne rfl) ?_
      rintro ⟨parser, hparser, hup⟩
      rw [hparser] at hat
      rw [hat.2] at hup
      cases hup
  | some data =>
      rw [hs] at hat
      refine iff_of_true (fun hne => nomatch hne) ?_
      cases hp : t.parsers address with
      | none =>
          rw [hp] at hat
          exact hat.elim
      | some parser =>
          rw [hp] at hat
          exact ⟨parser, rfl, hat.2.1⟩

section

variable (build rsa randR exchange config)

theorem advance_read (h : Agreed (acceptorContext n) ipOf t) {socket : Socket} (hsocket : t.parsers address = some socket)
    {delivery : Delivery} (hfits : Fits (acceptorContext n) delivery) {ipAddress : Int}
    (hpeer : ∀ data, t.noted.1.sockets address = some data → ipAddress = ipOf data.number) :
    ∃ t', advance (acceptorContext n) build rsa randR exchange config t (.read address delivery ipAddress) = .ok (some t') ∧
      Agreed (acceptorContext n) ipOf t' := by
  have hat := h.at_eq address
  rw [hsocket] at hat
  simp only [advance, hsocket]
  cases hs : t.noted.1.sockets address with
  | none =>
      rw [hs] at hat
      obtain ⟨hopen, hdown⟩ := hat
      have hnothing : socket.events.drop socket.events.length = [] := List.drop_length ..
      rw [onData, if_pos (Or.inr hdown)]
      simp only [pure_eq_ok, ok_bind, hnothing, List.flatMap_nil, List.foldlM_nil, hopen, Bool.false_eq_true, if_false]
      have hhear : hear t address delivery.data = t.heard := by rw [hear, hs]
      refine ⟨_, rfl, h.frame hhear rfl rfl fun a => Or.inl ⟨rfl, ?_⟩⟩
      dsimp only
      rw [← hsocket, Function.update_eq_self]
  | some data =>
      rw [hs] at hat
      obtain ⟨hopen, hup, hmatches⟩ := hat
      obtain rfl := hpeer data hs
      obtain ⟨after, new, hrun, hmatches', hevents, hdrop, hdone⟩ := onData_new hmatches ⟨hopen, hup⟩ hfits
      have hhear : hear t address delivery.data data.number = t.heard data.number ++ delivery.data := by
        rw [hear, hs]
        exact Function.update_self ..
      rw [hrun, ok_bind, hdrop]
      rcases hdone with ⟨hkept, hkept', hgoes⟩ | ⟨hgone, hended⟩
      · obtain ⟨noted, hcalls, hcalled⟩ := calls_goes build rsa randR exchange config (ipOf data.number) hs t.noted.2 hgoes
        simp only [pure_eq_ok, hcalls, hkept, Bool.false_eq_true, if_false]
        refine ⟨_, rfl, h.read hs hevents (Or.inr rfl) hcalled ⟨hkept, hkept', ?_⟩⟩
        rwa [hhear]
      · obtain ⟨noted, hcalls, hcalled⟩ := calls_ended build rsa randR exchange config (ipOf data.number) hs t.noted.2 hended
        simp only [pure_eq_ok, hcalls]
        refine ⟨_, rfl, h.read hs hevents (Or.inl rfl) hcalled ?_⟩
        split_ifs with hclose
        · trivial
        · exact ⟨by simpa using hclose, hgone.resolve_left hclose⟩

end

theorem noteStep_completed {u u' : Acceptor × Passed} {index : Nat} {run : WorkerRun σ}
    (h : noteStep build rsa randR exchange config u (.completed index run) = some u') :
    u'.1.sockets = u.1.sockets ∧ u'.1.issued = u.1.issued ∧ u'.2.asked = u.2.asked := by
  obtain ⟨hstep, hnotes⟩ := noteStep_step h
  simp only [step, Option.bind_eq_bind, Option.pure_def, Option.bind_eq_some_iff, Option.some.injEq] at hstep
  obtain ⟨worker, -, action, -, hstep⟩ := hstep
  have hasked : u'.2.asked = u.2.asked := by rw [hnotes]; exact List.append_nil _
  rw [← hstep]
  split_ifs
  · exact ⟨rfl, rfl, hasked⟩
  · exact ⟨rfl, rfl, hasked⟩

theorem noteStep_executed {u u' : Acceptor × Passed} {index : Nat}
    (h : noteStep build rsa randR exchange config u (.executed index) = some u') :
    (∀ a, u'.1.sockets a = u.1.sockets a ∨ u'.1.sockets a = none) ∧ u'.1.issued = u.1.issued ∧
      u'.2.asked = u.2.asked := by
  obtain ⟨hstep, hnotes⟩ := noteStep_step h
  simp only [step, Option.bind_eq_bind, Option.pure_def, Option.bind_eq_some_iff, Option.some.injEq] at hstep
  obtain ⟨d, -, hstep⟩ := hstep
  have hasked : u'.2.asked = u.2.asked := by rw [hnotes]; exact List.append_nil _
  have hclosed : ∀ (address : Nat) (s : Acceptor) a, (closeSocket address s).sockets a = s.sockets a ∨
      (closeSocket address s).sockets a = none := by
    intro address s a
    cases hs : s.sockets address with
    | none => rw [closeSocket, hs]; exact Or.inl rfl
    | some data =>
        rw [closeSocket_sockets hs]
        by_cases ha : a = address
        · exact Or.inr (by rw [ha, Function.update_self])
        · exact Or.inl (Function.update_of_ne ha _ _)
  rw [← hstep]
  simp only [executeDeferred]
  split
  · exact ⟨fun a => Or.inl rfl, rfl, hasked⟩
  · split
    · split <;> exact ⟨fun a => Or.inl rfl, rfl, hasked⟩
    · exact ⟨hclosed _ { u.1 with deferred := u.1.deferred.eraseIdx index },
        closeSocket_issued _ { u.1 with deferred := u.1.deferred.eraseIdx index }, hasked⟩

theorem Agreed.opened (h : Agreed ctx ipOf t) (hfree : t.noted.1.sockets address = none) :
    Agreed ctx ipOf
      ⟨(openSocket address t.noted.1, t.noted.2), Function.update t.parsers address (some .initial), t.heard⟩ := by
  have hfresh : t.heard (t.noted.1.issued.length + 1) = [] := h.unheard _ (Nat.lt_succ_self _)
  refine ⟨fun a => ?_, h.asked_eq, fun m hm => ?_, fun a data ha => ?_, fun a data b data' ha hb hnumber => ?_⟩
  · by_cases ha : a = address
    · subst ha
      simp only [openSocket, Function.update_self]
      exact ⟨rfl, rfl, hfresh ▸ initial_matches⟩
    · simp only [openSocket, Function.update_of_ne ha]
      exact h.at_eq a
  · exact h.unheard m ((Nat.lt_succ_self _).trans hm)
  · simp only [openSocket, List.length_cons] at ha ⊢
    by_cases haddress : a = address
    · rw [haddress, Function.update_self, Option.some.injEq] at ha
      rw [← ha]
    · rw [Function.update_of_ne haddress] at ha
      exact (h.numbered a data ha).trans (Nat.le_succ _)
  · simp only [openSocket] at ha hb
    by_cases haddress : a = address <;> by_cases hbddress : b = address
    · rw [haddress, hbddress]
    · rw [haddress, Function.update_self, Option.some.injEq] at ha
      rw [Function.update_of_ne hbddress] at hb
      have hle := h.numbered b data' hb
      rw [← hnumber, ← ha] at hle
      exact absurd hle (Nat.not_succ_le_self _)
    · rw [hbddress, Function.update_self, Option.some.injEq] at hb
      rw [Function.update_of_ne haddress] at ha
      have hle := h.numbered a data ha
      rw [hnumber, ← hb] at hle
      exact absurd hle (Nat.not_succ_le_self _)
    · rw [Function.update_of_ne haddress] at ha
      rw [Function.update_of_ne hbddress] at hb
      exact h.distinct a data b data' ha hb hnumber

theorem advance_agreed {Q : WorkerRun σ → Prop} (h : Agreed (acceptorContext n) ipOf t) {input : Input σ}
    (hpossible : Possible (acceptorContext n) Q ipOf t input)
    (hstep : advance (acceptorContext n) build rsa randR exchange config t input = .ok (some t')) :
    Agreed (acceptorContext n) ipOf t' := by
  cases advance_cases hstep with
  | @opened address noted hfree hopen =>
      have hat := h.at_eq address
      rw [hfree] at hat
      have hnone : t.noted.1.sockets address = none := by
        cases hs : t.noted.1.sockets address with
        | none => rfl
        | some data =>
            rw [hs] at hat
            exact hat.elim
      have hrun : noteStep build rsa randR exchange config t.noted (.opened address) =
          some (openSocket address t.noted.1, t.noted.2) := by
        simp only [noteStep, step, hnone, askedBy, toldOn, List.append_nil]
        rfl
      rw [hopen, Option.some.injEq] at hrun
      subst hrun
      exact h.opened hnone
  | @read address delivery ipAddress socket after noted hsocket hrun hcalls =>
      obtain ⟨t₁, hread, hagreed⟩ := advance_read build rsa randR exchange config h hsocket hpossible.1 hpossible.2
      rw [hstep] at hread
      cases hread
      exact hagreed
  | @gone address socket hsocket hdown =>
      refine h.frame rfl rfl rfl fun a => ?_
      by_cases ha : a = address
      · subst ha
        refine Or.inr ⟨?_, ?_⟩
        · by_contra hne
          obtain ⟨parser, hparser, hup⟩ := (agreedAt_iff h a).mp hne
          rw [hsocket, Option.some.injEq] at hparser
          rw [← hparser, hdown] at hup
          cases hup
        · dsimp only
          rw [Function.update_self]
          trivial
      · exact Or.inl ⟨rfl, Function.update_of_ne ha _ _⟩
  | @closed address socket noted hsocket hup hclose =>
      obtain ⟨data, hdata⟩ := Option.ne_none_iff_exists'.mp ((agreedAt_iff h address).mpr ⟨socket, hsocket, hup⟩)
      have hrun := noteStep_closed build rsa randR exchange config hdata t.noted.2
      rw [Prod.mk.eta, hclose, Option.some.injEq] at hrun
      subst hrun
      refine h.frame rfl rfl (closeSocket_issued address _) fun a => ?_
      simp only [closeSocket_sockets hdata]
      by_cases ha : a = address
      · subst ha
        rw [Function.update_self, Function.update_self]
        exact Or.inr ⟨rfl, trivial⟩
      · exact Or.inl ⟨Function.update_of_ne ha _ _, Function.update_of_ne ha _ _⟩
  | completed hdone =>
      obtain ⟨hsockets, hissued, hasked⟩ := noteStep_completed hdone
      exact h.frame rfl hasked hissued fun a => Or.inl ⟨congrFun hsockets a, rfl⟩
  | executed hdone =>
      obtain ⟨hsockets, hissued, hasked⟩ := noteStep_executed hdone
      refine h.frame rfl hasked hissued fun a => ?_
      dsimp only
      split_ifs with hclosed
      · exact Or.inr ⟨hclosed.2, trivial⟩
      · refine Or.inl ⟨(hsockets a).elim id fun hnone => ?_, rfl⟩
        rw [hnone]
        by_contra hne
        exact hclosed ⟨Ne.symm hne, hnone⟩

theorem initial_agreed : Agreed ctx ipOf .initial where
  at_eq _ := trivial
  asked_eq _ := rfl
  unheard _ _ := rfl
  numbered _ _ h := nomatch h
  distinct _ _ _ _ h := nomatch h

theorem reachable_agreed {Q : WorkerRun σ → Prop}
    (h : Reachable (acceptorContext n) build rsa randR exchange config Q ipOf t) : Agreed (acceptorContext n) ipOf t := by
  induction h with
  | refl => exact initial_agreed
  | tail _ hstep ih =>
      obtain ⟨input, hpossible, hadvance⟩ := hstep
      exact advance_agreed ih hpossible hadvance

theorem handlerCalls_meets {Q : WorkerRun σ → Prop} {events : List WebSocketProtocol.Event} {ipAddress : Int} :
    ∀ event ∈ events.flatMap (handlerCalls address ipAddress), Meets Q event := by
  intro event hevent
  obtain ⟨e, -, hcall⟩ := List.mem_flatMap.mp hevent
  cases e with
  | pong => cases hcall
  | message | ended | forceClosed =>
      rw [List.mem_singleton.mp hcall]
      trivial

theorem reachable_run {Q : WorkerRun σ → Prop} (h : Reachable ctx build rsa randR exchange config Q ipOf t) :
    Run build rsa randR exchange config Q t.noted := by
  induction h with
  | refl => exact .refl
  | tail _ hstep ih =>
      obtain ⟨input, hpossible, hadvance⟩ := hstep
      cases advance_cases hadvance with
      | opened hfree hstep => exact ih.tail ⟨.opened _, trivial, hstep⟩
      | read hsocket hrun hcalls => exact run_of_foldlM handlerCalls_meets ih hcalls
      | gone hsocket hdown => exact ih
      | closed hsocket hup hstep => exact ih.tail ⟨.closed _, trivial, hstep⟩
      | completed hstep => exact ih.tail ⟨.completed _ _, hpossible, hstep⟩
      | executed hstep => exact ih.tail ⟨.executed _, trivial, hstep⟩

/-- Over any interleaving of reads, workers and callbacks the acceptor only
takes steps of its own. A socket is open for it as long as its parser is not
shut down, every read of it is taken, and its workers are asked what a decoder
makes of the bytes that it has heard. -/
theorem frames_drive_acceptor {Q : WorkerRun σ → Prop}
    (h : Reachable (acceptorContext n) build rsa randR exchange config Q ipOf t) :
    Run build rsa randR exchange config Q t.noted ∧
      (∀ address, t.noted.1.sockets address ≠ none ↔
        ∃ parser, t.parsers address = some parser ∧ parser.isShuttingDown = false) ∧
      (∀ number, (t.noted.2.asked.filter (·.1 = number)).map Prod.snd =
        (decode (acceptorContext n) .initial (t.heard number)).events.flatMap (asks (ipOf number))) ∧
      ∀ address delivery ipAddress, t.parsers address ≠ none →
        Possible (acceptorContext n) Q ipOf t (.read address delivery ipAddress) →
        ∃ t', advance (acceptorContext n) build rsa randR exchange config t (.read address delivery ipAddress) = .ok (some t') := by
  have hagreed := reachable_agreed h
  refine ⟨reachable_run h, agreedAt_iff hagreed, hagreed.asked_eq, fun address delivery ipAddress hparser hpossible => ?_⟩
  obtain ⟨parser, hsome⟩ := Option.ne_none_iff_exists'.mp hparser
  obtain ⟨t', hrun, -⟩ := advance_read build rsa randR exchange config hagreed hsome hpossible.1 hpossible.2
  exact ⟨t', hrun⟩

end

theorem reachable_turns {σ : Type} {ctx : Context} {build : Build} {rsa : RsaKey} {randR : UInt32 → Int × UInt32}
    {exchange : Exchange σ} {config : ServerConfig} {Q : WorkerRun σ → Prop} {ipOf : Nat → Int} {inputs : List (Input σ)}
    (hpossible : ∀ input ∈ inputs, ∀ t, Possible ctx Q ipOf t input) {t t' : System}
    (h : Reachable ctx build rsa randR exchange config Q ipOf t)
    (hrun : inputs.foldlM (fun t input => (advance ctx build rsa randR exchange config t input).toOption.join) t = some t') :
    Reachable ctx build rsa randR exchange config Q ipOf t' := by
  refine Relation.ReflTransGen.trans h (reflTransGen_of_foldlM (fun input hinput t₁ t₂ hstep => ?_) hrun)
  refine ⟨input, hpossible input hinput t₁, ?_⟩
  cases hadvance : advance ctx build rsa randR exchange config t₁ input with
  | error fault =>
      rw [hadvance] at hstep
      cases hstep
  | ok reached =>
      rw [hadvance] at hstep
      exact congrArg Except.ok hstep

def cutPacket : Message where
  isText := false
  first := ⟨[], [16, 32, 48, 64], (LoginForm.stream plainForm plainKey []).take 60, rfl⟩
  rest := [⟨[⟨true, [3, 5, 8, 13], [21], rfl, by decide⟩], [80, 96, 112, 128],
    (LoginForm.stream plainForm plainKey []).drop 60, rfl⟩]

def cutInputs : List (Input Unit) :=
  [.opened 7, .read 7 (freshDelivery 128 (cutPacket.bytes.take 100)) 0,
    .read 7 (freshDelivery 128 (cutPacket.bytes.drop 100)) 0, .completed 0 ⟨true, ⟨(), []⟩, default, 0, false⟩,
    .executed 0]

theorem cutInputs_reachable :
    ∃ t, Reachable (acceptorContext 128) ⟨.latin1, false⟩ default (fun seed => (0, seed)) oneAccount.exchange
        Framing.oneConnection (fun run => run.connected = true → True) (fun _ => 0) t ∧
      t.noted.1.issued.length < 18446744073709551616 ∧ t.heard 1 = cutPacket.bytes ∧
      t.noted.2.told.map (·.1) = [1] := by
  have hends : (cutInputs.foldlM (fun t input => (advance (acceptorContext 128) ⟨.latin1, false⟩ default
      (fun seed => (0, seed)) oneAccount.exchange Framing.oneConnection t input).toOption.join) .initial).map
        (fun t => (t.noted.1.issued.length, t.heard 1, t.noted.2.told.map (·.1))) = some (1, cutPacket.bytes, [1]) := by
    decide +kernel
  rw [Option.map_eq_some_iff] at hends
  obtain ⟨t, hrun, hnotes⟩ := hends
  simp only [Prod.mk.injEq] at hnotes
  obtain ⟨hissued, hheard, htold⟩ := hnotes
  refine ⟨t, reachable_turns ?_ .refl hrun, by omega, hheard, htold⟩
  have hfits : ∀ data : List UInt8, 0 < data.length ∧ data.length ≤ 128 →
      Fits (acceptorContext 128) (freshDelivery 128 data) :=
    fun data hdata => ⟨List.length_replicate .., hdata.1, hdata.2⟩
  simp only [cutInputs, List.forall_mem_cons]
  refine ⟨fun _ => trivial, fun _ => ⟨hfits _ (by decide +kernel), fun _ _ => rfl⟩,
    fun _ => ⟨hfits _ (by decide +kernel), fun _ _ => rfl⟩, fun _ _ => trivial, fun _ => trivial, ?_⟩
  intro input hinput
  cases hinput

theorem frames_drive_acceptor_cut :
    ∃ t : System, t.heard 1 = cutPacket.bytes ∧ t.noted.2.told.map (·.1) = [1] ∧
      Run ⟨.latin1, false⟩ default (fun seed => (0, seed)) oneAccount.exchange Framing.oneConnection
        (fun run => run.connected = true → True) t.noted ∧
      (t.noted.2.asked.filter (·.1 = 1)).map Prod.snd =
        (decode (acceptorContext 128) .initial cutPacket.bytes).events.flatMap (asks 0) := by
  obtain ⟨t, hreachable, -, hheard, htold⟩ := cutInputs_reachable
  obtain ⟨hrun, -, hasked, -⟩ := frames_drive_acceptor hreachable
  exact ⟨t, hheard, htold, hrun, hheard ▸ hasked 1⟩

end TibiaLogin.FramedSockets
