import TibiaLogin.QueryAttempt

namespace TibiaLogin.QueryLockstep

open Memory BufferWriter Query QueryClient QueryAttempt

section

variable (net : Network) (manager : Manager)

/-- The answer to a request, if there is one, belongs to the transmission that
is the last event but one. -/
def Answers (frame : List UInt8) (capacity : Nat) (body : Option (List UInt8)) (c : Client) : Prop :=
  ∀ b, body = some b → 0 < b.length ∧ b.length ≤ capacity ∧ ∃ n log, c.socket = some n ∧
    c.log = .answered n frame b :: .transmitted n frame :: log

def Outcome.body : Outcome → Option (List UInt8)
  | .response body => some body
  | .again => none
  | .failed => none

structure Ended (frame : List UInt8) (capacity : Nat) (c : Client) (body : Option (List UInt8)) (c' : Client) :
    Prop where
  ready : Ready manager c'
  loggedIn : LoggedIn c → LoggedIn c'
  answers : Answers frame capacity body c'

theorem attempt_ended {connection : Nat} {frame : List UInt8} (capacity : Nat) {c : Client} (h : Ready manager c)
    (hs : c.socket = some connection) (hframe : ∃ body, body ≠ [] ∧ frame = requestFrame body)
    (hallowed : IsLogin frame ∨ LoggedIn c) :
    ∃ o c', attempt net manager connection frame capacity c = (o, c') ∧
      Ended manager frame capacity c (Outcome.body o) c' ∧ (o = .again → c'.socket = none) := by
  obtain ⟨o, c', hr, hready, hout⟩ := attempt_spec net manager capacity h hs hframe
    (hallowed.imp_right fun hl => hl connection hs)
  refine ⟨o, c', hr, ?_⟩
  rcases hout with ⟨body, rfl, hpos, hle, hs', hlog⟩ | ⟨ho, hs'⟩
  · refine ⟨⟨hready, fun hl n hn => ?_, fun b hb => ?_⟩, fun hf => by cases hf⟩
    · obtain rfl : connection = n := by rwa [hs', Option.some.injEq] at hn
      rw [hlog]
      exact (hl connection hs).later fun e he => List.mem_cons_of_mem _ (List.mem_cons_of_mem _ he)
    · cases hb
      exact ⟨hpos, hle, connection, c.log, hs', hlog⟩
  · refine ⟨⟨hready, fun _ => loggedIn_of_none hs', fun b hb => ?_⟩, fun _ => hs'⟩
    rcases ho with rfl | rfl <;> cases hb

section

variable {reconnect : Client → Except Fault (Bool × Client)}
  (hreconnect : ∀ c, Ready manager c → c.socket = none →
    ∃ ready c', reconnect c = .ok (ready, c') ∧ Ready manager c' ∧ LoggedIn c')
  {frame : List UInt8} (hframe : ∃ body, body ≠ [] ∧ frame = requestFrame body) (capacity : Nat)

include hreconnect hframe

theorem attemptRound_ended {c : Client} (h : Ready manager c) (hallowed : IsLogin frame ∨ LoggedIn c) :
    ∃ o c', attemptRound net manager reconnect frame capacity c = .ok (o, c') ∧
      Ended manager frame capacity c (Outcome.body o) c' ∧ (o = .again → c'.socket = none) := by
  rw [attemptRound]
  cases hs : c.socket with
  | none =>
      obtain ⟨ready, c₁, hre, h₁, hl₁⟩ := hreconnect c h hs
      rw [Option.isNone_none, if_pos rfl, hre, ok_bind]
      simp only
      have hfailed : Ended manager frame capacity c (Outcome.body .failed) c₁ :=
        ⟨h₁, fun _ => hl₁, fun b hb => by cases hb⟩
      cases ready with
      | false => exact ⟨_, _, rfl, hfailed, fun hf => by cases hf⟩
      | true =>
          cases hs₁ : c₁.socket with
          | none => exact ⟨_, _, rfl, hfailed, fun hf => by cases hf⟩
          | some n =>
              obtain ⟨o, c', hr, he, ho⟩ := attempt_ended net manager capacity h₁ hs₁ hframe (Or.inr hl₁)
              exact ⟨o, c', by simp only [hr]; rfl, ⟨he.ready, fun _ => he.loggedIn hl₁, he.answers⟩, ho⟩
  | some n =>
      obtain ⟨o, c', hr, he, ho⟩ := attempt_ended net manager capacity h hs hframe hallowed
      refine ⟨o, c', ?_, he, ho⟩
      rw [Option.isNone_some, if_neg Bool.false_ne_true, pure_bind]
      simp only [hs, hr]
      rfl

theorem attempts_ended (left : Nat) {c : Client} (h : Ready manager c) (hallowed : IsLogin frame ∨ LoggedIn c) :
    ∃ body c', attempts net manager reconnect frame capacity left c = .ok (body, c') ∧
      Ended manager frame capacity c body c' := by
  induction left generalizing c with
  | zero => exact ⟨none, c, rfl, h, id, fun b hb => by cases hb⟩
  | succ left ih =>
      obtain ⟨o, c₁, hr, he, ho⟩ := attemptRound_ended net manager hreconnect hframe capacity h hallowed
      rw [attempts, hr, ok_bind]
      cases o with
      | response body => exact ⟨some body, c₁, rfl, he⟩
      | failed => exact ⟨none, c₁, rfl, he⟩
      | again =>
          have hl₁ := loggedIn_of_none (ho rfl)
          obtain ⟨body, c', hr', he'⟩ := ih he.ready (Or.inr hl₁)
          exact ⟨body, c', hr', he'.ready, fun _ => he'.loggedIn hl₁, he'.answers⟩

end

def statusOf : Option (List UInt8) → QueryStatus
  | none => .failed
  | some body => .ofByte (body.headD 0)

/-- The bytes that go out for a writer, where they fit. -/
def Framed (w : BufferWriter) (frame : List UInt8) : Prop :=
  ∃ w', frameRequest w = .ok (some w') ∧ w'.buffer.take w'.position.toNat = frame

theorem exchange_ended (reconnect : Client → Except Fault (Bool × Client))
    (hreconnect : ∀ c, Ready manager c → c.socket = none →
      ∃ ready c', reconnect c = .ok (ready, c') ∧ Ready manager c' ∧ LoggedIn c')
    {n : Nat} {w : BufferWriter} {a b : UInt8} {body : List UInt8} (hw : Holds n w (a :: b :: body))
    (hn : n < 2147483648) (hbody : body.length + 6 < 2147483648) (hne : body ≠ []) {c : Client}
    (h : Ready manager c) (hallowed : IsLogin (requestFrame body) ∨ LoggedIn c) :
    ∃ reply c', exchange net manager reconnect w c = .ok (statusOf reply, reply, c') ∧
      Ended manager (requestFrame body) n c reply c' ∧ (reply ≠ none → Framed w (requestFrame body)) := by
  obtain ⟨w', rfl, htake, hframe⟩ := frameRequest_eq hw hn hbody
  rw [exchange, hframe, ok_bind]
  by_cases hfit : (requestFrame body).length ≤ w'.buffer.length
  · rw [if_pos hfit]
    simp only [htake hfit]
    obtain ⟨reply, c', hr, he⟩ := attempts_ended net manager hreconnect ⟨body, hne, rfl⟩ w'.buffer.length 2 h hallowed
    rw [hr, ok_bind]
    rw [if_pos hfit] at hframe
    refine ⟨reply, c', ?_, he, fun _ => ⟨w', hframe, htake hfit⟩⟩
    cases reply with
    | none => rfl
    | some bytes =>
        simp only
        rw [readU8_status]
        rfl
  · rw [if_neg hfit]
    exact ⟨none, c, rfl, ⟨h, id, fun b hb => by cases hb⟩, fun hne => absurd rfl hne⟩

variable (enc : ClientEncoding)

theorem loginQuery_holds {password : List UInt8} (h : password.length ≤ 255) :
    ∃ w body, loginQuery enc password = .ok w ∧ Holds 1024 w (0 :: 0 :: QueryType.login.code :: body) ∧
      body.length ≤ 512 := by
  have ho := length_outgoing_le enc password
  have hs := length_stringBytes_le (outgoing enc password)
  have hc := length_cString_le password
  obtain ⟨w₁, hw₁, h₁⟩ := prepareQuery_holds .login (List.replicate 1024 0)
  rw [List.length_replicate] at h₁
  obtain ⟨w₂, hw₂, h₂⟩ := writeScalar_holds h₁ [2] (by simp)
  obtain ⟨w₃, hw₃, h₃⟩ := writeString_holds enc h₂ (by omega) password (by omega)
    (by simp only [List.length_append, List.length_cons, List.length_nil]; omega)
  refine ⟨w₃, 2 :: stringBytes (outgoing enc password), ?_, h₃, ?_⟩
  · rw [loginQuery, hw₁, ok_bind, writeU8, hw₂, ok_bind, hw₃]
  · rw [List.length_cons]
    omega

theorem ofByte_headD_ok {body : List UInt8} (hpos : 0 < body.length) (h : QueryStatus.ofByte (body.headD 0) = .ok) :
    body.head? = some 0 := by
  obtain ⟨b, rest, rfl⟩ := List.exists_cons_of_ne_nil (List.ne_nil_of_length_pos hpos)
  rw [List.head?_cons, show b = 0 from ofByte_eq_ok.mp h]

theorem login_ready {c : Client} (h : Ready manager c) (hpassword : c.password.length ≤ 255) :
    ∃ ready c', login net manager enc c = .ok (ready, c') ∧ Ready manager c' ∧ LoggedIn c' := by
  obtain ⟨w, body, hw, hholds, hlen⟩ := loginQuery_holds enc hpassword
  have hlogin : IsLogin (requestFrame (QueryType.login.code :: body)) := ⟨body, rfl⟩
  obtain ⟨reply, c', hr, he, -⟩ := exchange_ended net manager (fun c => pure (false, c))
    (fun c hc hs => ⟨false, c, rfl, hc, loggedIn_of_none hs⟩) hholds (by omega)
    (by rw [List.length_cons]; omega) (List.cons_ne_nil _ _) h (Or.inl hlogin)
  rw [login, hw, ok_bind, hr, ok_bind]
  simp only
  by_cases hok : statusOf reply = .ok
  · rw [if_neg (not_not.mpr hok)]
    refine ⟨true, c', rfl, he.ready, fun n hn => ?_⟩
    cases reply with
    | none => cases hok
    | some bytes =>
        obtain ⟨hpos, -, m, log, hm, hlog⟩ := he.answers bytes rfl
        rw [hm, Option.some.injEq] at hn
        subst hn
        refine ⟨_, bytes, ?_, hlogin, ofByte_headD_ok hpos hok⟩
        rw [hlog]
        exact List.mem_cons_self ..
  · rw [if_pos hok]
    obtain ⟨hd, hs⟩ := ready_disconnect he.ready
    exact ⟨false, _, rfl, hd, loggedIn_of_none hs⟩

omit net enc in
theorem ready_opened {c : Client} (h : Ready manager c) (hs : c.socket = none) :
    Ready manager { c with
      socket := some c.opened, opened := c.opened + 1, unread := [], log := .opened c.opened :: c.log } := by
  refine ⟨⟨⟨?_, ?_, h.lockstep⟩, rfl, fun n hn => ?_⟩, rfl⟩
  · rw [← h.socket_eq, hs]
  · intro hmem
    exact absurd (h.numbered c.opened hmem) (Nat.lt_irrefl _)
  · rcases List.mem_cons.mp hn with he | he
    · cases he
      exact Nat.lt_succ_self _
    · exact Nat.lt_succ_of_lt (h.numbered n he)

theorem connect_ready (host : List UInt8) (port : Int) (password : List UInt8) {c : Client} (h : Ready manager c)
    (hl : LoggedIn c) :
    ∃ ready c', connect net manager enc host port password c = .ok (ready, c') ∧ Ready manager c' ∧ LoggedIn c' := by
  have hkept : ∀ host password clock, Ready manager { c with host, port, password, clock } :=
    fun _ _ _ => ⟨⟨h.lockstep, h.socket_eq, h.numbered⟩, h.boundary⟩
  rw [connect]
  by_cases hopen : c.socket.isSome = true
  · exact ⟨false, c, if_pos hopen, h, hl⟩
  · have hs : c.socket = none := Option.not_isSome_iff_eq_none.mp hopen
    have hnone : ∀ host password clock, LoggedIn { c with host, port, password, clock } :=
      fun _ _ _ => loggedIn_of_none hs
    rw [if_neg hopen]
    cases hresolve : net.resolves c.clock with
    | false => exact ⟨false, _, if_pos (by simp [hresolve]), hkept _ _ _, hnone _ _ _⟩
    | true =>
        rw [if_neg (by simp [hresolve])]
        cases hsocket : net.sockets (c.clock + 1) with
        | false => exact ⟨false, _, if_pos (by simp [Client.tick, hsocket]), hkept _ _ _, hnone _ _ _⟩
        | true =>
            rw [if_neg (by simp [Client.tick, hsocket])]
            cases hconnect : net.connects (c.clock + 1 + 1) with
            | false => exact ⟨false, _, if_pos (by simp [Client.tick, hconnect]), hkept _ _ _, hnone _ _ _⟩
            | true =>
                rw [if_neg (by simp [Client.tick, hconnect])]
                have hready := ready_opened manager
                  (hkept ((cString host).take 255) ((cString password).take 255) (c.clock + 1 + 1 + 1)) hs
                exact login_ready net manager enc hready (List.length_take_le ..)

/-- A writer as `executeQuery` asserts it, with a position in the range of int. -/
structure Prepared where
  writer : BufferWriter
  begun : 2 < writer.position
  bounded : writer.position + 4 < 2147483648
  sized : writer.buffer.length < 2147483648

omit net manager enc in
theorem Prepared.holds (query : Prepared) :
    ∃ a b body, Holds query.writer.buffer.length query.writer (a :: b :: body) ∧ body ≠ [] ∧
      body.length + 6 < 2147483648 := by
  obtain ⟨w, hbegun, hbounded, -⟩ := query
  obtain ⟨p, hp⟩ := Int.eq_ofNat_of_zero_le (show 0 ≤ w.position by omega)
  obtain ⟨written, hlen, htake⟩ : ∃ written : List UInt8, written.length = p ∧
      (p ≤ w.buffer.length → w.buffer.take p = written) := by
    by_cases hle : p ≤ w.buffer.length
    · exact ⟨w.buffer.take p, List.length_take_of_le hle, fun _ => rfl⟩
    · exact ⟨List.replicate p 0, List.length_replicate, fun h => absurd h hle⟩
  match written, hlen with
  | a :: b :: x :: rest, hlen =>
      simp only [List.length_cons] at hlen
      refine ⟨a, b, x :: rest, ⟨rfl, ?_, fun h => ?_⟩, List.cons_ne_nil _ _, ?_⟩
      · simp only [List.length_cons]
        omega
      · simp only [List.length_cons, hlen] at h ⊢
        exact htake h
      · simp only [List.length_cons]
        omega
  | [], hlen => simp only [List.length_nil] at hlen; omega
  | [_], hlen => simp only [List.length_cons, List.length_nil] at hlen; omega
  | [_, _], hlen => simp only [List.length_cons, List.length_nil] at hlen; omega

theorem reconnect_ready (autoReconnect : Bool) (c : Client) (h : Ready manager c) (hs : c.socket = none) :
    ∃ ready c', (if autoReconnect then connect net manager enc c.host c.port c.password c else pure (false, c)) =
      .ok (ready, c') ∧ Ready manager c' ∧ LoggedIn c' := by
  split_ifs
  · exact connect_ready net manager enc c.host c.port c.password h (loggedIn_of_none hs)
  · exact ⟨false, c, rfl, h, loggedIn_of_none hs⟩

theorem executeQuery_ended (autoReconnect : Bool) (query : Prepared) {c : Client} (h : Ready manager c)
    (hl : LoggedIn c) :
    ∃ frame reply c', executeQuery net manager enc autoReconnect query.writer c =
        .ok (statusOf reply, reply, c') ∧ Ended manager frame query.writer.buffer.length c reply c' ∧
      (reply ≠ none → Framed query.writer frame) := by
  obtain ⟨a, b, body, hholds, hne, hbody⟩ := query.holds
  obtain ⟨reply, c', hr, he⟩ := exchange_ended net manager _ (reconnect_ready net manager enc autoReconnect) hholds
    query.sized hbody hne h (Or.inr hl)
  exact ⟨_, reply, c', hr, he⟩

inductive Call
  | connect (host : List UInt8) (port : Int) (password : List UInt8)
  | disconnect
  | executeQuery (autoReconnect : Bool) (query : Prepared)

def call (c : Client) : Call → Except Fault Client
  | .connect host port password => do
      let (_, c) ← connect net manager enc host port password c
      pure c
  | .disconnect => pure (disconnect c)
  | .executeQuery autoReconnect query => do
      let (_, _, c) ← executeQuery net manager enc autoReconnect query.writer c
      pure c

theorem call_ready (step : Call) (c : Client) (h : Ready manager c ∧ LoggedIn c) :
    ∃ c', call net manager enc c step = .ok c' ∧ Ready manager c' ∧ LoggedIn c' := by
  cases step with
  | connect host port password =>
      obtain ⟨ready, c', hr, h'⟩ := connect_ready net manager enc host port password h.1 h.2
      refine ⟨c', ?_, h'⟩
      rw [call, hr]
      rfl
  | disconnect =>
      obtain ⟨hd, hs⟩ := ready_disconnect h.1
      exact ⟨_, rfl, hd, loggedIn_of_none hs⟩
  | executeQuery autoReconnect query =>
      obtain ⟨frame, reply, c', hr, he, -⟩ := executeQuery_ended net manager enc autoReconnect query h.1 h.2
      refine ⟨c', ?_, he.ready, he.loggedIn h.2⟩
      rw [call, hr]
      rfl

/-- The stream stands at the end of a response, or there is none. -/
def AtBoundary (c : Client) : Prop := c.socket = none ∨ c.unread = []

/-- In every sequence of calls each answer belongs to the request it is
returned for, no byte of a response is left behind, and queries other than
Login only go out after a login on the same connection. -/
theorem query_lockstep (calls : List Call) :
    ∃ c, calls.foldlM (call net manager enc) .initial = .ok c ∧ Lockstep manager c.log ∧ c.socket = current c.log ∧
      AtBoundary c ∧
      ∀ (autoReconnect : Bool) (query : Prepared), ∃ status reply c',
        executeQuery net manager enc autoReconnect query.writer c = .ok (status, reply, c') ∧
        Lockstep manager c'.log ∧ c'.socket = current c'.log ∧ AtBoundary c' ∧ (reply = none → status = .failed) ∧
        ∀ body, reply = some body → status = .ofByte (body.headD 0) ∧ ∃ frame n log,
          Framed query.writer frame ∧ c'.socket = some n ∧
          c'.log = .answered n frame body :: .transmitted n frame :: log := by
  obtain ⟨c, hrun, h, hl⟩ := foldlM_invariant (fun _ c => Ready manager c ∧ LoggedIn c)
    (fun step _ c hc => call_ready net manager enc step c hc) (l := calls) (b := .initial)
    ⟨⟨⟨trivial, rfl, fun n hn => by cases hn⟩, rfl⟩, loggedIn_of_none rfl⟩
  refine ⟨c, hrun, h.lockstep, h.socket_eq, Or.inr h.boundary, fun autoReconnect query => ?_⟩
  obtain ⟨frame, reply, c', hr, he, hframe⟩ := executeQuery_ended net manager enc autoReconnect query h hl
  refine ⟨_, reply, c', hr, he.ready.lockstep, he.ready.socket_eq, Or.inr he.ready.boundary, ?_, ?_⟩
  · rintro rfl
    rfl
  · rintro body rfl
    obtain ⟨-, -, n, log, hs, hlog⟩ := he.answers body rfl
    exact ⟨rfl, frame, n, log, hframe (by simp), hs, hlog⟩

end

end TibiaLogin.QueryLockstep
