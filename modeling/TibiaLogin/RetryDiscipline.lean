import TibiaLogin.QueryFraming

namespace TibiaLogin.RetryDiscipline

open MachineInt Memory ByteOrder BufferWriter Query

/-- What the system calls of the client meet, by the number of calls before. A
call of `write` or `read` fails or moves at least one byte, and the bytes of a
read are whatever the other side sent; none stands for its failure. -/
structure Calls where
  resolves : Nat → Bool
  sockets : Nat → Option Nat
  connects : Nat → Bool
  writes : Nat → Option Nat
  reads : Nat → List UInt8

/-- What a query does. It is named by the depth of its call, as its buffer is
on the stack: the login inside a call of `connect` is one deeper. -/
inductive Event
  | connecting (query : Nat)
  | transmitted (query : Nat) (bytes : List UInt8)
  | sized (query : Nat)
  deriving DecidableEq, Repr

structure Client where
  socket : Option Nat
  host : List UInt8
  port : Int
  password : List UInt8
  clock : Nat
  log : List Event
  deriving DecidableEq, Repr

def Client.tick (c : Client) : Client := { c with clock := c.clock + 1 }

def Client.record (event : Event) (c : Client) : Client := { c with log := c.log ++ [event] }

def disconnect (c : Client) : Client := if c.socket.isSome then { c.tick with socket := none } else c

/-- The model of the loop has run out of fuel, or an access was out of bounds. -/
inductive Halt
  | fuel
  | fault (f : Fault)
  deriving DecidableEq, Repr

section

variable (calls : Calls)

def writeLoop : Nat → Nat → Client → Bool × Client
  | 0, remaining, c => (remaining = 0, c)
  | fuel + 1, remaining, c =>
      if remaining = 0 then (true, c)
      else
        match calls.writes c.clock with
        | none => (false, c.tick)
        | some more => writeLoop fuel (remaining - (more + 1)) c.tick

def writeExact (size : Nat) (c : Client) : Bool × Client := writeLoop calls size size c

def readLoop : Nat → Nat → Nat → List UInt8 → Client → Bool × List UInt8 × Client
  | 0, _, remaining, buffer, c => (remaining = 0, buffer, c)
  | fuel + 1, position, remaining, buffer, c =>
      if remaining = 0 then (true, buffer, c)
      else
        let bytes := (calls.reads c.clock).take remaining
        if bytes = [] then (false, buffer, c.tick)
        else
          readLoop fuel (position + bytes.length) (remaining - bytes.length) (overwrite buffer position bytes) c.tick

def readExact (size : Nat) (buffer : List UInt8) (c : Client) : Bool × List UInt8 × Client :=
  readLoop calls size 0 size buffer c

def readResponse (responseSize : Int) (buffer : List UInt8) (c : Client) : QueryClient.Outcome × List UInt8 × Client :=
  if responseSize ≤ 0 ∨ (buffer.length : Int) < responseSize then (.failed, buffer, disconnect c)
  else
    match readExact calls responseSize.toNat buffer c with
    | (false, buffer, c) => (.failed, buffer, disconnect c)
    | (true, buffer, c) => (.response (buffer.take responseSize.toNat), buffer, c)

def attempt (query writeSize : Nat) (buffer : List UInt8) (c : Client) : QueryClient.Outcome × List UInt8 × Client :=
  match writeExact calls writeSize (c.record (.transmitted query (buffer.take writeSize))) with
  | (false, c) => (.again, buffer, disconnect c)
  | (true, c) =>
      match readExact calls 2 (List.replicate 4 0) c with
      | (false, _, c) => (.again, buffer, disconnect c)
      | (true, help, c) =>
          let c := c.record (.sized query)
          let responseSize : Int := (readU16Le help).toNat
          if responseSize = 0xFFFF then
            match readExact calls 4 help c with
            | (false, _, c) => (.failed, buffer, disconnect c)
            | (true, help, c) => readResponse calls (wrap32 (readU32Le help).toNat) buffer c
          else readResponse calls responseSize buffer c

def openSocket (c : Client) : Bool × Client :=
  if !calls.resolves c.clock then (false, c.tick)
  else
    let c := c.tick
    match calls.sockets c.clock with
    | none => (false, c.tick)
    | some fd =>
        let c := { c.tick with socket := some fd }
        if !calls.connects c.clock then (false, disconnect c.tick) else (true, c.tick)

end

def maxAttempts : Nat := 2

def ensureConnected (autoReconnect : Bool) (reconnect : Except Halt (Bool × Client)) (c : Client) :
    Except Halt (Bool × Client) :=
  if c.socket.isSome then pure (true, c) else if !autoReconnect then pure (false, c) else reconnect

/-- The framing of the request, and the status of the response that the loop brings. -/
def executeWith (loop : Nat → List UInt8 → Client → Except Halt (Option (List UInt8) × List UInt8 × Client))
    (w : BufferWriter) (c : Client) : Except Halt (QueryStatus × Option (List UInt8) × Client) := do
  match ← (frameRequest w).mapError .fault with
  | none => pure (.failed, none, c)
  | some w =>
      let (response, _, c) ← loop w.position.toNat w.buffer c
      match response with
      | none => pure (.failed, none, c)
      | some bytes => do
          let (status, _) ← (BufferReader.readU8 ⟨bytes, 0⟩).mapError .fault
          pure (.ofByte status, some bytes, c)

def login (enc : ClientEncoding)
    (execute : BufferWriter → Client → Except Halt (QueryStatus × Option (List UInt8) × Client)) (c : Client) :
    Except Halt (Bool × Client) := do
  let w ← (QueryClient.loginQuery enc c.password).mapError .fault
  let (status, _, c) ← execute w c
  if status ≠ .ok then pure (false, disconnect c) else pure (true, c)

section

variable (calls : Calls) (enc : ClientEncoding)

mutual

/-- The loop of the attempts has no bound of its own: it goes on until an
attempt returns. -/
def executeLoop : Nat → (query : Nat) → (autoReconnect : Bool) → (tries : Nat) → (writeSize : Nat) → List UInt8 →
    Client → Except Halt (Option (List UInt8) × List UInt8 × Client)
  | 0, _, _, _, _, _, _ => .error .fuel
  | fuel + 1, query, autoReconnect, tries, writeSize, buffer, c => do
      let (ready, c) ← ensureConnected autoReconnect (connect fuel query c.host c.port c.password c) c
      if !ready then pure (none, buffer, c)
      else
        match attempt calls query writeSize buffer c with
        | (.response bytes, buffer, c) => pure (some bytes, buffer, c)
        | (.failed, buffer, c) => pure (none, buffer, c)
        | (.again, buffer, c) =>
            if maxAttempts ≤ tries then pure (none, buffer, c)
            else executeLoop fuel query autoReconnect (tries + 1) writeSize buffer c

def connect : Nat → (query : Nat) → (host : List UInt8) → (port : Int) → (password : List UInt8) → Client →
    Except Halt (Bool × Client)
  | 0, _, _, _, _, _ => .error .fuel
  | fuel + 1, query, host, port, password, c =>
      let c := c.record (.connecting query)
      if c.socket.isSome then pure (false, c)
      else
        match openSocket calls { c with host := (cString host).take 255, port, password := (cString password).take 255 } with
        | (false, c) => pure (false, c)
        | (true, c) => login enc (executeWith (executeLoop fuel (query + 1) false 1)) c

end

def executeQuery (fuel query : Nat) (autoReconnect : Bool) (w : BufferWriter) (c : Client) :
    Except Halt (QueryStatus × Option (List UInt8) × Client) :=
  executeWith (executeLoop calls enc fuel query autoReconnect 1) w c

end

/-- An event of the login inside a call of `connect`. -/
def Event.OfLogin (query : Nat) : Event → Prop
  | .connecting _ => False
  | .transmitted q _ => q = query + 1
  | .sized q => q = query + 1

/-- What precedes an attempt: nothing, or a call of `connect` with its login. -/
def Opening (query : Nat) (autoReconnect : Bool) (events : List Event) : Prop :=
  events = [] ∨
    autoReconnect = true ∧ ∃ login, events = .connecting query :: login ∧ ∀ e ∈ login, e.OfLogin query

/-- The events of a loop with so many attempts left. Only an attempt without a
response size is followed by another one. -/
inductive Attempts (query : Nat) (autoReconnect : Bool) (frame : List UInt8) : Nat → List Event → Prop
  | refused {left : Nat} {opening : List Event} (hopening : Opening query autoReconnect opening) :
      Attempts query autoReconnect frame (left + 1) opening
  | returned {left : Nat} {opening answer : List Event} (hopening : Opening query autoReconnect opening)
      (hanswer : answer = [] ∨ answer = [.sized query]) :
      Attempts query autoReconnect frame (left + 1) (opening ++ .transmitted query frame :: answer)
  | again {left : Nat} {opening rest : List Event} (hopening : Opening query autoReconnect opening)
      (hrest : Attempts query autoReconnect frame left rest) :
      Attempts query autoReconnect frame (left + 1) (opening ++ .transmitted query frame :: rest)

theorem log_disconnect (c : Client) : (disconnect c).log = c.log := by
  rw [disconnect]
  split_ifs <;> rfl

section

variable (calls : Calls)

theorem log_writeLoop (fuel remaining : Nat) (c : Client) : (writeLoop calls fuel remaining c).2.log = c.log := by
  induction fuel generalizing remaining c with
  | zero => rfl
  | succ fuel ih =>
      rw [writeLoop]
      split_ifs
      · rfl
      · split
        · rfl
        · exact ih _ c.tick

theorem log_readLoop (fuel position remaining : Nat) (buffer : List UInt8) (c : Client) :
    (readLoop calls fuel position remaining buffer c).2.2.log = c.log := by
  induction fuel generalizing position remaining buffer c with
  | zero => rfl
  | succ fuel ih =>
      rw [readLoop]
      split_ifs
      · rfl
      · simp only
        split_ifs
        · rfl
        · exact ih _ _ _ c.tick

theorem writeExact_cases (size : Nat) (c : Client) :
    ∃ written c', writeExact calls size c = (written, c') ∧ c'.log = c.log :=
  ⟨_, _, rfl, log_writeLoop calls size size c⟩

theorem readExact_cases (size : Nat) (buffer : List UInt8) (c : Client) :
    ∃ done buffer' c', readExact calls size buffer c = (done, buffer', c') ∧ c'.log = c.log :=
  ⟨_, _, _, rfl, log_readLoop calls size 0 size buffer c⟩

theorem readResponse_cases (responseSize : Int) (buffer : List UInt8) (c : Client) :
    ∃ outcome buffer' c', readResponse calls responseSize buffer c = (outcome, buffer', c') ∧ c'.log = c.log ∧
      outcome ≠ .again := by
  rw [readResponse]
  split_ifs
  · exact ⟨_, _, _, rfl, log_disconnect c, by simp⟩
  · obtain ⟨done, buffer', c', hread, hlog⟩ := readExact_cases calls responseSize.toNat buffer c
    rw [hread]
    cases done with
    | false => exact ⟨_, _, _, rfl, (log_disconnect c').trans hlog, by simp⟩
    | true => exact ⟨_, _, _, rfl, hlog, by simp⟩

theorem attempt_cases (query writeSize : Nat) (buffer : List UInt8) (c : Client) :
    ∃ outcome buffer' c' answer, attempt calls query writeSize buffer c = (outcome, buffer', c') ∧
      c'.log = c.log ++ .transmitted query (buffer.take writeSize) :: answer ∧
      (answer = [] ∨ answer = [.sized query]) ∧ (outcome = .again → answer = [] ∧ buffer' = buffer) := by
  obtain ⟨written, c₁, hwrite, hlog₁⟩ := writeExact_cases calls writeSize
    (c.record (.transmitted query (buffer.take writeSize)))
  have hsent : c₁.log = c.log ++ .transmitted query (buffer.take writeSize) :: [] := hlog₁
  rw [attempt, hwrite]
  cases written with
  | false => exact ⟨_, _, _, [], rfl, (log_disconnect c₁).trans hsent, Or.inl rfl, fun _ => ⟨rfl, rfl⟩⟩
  | true =>
      obtain ⟨done, help, c₂, hread, hlog₂⟩ := readExact_cases calls 2 (List.replicate 4 0) c₁
      simp only [hread]
      cases done with
      | false =>
          exact ⟨_, _, _, [], rfl, ((log_disconnect c₂).trans hlog₂).trans hsent, Or.inl rfl, fun _ => ⟨rfl, rfl⟩⟩
      | true =>
          have hsized : (c₂.record (.sized query)).log =
              c.log ++ .transmitted query (buffer.take writeSize) :: [.sized query] := by
            rw [Client.record, hlog₂, hsent, List.append_assoc]
            rfl
          have hresponse : ∀ responseSize c₃, c₃.log = (c₂.record (.sized query)).log →
              ∃ outcome buffer' c' answer, readResponse calls responseSize buffer c₃ = (outcome, buffer', c') ∧
                c'.log = c.log ++ .transmitted query (buffer.take writeSize) :: answer ∧
                (answer = [] ∨ answer = [.sized query]) ∧ (outcome = .again → answer = [] ∧ buffer' = buffer) := by
            intro responseSize c₃ hlog₃
            obtain ⟨outcome, buffer', c', hr, hlog, hfinal⟩ := readResponse_cases calls responseSize buffer c₃
            exact ⟨outcome, buffer', c', [.sized query], hr, (hlog.trans hlog₃).trans hsized, Or.inr rfl,
              fun h => absurd h hfinal⟩
          simp only
          split_ifs
          · obtain ⟨done, help', c₃, hread', hlog₃⟩ := readExact_cases calls 4 help (c₂.record (.sized query))
            rw [hread']
            cases done with
            | false =>
                exact ⟨_, _, _, [.sized query], rfl, ((log_disconnect c₃).trans hlog₃).trans hsized, Or.inr rfl,
                  by simp⟩
            | true => exact hresponse _ c₃ hlog₃
          · exact hresponse _ _ rfl

end

section

variable (calls : Calls) (enc : ClientEncoding)

/-- A call of `connect` that comes back with any fuel from a bound on, after a login at most. -/
def Connects (bound query : Nat) (c : Client) (host : List UInt8) (port : Int) (password : List UInt8) : Prop :=
  ∃ ready c' login,
    (∀ fuel, bound ≤ fuel → connect calls enc fuel query host port password c = .ok (ready, c')) ∧
      c'.log = c.log ++ .connecting query :: login ∧ ∀ e ∈ login, e.OfLogin query

section

variable {bound query : Nat} {autoReconnect : Bool}
  (hconnect : autoReconnect = true → ∀ c, Connects calls enc bound query c c.host c.port c.password)

include hconnect

theorem opening_cases (c : Client) :
    ∃ ready c' opening,
      (∀ fuel, bound ≤ fuel →
        ensureConnected autoReconnect (connect calls enc fuel query c.host c.port c.password c) c = .ok (ready, c')) ∧
      c'.log = c.log ++ opening ∧ Opening query autoReconnect opening := by
  simp only [ensureConnected]
  cases hs : c.socket with
  | some fd => exact ⟨true, c, [], fun _ _ => rfl, (List.append_nil _).symm, Or.inl rfl⟩
  | none =>
      cases hauto : autoReconnect with
      | false => exact ⟨false, c, [], fun _ _ => rfl, (List.append_nil _).symm, Or.inl rfl⟩
      | true =>
          obtain ⟨ready, c', login, hrun, hlog, hlogin⟩ := hconnect hauto c
          exact ⟨ready, c', .connecting query :: login, hrun, hlog, Or.inr ⟨rfl, login, rfl, hlogin⟩⟩

/-- A round of the loop returns, or it is followed by another one while the
counter allows that, with the buffer as it was. -/
theorem executeLoop_round (tries writeSize : Nat) (buffer : List UInt8) (c : Client) :
    (∃ response buffer' c' events,
      (∀ fuel, bound ≤ fuel → executeLoop calls enc (fuel + 1) query autoReconnect tries writeSize buffer c =
        .ok (response, buffer', c')) ∧
      c'.log = c.log ++ events ∧
      ∀ left, Attempts query autoReconnect (buffer.take writeSize) (left + 1) events) ∨
    ∃ c' opening,
      (∀ fuel, bound ≤ fuel → executeLoop calls enc (fuel + 1) query autoReconnect tries writeSize buffer c =
        if maxAttempts ≤ tries then pure (none, buffer, c')
        else executeLoop calls enc fuel query autoReconnect (tries + 1) writeSize buffer c') ∧
      c'.log = c.log ++ (opening ++ [.transmitted query (buffer.take writeSize)]) ∧
      Opening query autoReconnect opening := by
  obtain ⟨ready, c₁, opening, hopen, hlog₁, hopening⟩ := opening_cases calls enc hconnect c
  cases ready with
  | false =>
      refine Or.inl ⟨none, buffer, c₁, opening, fun fuel hfuel => ?_, hlog₁, fun left => .refused hopening⟩
      rw [executeLoop, hopen fuel hfuel]
      rfl
  | true =>
      obtain ⟨outcome, buffer', c', answer, hattempt, hlog, hanswer, hagain⟩ :=
        attempt_cases calls query writeSize buffer c₁
      rw [hlog₁, List.append_assoc] at hlog
      have hround : ∀ fuel, bound ≤ fuel →
          executeLoop calls enc (fuel + 1) query autoReconnect tries writeSize buffer c =
            match (outcome, buffer', c') with
            | (.response bytes, buffer, c) => pure (some bytes, buffer, c)
            | (.failed, buffer, c) => pure (none, buffer, c)
            | (.again, buffer, c) =>
                if maxAttempts ≤ tries then pure (none, buffer, c)
                else executeLoop calls enc fuel query autoReconnect (tries + 1) writeSize buffer c := by
        intro fuel hfuel
        rw [executeLoop, hopen fuel hfuel, ok_bind, ← hattempt]
        rfl
      cases outcome with
      | response bytes => exact Or.inl ⟨some bytes, buffer', c', _, hround, hlog, fun left => .returned hopening hanswer⟩
      | failed => exact Or.inl ⟨none, buffer', c', _, hround, hlog, fun left => .returned hopening hanswer⟩
      | again =>
          obtain ⟨rfl, rfl⟩ := hagain rfl
          exact Or.inr ⟨c', opening, hround, hlog, hopening⟩

theorem executeLoop_attempts {left tries : Nat} (hleft : tries + left = maxAttempts) (writeSize : Nat)
    (buffer : List UInt8) (c : Client) :
    ∃ response buffer' c' events,
      (∀ fuel, bound + left < fuel → executeLoop calls enc fuel query autoReconnect tries writeSize buffer c =
        .ok (response, buffer', c')) ∧
      c'.log = c.log ++ events ∧ Attempts query autoReconnect (buffer.take writeSize) (left + 1) events := by
  induction left generalizing tries c with
  | zero =>
      rcases executeLoop_round calls enc hconnect tries writeSize buffer c with
        ⟨response, buffer', c', events, hrun, hlog, hevents⟩ | ⟨c', opening, hrun, hlog, hopening⟩
      · refine ⟨response, buffer', c', events, fun fuel hfuel => ?_, hlog, hevents 0⟩
        obtain ⟨k, rfl⟩ : ∃ k, fuel = k + 1 := ⟨fuel - 1, by omega⟩
        exact hrun k (by omega)
      · refine ⟨none, buffer, c', _, fun fuel hfuel => ?_, hlog, .returned hopening (Or.inl rfl)⟩
        obtain ⟨k, rfl⟩ : ∃ k, fuel = k + 1 := ⟨fuel - 1, by omega⟩
        rw [hrun k (by omega), if_pos (by omega)]
        rfl
  | succ left ih =>
      rcases executeLoop_round calls enc hconnect tries writeSize buffer c with
        ⟨response, buffer', c', events, hrun, hlog, hevents⟩ | ⟨c₁, opening, hrun, hlog₁, hopening⟩
      · refine ⟨response, buffer', c', events, fun fuel hfuel => ?_, hlog, hevents (left + 1)⟩
        obtain ⟨k, rfl⟩ : ∃ k, fuel = k + 1 := ⟨fuel - 1, by omega⟩
        exact hrun k (by omega)
      · obtain ⟨response, buffer', c', rest, hrest, hlog, hevents⟩ := ih (show tries + 1 + left = maxAttempts by omega) c₁
        refine ⟨response, buffer', c', opening ++ .transmitted query (buffer.take writeSize) :: rest,
          fun fuel hfuel => ?_, ?_, .again hopening hevents⟩
        · obtain ⟨k, rfl⟩ : ∃ k, fuel = k + 1 := ⟨fuel - 1, by omega⟩
          rw [hrun k (by omega), if_neg (by omega), hrest k (by omega)]
        · rw [hlog, hlog₁]
          simp

end

omit calls enc in
theorem executeWith_events {loop : Nat → Nat → List UInt8 → Client → Except Halt (Option (List UInt8) × List UInt8 × Client)}
    {k : Nat} {w : BufferWriter} {framed : Option BufferWriter} (hframe : frameRequest w = .ok framed) {c : Client}
    {P : List Event → Prop} (hnil : P [])
    (hloop : ∀ w', framed = some w' → ∃ response buffer' c' events,
      (∀ fuel, k < fuel → loop fuel w'.position.toNat w'.buffer c = .ok (response, buffer', c')) ∧
        c'.log = c.log ++ events ∧ P events) :
    ∃ status response c' events, (∀ fuel, k < fuel → executeWith (loop fuel) w c = .ok (status, response, c')) ∧
      c'.log = c.log ++ events ∧ P events := by
  cases framed with
  | none =>
      refine ⟨.failed, none, c, [], fun fuel _ => ?_, (List.append_nil _).symm, hnil⟩
      rw [executeWith, hframe]
      rfl
  | some w' =>
      obtain ⟨response, buffer', c', events, hrun, hlog, hevents⟩ := hloop w' rfl
      cases response with
      | none =>
          refine ⟨.failed, none, c', events, fun fuel hfuel => ?_, hlog, hevents⟩
          simp only [executeWith, hframe, Except.mapError, ok_bind, hrun fuel hfuel]
          rfl
      | some bytes =>
          refine ⟨.ofByte (bytes.headD 0), some bytes, c', events, fun fuel hfuel => ?_, hlog, hevents⟩
          simp only [executeWith, hframe, Except.mapError, ok_bind, hrun fuel hfuel, readU8_status]
          rfl

omit calls enc in
theorem Attempts.ofLogin {query left : Nat} {frame : List UInt8} {events : List Event}
    (h : Attempts (query + 1) false frame left events) : ∀ e ∈ events, e.OfLogin query := by
  have hopened : ∀ {opening : List Event}, Opening (query + 1) false opening → opening = [] := by
    rintro opening (rfl | ⟨hauto, -⟩)
    · rfl
    · cases hauto
  induction h with
  | refused hopening =>
      rw [hopened hopening]
      simp
  | returned hopening hanswer =>
      rw [hopened hopening]
      rcases hanswer with rfl | rfl
      · simp [Event.OfLogin]
      · simp [Event.OfLogin]
  | again hopening hrest ih =>
      rw [hopened hopening]
      simpa [Event.OfLogin] using ih

theorem login_events (query : Nat) (c : Client) (hpassword : c.password.length ≤ 255) :
    ∃ ready c' events,
      (∀ fuel, 1 < fuel → login enc (executeWith (executeLoop calls enc fuel (query + 1) false 1)) c =
        .ok (ready, c')) ∧
      c'.log = c.log ++ events ∧ ∀ e ∈ events, e.OfLogin query := by
  obtain ⟨w, body, hw, hholds, hbody⟩ := QueryLockstep.loginQuery_holds enc hpassword
  obtain ⟨w', -, -, hframe⟩ := frameRequest_eq hholds (by omega) (by rw [List.length_cons]; omega)
  have hloop : ∀ writeSize buffer, ∃ response buffer' c' events,
      (∀ fuel, 1 < fuel → executeLoop calls enc fuel (query + 1) false 1 writeSize buffer c =
        .ok (response, buffer', c')) ∧
      c'.log = c.log ++ events ∧ ∀ e ∈ events, e.OfLogin query := by
    intro writeSize buffer
    have hconnect : false = true → ∀ c, Connects calls enc 0 (query + 1) c c.host c.port c.password := by simp
    obtain ⟨response, buffer', c', events, hrun, hlog, hevents⟩ :=
      executeLoop_attempts calls enc hconnect (show 1 + 1 = maxAttempts from rfl) writeSize buffer c
    exact ⟨response, buffer', c', events, fun fuel hfuel => hrun fuel (by omega), hlog, hevents.ofLogin⟩
  obtain ⟨status, response, c', events, hrun, hlog, hevents⟩ :=
    executeWith_events hframe (P := fun events => ∀ e ∈ events, e.OfLogin query) (by simp)
      (fun w' _ => hloop w'.position.toNat w'.buffer)
  by_cases hok : status = .ok
  · refine ⟨true, c', events, fun fuel hfuel => ?_, hlog, hevents⟩
    simp only [login, hw, Except.mapError, ok_bind, hrun fuel hfuel, hok]
    rfl
  · refine ⟨false, disconnect c', events, fun fuel hfuel => ?_, (log_disconnect c').trans hlog, hevents⟩
    simp only [login, hw, Except.mapError, ok_bind, hrun fuel hfuel, ne_eq, hok, not_false_eq_true, if_true]
    rfl

omit enc in
theorem openSocket_cases (c : Client) :
    ∃ connected c', openSocket calls c = (connected, c') ∧ c'.log = c.log ∧ c'.password = c.password := by
  rw [openSocket]
  split_ifs
  · exact ⟨_, _, rfl, rfl, rfl⟩
  · simp only
    split
    · exact ⟨_, _, rfl, rfl, rfl⟩
    · split_ifs
      · exact ⟨_, _, rfl, log_disconnect _, rfl⟩
      · exact ⟨_, _, rfl, rfl, rfl⟩

theorem connect_connects (query : Nat) (c : Client) (host : List UInt8) (port : Int) (password : List UInt8) :
    Connects calls enc 3 query c host port password := by
  have hfuel : ∀ {ready c'}, (∀ k, 1 < k → connect calls enc (k + 1) query host port password c = .ok (ready, c')) →
      ∀ fuel, 3 ≤ fuel → connect calls enc fuel query host port password c = .ok (ready, c') := by
    intro ready c' hrun fuel hfuel
    obtain ⟨k, rfl⟩ : ∃ k, fuel = k + 1 := ⟨fuel - 1, by omega⟩
    exact hrun k (by omega)
  by_cases hs : (c.record (.connecting query)).socket.isSome = true
  · refine ⟨false, c.record (.connecting query), [], hfuel fun k _ => ?_, rfl, by simp⟩
    rw [connect, if_pos hs]
    rfl
  · obtain ⟨connected, c₁, hopen, hlog₁, hpassword⟩ := openSocket_cases calls { c.record (.connecting query) with
      host := (cString host).take 255, port, password := (cString password).take 255 }
    have hlog₁' : c₁.log = c.log ++ [.connecting query] := hlog₁
    cases connected with
    | false =>
        refine ⟨false, c₁, [], hfuel fun k _ => ?_, hlog₁', by simp⟩
        rw [connect, if_neg hs, hopen]
        rfl
    | true =>
        have hlen : c₁.password.length ≤ 255 := by
          rw [hpassword]
          exact List.length_take_le _ _
        obtain ⟨ready, c', events, hrun, hlog, hevents⟩ := login_events calls enc query c₁ hlen
        refine ⟨ready, c', events, hfuel fun k hk => ?_, ?_, hevents⟩
        · rw [connect, if_neg hs, hopen]
          exact hrun k hk
        · rw [hlog, hlog₁', List.append_assoc]
          rfl

end

def transmissionsOf (query : Nat) (events : List Event) : List (List UInt8) :=
  events.filterMap fun
    | .transmitted q bytes => if q = query then some bytes else none
    | _ => none

def connectionAttempts (events : List Event) : Nat :=
  events.countP fun
    | .connecting _ => true
    | _ => false

theorem transmissionsOf_append (query : Nat) (events events' : List Event) :
    transmissionsOf query (events ++ events') = transmissionsOf query events ++ transmissionsOf query events' :=
  List.filterMap_append

theorem transmissionsOf_transmitted (query : Nat) (bytes : List UInt8) (events : List Event) :
    transmissionsOf query (.transmitted query bytes :: events) = bytes :: transmissionsOf query events := by
  simp [transmissionsOf]

theorem connectionAttempts_append (events events' : List Event) :
    connectionAttempts (events ++ events') = connectionAttempts events + connectionAttempts events' :=
  List.countP_append

section

variable {query : Nat} {autoReconnect : Bool} {opening : List Event}

theorem Opening.counts (h : Opening query autoReconnect opening) :
    transmissionsOf query opening = [] ∧ connectionAttempts opening ≤ 1 ∧ .sized query ∉ opening := by
  rcases h with rfl | ⟨-, login, rfl, hlogin⟩
  · exact ⟨rfl, Nat.zero_le 1, List.not_mem_nil⟩
  · have hother : transmissionsOf query login = [] := by
      refine List.filterMap_eq_nil_iff.mpr fun e he => ?_
      have hlater := hlogin e he
      cases e with
      | connecting q => rfl
      | sized q => rfl
      | transmitted q bytes =>
          rw [Event.OfLogin] at hlater
          exact if_neg (by omega)
    have hnone : connectionAttempts login = 0 := by
      refine List.countP_eq_zero.mpr fun e he => ?_
      have hlater := hlogin e he
      cases e with
      | connecting q => exact hlater.elim
      | sized q => simp
      | transmitted q bytes => simp
    refine ⟨by simpa [transmissionsOf] using hother, ?_, ?_⟩
    · have hone : connectionAttempts (.connecting query :: login) = connectionAttempts login + 1 := by
        simp [connectionAttempts]
      omega
    · intro h
      rcases List.mem_cons.mp h with h | h
      · cases h
      · have hlater := hlogin _ h
        rw [Event.OfLogin] at hlater
        omega

theorem Attempts.transmissions {frame : List UInt8} {left : Nat} {events : List Event}
    (h : Attempts query autoReconnect frame left events) :
    (transmissionsOf query events).length ≤ left ∧ ∀ bytes ∈ transmissionsOf query events, bytes = frame := by
  induction h with
  | refused hopening => simp [hopening.counts.1]
  | returned hopening hanswer =>
      rw [transmissionsOf_append, hopening.counts.1, transmissionsOf_transmitted]
      rcases hanswer with rfl | rfl <;> simp [transmissionsOf]
  | again hopening hrest ih =>
      rw [transmissionsOf_append, hopening.counts.1, transmissionsOf_transmitted]
      simpa using ih

theorem Attempts.connections {frame : List UInt8} {left : Nat} {events : List Event}
    (h : Attempts query autoReconnect frame left events) : connectionAttempts events ≤ left := by
  induction h with
  | @refused left opening hopening =>
      have hone := hopening.counts.2.1
      omega
  | @returned left opening answer hopening hanswer =>
      have hone := hopening.counts.2.1
      have hnone : connectionAttempts (.transmitted query frame :: answer) = 0 := by
        rcases hanswer with rfl | rfl <;> rfl
      rw [connectionAttempts_append]
      omega
  | @again left opening rest hopening hrest ih =>
      have hone := hopening.counts.2.1
      have hsame : connectionAttempts (.transmitted query frame :: rest) = connectionAttempts rest := by
        simp [connectionAttempts]
      rw [connectionAttempts_append]
      omega

theorem Attempts.sized_last {frame : List UInt8} {left : Nat} {events : List Event}
    (h : Attempts query autoReconnect frame left events) : .sized query ∉ events.dropLast := by
  induction h with
  | refused hopening => exact fun h => hopening.counts.2.2 (List.dropLast_subset _ h)
  | returned hopening hanswer =>
      rw [List.dropLast_append_of_ne_nil (List.cons_ne_nil _ _), List.mem_append, not_or]
      refine ⟨hopening.counts.2.2, ?_⟩
      rcases hanswer with rfl | rfl <;> simp
  | @again left opening rest hopening hrest ih =>
      rw [List.dropLast_append_of_ne_nil (List.cons_ne_nil _ _), List.mem_append, not_or]
      refine ⟨hopening.counts.2.2, ?_⟩
      cases rest with
      | nil => simp
      | cons e rest =>
          rw [List.dropLast_cons_of_ne_nil (List.cons_ne_nil _ _), List.mem_cons, not_or]
          exact ⟨by simp, ih⟩

end

theorem frameRequest_framed {w : BufferWriter} (hn : w.buffer.length < 2147483648) (hpos : 2 < w.position)
    (hmax : w.position < 2147483644) :
    ∃ framed, frameRequest w = .ok framed ∧ ∀ w', framed = some w' →
      w'.buffer.take w'.position.toNat = requestFrame (QueryFraming.requestBody w) := by
  by_cases hfit : w.position ≤ w.buffer.length
  · have hbody : (QueryFraming.requestBody w).length = w.position.toNat - 2 := by
      rw [QueryFraming.requestBody, List.length_drop, List.length_take]
      omega
    have hover : w.overflowed = false := by
      rw [BufferWriter.overflowed, BufferWriter.size, decide_eq_false_iff_not]
      omega
    obtain ⟨a, b, hholds⟩ := QueryFraming.holds_requestBody ⟨by omega, hover⟩ (by omega)
    obtain ⟨w₁, -, htake, hframe⟩ := frameRequest_eq hholds hn (by omega)
    refine ⟨_, hframe, fun w' hw' => ?_⟩
    split_ifs at hw' with hle
    cases hw'
    exact htake hle
  · have hholds : Holds w.buffer.length w (0 :: 0 :: List.replicate (w.position.toNat - 2) 0) := by
      refine ⟨rfl, ?_, fun hle => ?_⟩
      · simp only [List.length_cons, List.length_replicate]
        omega
      · simp only [List.length_cons, List.length_replicate] at hle
        omega
    obtain ⟨w₁, -, -, hframe⟩ := frameRequest_eq hholds hn (by rw [List.length_replicate]; omega)
    refine ⟨_, hframe, fun w' hw' => ?_⟩
    split_ifs at hw' with hle
    have hheader : 2 ≤ (lengthField (w.position.toNat - 2)).length := by
      rw [lengthField]
      split_ifs <;> simp
    rw [requestFrame, List.length_append, List.length_replicate] at hle
    omega

/-- A query comes back after two transmissions of its request and two calls of
`connect` at most, whatever the system calls meet. Every transmission carries
the request as it was framed, and none follows a response size. -/
theorem retry_discipline (calls : Calls) (enc : ClientEncoding) (query : Nat) (autoReconnect : Bool) {w : BufferWriter}
    (hn : w.buffer.length < 2147483648) (hpos : 2 < w.position) (hmax : w.position < 2147483644) (c : Client) :
    ∃ status response c' events,
      (∀ fuel, 5 ≤ fuel → executeQuery calls enc fuel query autoReconnect w c = .ok (status, response, c')) ∧
      c'.log = c.log ++ events ∧ (transmissionsOf query events).length ≤ 2 ∧ connectionAttempts events ≤ 2 ∧
      (∀ bytes ∈ transmissionsOf query events, bytes = requestFrame (QueryFraming.requestBody w)) ∧
      ∀ before bytes after, events = before ++ .transmitted query bytes :: after → .sized query ∉ before := by
  obtain ⟨framed, hframe, htake⟩ := frameRequest_framed hn hpos hmax
  have hloop : ∀ w', framed = some w' → ∃ response buffer' c' events,
      (∀ fuel, 4 < fuel → executeLoop calls enc fuel query autoReconnect 1 w'.position.toNat w'.buffer c =
        .ok (response, buffer', c')) ∧
      c'.log = c.log ++ events ∧
        (events = [] ∨ Attempts query autoReconnect (requestFrame (QueryFraming.requestBody w)) 2 events) := by
    intro w' hw'
    obtain ⟨response, buffer', c', events, hrun, hlog, hevents⟩ := executeLoop_attempts calls enc
      (fun _ c => connect_connects calls enc query c c.host c.port c.password)
      (show 1 + 1 = maxAttempts from rfl) w'.position.toNat w'.buffer c
    rw [htake w' hw'] at hevents
    exact ⟨response, buffer', c', events, fun fuel hfuel => hrun fuel (by omega), hlog, Or.inr hevents⟩
  obtain ⟨status, response, c', events, hrun, hlog, hevents⟩ := executeWith_events hframe (Or.inl rfl) hloop
  refine ⟨status, response, c', events, fun fuel hfuel => hrun fuel (by omega), hlog, ?_⟩
  rcases hevents with rfl | hevents
  · refine ⟨Nat.zero_le 2, Nat.zero_le 2, by simp [transmissionsOf], fun before bytes after h => ?_⟩
    exact absurd h.symm (List.append_ne_nil_of_right_ne_nil _ (List.cons_ne_nil _ _))
  · refine ⟨hevents.transmissions.1, hevents.connections, hevents.transmissions.2, fun before bytes after h hsized => ?_⟩
    have hlast := hevents.sized_last
    rw [h, List.dropLast_append_cons] at hlast
    exact hlast (List.mem_append_left _ hsized)

/-- The first call of `write` fails; all others succeed, and the reads bring an
Ok for the login and one for the query. -/
def flaky : Calls where
  resolves _ := true
  sockets _ := some 7
  connects _ := true
  writes i := if i = 0 then none else some 99
  reads i := if i = 6 ∨ i = 9 then [1, 0] else [0]

def worldsWriter : BufferWriter := ⟨[0, 0, 150] ++ List.replicate 13 0, 3⟩

theorem retry_discipline_flaky :
    ∃ response c' events,
      (∀ fuel, 5 ≤ fuel → executeQuery flaky .latin1 fuel 0 true worldsWriter ⟨some 3, [], 0, [], 0, []⟩ =
        .ok (.ok, response, c')) ∧
      c'.log = events ∧ transmissionsOf 0 events = [[1, 0, 150], [1, 0, 150]] ∧ connectionAttempts events = 1 ∧
      ∀ before bytes after, events = before ++ .transmitted 0 bytes :: after → .sized 0 ∉ before := by
  obtain ⟨status, response, c', events, hrun, hlog, -, -, -, hsized⟩ := retry_discipline flaky .latin1 0 true
    (w := worldsWriter) (by decide) (by decide) (by decide) ⟨some 3, [], 0, [], 0, []⟩
  have hvalue : (executeQuery flaky .latin1 5 0 true worldsWriter ⟨some 3, [], 0, [], 0, []⟩).toOption.map
      (fun result => (result.1, transmissionsOf 0 result.2.2.log, connectionAttempts result.2.2.log)) =
        some (.ok, [[1, 0, 150], [1, 0, 150]], 1) := by
    decide +kernel
  rw [List.nil_append] at hlog
  rw [hrun 5 (by omega)] at hvalue
  simp only [Except.toOption, Option.map_some, Option.some.injEq, Prod.mk.injEq, hlog] at hvalue
  obtain ⟨rfl, hsent, hconnects⟩ := hvalue
  exact ⟨response, c', events, hrun, hlog, hsent, hconnects, hsized⟩

end TibiaLogin.RetryDiscipline
