import TibiaLogin.QueryClient

namespace TibiaLogin.QueryAttempt

open MachineInt Memory ByteOrder BufferWriter Query QueryClient

def current : List Event → Option Nat
  | [] => none
  | .opened connection :: _ => some connection
  | .closed :: _ => none
  | .transmitted _ _ :: log => current log
  | .answered _ _ _ :: log => current log

def IsLogin (frame : List UInt8) : Prop := ∃ body, frame = requestFrame (QueryType.login.code :: body)

/-- A Login query has been answered with Ok on the connection. -/
def Authenticated (connection : Nat) (log : List Event) : Prop :=
  ∃ frame body, .answered connection frame body ∈ log ∧ IsLogin frame ∧ body.head? = some 0

/-- An answer follows directly on the transmission it belongs to and is what
the manager sends for it, and only Login queries go out before a login. -/
def Lockstep (manager : Manager) : List Event → Prop
  | [] => True
  | .opened connection :: log => current log = none ∧ .opened connection ∉ log ∧ Lockstep manager log
  | .transmitted connection frame :: log =>
      current log = some connection ∧ (∃ body, body ≠ [] ∧ frame = requestFrame body) ∧
        (IsLogin frame ∨ Authenticated connection log) ∧ Lockstep manager log
  | .answered connection frame body :: log =>
      log.head? = some (.transmitted connection frame) ∧
        body = (manager connection (requestsOn connection log)).body ∧ Lockstep manager log
  | .closed :: log => Lockstep manager log

structure Sound (manager : Manager) (c : Client) : Prop where
  lockstep : Lockstep manager c.log
  socket_eq : c.socket = current c.log
  numbered : ∀ n, .opened n ∈ c.log → n < c.opened

/-- Between two calls nothing is left to read. -/
structure Ready (manager : Manager) (c : Client) : Prop extends Sound manager c where
  boundary : c.unread = []

def LoggedIn (c : Client) : Prop := ∀ n, c.socket = some n → Authenticated n c.log

theorem Authenticated.later {n : Nat} {log log' : List Event} (h : Authenticated n log) (hlog : log ⊆ log') :
    Authenticated n log' := by
  obtain ⟨frame, body, hmem, hlogin, hok⟩ := h
  exact ⟨frame, body, hlog hmem, hlogin, hok⟩

theorem ready_dropped {manager : Manager} {c : Client} (h : Sound manager c) {n : Nat} (hn : c.socket = some n) :
    Ready manager (disconnect c) ∧ (disconnect c).socket = none := by
  rw [show disconnect c = { c with socket := none, unread := [], log := .closed :: c.log } by rw [disconnect, hn]]
  refine ⟨⟨⟨h.lockstep, rfl, fun m hm => h.numbered m ?_⟩, rfl⟩, rfl⟩
  simpa using hm

theorem ready_disconnect {manager : Manager} {c : Client} (h : Ready manager c) :
    Ready manager (disconnect c) ∧ (disconnect c).socket = none := by
  cases hs : c.socket with
  | none =>
      rw [show disconnect c = c by rw [disconnect, hs]]
      exact ⟨h, hs⟩
  | some n => exact ready_dropped h.toSound hs

theorem loggedIn_of_none {c : Client} (h : c.socket = none) : LoggedIn c := by
  intro n hn
  rw [h] at hn
  cases hn

section

variable (net : Network)

theorem writeLoop_spec {fuel remaining : Nat} (hfuel : remaining ≤ fuel) (c : Client) :
    ∃ written clock, writeLoop net fuel remaining c = (written, { c with clock }) ∧
      (written = false → ∃ i, net.writes i = none) := by
  induction fuel generalizing remaining c with
  | zero =>
      obtain rfl : remaining = 0 := by omega
      exact ⟨true, c.clock, rfl, by simp⟩
  | succ fuel ih =>
      rw [writeLoop]
      split_ifs
      · exact ⟨true, c.clock, rfl, by simp⟩
      · cases hwrite : net.writes c.clock with
        | none => exact ⟨false, c.clock + 1, rfl, fun _ => ⟨c.clock, hwrite⟩⟩
        | some more => exact ih (by omega) c.tick

/-- A read of a number of bytes takes just these from the stream, or fails for
want of them or with one of its calls. -/
theorem readLoop_spec {fuel remaining : Nat} (hfuel : remaining ≤ fuel) (buffer : List UInt8) (c : Client) :
    (∃ clock, readLoop net fuel remaining buffer c =
        (some (buffer ++ c.unread.take remaining), { c with clock, unread := c.unread.drop remaining }) ∧
        remaining ≤ c.unread.length) ∨
      ∃ clock unread, readLoop net fuel remaining buffer c = (none, { c with clock, unread }) ∧
        ((∃ i, net.reads i = none) ∨ c.unread.length < remaining) := by
  induction fuel generalizing remaining buffer c with
  | zero =>
      obtain rfl : remaining = 0 := by omega
      exact Or.inl ⟨c.clock, by simp [readLoop], Nat.zero_le _⟩
  | succ fuel ih =>
      rw [readLoop]
      by_cases hz : remaining = 0
      · subst hz
        exact Or.inl ⟨c.clock, by simp, Nat.zero_le _⟩
      · rw [if_neg hz]
        cases hread : net.reads c.clock with
        | none => exact Or.inr ⟨c.clock + 1, c.unread, rfl, Or.inl ⟨c.clock, hread⟩⟩
        | some more =>
            simp only
            by_cases hnil : c.unread.take (min (more + 1) remaining) = []
            · have hempty : c.unread.length = 0 := by
                have hlen := congrArg List.length hnil
                rw [List.length_take, List.length_nil] at hlen
                omega
              rw [if_pos hnil]
              exact Or.inr ⟨c.clock + 1, c.unread, rfl, Or.inr (by omega)⟩
            · rw [if_neg hnil]
              obtain ⟨k, hk⟩ : ∃ k, k = (c.unread.take (min (more + 1) remaining)).length := ⟨_, rfl⟩
              have hpos : 0 < k := hk ▸ List.length_pos_iff.mpr hnil
              have hlen := List.length_take (i := min (more + 1) remaining) (l := c.unread)
              have htake : c.unread.take (min (more + 1) remaining) = c.unread.take k := by
                rw [hk, List.length_take, ← List.take_eq_take_min]
              rw [← hk, htake]
              have hsplit : c.unread.take k ++ (c.unread.drop k).take (remaining - k) = c.unread.take remaining := by
                rw [← List.take_add]
                congr 1
                omega
              rcases ih (show remaining - k ≤ fuel by omega) (buffer ++ c.unread.take k)
                { c.tick with unread := c.unread.drop k } with ⟨clock, hr, hle⟩ | ⟨clock, unread, hr, hfail⟩
              · simp only [List.length_drop] at hle
                refine Or.inl ⟨clock, ?_, by omega⟩
                rw [hr, List.append_assoc, hsplit, List.drop_drop, show k + (remaining - k) = remaining by omega]
                rfl
              · refine Or.inr ⟨clock, unread, hr, hfail.imp_right fun hlt => ?_⟩
                simp only [List.length_drop] at hlt
                omega

theorem readExact_spec (size : Nat) (c : Client) :
    (∃ clock, readExact net size c =
        (some (c.unread.take size), { c with clock, unread := c.unread.drop size }) ∧ size ≤ c.unread.length) ∨
      ∃ clock unread, readExact net size c = (none, { c with clock, unread }) ∧
        ((∃ i, net.reads i = none) ∨ c.unread.length < size) := by
  rcases readLoop_spec net (Nat.le_refl size) [] c with ⟨clock, hr, hle⟩ | hr
  · exact Or.inl ⟨clock, hr, hle⟩
  · exact Or.inr hr

variable (manager : Manager)

/-- The outcome of an attempt on an open connection. -/
structure Settled (connection : Nat) (frame : List UInt8) (capacity : Nat) (c : Client) (o : Outcome) (c' : Client) :
    Prop where
  ready : Ready manager c'
  outcome : (∃ body, o = .response body ∧ 0 < body.length ∧ body.length ≤ capacity ∧ c'.socket = some connection ∧
      c'.log = .answered connection frame body :: .transmitted connection frame :: c.log) ∨
    ((o = .again ∨ o = .failed) ∧ c'.socket = none)

theorem settled_disconnect {connection : Nat} {frame : List UInt8} {capacity : Nat} {c c' : Client} {o : Outcome}
    (h : Sound manager c') (hopen : c'.socket = some connection) (ho : o = .again ∨ o = .failed) :
    Settled manager connection frame capacity c o (disconnect c') := by
  obtain ⟨hr, hs⟩ := ready_dropped h hopen
  exact ⟨hr, Or.inr ⟨ho, hs⟩⟩

/-- The connection after a request, with the bytes of the answer partly read. -/
structure Awaiting (connection : Nat) (frame : List UInt8) (c c' : Client) : Prop extends Sound manager c' where
  connected : c'.socket = some connection
  log_eq : c'.log = .transmitted connection frame :: c.log

theorem Awaiting.read {connection : Nat} {frame : List UInt8} {c c' : Client}
    (h : Awaiting manager connection frame c c') (clock : Nat) (unread : List UInt8) :
    Awaiting manager connection frame c { c' with clock, unread } :=
  ⟨⟨h.lockstep, h.socket_eq, h.numbered⟩, h.connected, h.log_eq⟩

theorem readResponse_spec {connection : Nat} {frame : List UInt8} {capacity : Nat} {responseSize : Int}
    {c c' : Client} (h : Awaiting manager connection frame c c')
    (hunread : c'.unread = (manager connection (requestsOn connection c'.log)).body)
    (hsize : 0 < responseSize → responseSize = c'.unread.length) :
    ∃ o c'', readResponse net connection frame capacity responseSize c' = (o, c'') ∧
      Settled manager connection frame capacity c o c'' := by
  rw [readResponse]
  by_cases hbad : responseSize ≤ 0 ∨ (capacity : Int) < responseSize
  · exact ⟨_, _, if_pos hbad, settled_disconnect manager h.toSound h.connected (Or.inr rfl)⟩
  · rw [if_neg hbad]
    have hn := hsize (by omega)
    have hnat : responseSize.toNat = c'.unread.length := by omega
    rcases readExact_spec net responseSize.toNat c' with ⟨clock, hr, -⟩ | ⟨clock, unread, hr, -⟩
    · rw [hr, hnat, List.take_length, List.drop_length]
      refine ⟨_, _, rfl, ⟨⟨⟨?_, ?_, ?_⟩, rfl⟩, Or.inl ⟨c'.unread, rfl, by omega, by omega, h.connected, ?_⟩⟩⟩
      · refine ⟨?_, hunread, h.lockstep⟩
        rw [h.log_eq]
        rfl
      · exact h.socket_eq
      · intro n hn
        exact h.numbered n (by simpa using hn)
      · simp only [h.log_eq]
    · rw [hr]
      exact ⟨_, _, rfl, settled_disconnect manager (h.read manager clock unread).toSound h.connected (Or.inr rfl)⟩

theorem transmit_awaiting {connection : Nat} {frame : List UInt8} {c : Client} (h : Ready manager c)
    (hs : c.socket = some connection) (hframe : ∃ body, body ≠ [] ∧ frame = requestFrame body)
    (hallowed : IsLogin frame ∨ Authenticated connection c.log) (clock : Nat) :
    Awaiting manager connection frame c (transmit manager connection frame { c with clock }) := by
  refine ⟨⟨⟨?_, hframe, hallowed, h.lockstep⟩, ?_, fun n hn => h.numbered n ?_⟩, hs, rfl⟩
  · rw [← h.socket_eq, hs]
  · exact h.socket_eq
  · simpa [transmit] using hn

theorem readReply_spec {connection : Nat} {frame : List UInt8} (capacity : Nat) {c c₁ : Client}
    (ha : Awaiting manager connection frame c c₁)
    (hunread : c₁.unread = (manager connection (requestsOn connection c₁.log)).frame) :
    ∃ o c', readReply net connection frame capacity c₁ = (o, c') ∧
      Settled manager connection frame capacity c o c' := by
  have hdropped : ∀ {o : Outcome} (clock : Nat) (unread : List UInt8), o = .again ∨ o = .failed →
      Settled manager connection frame capacity c o (disconnect { c₁ with clock, unread }) :=
    fun clock unread ho => settled_disconnect manager (ha.read manager clock unread).toSound ha.connected ho
  rw [readReply]
  rcases readExact_spec net 2 c₁ with ⟨clock₁, hr, -⟩ | ⟨clock₁, unread₁, hr, -⟩
  · rw [hr]
    simp only
    generalize hresponse : manager connection (requestsOn connection c₁.log) = response at hunread
    obtain ⟨extended, body, hannounced⟩ := response
    cases extended with
    | false =>
        rw [if_neg Bool.false_ne_true] at hannounced
        have hsplit : c₁.unread = writeU16Le (toU16 body.length) ++ body := hunread
        have hbody : c₁.unread.drop 2 = body := by
          rw [hsplit]
          rfl
        have hsize : (readU16Le (c₁.unread.take 2)).toNat = body.length := by
          rw [hsplit, show (writeU16Le (toU16 body.length) ++ body).take 2 = writeU16Le (toU16 body.length) ++ []
            from rfl, readU16Le_writeU16Le, toNat_toU16 (by omega)]
        rw [hsize, if_neg (by omega)]
        refine readResponse_spec net manager (ha.read manager clock₁ (c₁.unread.drop 2)) ?_ fun _ => ?_
        · simp only [hbody, hresponse]
        · simp only [hbody]
    | true =>
        rw [if_pos rfl] at hannounced
        have hsplit : c₁.unread = writeU16Le 0xFFFF ++ (writeU32Le (toU32 body.length) ++ body) := by
          rw [hunread, ← List.append_assoc]
          rfl
        have hrest : c₁.unread.drop 2 = writeU32Le (toU32 body.length) ++ body := by
          rw [hsplit]
          rfl
        have hmark : (readU16Le (c₁.unread.take 2)).toNat = 65535 := by
          rw [hsplit]
          rfl
        rw [hmark, if_pos (by rfl)]
        rcases readExact_spec net 4 { c₁ with clock := clock₁, unread := c₁.unread.drop 2 } with
          ⟨clock₂, hr₂, -⟩ | ⟨clock₂, unread₂, hr₂, -⟩
        · have hbody : (c₁.unread.drop 2).drop 4 = body := by
            rw [hrest]
            rfl
          have hsize : (readU32Le ((c₁.unread.drop 2).take 4)).toNat = body.length := by
            rw [hrest, show (writeU32Le (toU32 body.length) ++ body).take 4 = writeU32Le (toU32 body.length) ++ []
              from rfl, readU32Le_writeU32Le, toNat_toU32 hannounced]
          rw [hr₂]
          simp only [hsize]
          refine readResponse_spec net manager (ha.read manager clock₂ ((c₁.unread.drop 2).drop 4)) ?_ fun hpos => ?_
          · simp only [hbody, hresponse]
          · simp only [hbody]
            rw [wrap32] at hpos ⊢
            omega
        · rw [hr₂]
          exact ⟨_, _, rfl, hdropped clock₂ unread₂ (Or.inr rfl)⟩
  · rw [hr]
    exact ⟨_, _, rfl, hdropped clock₁ unread₁ (Or.inl rfl)⟩

theorem attempt_spec {connection : Nat} {frame : List UInt8} (capacity : Nat) {c : Client} (h : Ready manager c)
    (hs : c.socket = some connection) (hframe : ∃ body, body ≠ [] ∧ frame = requestFrame body)
    (hallowed : IsLogin frame ∨ Authenticated connection c.log) :
    ∃ o c', attempt net manager connection frame capacity c = (o, c') ∧
      Settled manager connection frame capacity c o c' := by
  obtain ⟨written, clock, hw, -⟩ := writeLoop_spec net (Nat.le_refl frame.length) c
  rw [attempt, writeExact, hw]
  cases written with
  | false =>
      have h₁ : Sound manager { c with clock } := ⟨h.lockstep, h.socket_eq, h.numbered⟩
      exact ⟨_, _, rfl, settled_disconnect manager h₁ hs (Or.inl rfl)⟩
  | true =>
      refine readReply_spec net manager capacity (transmit_awaiting manager h hs hframe hallowed clock) ?_
      simp only [transmit, h.boundary, requestsOn, if_true, List.nil_append]

end

end TibiaLogin.QueryAttempt
