import TibiaLogin.Framing
import TibiaLogin.Observation

namespace TibiaLogin.ConnectionLife

open MachineInt Memory Query LoginHandler Server ConnectionInput ConnectionTable Framing Observation

/-- A response as it stands when its connection starts to write. -/
structure Outgoing where
  size : Int
  data : List UInt8
  deriving DecidableEq, Repr

/-- What an accepted connection has done: the requests it dispatched, the
responses it started to write, the bytes that `write` took, and whether it was
closed as its response was complete. -/
structure Life where
  dispatches : List Dispatch
  responses : List Outgoing
  written : List UInt8
  completed : Bool
  deriving DecidableEq, Repr

def Life.fresh : Life := ⟨[], [], [], false⟩

/-- The bytes that `write` takes in the output loop, and whether the loop ends
with the test for completion. -/
def outputTrace : List Departure → Connection → List UInt8 × Bool
  | .bytes more :: departures, c =>
      let count := toSize (c.rwSize - c.rwPosition)
      let data := (c.buffer.drop c.rwPosition.toNat).take (min (more + 1) count)
      let c := { c with rwPosition := c.rwPosition + min (more + 1) count }
      if c.rwSize ≤ c.rwPosition then (data, true)
      else (data ++ (outputTrace departures c).1, (outputTrace departures c).2)
  | _, _ => ([], false)

def entered (read handled : Connection) : List Outgoing :=
  if read.state ≠ .writing ∧ handled.state = .writing then
    [⟨handled.rwSize, handled.buffer.take handled.rwSize.toNat⟩]
  else []

def outputOf (visit : Visit) (handled : Connection) : List UInt8 × Bool :=
  if handled.socket ≠ -1 ∧ handled.state = .writing then outputTrace visit.departures handled else ([], false)

def Life.visit (visit : Visit) (st : Stages) (life : Life) : Life :=
  ⟨life.dispatches ++ dispatched st.read, life.responses ++ entered st.read st.handled,
    life.written ++ (outputOf visit st.handled).1, life.completed || (outputOf visit st.handled).2⟩

/-- The connections of the places of the table, and those released. -/
structure Lives where
  current : Nat → Life
  ended : List Life

def lifeObserver : Observer Lives where
  refused _ w := w
  assigned _ connections w :=
    match firstFree connections with
    | none => w
    | some j => { w with current := Function.update w.current j .fresh }
  visited i visit _ st w :=
    let life := (w.current i).visit visit st
    ⟨Function.update w.current i life, if (settle st.expired).state = .free then w.ended ++ [life] else w.ended⟩

/-- At most one request, and of its response a prefix: the whole of it just
where the test for completion closed the connection. -/
structure OneResponse (life : Life) : Prop where
  dispatched : life.dispatches.length ≤ 1
  entered : life.responses.length ≤ 1
  silent : life.responses = [] → life.written = [] ∧ life.completed = false
  sent : ∀ r ∈ life.responses, life.written <+: r.data ∧
    (0 < r.size → (life.written = r.data ↔ life.completed = true))

/-- The life of an occupied place between two cycles. -/
inductive LifeOk (c : Connection) : Life → Prop
  | reading (h : ReadingOk c) : LifeOk c .fresh
  | writing (h : WritingOk c) (hb : c.buffer.length = 2048) (hpart : 0 < c.rwSize → c.rwPosition < c.rwSize)
      (d : Dispatch) : LifeOk c ⟨[d], [⟨c.rwSize, c.buffer.take c.rwSize.toNat⟩], c.buffer.take c.rwPosition.toNat, false⟩

theorem oneResponse_fresh : OneResponse .fresh := ⟨Nat.zero_le 1, Nat.zero_le 1, fun _ => ⟨rfl, rfl⟩, by simp [Life.fresh]⟩

theorem oneResponse_sent {c : Connection} (hb : c.buffer.length = 2048) (h : WritingOk c) (dispatches : List Dispatch)
    (hd : dispatches.length ≤ 1) {completed : Bool}
    (hdone : 0 < c.rwSize → (c.rwPosition = c.rwSize ↔ completed = true)) :
    OneResponse ⟨dispatches, [⟨c.rwSize, c.buffer.take c.rwSize.toNat⟩], c.buffer.take c.rwPosition.toNat, completed⟩ := by
  obtain ⟨-, h0, h1, h2⟩ := h
  refine ⟨hd, Nat.le_refl 1, nofun, ?_⟩
  intro r hr
  obtain rfl := List.mem_singleton.mp hr
  refine ⟨List.take_prefix_take_left (by omega), fun hpos => ?_⟩
  rw [← hdone hpos]
  constructor
  · intro heq
    have hlen := congrArg List.length heq
    simp only [List.length_take] at hlen
    omega
  · intro heq
    rw [heq]

/-- The output loop as its trace tells it: the bytes from the position before
to the position after, which is the end just where the trace is complete. -/
structure OutputOk (c c' : Connection) (trace : List UInt8 × Bool) : Prop where
  writing : WritingOk c'
  size_eq : c'.rwSize = c.rwSize
  buffer_eq : c'.buffer = c.buffer
  forward : c.rwPosition ≤ c'.rwPosition
  bytes_eq : trace.1 = (c.buffer.take c'.rwPosition.toNat).drop c.rwPosition.toNat
  held : c'.socket = -1 ∨ (c'.socket = c.socket ∧ trace.2 = false)
  done : 0 < c.rwSize → (c'.rwPosition = c.rwSize ↔ trace.2 = true)

theorem unfinished {c : Connection} (hpart : 0 < c.rwSize → c.rwPosition < c.rwSize) (hpos : 0 < c.rwSize) :
    c.rwPosition = c.rwSize ↔ false = true := by
  simp only [Bool.false_eq_true, iff_false]
  exact Int.ne_of_lt (hpart hpos)

theorem outputOk_refl {c : Connection} (h : WritingOk c) (hpart : 0 < c.rwSize → c.rwPosition < c.rwSize) :
    OutputOk c c ([], false) := by
  refine ⟨h, rfl, rfl, Int.le_refl _, ?_, Or.inr ⟨rfl, rfl⟩, unfinished hpart⟩
  simp

theorem OutputOk.closed {c c' : Connection} {trace : List UInt8 × Bool} (h : OutputOk c c' trace) :
    OutputOk c (closeConnection c') trace := by
  obtain ⟨hw, hsize, hbuffer, hforward, hbytes, -, hdone⟩ := h
  rw [closeConnection_eq]
  exact ⟨hw, hsize, hbuffer, hforward, hbytes, Or.inl rfl, hdone⟩

theorem OutputOk.after {c c' : Connection} {k : Nat} {trace : List UInt8 × Bool} (h0 : 0 ≤ c.rwPosition)
    (h : OutputOk { c with rwPosition := c.rwPosition + k } c' trace) :
    OutputOk c c' ((c.buffer.drop c.rwPosition.toNat).take k ++ trace.1, trace.2) := by
  obtain ⟨hw, hsize, hbuffer, hforward, hbytes, hheld, hdone⟩ := h
  simp only at hsize hbuffer hforward hbytes hheld hdone
  refine ⟨hw, hsize, hbuffer, by omega, ?_, hheld, hdone⟩
  have hpos : (c.rwPosition + k).toNat = c.rwPosition.toNat + k := by omega
  have hsplit : c'.rwPosition.toNat - c.rwPosition.toNat = k + (c'.rwPosition.toNat - (c.rwPosition.toNat + k)) := by
    omega
  simp only [hbytes, hpos, List.drop_take]
  rw [hsplit, List.take_add, List.drop_drop]

theorem outputLoop_trace (departures : List Departure) {c c' : Connection} (hb : c.buffer.length = 2048)
    (h : WritingOk c) (hpart : 0 < c.rwSize → c.rwPosition < c.rwSize) (hrun : outputLoop departures c = .ok c') :
    OutputOk c c' (outputTrace departures c) := by
  induction departures generalizing c with
  | nil =>
      cases hrun
      exact outputOk_refl h hpart
  | cons departure departures ih =>
      obtain ⟨hstate, h0, h1, h2⟩ := h
      have hroom : 0 ≤ c.rwSize - c.rwPosition := by omega
      obtain ⟨count, hcount⟩ := Int.eq_ofNat_of_zero_le hroom
      have hsize : toSize (c.rwSize - c.rwPosition) = count := by
        rw [hcount]
        exact toSize_natCast (by omega)
      have hw : Within c.buffer.length c.rwPosition count := Or.inr (by omega)
      simp only [outputLoop, hsize] at hrun
      rw [if_pos hw] at hrun
      cases departure with
      | again =>
          cases hrun
          exact outputOk_refl ⟨hstate, h0, h1, h2⟩ hpart
      | failed =>
          cases hrun
          exact (outputOk_refl ⟨hstate, h0, h1, h2⟩ hpart).closed
      | bytes more =>
          obtain ⟨k, hk⟩ : ∃ k, k = min (more + 1) count := ⟨_, rfl⟩
          simp only [outputTrace, hsize, ← hk] at hrun ⊢
          by_cases hfull : c.rwSize ≤ c.rwPosition + k
          · rw [if_pos hfull] at hrun ⊢
            cases hrun
            have hend : c.rwPosition + k = c.rwSize := by omega
            have hpos : (c.rwPosition + k).toNat = c.rwPosition.toNat + k := by omega
            rw [closeConnection_eq]
            refine ⟨⟨hstate, ?_, ?_, h2⟩, rfl, rfl, ?_, ?_, Or.inl rfl, fun _ => ⟨fun _ => rfl, fun _ => hend⟩⟩
            · simp only
              omega
            · simp only
              omega
            · simp only
              omega
            · simp only
              rw [hpos, List.take_drop]
          · rw [if_neg hfull] at hrun ⊢
            have hrest := ih (c := { c with rwPosition := c.rwPosition + k }) hb
              ⟨hstate, by simp only; omega, by simp only; omega, h2⟩ (fun _ => by simp only; omega) hrun
            exact hrest.after h0

/-- The life after the visit, whether or not the connection outlives it. -/
def LifeAfter (c : Connection) (life : Life) : Prop :=
  OneResponse life ∧ c.state ≠ .free ∧ (c.socket ≠ -1 → LifeOk c life)

theorem lifeAfter_output {visit : Visit} {c c' : Connection} (hb : c.buffer.length = 2048) (h : WritingOk c)
    (hpart : 0 < c.rwSize → c.rwPosition < c.rwSize) (hrun : checkConnectionOutput visit c = .ok c') (d : Dispatch) :
    LifeAfter c' ⟨[d], [⟨c.rwSize, c.buffer.take c.rwSize.toNat⟩],
      c.buffer.take c.rwPosition.toNat ++ (outputOf visit c).1, (outputOf visit c).2⟩ := by
  rw [outputOf]
  by_cases hs : c.socket = -1
  · rw [checkConnectionOutput_idle (Or.inl hs)] at hrun
    cases hrun
    rw [if_neg (by simp [hs]), List.append_nil]
    refine ⟨oneResponse_sent hb h [d] (Nat.le_refl 1) (unfinished hpart), ?_, fun hne => absurd hs hne⟩
    rw [h.1]
    simp
  · rw [checkConnectionOutput, if_neg hs, if_neg (not_not.mpr h.1)] at hrun
    rw [if_pos ⟨hs, h.1⟩]
    obtain ⟨hw, hsize, hbuffer, hforward, hbytes, hheld, hdone⟩ := outputLoop_trace visit.departures hb h hpart hrun
    have hwritten : c.buffer.take c.rwPosition.toNat ++ (outputTrace visit.departures c).1 =
        c'.buffer.take c'.rwPosition.toNat := by
      have hle : c.rwPosition.toNat ≤ c'.rwPosition.toNat := by omega
      rw [hbytes, hbuffer, ← min_eq_left hle, ← List.take_take, min_eq_left hle, List.take_append_drop]
    rw [hwritten, ← hsize, ← hbuffer]
    rw [← hsize] at hdone
    have hb' : c'.buffer.length = 2048 := by rw [hbuffer, hb]
    refine ⟨oneResponse_sent hb' hw [d] (Nat.le_refl 1) hdone, by rw [hw.1]; simp, fun hopen => ?_⟩
    obtain ⟨-, hfalse⟩ := hheld.resolve_left hopen
    rw [hfalse] at hdone ⊢
    refine .writing hw hb' (fun hpos => ?_) d
    have hne := mt (hdone hpos).mp (by simp)
    have hle := hw.2.2.1
    omega

theorem visit_lifeAfter {visit : Visit} {c : Connection} {st : Stages} {life : Life} (hslot : SlotOk c)
    (hv : Visited visit c st) (h : LifeOk c life) : LifeAfter st.sent (life.visit visit st) := by
  cases hv with
  | waiting hstate hread hopen hhandled hsent =>
      have hfresh : life = .fresh := by
        cases h with
        | reading hr => rfl
        | writing hw => exact absurd (hw.1.symm.trans hstate) (by simp)
      have hvisit : Life.visit visit st life = .fresh := by
        rw [hfresh, Life.visit, hhandled, dispatched, if_neg (by simp [hread]), entered, if_neg (by simp [hread]),
          outputOf, if_neg (by simp [hread])]
        rfl
      rw [hvisit, hsent]
      refine ⟨oneResponse_fresh, by rw [hread]; simp, fun hne => ?_⟩
      exact .reading (hopen.resolve_left hne).2
  | requested hstate hsocket hrequest hresponded hsent =>
      have hfresh : life = .fresh := by
        cases h with
        | reading hr => rfl
        | writing hw => exact absurd (hw.1.symm.trans hstate) (by simp)
      have hopen : st.read.socket ≠ -1 := by
        rw [hsocket]
        exact hslot.socket
      rw [hfresh, Life.visit, dispatched, if_pos ⟨hopen, hrequest.1⟩, entered]
      rcases hresponded.outcome with ⟨hwriting, hpos, hsame⟩ | ⟨hprocessing, hclosed⟩
      · rw [if_pos ⟨by rw [hrequest.1]; simp, hwriting⟩]
        have hw := hresponded.shape (by rw [hsame]; exact hopen)
        have hafter := lifeAfter_output hresponded.sized hw (by omega) hsent
          ⟨st.read.rwSize, st.read.buffer.take st.read.rwSize.toNat⟩
        rw [hpos] at hafter
        exact hafter
      · rw [checkConnectionOutput_idle (Or.inl hclosed), Except.ok.injEq] at hsent
        rw [← hsent, if_neg (by simp [hprocessing]), outputOf, if_neg (by simp [hclosed])]
        refine ⟨⟨Nat.le_refl 1, Nat.zero_le 1, fun _ => ⟨rfl, rfl⟩, by simp [Life.fresh]⟩, ?_, fun hne => absurd hclosed hne⟩
        rw [hprocessing]
        simp
  | writing hw hread hhandled hsent =>
      cases h with
      | reading hr => exact absurd (hr.1.symm.trans hw.1) (by simp)
      | writing _ hb hpart d =>
          obtain ⟨hw', hbuffer, hsize, hposition⟩ : WritingOk st.read ∧ st.read.buffer = c.buffer ∧
              st.read.rwSize = c.rwSize ∧ st.read.rwPosition = c.rwPosition := by
            rcases hread with he | he
            · rw [he]
              exact ⟨hw, rfl, rfl, rfl⟩
            · rw [he, closeConnection_eq]
              exact ⟨hw, rfl, rfl, rfl⟩
          rw [← hbuffer] at hb ⊢
          rw [← hsize, ← hposition] at hpart ⊢
          rw [hhandled] at hsent
          rw [Life.visit, hhandled, dispatched, if_neg (by simp [hw'.1]), entered, if_neg (by simp [hw'.1]),
            Bool.false_or, List.append_nil, List.append_nil]
          exact lifeAfter_output hb hw' hpart hsent d

/-- Every occupied place has its life in order, and so had every connection
that was released. -/
def LivesOk (connections : List Connection) (w : Lives) : Prop :=
  (∀ (i : Nat) (c : Connection), connections[i]? = some c → c.state ≠ .free → LifeOk c (w.current i)) ∧
    ∀ life ∈ w.ended, OneResponse life

theorem oneResponse_of_lifeOk {c : Connection} {life : Life} (h : LifeOk c life) : OneResponse life := by
  cases h with
  | reading => exact oneResponse_fresh
  | writing hw hb hpart d => exact oneResponse_sent hb hw [d] (Nat.le_refl 1) (unfinished hpart)

theorem livesOk_assigned (fd : Nat) (addr : UInt32) (uptime : Int) (seed : UInt32) {connections : List Connection}
    {w : Lives} (hslots : ∀ c ∈ connections, SlotOk c) (h : LivesOk connections w) :
    LivesOk (assignConnection fd addr uptime seed connections) (lifeObserver.assigned fd connections w) := by
  rcases assignConnection_cases fd addr uptime seed connections with ⟨hnone, heq⟩ | ⟨j, c, hj, hc, hfree, heq⟩
  · simp only [lifeObserver, hnone, heq]
    exact h
  · simp only [lifeObserver, hj, heq]
    refine ⟨fun i d hd hbusy => ?_, h.2⟩
    by_cases hij : j = i
    · subst hij
      rw [List.getElem?_set_self (List.getElem?_eq_some_iff.mp hc).1, Option.some.injEq] at hd
      simp only [Function.update_self]
      rw [← hd]
      obtain ⟨-, -, hshape⟩ := hslots c (List.mem_of_getElem? hc)
      rcases hshape with hf | hr | hw
      · exact .reading ⟨rfl, Or.inl ⟨hf.2.1, Or.inl hf.2.2⟩⟩
      · exact absurd (hr.1.symm.trans hfree) (by simp)
      · exact absurd (hw.1.symm.trans hfree) (by simp)
    · rw [List.getElem?_set_ne hij] at hd
      simp only [Function.update_of_ne (Ne.symm hij)]
      exact h.1 i d hd hbusy

theorem livesOk_visited {config : ServerConfig} {i : Nat} {visit : Visit} {c : Connection} {st : Stages}
    {connections : List Connection} {w : Lives} (hc : connections[i]? = some c) (hslot : SlotOk c)
    (hbusy : c.state ≠ .free) (hv : Visited visit c st) (hexpired : st.expired = expire config visit st.sent)
    (h : LivesOk connections w) :
    LivesOk (connections.set i (settle st.expired)) (lifeObserver.visited i visit c st w) := by
  obtain ⟨hone, hstate, hok⟩ := visit_lifeAfter hslot hv (h.1 i c hc hbusy)
  simp only [lifeObserver]
  refine ⟨fun j d hd hbusy' => ?_, ?_⟩
  · by_cases hij : i = j
    · subst hij
      rw [List.getElem?_set_self (List.getElem?_eq_some_iff.mp hc).1, Option.some.injEq] at hd
      simp only [Function.update_self]
      rw [hexpired] at hd
      rw [← hd] at hbusy' ⊢
      obtain ⟨hsame, hopen⟩ := settle_kept hstate hbusy'
      rw [hsame]
      exact hok hopen
    · rw [List.getElem?_set_ne hij] at hd
      simp only [Function.update_of_ne (Ne.symm hij)]
      exact h.1 j d hd hbusy'
  · split_ifs
    · intro life hlife
      rcases List.mem_append.mp hlife with hlife | hlife
      · exact h.2 life hlife
      · rw [List.mem_singleton.mp hlife]
        exact hone
    · exact h.2

theorem livesOk_preserved (config : ServerConfig) : Preserved lifeObserver config LivesOk where
  refused _ _ _ h := h
  assigned fd addr uptime seed _ _ hslots h := livesOk_assigned fd addr uptime seed hslots h
  visited _ _ _ _ _ _ hc hslot hbusy hv hexpired h := livesOk_visited hc hslot hbusy hv hexpired h

/-- However the reads and writes are cut up and whatever ends it, a connection
dispatches at most one request and writes a prefix of one response. -/
theorem one_request_one_response {σ : Type} (build : Build) (rsa : RsaKey) (randR : UInt32 → Int × UInt32)
    (exchange : Exchange σ) (statusString : Session σ → List UInt8 × Session σ) (config : ServerConfig)
    (session : Session σ) (cycles : List KernelCycle) :
    ∃ s w, cycles.foldlM (observeCycle lifeObserver build rsa randR exchange statusString config)
        (initConnections config session, ⟨fun _ => .fresh, []⟩) = .ok (s, w) ∧
      (cycles.map KernelCycle.toCycle).foldlM (processConnections build rsa randR exchange statusString config)
        (initConnections config session) = .ok s ∧
      (∀ (i : Nat) (c : Connection), s.connections[i]? = some c → c.state ≠ .free → OneResponse (w.current i)) ∧
      (∀ life ∈ w.ended, OneResponse life) ∧
      ∀ (departures : List Departure) (c c' : Connection), c.buffer.length = 2048 → WritingOk c →
        (0 < c.rwSize → c.rwPosition < c.rwSize) → outputLoop departures c = .ok c' →
        OutputOk c c' (outputTrace departures c) := by
  have hstart : LivesOk (initConnections config session).connections ⟨fun _ => .fresh, []⟩ := by
    refine ⟨fun i c hc hbusy => ?_, by simp⟩
    rw [List.eq_of_mem_replicate (List.mem_of_getElem? hc)] at hbusy
    exact absurd rfl hbusy
  obtain ⟨⟨s, w⟩, hobserve, hprocess, -, hlives, hended⟩ := (livesOk_preserved config).run build rsa randR exchange
    statusString session cycles hstart
  exact ⟨s, w, hobserve, hprocess, fun i c hc hbusy => oneResponse_of_lifeOk (hlives i c hc hbusy), hended,
    fun departures _ _ hb hw hpart hrun => outputLoop_trace departures hb hw hpart hrun⟩

/-- A status request whose answer is written in two cycles. -/
def answerInTwoCycles : List KernelCycle :=
  [serve [.socket 5 0 0 0] [] [] [],
    serve [] [6, 0, 255, 255, 105, 110, 102, 111] [.bytes 1, .bytes 5] [.bytes 0, .again],
    serve [] [] [] [.bytes 10]]

def queuedAnswer : Connection :=
  { Connection.zeroed with
    state := .writing
    socket := 5
    rwSize := 3
    buffer := [79, 75, 33] ++ List.replicate 2045 0 }

theorem one_request_one_response_in_two_cycles :
    ∃ s w c', answerInTwoCycles.foldlM
        (observeCycle lifeObserver ⟨.latin1, false⟩ default (fun seed => (0, seed)) (answering [])
          (fun s => ([79, 75, 33], s)) { oneConnection with maxStatusRecords := 1 })
        (initConnections { oneConnection with maxStatusRecords := 1 } ⟨(), []⟩, ⟨fun _ => .fresh, []⟩) = .ok (s, w) ∧
      w.ended = [⟨[⟨6, [255, 255, 105, 110, 102, 111]⟩], [⟨3, [79, 75, 33]⟩], [79, 75, 33], true⟩] ∧
      (∀ life ∈ w.ended, OneResponse life) ∧ outputLoop [.bytes 0, .again] queuedAnswer = .ok c' ∧
      OutputOk queuedAnswer c' ([79], false) := by
  obtain ⟨s, w, hrun, -, -, hended, htrace⟩ := one_request_one_response ⟨.latin1, false⟩ default (fun seed => (0, seed))
    (answering []) (fun s => ([79, 75, 33], s)) { oneConnection with maxStatusRecords := 1 } ⟨(), []⟩ answerInTwoCycles
  have hlife : (answerInTwoCycles.foldlM
        (observeCycle lifeObserver ⟨.latin1, false⟩ default (fun seed => (0, seed)) (answering [])
          (fun s => ([79, 75, 33], s)) { oneConnection with maxStatusRecords := 1 })
        (initConnections { oneConnection with maxStatusRecords := 1 } ⟨(), []⟩,
          ⟨fun _ => .fresh, []⟩)).toOption.map (fun t => t.2.ended) =
      some [⟨[⟨6, [255, 255, 105, 110, 102, 111]⟩], [⟨3, [79, 75, 33]⟩], [79, 75, 33], true⟩] := by
    decide +kernel
  rw [hrun, Except.toOption, Option.map_some, Option.some.injEq] at hlife
  have houtput : outputLoop [.bytes 0, .again] queuedAnswer = .ok { queuedAnswer with rwPosition := 1 } := by
    decide +kernel
  exact ⟨s, w, _, hrun, hlife, hended, houtput,
    htrace [.bytes 0, .again] queuedAnswer _ (by decide +kernel) ⟨rfl, by decide, by decide, by decide⟩ (by decide) houtput⟩

end TibiaLogin.ConnectionLife
