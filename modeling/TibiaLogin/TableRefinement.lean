import TibiaLogin.TableBounds

namespace TibiaLogin.TableRefinement

open MachineInt Memory BufferReader Query LoginHandler ReadConfig CheckedTable TableIndices TableBounds
open StatusRecords hiding allowStatusRequest
open Server hiding State initConnections assignConnection acceptConnections processStatusRequest checkConnectionRequest
  visitConnection processConnections

theorem stopping_bind {α β : Type} (x : Except Stop α) (f : α → Except Stop β) :
    stopping (x >>= f) = stopping x >>= fun a => stopping (f a) := by
  cases x <;> rfl

theorem faulting_bind {α β : Type} (x : Except Fault α) (f : α → Except Fault β) :
    faulting (x >>= f) = faulting x >>= fun a => faulting (f a) := by
  cases x <;> rfl

def view {σ : Type} (s : State σ) : Server.State σ := ⟨s.connections.entries, s.session, s.records.entries⟩

/-- A state of the tables beside the state that it stands for. -/
structure Follows {σ : Type} (config : Config) (listener : Int) (s : State σ) (s' : Server.State σ) : Prop where
  view_eq : view s = s'
  limits : Limits config s
  listener_eq : s.listener = listener

theorem initConnections_follows {σ : Type} (config : Config) {listener : Int} (hlistener : listener ≠ -1)
    (session : Session σ) :
    ∃ s, initConnections config listener session = .ok s ∧
      Follows config listener s (Server.initConnections (serverConfig config) session) := by
  have hround : ∀ j (t : Table Connection config.maxConnections), 0 ≤ j → j < 0 + config.maxConnections.toNat →
      t.entries = List.replicate config.maxConnections.toNat .zeroed →
      ∃ t', initRound j t = .ok (true, t') ∧ t'.entries = List.replicate config.maxConnections.toNat .zeroed := by
    intro j t _ hlt ht
    rw [Nat.zero_add] at hlt
    have hread : t.entries[j]? = some .zeroed := by
      rw [ht, List.getElem?_replicate, if_pos hlt]
    have hlen : j < t.entries.length := by
      rw [ht, List.length_replicate]
      exact hlt
    obtain ⟨t', hwrite, ht'⟩ := Table.write_eq (ε := Reason) TableName.connections hlen Connection.zeroed
    refine ⟨t', ?_, ?_⟩
    · rw [initRound, Table.read_eq TableName.connections hread]
      exact congrArg (· >>= fun t => pure (true, t)) hwrite
    · rw [ht', ht, List.set_replicate_self]
  obtain ⟨connections, hloop, hentries⟩ := forLoop_ok config.maxConnections.toNat
    (i := 0) (b := Table.replicate config.maxConnections Connection.zeroed) rfl hround
  refine ⟨⟨listener, config.maxConnections, connections, config.maxStatusRecords, .replicate _ ⟨0, 0⟩, session⟩, ?_, ?_⟩
  · rw [TableIndices.initConnections, if_neg hlistener]
    simp only [hloop, ok_bind]
    rfl
  · refine ⟨?_, ⟨rfl, rfl⟩, rfl⟩
    rw [view, hentries]
    rfl

section

variable {limit : Int} (config : Config)

theorem scanLoop_eq (t : Table StatusRecord limit) (ip lruTime : Int) (rest : List StatusRecord) {i lruIndex : Nat}
    (hrest : t.entries.drop i = rest) (hlru : lruIndex < t.entries.length) :
    ∃ scan, forLoop (scanRound t ip) rest.length i ⟨none, lruIndex, lruTime⟩ = .ok scan ∧
      scan.lruIndex < t.entries.length ∧ (scanRecords ip rest i lruIndex lruTime).2 = scan.lruIndex ∧
      (((scanRecords ip rest i lruIndex lruTime).1 = none ∧ scan.found = none) ∨
        ∃ k record, (scanRecords ip rest i lruIndex lruTime).1 = some (k, record) ∧ scan.found = some k ∧
          t.entries[k]? = some record) := by
  induction rest generalizing i lruIndex lruTime with
  | nil => exact ⟨_, rfl, hlru, rfl, Or.inl ⟨rfl, rfl⟩⟩
  | cons record rest ih =>
      have hread : t.entries[i]? = some record := by
        rw [← Nat.add_zero i, ← List.getElem?_drop, hrest]
        rfl
      have hlt : i < t.entries.length := (List.getElem?_eq_some_iff.mp hread).1
      have hnext : t.entries.drop (i + 1) = rest := by
        rw [← List.drop_drop, hrest]
        rfl
      rw [List.length_cons, forLoop, scanRound, Table.read_eq TableName.statusRecords hread, ok_bind]
      simp only [scanRecords]
      by_cases hip : record.ipAddress = ip
      · rw [if_pos hip, if_pos hip]
        by_cases holder : record.timestamp < lruTime
        · simp only [if_pos holder]
          exact ⟨_, rfl, hlt, rfl, Or.inr ⟨i, record, rfl, rfl, hread⟩⟩
        · simp only [if_neg holder]
          exact ⟨_, rfl, hlru, rfl, Or.inr ⟨i, record, rfl, rfl, hread⟩⟩
      · rw [if_neg hip, if_neg hip]
        by_cases holder : record.timestamp < lruTime
        · simp only [if_pos holder]
          exact ih record.timestamp hnext hlt
        · simp only [if_neg holder]
          exact ih lruTime hnext hlru

theorem allowStatusRequest_eq (t : Table StatusRecord limit) (hlimit : 1 ≤ limit) (ip now : Int) :
    ∃ allowed t', allowStatusRequest config limit t ip now = .ok (allowed, t') ∧
      StatusRecords.allowStatusRequest config.minStatusInterval t.entries ip now = .ok (allowed, t'.entries) := by
  have hlen := t.length_eq
  obtain ⟨first, rest, hcons⟩ : ∃ first rest, t.entries = first :: rest :=
    List.exists_cons_of_ne_nil (List.ne_nil_of_length_pos (by omega))
  obtain ⟨scan, hloop, hlru, hindex, hfound⟩ := scanLoop_eq t ip first.timestamp t.entries (i := 0) rfl
    (show 0 < t.entries.length by omega)
  have hfirst : t.read .statusRecords 0 = (.ok first : Checked StatusRecord) :=
    Table.read_eq TableName.statusRecords (i := 0) (by rw [hcons]; rfl)
  rw [allowStatusRequest, hfirst, ok_bind, ← hlen, hloop, ok_bind]
  generalize hscan : scanRecords ip t.entries 0 0 first.timestamp = result at hindex hfound
  obtain ⟨found, lruIndex⟩ := result
  rw [hcons] at hscan
  simp only at hindex hfound
  rcases hfound with ⟨rfl, hnone⟩ | ⟨k, record, rfl, hsome, hrecord⟩
  · obtain ⟨t', hwrite, ht'⟩ := Table.write_eq (ε := Reason) TableName.statusRecords hlru ⟨ip, now⟩
    refine ⟨true, t', ?_, ?_⟩
    · simp only [hnone, hwrite]
      rfl
    · rw [ht', hcons]
      simp only [StatusRecords.allowStatusRequest, hscan, hindex]
  · have hk : k < t.entries.length := (List.getElem?_eq_some_iff.mp hrecord).1
    simp only [hsome, Table.read_eq TableName.statusRecords hrecord, ok_bind]
    by_cases hdue : config.minStatusInterval ≤ now - record.timestamp
    · obtain ⟨t', hwrite, ht'⟩ := Table.write_eq (ε := Reason) TableName.statusRecords hk
        { record with timestamp := now }
      refine ⟨true, t', ?_, ?_⟩
      · rw [if_pos hdue, hwrite]
        rfl
      · rw [ht', hcons]
        simp only [StatusRecords.allowStatusRequest, hscan, if_pos hdue]
    · refine ⟨false, t, by rw [if_neg hdue]; rfl, ?_⟩
      rw [hcons]
      simp only [StatusRecords.allowStatusRequest, hscan, if_neg hdue]

theorem freeLoop_eq (t : Table Connection limit) (fd : Nat) (addr : UInt32) (uptime : Int) (seed : UInt32)
    (rest : List Connection) {i : Nat} (hrest : t.entries.drop i = rest) :
    ∃ index, forLoop (freeRound t) rest.length i (-1) = .ok index ∧
      ((index = -1 ∧ Server.assignConnection fd addr uptime seed rest = rest) ∨
        ∃ k c, index = ((i + k : Nat) : Int) ∧ rest[k]? = some c ∧
          Server.assignConnection fd addr uptime seed rest = rest.set k { c with
            state := .reading
            socket := fd
            ipAddress := wrap32 addr.toNat
            startTime := uptime
            randomSeed := seed }) := by
  induction rest generalizing i with
  | nil => exact ⟨-1, rfl, Or.inl ⟨rfl, rfl⟩⟩
  | cons c rest ih =>
      have hread : t.entries[i]? = some c := by
        rw [← Nat.add_zero i, ← List.getElem?_drop, hrest]
        rfl
      have hnext : t.entries.drop (i + 1) = rest := by
        rw [← List.drop_drop, hrest]
        rfl
      rw [List.length_cons, forLoop, freeRound, Table.read_eq TableName.connections hread, ok_bind,
        Server.assignConnection]
      by_cases hfree : c.state = .free
      · rw [if_pos hfree, if_pos hfree]
        exact ⟨i, rfl, Or.inr ⟨0, c, rfl, rfl, rfl⟩⟩
      · rw [if_neg hfree, if_neg hfree]
        obtain ⟨index, hloop, ⟨hindex, hsame⟩ | ⟨k, d, hindex, hd, hset⟩⟩ := ih hnext
        · exact ⟨index, hloop, Or.inl ⟨hindex, by rw [hsame]⟩⟩
        · refine ⟨index, hloop, Or.inr ⟨k + 1, d, ?_, hd, ?_⟩⟩
          · rw [hindex, Nat.add_right_comm, Nat.add_assoc]
          · rw [hset, List.set_cons_succ]

theorem assignConnection_eq (t : Table Connection limit) (hlimit : limit = config.maxConnections) (fd : Nat)
    (addr : UInt32) (uptime : Int) (seed : UInt32) :
    ∃ t', assignConnection config fd addr uptime seed t = .ok t' ∧
      t'.entries = Server.assignConnection fd addr uptime seed t.entries := by
  have hlen := t.length_eq
  obtain ⟨index, hloop, hindex⟩ := freeLoop_eq t fd addr uptime seed t.entries (i := 0) rfl
  rw [assignConnection, ← hlimit, ← hlen, hloop, ok_bind]
  rcases hindex with ⟨rfl, hsame⟩ | ⟨k, c, rfl, hc, hset⟩
  · exact ⟨t, rfl, hsame.symm⟩
  · rw [Nat.zero_add]
    have hk : k < t.entries.length := (List.getElem?_eq_some_iff.mp hc).1
    have hne : (k : Int) ≠ -1 := by omega
    rw [if_pos hne, Table.read_eq TableName.connections hc, ok_bind, hset]
    exact Table.write_eq TableName.connections hk _

theorem acceptConnections_eq (hlimit : limit = config.maxConnections) (accepted : List Accepted)
    (t : Table Connection limit) :
    ∃ t', acceptConnections config accepted t = .ok t' ∧
      t'.entries = Server.acceptConnections accepted t.entries := by
  induction accepted generalizing t with
  | nil => exact ⟨t, rfl, rfl⟩
  | cons first accepted ih =>
      cases first with
      | none => exact ⟨t, rfl, rfl⟩
      | unusable => exact ih t
      | socket fd addr uptime seed =>
          obtain ⟨t₁, hassign, ht₁⟩ := assignConnection_eq config t hlimit fd addr uptime seed
          obtain ⟨t₂, haccept, ht₂⟩ := ih t₁
          refine ⟨t₂, ?_, ?_⟩
          · rw [acceptConnections, hassign, ok_bind, haccept]
          · rw [ht₂, ht₁]
            rfl

end

section

variable {σ : Type} (build : Build) (rsa : RsaKey) (randR : UInt32 → Int × UInt32) (exchange : Exchange σ)
  (statusString : Session σ → List UInt8 × Session σ) {config : Config} {listener : Int}

/-- The connection of a visit and the state around it, beside those of the list. -/
def VisitFollows (config : Config) (listener : Int) (connections : List Connection) (r : Connection × State σ)
    (r' : Connection × Shared σ) : Prop :=
  r.1 = r'.1 ∧ Follows config listener r.2 ⟨connections, r'.2⟩

theorem endAlike_faulting {α : Type} (x : Except Fault α) : EndAlike (· = ·) (faulting x) (faulting x) := by
  cases x <;> rfl

theorem endAlike_stopping {α : Type} (x : Except Stop α) : EndAlike (· = ·) (stopping x) (stopping x) := by
  cases x <;> rfl

theorem processStatusRequest_alike {s : State σ} {s' : Server.State σ} (hs : Follows config listener s s')
    (hrecords : 1 ≤ config.maxStatusRecords) (visit : Visit) (c : Connection) :
    EndAlike (VisitFollows config listener s'.connections) (processStatusRequest statusString config visit c s)
      (faulting (Server.processStatusRequest statusString (serverConfig config) visit c s'.shared)) := by
  obtain ⟨rfl, hlimits, rfl⟩ := hs
  obtain ⟨allowed, records, hallow, hlist⟩ := allowStatusRequest_eq config s.records
    (by rw [hlimits.statusRecords]; exact hrecords) c.ipAddress visit.requestTime
  have hkept : ∀ (c : Connection) (session : Session σ), VisitFollows config s.listener s.connections.entries
      (c, { s with records, session }) (c, ⟨session, records.entries⟩) :=
    fun _ _ => ⟨rfl, rfl, ⟨hlimits.connections, hlimits.statusRecords⟩, rfl⟩
  rw [processStatusRequest, hallow, ok_bind]
  simp only [Server.processStatusRequest, view, serverConfig, hlist, orStray]
  cases allowed with
  | false => exact hkept _ _
  | true =>
      simp only [Bool.not_true, Bool.false_eq_true, if_false, faulting_bind]
      refine (endAlike_faulting _).bind ?_
      rintro ⟨command, r⟩ _ rfl
      refine (endAlike_faulting _).bind ?_
      rintro ⟨format, r⟩ _ rfl
      simp only
      split_ifs with hformat
      · rw [faulting_bind]
        refine (endAlike_faulting _).bind ?_
        rintro ⟨request, r⟩ _ rfl
        simp only
        split_ifs
        · exact hkept _ _
        · exact hkept _ _
      · exact hkept _ _

theorem checkConnectionRequest_alike {s : State σ} {s' : Server.State σ} (hs : Follows config listener s s')
    (hrecords : 1 ≤ config.maxStatusRecords) (visit : Visit) (c : Connection) :
    EndAlike (VisitFollows config listener s'.connections)
      (checkConnectionRequest build rsa randR exchange statusString config visit c s)
      (stopping (Server.checkConnectionRequest build rsa randR exchange statusString (serverConfig config) visit c
        s'.shared)) := by
  have hstatus := processStatusRequest_alike statusString hs hrecords visit c
  obtain ⟨rfl, hlimits, rfl⟩ := hs
  simp only [checkConnectionRequest, Server.checkConnectionRequest]
  split_ifs
  · exact ⟨rfl, rfl, hlimits, rfl⟩
  · exact ⟨rfl, rfl, hlimits, rfl⟩
  · simp only [view]
    cases processLoginRequest build rsa randR exchange (serverConfig config) visit.stray c s.session with
    | error f => rfl
    | ok r => exact ⟨rfl, rfl, ⟨hlimits.connections, hlimits.statusRecords⟩, rfl⟩
  · cases hlist : Server.processStatusRequest statusString (serverConfig config) visit c (view s).shared with
    | error f =>
        rw [hlist] at hstatus
        exact hstatus
    | ok r =>
        rw [hlist] at hstatus
        exact hstatus
  · exact ⟨rfl, rfl, hlimits, rfl⟩
  · rfl

theorem visitConnection_alike {s : State σ} {s' : Server.State σ} (hs : Follows config listener s s')
    (hrecords : 1 ≤ config.maxStatusRecords) (visit : Visit) (c : Connection) (stream : List UInt8) :
    EndAlike (fun r r' => VisitFollows config listener s'.connections r (r'.1, r'.2.2))
      (visitConnection build rsa randR exchange statusString config visit c stream s)
      (stopping (Server.visitConnection build rsa randR exchange statusString (serverConfig config) visit c stream
        s'.shared)) := by
  simp only [visitConnection, Server.visitConnection, stopping_bind]
  refine (endAlike_stopping _).bind ?_
  rintro ⟨c₁, stream₁⟩ _ rfl
  refine (checkConnectionRequest_alike build rsa randR exchange statusString hs hrecords visit c₁).bind ?_
  rintro ⟨c₂, s₂⟩ ⟨_, shared₂⟩ ⟨rfl, hs₂⟩
  refine (endAlike_stopping _).bind ?_
  rintro c₃ _ rfl
  exact ⟨rfl, hs₂⟩

def visitIndex (config : Config) (cycle : Cycle) (s : State σ) (i : Nat) : Checked (State σ) := do
  let c ← s.connections.read .connections i
  let (c, s) ← visitConnection build rsa randR exchange statusString config (cycle.visits i) c (cycle.streams i) s
  let connections ← s.connections.write .connections i c
  pure { s with connections }

theorem visitIndex_alike {s : State σ} {s' : Server.State σ} (hs : Follows config listener s s')
    (hrecords : 1 ≤ config.maxStatusRecords) (cycle : Cycle) {i : Nat} (hi : i < config.maxConnections.toNat) :
    EndAlike (Follows config listener) (visitIndex build rsa randR exchange statusString config cycle s i)
      (stopping (Server.visitIndex build rsa randR exchange statusString (serverConfig config) cycle s' i)) := by
  have hview := hs.view_eq
  have hlen : i < s.connections.entries.length := by
    rw [s.connections.length_eq, hs.limits.connections]
    exact hi
  have hread : s.connections.entries[i]? = some s.connections.entries[i] := List.getElem?_eq_getElem hlen
  have hread' : s'.connections[i]? = some s.connections.entries[i] := by
    rw [← hview]
    exact hread
  rw [visitIndex, Table.read_eq TableName.connections hread, ok_bind, Server.visitIndex]
  simp only [hread', stopping_bind]
  refine (visitConnection_alike build rsa randR exchange statusString hs hrecords _ _ _).bind ?_
  rintro ⟨c, s₁⟩ ⟨_, stream₁, shared₁⟩ ⟨rfl, hs₁⟩
  have hlen₁ : i < s₁.connections.entries.length := by
    rw [s₁.connections.length_eq, hs₁.limits.connections]
    exact hi
  obtain ⟨connections, hwrite, hentries⟩ := Table.write_eq (ε := Reason) TableName.connections hlen₁ c
  simp only [hwrite, ok_bind]
  have hconnections := congrArg Server.State.connections hs₁.view_eq
  have hshared := congrArg Server.State.shared hs₁.view_eq
  refine ⟨?_, ⟨hs₁.limits.connections, hs₁.limits.statusRecords⟩, hs₁.listener_eq⟩
  simp only [view, hentries]
  exact congrArg₂ Server.State.mk (congrArg (·.set i c) hconnections) hshared

/-- The vectors after the collection: the listener, then the given indices. -/
structure Collected {maxFds : Int} (listener : Int) (indices : List Nat) (polled : Polled maxFds) : Prop where
  count : polled.numFds = ((indices.length + 1 : Nat) : Int)
  first : polled.fds.entries[0]? = some listener
  indices_eq : polled.indices.entries.take (indices.length + 1) = -1 :: indices.map fun i : Nat => (i : Int)

omit σ in
theorem addPolled_collected {maxFds : Int} {indices : List Nat} {polled : Polled maxFds}
    (h : Collected listener indices polled) (fd : Int) (i : Nat) (hroom : ((indices.length + 1 : Nat) : Int) < maxFds) :
    ∃ polled', addPolled fd i polled = .ok polled' ∧ Collected listener (indices ++ [i]) polled' := by
  have hfds : indices.length + 1 < polled.fds.entries.length := by
    rw [polled.fds.length_eq]
    omega
  have hindices : indices.length + 1 < polled.indices.entries.length := by
    rw [polled.indices.length_eq]
    omega
  obtain ⟨fds, hwrite, hfdsSet⟩ := Table.write_eq (ε := Reason) TableName.pollFds hfds fd
  obtain ⟨entries, hwrite', hset⟩ := Table.write_eq (ε := Reason) TableName.connectionIndices hindices (i : Int)
  refine ⟨⟨fds, entries, polled.numFds + 1⟩, ?_, ?_, ?_, ?_⟩
  · rw [addPolled, h.count, hwrite, ok_bind, hwrite', ok_bind]
    rfl
  · rw [List.length_append, List.length_singleton, h.count]
    push_cast
    rfl
  · rw [hfdsSet, List.getElem?_set_ne (by omega), h.first]
  · rw [List.length_append, List.length_singleton, hset, List.take_add_one, List.take_set_of_le (Nat.le_refl _),
      h.indices_eq, List.getElem?_set_self hindices, List.map_append]
    rfl

omit σ in
theorem addListener_collected {maxFds : Int} (hlistener : listener ≠ -1) (hroom : 0 < maxFds) :
    ∃ polled, addListener listener (⟨.replicate maxFds 0, .replicate maxFds 0, 0⟩ : Polled maxFds) = .ok polled ∧
      Collected listener [] polled := by
  have hlen : 0 < (Table.replicate maxFds (0 : Int)).entries.length := by
    rw [Table.length_eq]
    omega
  obtain ⟨fds, hwrite, hfds⟩ := Table.write_eq (ε := Reason) TableName.pollFds hlen listener
  obtain ⟨indices, hwrite', hindices⟩ := Table.write_eq (ε := Reason) TableName.connectionIndices hlen (-1)
  refine ⟨⟨fds, indices, 0 + 1⟩, ?_, rfl, ?_, ?_⟩
  · rw [Int.natCast_zero] at hwrite hwrite'
    rw [addListener, if_pos hlistener, addPolled, hwrite, ok_bind, hwrite']
    rfl
  · rw [hfds, List.getElem?_set_self hlen]
  · rw [hindices, List.length_nil, List.take_add_one, List.getElem?_set_self hlen]
    rfl

omit σ in
theorem collectLoop_collected {limit maxFds : Int} (hroom : maxFds = limit + 1) (t : Table Connection limit)
    {polled : Polled maxFds} (h : Collected listener [] polled) :
    ∃ polled', forLoop (collectRound t) t.entries.length 0 polled = .ok polled' ∧
      Collected listener (polledIndices t.entries) polled' := by
  have hlen := t.length_eq
  have hround : ∀ j (polled : Polled maxFds), 0 ≤ j → j < 0 + t.entries.length →
      Collected listener ((List.range j).filter fun i => (t.entries[i]?.map (·.state)).getD .free ≠ .free) polled →
      ∃ polled', collectRound t j polled = .ok (true, polled') ∧ Collected listener
        ((List.range (j + 1)).filter fun i => (t.entries[i]?.map (·.state)).getD .free ≠ .free) polled' := by
    intro j polled _ hlt hcollected
    rw [Nat.zero_add] at hlt
    have hread : t.entries[j]? = some t.entries[j] := List.getElem?_eq_getElem hlt
    have hcount := List.length_filter_le
      (fun i => decide ((t.entries[i]?.map (·.state)).getD .free ≠ .free)) (List.range j)
    rw [List.length_range] at hcount
    rw [collectRound, Table.read_eq TableName.connections hread, ok_bind, List.range_succ, List.filter_append]
    by_cases hfree : t.entries[j].state = .free
    · refine ⟨polled, by rw [if_pos hfree]; rfl, ?_⟩
      rw [List.filter_cons_of_neg (by simp [hread, hfree]), List.filter_nil, List.append_nil]
      exact hcollected
    · obtain ⟨polled', hadd, hcollected'⟩ := addPolled_collected hcollected t.entries[j].socket j (by omega)
      refine ⟨polled', by rw [if_neg hfree, hadd]; rfl, ?_⟩
      rw [List.filter_cons_of_pos (by simp [hread, hfree]), List.filter_nil]
      exact hcollected'
  have hloop := forLoop_ok (P := fun j (polled : Polled maxFds) => Collected listener
    ((List.range j).filter fun i => (t.entries[i]?.map (·.state)).getD .free ≠ .free) polled) t.entries.length
    (i := 0) h hround
  rw [Nat.zero_add] at hloop
  exact hloop

def acceptRound (config : Config) (cycle : Cycle) (s : State σ) : Checked (State σ) :=
  if cycle.listenerPollin then do
    let connections ← acceptConnections config cycle.accepted s.connections
    pure { s with connections }
  else pure s

omit σ in
theorem Collected.index {maxFds : Int} {indices : List Nat} {polled : Polled maxFds}
    (h : Collected listener indices polled) {k : Nat} {index : Int}
    (hk : (-1 :: indices.map fun i : Nat => (i : Int))[k]? = some index) : polled.indices.entries[k]? = some index := by
  have hlt : k < indices.length + 1 := by
    have hlen := (List.getElem?_eq_some_iff.mp hk).1
    rw [List.length_cons, List.length_map] at hlen
    exact hlen
  rw [← h.indices_eq, List.getElem?_take_of_lt hlt] at hk
  exact hk

theorem pollRound_listener {maxFds : Int} {indices : List Nat} {polled : Polled maxFds} {s : State σ}
    (h : Collected s.listener indices polled) (cycle : Cycle) :
    pollRound build rsa randR exchange statusString config cycle polled 0 s =
      (true, ·) <$> acceptRound config cycle s := by
  have hindex := h.index (k := 0) rfl
  rw [pollRound, Table.read_eq TableName.connectionIndices hindex, ok_bind, Table.read_eq TableName.pollFds h.first,
    ok_bind, if_neg (by omega), if_pos ⟨rfl, rfl⟩, acceptRound]
  split_ifs
  · cases acceptConnections config cycle.accepted s.connections <;> rfl
  · rfl

theorem pollRound_index {maxFds : Int} {indices : List Nat} {polled : Polled maxFds}
    (h : Collected listener indices polled) (cycle : Cycle) {k i : Nat} (hk : indices[k]? = some i)
    (hi : i < config.maxConnections.toNat) (s : State σ) :
    pollRound build rsa randR exchange statusString config cycle polled (1 + k) s =
      (true, ·) <$> visitIndex build rsa randR exchange statusString config cycle s i := by
  have hindex : polled.indices.entries[1 + k]? = some (i : Int) := by
    refine h.index ?_
    rw [Nat.add_comm, List.getElem?_cons_succ, List.getElem?_map, hk]
    rfl
  have hlt : 1 + k < polled.fds.entries.length := by
    have hentry := (List.getElem?_eq_some_iff.mp hindex).1
    rw [polled.indices.length_eq] at hentry
    rw [polled.fds.length_eq]
    exact hentry
  rw [pollRound, Table.read_eq TableName.connectionIndices hindex, ok_bind,
    Table.read_eq TableName.pollFds (List.getElem?_eq_getElem hlt), ok_bind, if_pos (by omega), visitIndex, Int.toNat_natCast]
  cases (s.connections.read .connections i : Checked Connection) with
  | error halt => rfl
  | ok c =>
      simp only [ok_bind]
      cases visitConnection build rsa randR exchange statusString config (cycle.visits i) c (cycle.streams i) s with
      | error halt => rfl
      | ok r =>
          simp only [ok_bind]
          cases (r.2.connections.write .connections i r.1 : Checked (Table Connection r.2.maxConnections)) <;> rfl

/-- The limits under which the vectors hold the listener and every connection. -/
structure Room (config : Config) : Prop where
  nonneg : 0 ≤ config.maxConnections
  succ_lt : config.maxConnections + 1 < 2147483648

/-- A cycle, without the vectors: the connections that are not free at its start
are visited after the new ones were accepted. -/
theorem processConnections_eq (hroom : Room config) {s : State σ} (hs : Limits config s) (hlistener : s.listener ≠ -1)
    (cycle : Cycle) :
    processConnections build rsa randR exchange statusString config s cycle =
      if cycle.pollFailed then pure s
      else acceptRound config cycle s >>= (polledIndices s.connections.entries).foldlM
        (visitIndex build rsa randR exchange statusString config cycle) := by
  have hnonneg := hroom.nonneg
  have hlt := hroom.succ_lt
  have hmax := hs.connections
  have hlen : s.connections.entries.length = config.maxConnections.toNat := by
    rw [s.connections.length_eq, hmax]
  have hmaxFds : wrap32 (s.maxConnections + 1) = s.maxConnections + 1 := by
    rw [hmax]
    exact wrap32_of_mem (by omega) hlt
  obtain ⟨polled, hadd, hfirst⟩ := addListener_collected hlistener (show 0 < wrap32 (s.maxConnections + 1) by omega)
  obtain ⟨polled', hcollect, hcollected⟩ := collectLoop_collected hmaxFds s.connections hfirst
  have hcount := hcollected.count
  have hbound : ∀ i ∈ polledIndices s.connections.entries, i < config.maxConnections.toNat := by
    intro i hi
    have hrange := List.mem_range.mp (List.mem_filter.mp hi).1
    rw [hlen] at hrange
    exact hrange
  simp only [processConnections]
  rw [if_neg (by omega), hadd, ok_bind, ← hlen, hcollect, ok_bind, if_neg (by omega)]
  split_ifs
  · rfl
  · have hnum : polled'.numFds.toNat = (polledIndices s.connections.entries).length + 1 := by omega
    rw [hnum, forLoop, pollRound_listener build rsa randR exchange statusString hcollected cycle]
    cases acceptRound config cycle s with
    | error halt => rfl
    | ok s' =>
        refine forLoop_list (polledIndices s.connections.entries) (fun k i s hk => ?_) s'
        exact pollRound_index build rsa randR exchange statusString hcollected cycle hk
          (hbound i (List.mem_of_getElem? hk)) s

theorem acceptRound_follows {s : State σ} {s' : Server.State σ} (hs : Follows config listener s s') (cycle : Cycle) :
    ∃ s₁, acceptRound config cycle s = .ok s₁ ∧ Follows config listener s₁
      { s' with connections :=
        if cycle.listenerPollin then Server.acceptConnections cycle.accepted s'.connections else s'.connections } := by
  rw [acceptRound]
  obtain ⟨rfl, hlimits, rfl⟩ := hs
  split_ifs
  · obtain ⟨connections, haccept, hentries⟩ := acceptConnections_eq config hlimits.connections cycle.accepted s.connections
    refine ⟨{ s with connections }, by rw [haccept]; rfl, ?_, ⟨hlimits.connections, hlimits.statusRecords⟩, rfl⟩
    simp only [view, hentries]
  · exact ⟨s, rfl, rfl, hlimits, rfl⟩

theorem stopping_foldlM {α β : Type} (f : β → α → Except Stop β) (l : List α) (b : β) :
    stopping (l.foldlM f b) = l.foldlM (fun b a => stopping (f b a)) b := by
  induction l generalizing b with
  | nil => rfl
  | cons a l ih =>
      rw [List.foldlM_cons, List.foldlM_cons, stopping_bind]
      exact congrArg (stopping (f b a) >>= ·) (funext ih)

theorem processConnections_alike (hroom : Room config) (hrecords : 1 ≤ config.maxStatusRecords)
    (hlistener : listener ≠ -1) {s : State σ} {s' : Server.State σ} (hs : Follows config listener s s') (cycle : Cycle) :
    EndAlike (Follows config listener) (processConnections build rsa randR exchange statusString config s cycle)
      (stopping (Server.processConnections build rsa randR exchange statusString (serverConfig config) s' cycle)) := by
  have hs₀ := hs
  obtain ⟨rfl, hlimits, rfl⟩ := hs₀
  rw [processConnections_eq build rsa randR exchange statusString hroom hlimits hlistener cycle, Server.processConnections]
  by_cases hpoll : cycle.pollFailed = true
  · rw [if_pos hpoll, if_pos hpoll]
    exact hs
  · rw [if_neg hpoll, if_neg hpoll]
    obtain ⟨s₁, haccept, hs₁⟩ := acceptRound_follows hs cycle
    have hlen : s.connections.entries.length = config.maxConnections.toNat := by
      rw [s.connections.length_eq, hlimits.connections]
    simp only [haccept, ok_bind, stopping_foldlM]
    refine endAlike_foldlM _ hs₁ fun s₂ s₂' h i hi => ?_
    have hrange := List.mem_range.mp (List.mem_filter.mp hi).1
    exact visitIndex_alike build rsa randR exchange statusString h hrecords cycle (by omega)

theorem run_alike (hroom : Room config) (hrecords : 1 ≤ config.maxStatusRecords) (hlistener : listener ≠ -1)
    (session : Session σ) (cycles : List Cycle) :
    EndAlike (Follows config listener)
      (run build rsa randR exchange statusString config listener session cycles)
      (stopping (cycles.foldlM
        (Server.processConnections build rsa randR exchange statusString (serverConfig config))
        (Server.initConnections (serverConfig config) session))) := by
  obtain ⟨s, hinit, hs⟩ := initConnections_follows config hlistener session
  rw [run, hinit, ok_bind, stopping_foldlM]
  exact endAlike_foldlM cycles hs fun _ _ h cycle _ =>
    processConnections_alike build rsa randR exchange statusString hroom hrecords hlistener h cycle

end

end TibiaLogin.TableRefinement
