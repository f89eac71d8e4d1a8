import TibiaLogin.TableIndices

namespace TibiaLogin.TableBounds

open MachineInt Memory BufferReader Query LoginHandler ReadConfig CheckedTable TableIndices
open StatusRecords hiding allowStatusRequest
open Server hiding State initConnections assignConnection acceptConnections processStatusRequest checkConnectionRequest
  visitConnection processConnections

theorem inBounds_stopping {α : Type} (x : Except Stop α) : InBounds (fun _ => True) (stopping x) := by
  cases x <;> trivial

theorem inBounds_faulting {α : Type} (x : Except Fault α) : InBounds (fun _ => True) (faulting x) := by
  cases x <;> trivial

/-- The copies of the limits are those of the configuration. -/
structure Limits {σ : Type} (config : Config) (s : State σ) : Prop where
  connections : s.maxConnections = config.maxConnections
  statusRecords : s.maxStatusRecords = config.maxStatusRecords

theorem initConnections_inBounds {σ : Type} (config : Config) (listener : Int) (session : Session σ) :
    InBounds (Limits config) (initConnections config listener session) := by
  rw [initConnections]
  split_ifs with hlistener
  · trivial
  · refine (inBounds_forLoop (P := fun _ _ => True) (Q := fun _ => True) config.maxConnections.toNat trivial ?_
      fun _ _ => trivial).bind fun connections _ => ⟨rfl, rfl⟩
    intro i connections _ hlt _
    have hi : 0 ≤ (i : Int) ∧ (i : Int) < config.maxConnections := by omega
    exact (inBounds_read connections hi).bind fun c _ => (inBounds_write connections _ hi).bind fun _ _ => trivial

section

variable {limit : Int} (config : Config)

theorem allowStatusRequest_inBounds (records : Table StatusRecord limit) (hlimit : 1 ≤ limit) (ipAddress timeNow : Int) :
    InBounds (fun _ => True) (allowStatusRequest config limit records ipAddress timeNow) := by
  refine (inBounds_read records (by omega)).bind fun first _ => ?_
  refine (inBounds_forLoop
    (P := fun _ scan => scan.found = none ∧ (scan.lruIndex : Int) < limit)
    (Q := fun scan => (scan.lruIndex : Int) < limit ∧ ∀ i : Nat, scan.found = some i → (i : Int) < limit)
    limit.toNat ⟨rfl, by simp only; omega⟩ ?_ ?_).bind ?_
  · rintro i ⟨found, lruIndex, lruTime⟩ - hlt ⟨hfound, hlru⟩
    have hi : 0 ≤ (i : Int) ∧ (i : Int) < limit := by omega
    refine (inBounds_read records hi).bind fun record _ => ?_
    have hfoundHere : ∀ k : Nat, some i = some k → (k : Int) < limit := by
      rintro k ⟨⟩
      exact hi.2
    simp only
    split_ifs
    · exact ⟨hi.2, hfoundHere⟩
    · exact ⟨hlru, hfoundHere⟩
    · exact ⟨hfound, hi.2⟩
    · exact ⟨hfound, hlru⟩
  · rintro scan ⟨hfound, hlru⟩
    rw [hfound]
    exact ⟨hlru, by simp⟩
  · rintro ⟨found, lruIndex, lruTime⟩ ⟨hlru, hfound⟩
    cases found with
    | none => exact (inBounds_write records _ (by simp only at hlru ⊢; omega)).bind fun _ _ => trivial
    | some i =>
        have hi : 0 ≤ (i : Int) ∧ (i : Int) < limit := ⟨by omega, hfound i rfl⟩
        refine (inBounds_read records hi).bind fun record _ => ?_
        split_ifs
        · exact (inBounds_write records _ hi).bind fun _ _ => trivial
        · trivial

theorem assignConnection_inBounds (hlimit : limit = config.maxConnections) (fd : Nat) (addr : UInt32) (uptime : Int)
    (seed : UInt32) (connections : Table Connection limit) :
    InBounds (fun _ => True) (assignConnection config fd addr uptime seed connections) := by
  refine (inBounds_forLoop (P := fun _ index => index = -1) (Q := fun index => index = -1 ∨ 0 ≤ index ∧ index < limit)
    config.maxConnections.toNat rfl ?_ fun _ h => Or.inl h).bind ?_
  · intro i index _ hlt hindex
    have hi : 0 ≤ (i : Int) ∧ (i : Int) < limit := by omega
    refine (inBounds_read connections hi).bind fun c _ => ?_
    split_ifs
    · exact Or.inr hi
    · exact hindex
  · intro index hindex
    by_cases hfree : index ≠ -1
    · rw [if_pos hfree]
      have hi : 0 ≤ index ∧ index < limit := hindex.resolve_left hfree
      exact (inBounds_read connections hi).bind fun c _ => inBounds_write connections _ hi
    · rw [if_neg hfree]
      trivial

theorem acceptConnections_inBounds (hlimit : limit = config.maxConnections) (accepted : List Accepted)
    (connections : Table Connection limit) :
    InBounds (fun _ => True) (acceptConnections config accepted connections) := by
  induction accepted generalizing connections with
  | nil => trivial
  | cons first accepted ih =>
      cases first with
      | none => trivial
      | unusable => exact ih connections
      | socket fd addr uptime seed =>
          exact (assignConnection_inBounds config hlimit fd addr uptime seed connections).bind fun _ _ => ih _

end

theorem wrap32_succ {maxConnections : Int} (hlo : -2147483648 ≤ maxConnections) (hhi : maxConnections < 2147483648)
    (hlength : ¬wrap32 (maxConnections + 1) < 0) :
    wrap32 (maxConnections + 1) = maxConnections + 1 ∧ -1 ≤ maxConnections := by
  rw [wrap32] at hlength ⊢
  omega

theorem addPolled_inBounds {maxFds : Int} (fd index : Int) {polled : Polled maxFds} (hlo : 0 ≤ polled.numFds)
    (hhi : polled.numFds < maxFds) :
    InBounds (fun polled' => polled'.numFds = polled.numFds + 1) (addPolled fd index polled) :=
  (inBounds_write polled.fds fd ⟨hlo, hhi⟩).bind fun _ _ =>
    (inBounds_write polled.indices index ⟨hlo, hhi⟩).bind fun _ _ => rfl

theorem addListener_inBounds {maxFds : Int} (listener : Int) (hroom : 0 < maxFds) :
    InBounds (fun polled => 0 ≤ polled.numFds ∧ polled.numFds ≤ 1)
      (addListener listener (⟨.replicate maxFds 0, .replicate maxFds 0, 0⟩ : Polled maxFds)) := by
  rw [addListener]
  split_ifs
  · refine (addPolled_inBounds listener (-1) (Int.le_refl 0) hroom).mono fun polled h => ?_
    simp only at h
    omega
  · exact ⟨Int.le_refl 0, Int.one_nonneg⟩

theorem collectLoop_inBounds {config : Config} {limit maxFds : Int} (hlimit : limit = config.maxConnections)
    (hroom : maxFds = limit + 1) {connections : Table Connection limit} {polled : Polled maxFds}
    (hpolled : 0 ≤ polled.numFds ∧ polled.numFds ≤ 1) :
    InBounds (fun polled => polled.numFds ≤ (config.maxConnections.toNat : Int) + 1)
      (forLoop (collectRound connections) config.maxConnections.toNat 0 polled) := by
  refine inBounds_forLoop (P := fun i (polled : Polled maxFds) => 0 ≤ polled.numFds ∧ polled.numFds ≤ i + 1)
    config.maxConnections.toNat hpolled ?_ fun polled hcount => ?_
  · intro i polled _ hlt hcount
    have hi : 0 ≤ (i : Int) ∧ (i : Int) < limit := by omega
    refine (inBounds_read connections hi).bind fun c _ => ?_
    split_ifs
    · exact ⟨hcount.1, by simp only; omega⟩
    · refine (addPolled_inBounds _ _ hcount.1 (by omega)).bind fun polled' h => ?_
      exact ⟨by simp only; omega, by simp only; omega⟩
  · rw [Nat.zero_add] at hcount
    exact hcount.2

section

variable {σ : Type} (build : Build) (rsa : RsaKey) (randR : UInt32 → Int × UInt32) (exchange : Exchange σ)
  (statusString : Session σ → List UInt8 × Session σ) {config : Config}

theorem processStatusRequest_inBounds {s : State σ} (hs : Limits config s) (hrecords : 1 ≤ config.maxStatusRecords)
    (visit : Visit) (c : Connection) :
    InBounds (fun r => Limits config r.2) (processStatusRequest statusString config visit c s) := by
  refine (allowStatusRequest_inBounds config s.records (by rw [hs.statusRecords]; exact hrecords) _ _).bind ?_
  rintro ⟨allowed, records⟩ -
  have hkept : ∀ session : Session σ, Limits config { s with records, session } := fun _ => ⟨hs.connections, hs.statusRecords⟩
  simp only
  split_ifs
  · exact hkept s.session
  · refine (inBounds_faulting _).bind fun command _ => (inBounds_faulting _).bind fun format _ => ?_
    split_ifs
    · refine (inBounds_faulting _).bind fun request _ => ?_
      split_ifs
      · exact hkept _
      · exact hkept s.session
    · exact hkept s.session

theorem checkConnectionRequest_inBounds {s : State σ} (hs : Limits config s) (hrecords : 1 ≤ config.maxStatusRecords)
    (visit : Visit) (c : Connection) :
    InBounds (fun r => Limits config r.2)
      (checkConnectionRequest build rsa randR exchange statusString config visit c s) := by
  simp only [checkConnectionRequest]
  split_ifs
  · exact hs
  · exact hs
  · exact (inBounds_faulting _).bind fun _ _ => ⟨hs.connections, hs.statusRecords⟩
  · exact processStatusRequest_inBounds statusString hs hrecords visit c
  · exact hs
  · trivial

theorem visitConnection_inBounds {s : State σ} (hs : Limits config s) (hrecords : 1 ≤ config.maxStatusRecords)
    (visit : Visit) (c : Connection) (stream : List UInt8) :
    InBounds (fun r => Limits config r.2)
      (visitConnection build rsa randR exchange statusString config visit c stream s) :=
  (inBounds_stopping _).bind fun input _ =>
    (checkConnectionRequest_inBounds build rsa randR exchange statusString hs hrecords visit input.1).bind
      fun _ hs' => (inBounds_stopping _).bind fun _ _ => hs'

theorem pollRound_inBounds {maxFds : Int} {s : State σ} (hs : Limits config s)
    (hrecords : 0 < config.maxConnections → 1 ≤ config.maxStatusRecords) (cycle : Cycle) (polled : Polled maxFds) {i : Nat}
    (hi : (i : Int) < maxFds) :
    InBounds (fun r => Limits config r.2)
      (pollRound build rsa randR exchange statusString config cycle polled i s) := by
  have hentry : 0 ≤ (i : Int) ∧ (i : Int) < maxFds := by omega
  refine (inBounds_read polled.indices hentry).bind fun index _ => (inBounds_read polled.fds hentry).bind fun fd _ => ?_
  split_ifs with hindex hlistener hpollin
  · have hbound : 0 ≤ index ∧ index < s.maxConnections := by
      rw [hs.connections]
      exact hindex
    refine (inBounds_read s.connections hbound).bind fun c _ => ?_
    refine (visitConnection_inBounds build rsa randR exchange statusString hs (hrecords (by omega)) _ c _).bind ?_
    rintro ⟨c', s'⟩ hs'
    refine (inBounds_write s'.connections c' ?_).bind fun _ _ => ⟨hs'.connections, hs'.statusRecords⟩
    rw [hs'.connections]
    exact hindex
  · exact (acceptConnections_inBounds config hs.connections cycle.accepted s.connections).bind fun _ _ =>
      ⟨hs.connections, hs.statusRecords⟩
  · exact hs
  · exact hs

/-- The configurations under which no index leaves its table: there is room for
the listener among the descriptors, and where a connection can be served there
is a status record to look at. -/
def Admissible (config : Config) : Prop :=
  config.maxConnections ≠ -1 ∧
    (config.maxConnections ≤ 0 ∨ config.maxConnections = 2147483647 ∨ 1 ≤ config.maxStatusRecords)

theorem Admissible.records {config : Config} (ha : Admissible config)
    (hroom : wrap32 (config.maxConnections + 1) = config.maxConnections + 1) (hpos : 0 < config.maxConnections) :
    1 ≤ config.maxStatusRecords := by
  rcases ha.2 with h | h | h
  · omega
  · rw [h] at hroom
    exact absurd hroom (by decide)
  · exact h

theorem processConnections_inBounds (hlo : -2147483648 ≤ config.maxConnections)
    (hhi : config.maxConnections < 2147483648) (ha : Admissible config) {s : State σ} (hs : Limits config s)
    (cycle : Cycle) :
    InBounds (Limits config) (processConnections build rsa randR exchange statusString config s cycle) := by
  simp only [processConnections]
  by_cases hlength : wrap32 (s.maxConnections + 1) < 0
  · rw [if_pos hlength]
    trivial
  · rw [if_neg hlength]
    have hmax := hs.connections
    rw [hmax] at hlength
    obtain ⟨hroom, hge⟩ := wrap32_succ hlo hhi hlength
    have hne := ha.1
    have hrecords := ha.records hroom
    rw [← hmax] at hroom
    refine (addListener_inBounds s.listener (by omega)).bind fun polled hpolled => ?_
    refine (collectLoop_inBounds hmax (by omega) hpolled).bind fun polled' hcount => ?_
    split_ifs
    · exact hs
    · refine inBounds_forLoop (P := fun _ s => Limits config s) polled'.numFds.toNat hs ?_ fun _ h => h
      intro i s' _ hlt hs'
      have hi : (i : Int) < wrap32 (s.maxConnections + 1) := by omega
      refine (pollRound_inBounds build rsa randR exchange statusString hs' hrecords cycle polled' hi).mono ?_
      intro r hr
      split_ifs <;> exact hr
    · trivial

theorem run_inBounds (hlo : -2147483648 ≤ config.maxConnections) (hhi : config.maxConnections < 2147483648)
    (ha : Admissible config) (listener : Int) (session : Session σ) (cycles : List Cycle) :
    InBounds (Limits config) (run build rsa randR exchange statusString config listener session cycles) :=
  (initConnections_inBounds config listener session).bind fun _ hs =>
    inBounds_foldlM cycles hs fun _ cycle hs =>
      processConnections_inBounds build rsa randR exchange statusString hlo hhi ha hs cycle

end

end TibiaLogin.TableBounds
