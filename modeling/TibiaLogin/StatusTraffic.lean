import TibiaLogin.Framing
import TibiaLogin.SharedRun
import TibiaLogin.StatusRefusal

namespace TibiaLogin.StatusTraffic

open MachineInt Memory Text Query LoginHandler StatusRecords StatusLimit StatusRefusal Server Framing Observation SharedRun

/-- The status requests of a run in their order, and those that got a document,
the last one first. -/
structure Traffic where
  asked : List Request
  answered : List Request
  deriving DecidableEq, Repr

def trafficObserver : Observer Traffic where
  refused _ w := w
  assigned _ _ w := w
  visited _ visit _ st w :=
    match statusAsked visit st with
    | none => w
    | some q => ⟨w.asked ++ [q], if st.handled.state = .writing then q :: w.answered else w.answered⟩

/-- The table of the server is what its requests make of an empty one, and only
allowed requests are answered. -/
structure Tracked {σ : Type} (n : Nat) (interval : Int) (shared : Shared σ) (w : Traffic) (h : History) : Prop where
  served : History.serve interval (.zeroed n) w.asked = .ok h
  records_eq : h.records = shared.records
  length_eq : h.records.length = n
  answered : w.answered.Sublist h.allowed

theorem serve_append (interval : Int) (h : History) (requests : List Request) (q : Request) :
    h.serve interval (requests ++ [q]) = h.serve interval requests >>= fun h => h.next interval q := by
  induction requests generalizing h with
  | nil => simp only [List.nil_append, History.serve, pure_bind, bind_pure]
  | cons r requests ih =>
      simp only [List.cons_append, History.serve]
      cases h.next interval r with
      | error fault => rfl
      | ok h' => exact ih h'

theorem length_records {interval : Int} {records records' : List StatusRecord} (hne : records ≠ []) {ip now : Int}
    {allowed : Bool} (h : allowStatusRequest interval records ip now = .ok (allowed, records')) :
    records'.length = records.length := by
  rcases allowStatusRequest_cases interval hne ip now with ⟨b, old, a, hs, -, -, -, hrun⟩ | ⟨b, r, a, hs, -, hrun⟩
  · rw [h] at hrun
    cases hrun
    rw [hs]
    simp
  · rw [h] at hrun
    split_ifs at hrun
    · cases hrun
      rw [hs]
      simp
    · cases hrun
      rfl

section

variable {σ : Type} {n : Nat} (hn : 1 ≤ n) {interval : Int} {shared : Shared σ} {w : Traffic} {h : History}
  (ht : Tracked n interval shared w h)

include hn ht

theorem Tracked.next {q : Request} {visit : Visit} {allowed : Bool} {records : List StatusRecord}
    (hjudged : orStray (allowStatusRequest interval shared.records q.ipAddress q.uptime) visit.strayStatus =
      (allowed, records)) (session : Session σ) (answered : Bool) (hanswered : answered = true → allowed = true) :
    Tracked n interval (⟨session, records⟩ : Shared σ)
      ⟨w.asked ++ [q], if answered = true then q :: w.answered else w.answered⟩
      ⟨records, if allowed then q :: h.allowed else h.allowed⟩ := by
  have hne : h.records ≠ [] := by
    intro hnil
    have hlen := ht.length_eq
    rw [hnil, List.length_nil] at hlen
    omega
  have hrun : allowStatusRequest interval h.records q.ipAddress q.uptime = .ok (allowed, records) := by
    obtain ⟨result, hresult⟩ : ∃ result, allowStatusRequest interval h.records q.ipAddress q.uptime = .ok result := by
      rcases allowStatusRequest_cases interval hne q.ipAddress q.uptime with
        ⟨b, old, a, -, -, -, -, hrun⟩ | ⟨b, r, a, -, -, hrun⟩
      · exact ⟨_, hrun⟩
      · split_ifs at hrun
        · exact ⟨_, hrun⟩
        · exact ⟨_, hrun⟩
    rw [← ht.records_eq, hresult] at hjudged
    rw [hresult]
    exact congrArg Except.ok hjudged
  refine ⟨?_, rfl, (length_records hne hrun).trans ht.length_eq, ?_⟩
  · rw [serve_append, ht.served, ok_bind, History.next, hrun]
    rfl
  · cases allowed with
    | true =>
        cases answered with
        | true => exact ht.answered.cons_cons q
        | false => exact ht.answered.cons q
    | false =>
        cases answered with
        | true => exact absurd (hanswered rfl) (by simp)
        | false => exact ht.answered

end

section

variable {σ : Type} (exchange : Exchange σ) (statusString : Session σ → List UInt8 × Session σ) {config : ServerConfig}
  (hn : 1 ≤ config.maxStatusRecords)

include hn

theorem tracked_upheld : Upheld trafficObserver exchange statusString config fun shared w =>
    ∃ h, Tracked config.maxStatusRecords config.minStatusInterval shared w h where
  refused _ _ _ h := h
  assigned _ _ _ _ h := h
  visited i visit c st shared shared' w heffect h := by
    obtain ⟨h, ht⟩ := h
    have hvisited : trafficObserver.visited i visit c st w =
        match statusAsked visit st with
        | none => w
        | some q => ⟨w.asked ++ [q], if st.handled.state = .writing then q :: w.answered else w.answered⟩ := rfl
    cases heffect with
    | none hnone =>
        rw [hvisited, hnone]
        exact ⟨h, ht⟩
    | login hnone =>
        rw [hvisited, hnone]
        exact ⟨h, ht.served, ht.records_eq, ht.length_eq, ht.answered⟩
    | refused hq hjudged hhandled =>
        have hstate : ¬st.handled.state = .writing := by
          rw [hhandled, closeConnection_eq, statusAsked_processing hq]
          simp
        have hnext := ht.next hn hjudged shared.session false (by simp)
        rw [hvisited, hq]
        simp only [if_neg hstate]
        exact ⟨_, hnext⟩
    | told hq hjudged hsized hhandled =>
        have hstate : st.handled.state = .writing := by
          rw [hhandled, sendStatusString, if_neg (not_not.mpr (statusAsked_processing hq))]
        have hnext := ht.next hn hjudged (statusString shared.session).2 true (fun _ => rfl)
        rw [hvisited, hq]
        simp only [if_pos hstate]
        exact ⟨_, hnext⟩

end

theorem answered_limited {σ : Type} {n : Nat} (hn : 1 ≤ n) {interval : Int} {shared : Shared σ} {w : Traffic}
    {h : History} (ht : Tracked n interval shared w h) (htimes : Ordered 0 w.asked)
    (hproper : ∀ q ∈ w.asked, q.ipAddress ≠ 0) (hcareful : Careful interval (.zeroed n) w.asked) :
    (w.answered.Pairwise fun second first => first.ipAddress = second.ipAddress →
      second.uptime - first.uptime < interval → Displaced n h.allowed first second.uptime) ∧
    ((w.asked.map (·.ipAddress)).toFinset.card ≤ n → w.answered.Pairwise fun second first =>
      first.ipAddress = second.ipAddress → interval ≤ second.uptime - first.uptime) := by
  obtain ⟨h', now, hserve, hinv, hfrom⟩ := inv_serve (inv_zeroed n interval) hn (le_refl 0) htimes hproper hcareful
  rw [ht.served] at hserve
  cases hserve
  have hsub : ∀ q ∈ h.allowed, q ∈ w.asked := fun q hq => (hfrom q hq).resolve_left (by simp [History.zeroed])
  have hlimited := hinv.limited.sublist ht.answered
  refine ⟨hlimited, fun hcard => ?_⟩
  refine hlimited.imp_of_mem fun {second first} _ hfirst hdisplaced hip => ?_
  by_contra hearly
  exact no_displacement hsub (ht.answered.subset hfirst) hcard (hdisplaced hip (by omega))

theorem refused_recently {σ : Type} {n : Nat} (hn : 1 ≤ n) {interval : Int} {shared : Shared σ} {w : Traffic}
    {h : History} (ht : Tracked n interval shared w h) (hproper : ∀ q ∈ w.asked, q.ipAddress ≠ 0) {q : Request}
    (hq : q.ipAddress ≠ 0) {records : List StatusRecord}
    (hrefused : allowStatusRequest interval shared.records q.ipAddress q.uptime = .ok (false, records)) :
    records = shared.records ∧ ∃ first ∈ w.asked, first.ipAddress = q.ipAddress ∧ q.uptime - first.uptime < interval := by
  have hne : (History.zeroed n).records ≠ [] := by
    rw [History.zeroed, Ne, List.replicate_eq_nil_iff]
    omega
  obtain ⟨h', hserve, hremembers, hrecords, hfrom⟩ := serve_remembers interval (remembers_zeroed n) hne hproper
  rw [ht.served] at hserve
  cases hserve
  rw [← ht.records_eq] at hrefused ⊢
  rcases allowStatusRequest_remembers interval hremembers hrecords hq with ⟨records', hallowed, -⟩ |
    ⟨hkept, first, hfirst, hip, hrecent⟩
  · rw [hrefused] at hallowed
    cases hallowed
  · rw [hrefused] at hkept
    cases hkept
    exact ⟨rfl, first, (hfrom first hfirst).resolve_left (by simp [History.zeroed]), hip, hrecent⟩

def limitedServer : ServerConfig := { oneConnection with maxStatusRecords := 2, minStatusInterval := 300 }

def twoRequests : List KernelCycle :=
  [serve [.socket 5 7 0 0] [] [] [], serve [] [6, 0, 255, 255, 105, 110, 102, 111] [.bytes 1, .bytes 5] [.bytes 9],
    serve [.socket 5 7 0 0] [] [] [], serve [] [6, 0, 255, 255, 105, 110, 102, 111] [.bytes 1, .bytes 5] [.bytes 9]]

end TibiaLogin.StatusTraffic
