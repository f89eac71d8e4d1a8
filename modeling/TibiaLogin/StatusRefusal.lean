import TibiaLogin.StatusLimit

namespace TibiaLogin.StatusRefusal

open Memory StatusRecords StatusLimit

/-- Each address has one record, and the timestamp beside it is the time of the
last request of the address that was allowed. -/
structure Remembers (h : History) : Prop where
  distinct : Distinct h.records
  last : ∀ r ∈ h.records, r.ipAddress ≠ 0 →
    h.allowed.find? (fun q => q.ipAddress = r.ipAddress) = some ⟨r.ipAddress, r.timestamp⟩

theorem remembers_zeroed (n : Nat) : Remembers (.zeroed n) := by
  constructor
  · exact List.pairwise_replicate.mpr (Or.inr fun _ => rfl)
  · intro r hr h0
    rw [List.eq_of_mem_replicate hr] at h0
    exact absurd rfl h0

theorem remembers_replace {h : History} {q : Request} {b a : List StatusRecord} {old : StatusRecord}
    (hr : Remembers h) (hs : h.records = b ++ old :: a) (hother : ∀ y ∈ b ++ a, y.ipAddress ≠ q.ipAddress) :
    Remembers ⟨b ++ ⟨q.ipAddress, q.uptime⟩ :: a, q :: h.allowed⟩ := by
  constructor
  · have hdist := hr.distinct
    rw [hs] at hdist
    exact distinct_replace hdist hother
  · intro r hmem h0
    rcases mem_others.mp hmem with rfl | hmem
    · rw [List.find?_cons_of_pos (by simp)]
    · have hold : r ∈ h.records := by
        rw [hs]
        exact mem_others.mpr (Or.inr hmem)
      have hne : q.ipAddress ≠ r.ipAddress := Ne.symm (hother r hmem)
      rw [List.find?_cons_of_neg (by simpa using hne), hr.last r hold h0]

/-- What one call does to a table that remembers: it is refused on the ground
of the last allowed request of its address, and then changes nothing. -/
theorem allowStatusRequest_remembers (interval : Int) {h : History} {q : Request} (hr : Remembers h)
    (hne : h.records ≠ []) (hq : q.ipAddress ≠ 0) :
    (∃ records, allowStatusRequest interval h.records q.ipAddress q.uptime = .ok (true, records) ∧
        Remembers ⟨records, q :: h.allowed⟩ ∧ records ≠ []) ∨
      allowStatusRequest interval h.records q.ipAddress q.uptime = .ok (false, h.records) ∧
        ∃ first ∈ h.allowed, first.ipAddress = q.ipAddress ∧ q.uptime - first.uptime < interval := by
  rcases allowStatusRequest_cases interval hne q.ipAddress q.uptime with
    ⟨b, old, a, hs, -, -, hnew, hallow⟩ | ⟨b, r, a, hs, hip, hallow⟩
  · refine Or.inl ⟨_, hallow, remembers_replace hr hs ?_, by simp⟩
    intro y hy
    exact hnew y (by rw [hs]; exact mem_others.mpr (Or.inr hy))
  · by_cases hinterval : interval ≤ q.uptime - r.timestamp
    · rw [if_pos hinterval, hip] at hallow
      refine Or.inl ⟨_, hallow, remembers_replace hr hs ?_, by simp⟩
      have hdist := hr.distinct
      rw [hs] at hdist
      rw [← hip]
      exact distinct_others hdist (by rw [hip]; exact hq)
    · rw [if_neg hinterval] at hallow
      have hmem : r ∈ h.records := by
        rw [hs]
        exact mem_others.mpr (Or.inl rfl)
      have hlast := hr.last r hmem (by rw [hip]; exact hq)
      refine Or.inr ⟨hallow, ⟨r.ipAddress, r.timestamp⟩, List.mem_of_find?_eq_some hlast, hip, ?_⟩
      simp only
      omega

theorem next_remembers (interval : Int) {h : History} {q : Request} (hr : Remembers h) (hne : h.records ≠ [])
    (hq : q.ipAddress ≠ 0) : ∃ h', h.next interval q = .ok h' ∧ Remembers h' ∧ h'.records ≠ [] := by
  rcases allowStatusRequest_remembers interval hr hne hq with ⟨records, hallow, hr', hne'⟩ | ⟨hallow, -⟩
  · exact ⟨_, by rw [History.next, hallow]; rfl, hr', hne'⟩
  · exact ⟨_, by rw [History.next, hallow]; rfl, hr, hne⟩

theorem serve_remembers (interval : Int) {h : History} {requests : List Request} (hr : Remembers h)
    (hne : h.records ≠ []) (hproper : ∀ q ∈ requests, q.ipAddress ≠ 0) :
    ∃ h', h.serve interval requests = .ok h' ∧ Remembers h' ∧ h'.records ≠ [] ∧
      ∀ q ∈ h'.allowed, q ∈ h.allowed ∨ q ∈ requests := by
  induction requests generalizing h with
  | nil => exact ⟨h, rfl, hr, hne, fun q hq => Or.inl hq⟩
  | cons q requests ih =>
      obtain ⟨h₁, hnext, hr₁, hne₁⟩ := next_remembers interval hr hne (hproper q List.mem_cons_self)
      obtain ⟨h', hserve, hr', hne', hmem⟩ := ih hr₁ hne₁ fun p hp => hproper p (List.mem_cons_of_mem _ hp)
      refine ⟨h', by rw [History.serve, hnext]; exact hserve, hr', hne', ?_⟩
      intro p hp
      rcases hmem p hp with hp | hp
      · rcases List.mem_cons.mp (next_allowed hnext hp) with rfl | hp
        · exact Or.inr List.mem_cons_self
        · exact Or.inl hp
      · exact Or.inr (List.mem_cons_of_mem _ hp)

/-- After every run the table remembers, and the next request is refused only
on the ground of an earlier one that was allowed too recently, with the table
left as it was. -/
theorem no_false_refusals {n : Nat} (hn : 1 ≤ n) (interval : Int) {requests : List Request}
    (hproper : ∀ q ∈ requests, q.ipAddress ≠ 0) :
    ∃ h, History.serve interval (.zeroed n) requests = .ok h ∧ Remembers h ∧
      ∀ q : Request, q.ipAddress ≠ 0 →
        ∃ result records, allowStatusRequest interval h.records q.ipAddress q.uptime = .ok (result, records) ∧
          (result = false → records = h.records ∧ ∃ first ∈ h.allowed, first ∈ requests ∧
            first.ipAddress = q.ipAddress ∧ q.uptime - first.uptime < interval) := by
  have hne : (History.zeroed n).records ≠ [] := by
    rw [History.zeroed, ne_eq, List.replicate_eq_nil_iff]
    omega
  obtain ⟨h, hserve, hr, hne', hmem⟩ := serve_remembers interval (remembers_zeroed n) hne hproper
  refine ⟨h, hserve, hr, ?_⟩
  intro q hq
  rcases allowStatusRequest_remembers interval hr hne' hq with
    ⟨records, hallow, -⟩ | ⟨hallow, first, hfirst, hip, hlt⟩
  · exact ⟨true, records, hallow, fun hf => absurd hf (by decide)⟩
  · refine ⟨false, h.records, hallow, fun _ => ⟨rfl, first, hfirst, ?_, hip, hlt⟩⟩
    exact (hmem first hfirst).resolve_left (by simp [History.zeroed])

theorem no_false_refusals_two :
    ∃ h, History.serve 300 (.zeroed 2) [⟨1, 1⟩, ⟨2, 1⟩] = .ok h ∧ Remembers h ∧
      allowStatusRequest 300 h.records 1 6 = .ok (false, h.records) ∧
      ∃ result records, allowStatusRequest 300 h.records 1 6 = .ok (result, records) ∧
        (result = false → records = h.records ∧ ∃ first ∈ h.allowed, first ∈ ([⟨1, 1⟩, ⟨2, 1⟩] : List Request) ∧
          first.ipAddress = 1 ∧ 6 - first.uptime < 300) := by
  obtain ⟨h, hserve, hr, hnext⟩ := no_false_refusals (n := 2) (by omega) 300
    (show ∀ q ∈ ([⟨1, 1⟩, ⟨2, 1⟩] : List Request), q.ipAddress ≠ 0 by simp)
  refine ⟨h, hserve, hr, ?_, hnext ⟨1, 6⟩ (by simp)⟩
  cases hserve
  rfl

end TibiaLogin.StatusRefusal
