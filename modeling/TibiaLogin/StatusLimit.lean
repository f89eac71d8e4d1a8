import TibiaLogin.StatusRecords
import Mathlib.Data.List.Nodup
import Mathlib.Data.Finset.Card

namespace TibiaLogin.StatusLimit

open Memory StatusRecords

structure Request where
  ipAddress : Int
  uptime : Int
  deriving DecidableEq, Repr

/-- The table with the allowed requests, the latest one first. -/
structure History where
  records : List StatusRecord
  allowed : List Request

def History.next (minStatusInterval : Int) (h : History) (q : Request) : Except Fault History := do
  let (result, records) ← allowStatusRequest minStatusInterval h.records q.ipAddress q.uptime
  pure ⟨records, if result then q :: h.allowed else h.allowed⟩

def History.serve (minStatusInterval : Int) : History → List Request → Except Fault History
  | h, [] => pure h
  | h, q :: requests => do
      let h ← h.next minStatusInterval q
      h.serve minStatusInterval requests

def History.zeroed (n : Nat) : History := ⟨List.replicate n ⟨0, 0⟩, []⟩

/-- As many addresses other than that of the request were allowed from its time
to the given one. -/
def Displaced (n : Nat) (allowed : List Request) (first : Request) (limit : Int) : Prop :=
  ∃ others : List Int, others.Nodup ∧ n ≤ others.length ∧ ∀ a ∈ others, a ≠ first.ipAddress ∧
    ∃ q ∈ allowed, q.ipAddress = a ∧ first.uptime ≤ q.uptime ∧ q.uptime ≤ limit

def RateLimited (n : Nat) (minStatusInterval : Int) (allowed : List Request) : Prop :=
  allowed.Pairwise fun second first => first.ipAddress = second.ipAddress →
    second.uptime - first.uptime < minStatusInterval → Displaced n allowed first second.uptime

/-- A new address takes the place of an occupied record although the table
still has an empty one: both carry the timestamp zero, and the occupied one
stands in front. -/
def EvictsEarly (records : List StatusRecord) (ipAddress : Int) : Prop :=
  (∀ r ∈ records, r.ipAddress ≠ ipAddress) ∧ (∃ r ∈ records, r.ipAddress = 0) ∧
    ∃ r, records.find? (fun r => r.timestamp = 0) = some r ∧ r.ipAddress ≠ 0

/-- No request of the run meets a table in which it evicts early. -/
def Careful (minStatusInterval : Int) : History → List Request → Prop
  | _, [] => True
  | h, q :: requests => ¬EvictsEarly h.records q.ipAddress ∧
      ∀ h', h.next minStatusInterval q = .ok h' → Careful minStatusInterval h' requests

def Distinct (records : List StatusRecord) : Prop :=
  records.Pairwise fun r r' => r.ipAddress = r'.ipAddress → r.ipAddress = 0

/-- The table remembers the last allowed request of each of its addresses, and
an address it has forgotten was displaced by a full table. -/
structure Inv (n : Nat) (interval now : Int) (h : History) : Prop where
  length_eq : h.records.length = n
  distinct : Distinct h.records
  nonneg : ∀ r ∈ h.records, 0 ≤ r.timestamp
  empty : ∀ r ∈ h.records, r.ipAddress = 0 → r.timestamp = 0
  noted : ∀ r ∈ h.records, r.ipAddress ≠ 0 → ⟨r.ipAddress, r.timestamp⟩ ∈ h.allowed
  proper : ∀ q ∈ h.allowed, q.ipAddress ≠ 0
  past : ∀ q ∈ h.allowed, q.uptime ≤ now
  kept : ∀ q ∈ h.allowed, (∃ r ∈ h.records, r.ipAddress = q.ipAddress ∧ q.uptime ≤ r.timestamp) ∨
    Displaced n h.allowed q now
  limited : RateLimited n interval h.allowed

theorem Displaced.mono {n : Nat} {allowed allowed' : List Request} {first : Request} {limit limit' : Int}
    (h : Displaced n allowed first limit) (hsub : allowed ⊆ allowed') (hle : limit ≤ limit') :
    Displaced n allowed' first limit' := by
  obtain ⟨others, hnd, hlen, hall⟩ := h
  refine ⟨others, hnd, hlen, fun a ha => ⟨(hall a ha).1, ?_⟩⟩
  obtain ⟨q, hq, hip, hlo, hhi⟩ := (hall a ha).2
  exact ⟨q, hsub hq, hip, hlo, by omega⟩

theorem distinct_replace {b a : List StatusRecord} {r x : StatusRecord} (h : Distinct (b ++ r :: a))
    (hx : ∀ y ∈ b ++ a, y.ipAddress ≠ x.ipAddress) : Distinct (b ++ x :: a) := by
  simp only [Distinct, List.pairwise_append, List.pairwise_cons, List.mem_cons, forall_eq_or_imp] at h ⊢
  obtain ⟨hb, ⟨hra, ha⟩, hba⟩ := h
  refine ⟨hb, ⟨fun y hy heq => absurd heq.symm (hx y (List.mem_append_right _ hy)), ha⟩, fun y hy => ⟨fun heq => ?_, ?_⟩⟩
  · exact absurd heq (hx y (List.mem_append_left _ hy))
  · exact (hba y hy).2

theorem distinct_others {b a : List StatusRecord} {r : StatusRecord} (h : Distinct (b ++ r :: a))
    (hr : r.ipAddress ≠ 0) : ∀ y ∈ b ++ a, y.ipAddress ≠ r.ipAddress := by
  simp only [Distinct, List.pairwise_append, List.pairwise_cons, List.mem_cons, forall_eq_or_imp] at h
  obtain ⟨-, ⟨hra, -⟩, hba⟩ := h
  intro y hy heq
  rcases List.mem_append.mp hy with hy | hy
  · exact hr (heq.symm.trans ((hba y hy).1 heq))
  · exact hr (hra y hy heq.symm)

theorem mem_others {b a : List StatusRecord} {r y : StatusRecord} : y ∈ b ++ r :: a ↔ y = r ∨ y ∈ b ++ a := by
  simp only [List.mem_append, List.mem_cons]
  tauto

theorem inv_zeroed (n : Nat) (interval : Int) : Inv n interval 0 (.zeroed n) := by
  have hz : ∀ r ∈ List.replicate n (⟨0, 0⟩ : StatusRecord), r = ⟨0, 0⟩ := fun r hr => List.eq_of_mem_replicate hr
  refine ⟨by simp [History.zeroed], ?_, ?_, ?_, ?_, by simp [History.zeroed], by simp [History.zeroed],
    by simp [History.zeroed], by simp [History.zeroed, RateLimited]⟩
  · exact List.pairwise_replicate.mpr (Or.inr fun _ => rfl)
  · intro r hr
    rw [hz r hr]
  · intro r hr _
    rw [hz r hr]
  · intro r hr h0
    rw [hz r hr] at h0
    exact absurd rfl h0

theorem inv_later {n : Nat} {interval now now' : Int} {h : History} (hi : Inv n interval now h) (hle : now ≤ now') :
    Inv n interval now' h :=
  { hi with
    past := fun q hq => (hi.past q hq).trans hle
    kept := fun q hq => (hi.kept q hq).imp_right fun hd => hd.mono (List.Subset.refl _) hle }

theorem displaced_of_full {n : Nat} {interval now : Int} {h : History} {q first : Request}
    {b a : List StatusRecord} {old : StatusRecord} (hi : Inv n interval now h) (hs : h.records = b ++ old :: a)
    (hnow : now ≤ q.uptime) (hq : q.ipAddress ≠ 0) (hnew : ∀ r ∈ h.records, r.ipAddress ≠ q.ipAddress)
    (hmin : ∀ r ∈ h.records, old.timestamp ≤ r.timestamp) (hfull : ∀ r ∈ h.records, r.ipAddress ≠ 0)
    (hfirst : first ∈ h.allowed) (hip : old.ipAddress = first.ipAddress) (htime : first.uptime ≤ old.timestamp) :
    Displaced n (q :: h.allowed) first q.uptime := by
  have hdist := hi.distinct
  rw [hs] at hdist hnew hmin hfull
  have hother : ∀ y ∈ b ++ a, y.ipAddress ≠ q.ipAddress := fun y hy => hnew y (mem_others.mpr (Or.inr hy))
  have hnonzero : ∀ y ∈ b ++ ⟨q.ipAddress, q.uptime⟩ :: a, y.ipAddress ≠ 0 := by
    intro y hy
    rcases mem_others.mp hy with rfl | hy
    · exact hq
    · exact hfull y (mem_others.mpr (Or.inr hy))
  refine ⟨(b ++ ⟨q.ipAddress, q.uptime⟩ :: a).map (·.ipAddress), ?_, ?_, ?_⟩
  · refine List.pairwise_map.mpr ((distinct_replace hdist hother).imp_of_mem fun hx _ himp heq => ?_)
    exact hnonzero _ hx (himp heq)
  · have hlen := hi.length_eq
    rw [hs] at hlen
    simp only [List.length_map, List.length_append, List.length_cons] at hlen ⊢
    omega
  · intro ip hmem
    obtain ⟨y, hy, rfl⟩ := List.mem_map.mp hmem
    have hpast := hi.past first hfirst
    rcases mem_others.mp hy with rfl | hy
    · refine ⟨fun heq => ?_, q, List.mem_cons_self .., rfl, by omega, by omega⟩
      exact hnew old (mem_others.mpr (Or.inl rfl)) (hip.trans heq.symm)
    · have hrec := mem_others.mpr (Or.inr hy : y = old ∨ y ∈ b ++ a)
      have hnoted := hi.noted y (by rw [hs]; exact hrec) (hfull y hrec)
      have hle := hmin y hrec
      have hypast := hi.past _ hnoted
      refine ⟨fun heq => ?_, _, List.mem_cons_of_mem _ hnoted, rfl, by simp only; omega, by simp only at hypast ⊢; omega⟩
      exact distinct_others hdist (hfull old (mem_others.mpr (Or.inl rfl))) y hy (heq.trans hip.symm)

theorem full_of_evicted {n : Nat} {interval now : Int} {h : History} {ip : Int} {b a : List StatusRecord}
    {old : StatusRecord} (hi : Inv n interval now h) (hs : h.records = b ++ old :: a)
    (hfirst : ∀ r ∈ b, old.timestamp < r.timestamp) (hmin : ∀ r ∈ h.records, old.timestamp ≤ r.timestamp)
    (hnew : ∀ r ∈ h.records, r.ipAddress ≠ ip) (hearly : ¬EvictsEarly h.records ip) (hold : old.ipAddress ≠ 0) :
    ∀ r ∈ h.records, r.ipAddress ≠ 0 := by
  intro r hr h0
  have hzero : old.timestamp = 0 := by
    have hle := hmin r hr
    have hnn := hi.nonneg old (by rw [hs]; simp)
    rw [hi.empty r hr h0] at hle
    omega
  refine hearly ⟨hnew, ⟨r, hr, h0⟩, old, ?_, hold⟩
  rw [hs, List.find?_append, List.find?_eq_none.mpr, Option.none_or, List.find?_cons_of_pos (by simpa using hzero)]
  intro x hx
  have hlt := hfirst x hx
  simp only [decide_eq_true_eq]
  omega

/-- The record that is replaced goes to the request; what it remembered before
is either an old request of the same address or a displaced one. -/
theorem inv_replace {n : Nat} {interval now : Int} {h : History} {q : Request} {b a : List StatusRecord}
    {old : StatusRecord} (hi : Inv n interval now h) (hs : h.records = b ++ old :: a) (hzero : 0 ≤ now)
    (hnow : now ≤ q.uptime) (hq : q.ipAddress ≠ 0) (hother : ∀ y ∈ b ++ a, y.ipAddress ≠ q.ipAddress)
    (hforgotten : ∀ first ∈ h.allowed, old.ipAddress = first.ipAddress → first.uptime ≤ old.timestamp →
      (first.ipAddress = q.ipAddress ∧ interval ≤ q.uptime - first.uptime) ∨
        Displaced n (q :: h.allowed) first q.uptime) :
    Inv n interval q.uptime ⟨b ++ ⟨q.ipAddress, q.uptime⟩ :: a, q :: h.allowed⟩ := by
  have hold : ∀ y ∈ b ++ a, y ∈ h.records := by
    intro y hy
    rw [hs]
    exact mem_others.mpr (Or.inr hy)
  have hsub : h.allowed ⊆ q :: h.allowed := List.subset_cons_self ..
  have hkept : ∀ first ∈ h.allowed,
      (∃ r ∈ b ++ a, r.ipAddress = first.ipAddress ∧ first.uptime ≤ r.timestamp) ∨
        (first.ipAddress = q.ipAddress ∧ interval ≤ q.uptime - first.uptime) ∨
        Displaced n (q :: h.allowed) first q.uptime := by
    intro first hf
    rcases hi.kept first hf with ⟨r, hr, hip, hle⟩ | hd
    · rw [hs] at hr
      rcases mem_others.mp hr with rfl | hr
      · exact Or.inr (hforgotten first hf hip hle)
      · exact Or.inl ⟨r, hr, hip, hle⟩
    · exact Or.inr (Or.inr (hd.mono hsub hnow))
  constructor
  case length_eq =>
    have hlen := hi.length_eq
    rw [hs] at hlen
    simpa using hlen
  case distinct =>
    have hdist := hi.distinct
    rw [hs] at hdist
    exact distinct_replace hdist hother
  case nonneg =>
    intro r hr
    rcases mem_others.mp hr with rfl | hr
    · simp only
      omega
    · exact hi.nonneg r (hold r hr)
  case empty =>
    intro r hr h0
    rcases mem_others.mp hr with rfl | hr
    · exact absurd h0 hq
    · exact hi.empty r (hold r hr) h0
  case noted =>
    intro r hr h0
    rcases mem_others.mp hr with rfl | hr
    · exact List.mem_cons_self ..
    · exact hsub (hi.noted r (hold r hr) h0)
  case proper => exact List.forall_mem_cons.mpr ⟨hq, hi.proper⟩
  case past => exact List.forall_mem_cons.mpr ⟨by omega, fun p hp => (hi.past p hp).trans hnow⟩
  case kept =>
    refine List.forall_mem_cons.mpr ⟨Or.inl ⟨_, mem_others.mpr (Or.inl rfl), rfl, by simp⟩, fun first hf => ?_⟩
    rcases hkept first hf with ⟨r, hr, hip, hle⟩ | ⟨hip, -⟩ | hd
    · exact Or.inl ⟨r, mem_others.mpr (Or.inr hr), hip, hle⟩
    · exact Or.inl ⟨_, mem_others.mpr (Or.inl rfl), hip.symm, (hi.past first hf).trans hnow⟩
    · exact Or.inr hd
  case limited =>
    refine List.pairwise_cons.mpr ⟨fun first hf hip hlt => ?_, hi.limited.imp fun himp h₁ h₂ =>
      (himp h₁ h₂).mono hsub (by omega)⟩
    rcases hkept first hf with ⟨r, hr, hrip, -⟩ | ⟨-, hge⟩ | hd
    · exact absurd (hrip.trans hip) (hother r hr)
    · omega
    · exact hd

theorem inv_next {n : Nat} {interval now : Int} {h : History} {q : Request} (hi : Inv n interval now h) (hn : 1 ≤ n)
    (hzero : 0 ≤ now) (hnow : now ≤ q.uptime) (hq : q.ipAddress ≠ 0) (hearly : ¬EvictsEarly h.records q.ipAddress) :
    ∃ h', h.next interval q = .ok h' ∧ Inv n interval q.uptime h' := by
  have hne : h.records ≠ [] := by
    intro he
    have hlen := hi.length_eq
    rw [he] at hlen
    simp only [List.length_nil] at hlen
    omega
  rcases allowStatusRequest_cases interval hne q.ipAddress q.uptime with
    ⟨b, old, a, hs, hfirst, hmin, hnew, hallow⟩ | ⟨b, r, a, hs, hr, hallow⟩
  · refine ⟨_, by rw [History.next, hallow]; rfl, inv_replace hi hs hzero hnow hq ?_ fun first hf hip hle => Or.inr ?_⟩
    · exact fun y hy => hnew y (by rw [hs]; exact mem_others.mpr (Or.inr hy))
    · refine displaced_of_full hi hs hnow hq hnew hmin ?_ hf hip hle
      exact full_of_evicted hi hs hfirst hmin hnew hearly (by rw [hip]; exact hi.proper first hf)
  · by_cases hinterval : interval ≤ q.uptime - r.timestamp
    · rw [if_pos hinterval, hr] at hallow
      refine ⟨_, by rw [History.next, hallow]; rfl, inv_replace hi hs hzero hnow hq ?_ fun first hf hip hle => Or.inl ?_⟩
      · have hdist := hi.distinct
        rw [hs] at hdist
        rw [← hr]
        exact distinct_others hdist (by rw [hr]; exact hq)
      · exact ⟨hip.symm.trans hr, by omega⟩
    · rw [if_neg hinterval] at hallow
      exact ⟨_, by rw [History.next, hallow]; rfl, inv_later hi hnow⟩

theorem next_allowed {interval : Int} {h h' : History} {q : Request} (hnext : h.next interval q = .ok h') :
    h'.allowed ⊆ q :: h.allowed := by
  obtain ⟨⟨result, records⟩, -, hp⟩ := bind_eq_ok.mp hnext
  cases hp
  cases result with
  | true => exact List.Subset.refl _
  | false => exact List.subset_cons_self ..

/-- The uptimes of a run, from the given one on, never decrease. -/
def Ordered (now : Int) (requests : List Request) : Prop := (now :: requests.map (·.uptime)).Pairwise (· ≤ ·)

theorem inv_serve {n : Nat} {interval now : Int} {h : History} {requests : List Request} (hi : Inv n interval now h)
    (hn : 1 ≤ n) (hzero : 0 ≤ now) (htimes : Ordered now requests) (hproper : ∀ q ∈ requests, q.ipAddress ≠ 0)
    (hcareful : Careful interval h requests) :
    ∃ h' now', h.serve interval requests = .ok h' ∧ Inv n interval now' h' ∧
      ∀ q ∈ h'.allowed, q ∈ h.allowed ∨ q ∈ requests := by
  induction requests generalizing h now with
  | nil => exact ⟨h, now, rfl, hi, fun q hq => Or.inl hq⟩
  | cons q requests ih =>
      simp only [Ordered, List.map_cons, List.pairwise_cons, List.mem_cons, forall_eq_or_imp] at htimes
      obtain ⟨⟨hnow, -⟩, htimes⟩ := htimes
      obtain ⟨h₁, hnext, hi₁⟩ := inv_next hi hn hzero hnow (hproper q (List.mem_cons_self ..)) hcareful.1
      obtain ⟨h', now', hserve, hi', hmem⟩ := ih hi₁ (by omega) (List.pairwise_cons.mpr htimes)
        (fun p hp => hproper p (List.mem_cons_of_mem _ hp)) (hcareful.2 h₁ hnext)
      refine ⟨h', now', by rw [History.serve, hnext]; exact hserve, hi', fun p hp => ?_⟩
      rcases hmem p hp with hp | hp
      · rcases List.mem_cons.mp (next_allowed hnext hp) with rfl | hp
        · exact Or.inr (List.mem_cons_self ..)
        · exact Or.inl hp
      · exact Or.inr (List.mem_cons_of_mem _ hp)

theorem no_displacement {n : Nat} {allowed requests : List Request} {first : Request} {limit : Int}
    (hsub : ∀ q ∈ allowed, q ∈ requests) (hfirst : first ∈ allowed)
    (hcard : (requests.map (·.ipAddress)).toFinset.card ≤ n) : ¬Displaced n allowed first limit := by
  rintro ⟨others, hnd, hlen, hall⟩
  have hnd' : (first.ipAddress :: others).Nodup :=
    List.nodup_cons.mpr ⟨fun hm => (hall _ hm).1 rfl, hnd⟩
  have hle : (first.ipAddress :: others).toFinset ⊆ (requests.map (·.ipAddress)).toFinset := by
    intro ip hip
    rw [List.mem_toFinset] at hip ⊢
    rcases List.mem_cons.mp hip with rfl | hip
    · exact List.mem_map_of_mem (hsub first hfirst)
    · obtain ⟨-, q, hq, rfl, -⟩ := hall ip hip
      exact List.mem_map_of_mem (hsub q hq)
  have hcount := Finset.card_le_card hle
  rw [List.toFinset_card_of_nodup hnd', List.length_cons] at hcount
  omega

theorem status_rate_limited {n : Nat} (hn : 1 ≤ n) (interval : Int) {requests : List Request}
    (htimes : Ordered 0 requests) (hproper : ∀ q ∈ requests, q.ipAddress ≠ 0)
    (hcareful : Careful interval (.zeroed n) requests) :
    ∃ h, History.serve interval (.zeroed n) requests = .ok h ∧ RateLimited n interval h.allowed ∧
      ((requests.map (·.ipAddress)).toFinset.card ≤ n → h.allowed.Pairwise fun second first =>
        first.ipAddress = second.ipAddress → interval ≤ second.uptime - first.uptime) := by
  obtain ⟨h, now, hserve, hi, hmem⟩ :=
    inv_serve (inv_zeroed n interval) hn (Int.le_refl 0) htimes hproper hcareful
  refine ⟨h, hserve, hi.limited, fun hcard => hi.limited.imp_of_mem fun _ hf himp hip => ?_⟩
  by_contra hlt
  refine no_displacement (fun q hq => ?_) hf hcard (himp hip (by omega))
  exact (hmem q hq).resolve_left (by simp [History.zeroed])

theorem status_rate_limited_two :
    ∃ h, History.serve 300 (.zeroed 2) [⟨1, 1⟩, ⟨2, 1⟩, ⟨1, 5⟩] = .ok h ∧ RateLimited 2 300 h.allowed ∧
      (([⟨1, 1⟩, ⟨2, 1⟩, ⟨1, 5⟩] : List Request).map (·.ipAddress)).toFinset.card ≤ 2 ∧ h.allowed.length = 2 := by
  obtain ⟨h, hserve, hlimited, -⟩ := status_rate_limited (n := 2) (by omega) 300
    (show Ordered 0 [⟨1, 1⟩, ⟨2, 1⟩, ⟨1, 5⟩] by simp [Ordered]) (by simp) (by
      refine ⟨by simp [EvictsEarly, History.zeroed], fun h₁ e₁ => ?_⟩
      cases e₁
      refine ⟨by simp [EvictsEarly, History.zeroed], fun h₂ e₂ => ?_⟩
      cases e₂
      exact ⟨by simp [EvictsEarly, History.zeroed], fun _ _ => trivial⟩)
  refine ⟨h, hserve, hlimited, by decide, ?_⟩
  cases hserve
  rfl

/-- At start-up two requests at the uptime zero share the first record, and the
first address is allowed again although an empty record was left. -/
theorem status_limit_evaded :
    ∃ h, History.serve 300 (.zeroed 2) [⟨1, 0⟩, ⟨2, 0⟩, ⟨1, 0⟩] = .ok h ∧ ¬RateLimited 2 300 h.allowed := by
  refine ⟨⟨[⟨1, 0⟩, ⟨0, 0⟩], [⟨1, 0⟩, ⟨2, 0⟩, ⟨1, 0⟩]⟩, rfl, fun hlimited => ?_⟩
  have hfirst : (⟨1, 0⟩ : Request) ∈ [⟨2, 0⟩, ⟨1, 0⟩] := by simp
  obtain ⟨others, hnd, hlen, hall⟩ := List.rel_of_pairwise_cons hlimited hfirst rfl (by decide)
  have hsub : others ⊆ [2] := by
    intro ip hip
    obtain ⟨hne, q, hq, rfl, -⟩ := hall ip hip
    simp only [List.mem_cons, List.not_mem_nil, or_false] at hq
    rcases hq with rfl | rfl | rfl
    · exact absurd rfl hne
    · simp
    · exact absurd rfl hne
  have hle := (hnd.subperm hsub).length_le
  simp only [List.length_singleton] at hle
  omega

end TibiaLogin.StatusLimit
