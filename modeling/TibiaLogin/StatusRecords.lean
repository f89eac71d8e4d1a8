import TibiaLogin.Connection
import TibiaLogin.Memory

namespace TibiaLogin.StatusRecords

open Memory

/-- The scan: the record of the address with its index, and the index of the
least recently used record among those seen. -/
def scanRecords (ipAddress : Int) : List StatusRecord → Nat → Nat → Int → Option (Nat × StatusRecord) × Nat
  | [], _, lruIndex, _ => (none, lruIndex)
  | record :: records, i, lruIndex, lruTime =>
      let older := record.timestamp < lruTime
      let lruIndex := if older then i else lruIndex
      let lruTime := if older then record.timestamp else lruTime
      if record.ipAddress = ipAddress then (some (i, record), lruIndex)
      else scanRecords ipAddress records (i + 1) lruIndex lruTime

/-- The first record is read before the scan, which an empty table does not have. -/
def allowStatusRequest (minStatusInterval : Int) (records : List StatusRecord) (ipAddress timeNow : Int) :
    Except Fault (Bool × List StatusRecord) :=
  match records with
  | [] => .error (.read 0 1)
  | first :: _ =>
      match scanRecords ipAddress records 0 0 first.timestamp with
      | (none, lruIndex) => .ok (true, records.set lruIndex ⟨ipAddress, timeNow⟩)
      | (some (i, record), _) =>
          if minStatusInterval ≤ timeNow - record.timestamp then
            .ok (true, records.set i { record with timestamp := timeNow })
          else .ok (false, records)

theorem scanRecords_cases (ip : Int) {rest before b a : List StatusRecord} {old : StatusRecord}
    (hsplit : before ++ rest = b ++ old :: a) (hb : ∀ r ∈ b, old.timestamp < r.timestamp)
    (hmin : ∀ r ∈ before, old.timestamp ≤ r.timestamp) (hip : ∀ r ∈ before, r.ipAddress ≠ ip) :
    (∃ b' old' a', before ++ rest = b' ++ old' :: a' ∧ (∀ r ∈ b', old'.timestamp < r.timestamp) ∧
        (∀ r ∈ before ++ rest, old'.timestamp ≤ r.timestamp) ∧ (∀ r ∈ before ++ rest, r.ipAddress ≠ ip) ∧
        scanRecords ip rest before.length b.length old.timestamp = (none, b'.length)) ∨
      ∃ b' r a' k, before ++ rest = b' ++ r :: a' ∧ r.ipAddress = ip ∧
        scanRecords ip rest before.length b.length old.timestamp = (some (b'.length, r), k) := by
  induction rest generalizing before b a old with
  | nil =>
      rw [List.append_nil] at hsplit ⊢
      exact Or.inl ⟨b, old, a, hsplit, hb, hmin, hip, rfl⟩
  | cons record rest ih =>
      have happ : before ++ record :: rest = (before ++ [record]) ++ rest := by simp
      simp only [scanRecords]
      by_cases heq : record.ipAddress = ip
      · rw [if_pos heq]
        exact Or.inr ⟨before, record, rest, _, rfl, heq, rfl⟩
      · have hip' : ∀ r ∈ before ++ [record], r.ipAddress ≠ ip := by
          intro r hr
          rcases List.mem_append.mp hr with hr | hr
          · exact hip r hr
          · rw [List.mem_singleton.mp hr]
            exact heq
        have hlen : (before ++ [record]).length = before.length + 1 := by simp
        rw [if_neg heq, happ, ← hlen]
        by_cases holder : record.timestamp < old.timestamp
        · rw [if_pos holder, if_pos holder]
          refine ih happ.symm (fun r hr => ?_) (fun r hr => ?_) hip'
          · have := hmin r hr
            omega
          · rcases List.mem_append.mp hr with hr | hr
            · have := hmin r hr
              omega
            · exact Int.le_of_eq (congrArg StatusRecord.timestamp (List.mem_singleton.mp hr)).symm
        · rw [if_neg holder, if_neg holder]
          refine ih (by rw [← happ]; exact hsplit) hb (fun r hr => ?_) hip'
          rcases List.mem_append.mp hr with hr | hr
          · exact hmin r hr
          · rw [List.mem_singleton.mp hr]
            omega

theorem set_middle {α : Type} (before after : List α) (x y : α) :
    (before ++ x :: after).set before.length y = before ++ y :: after := by
  simp

/-- What a call can do: a new address replaces the first of the least recently
used records, a known one is allowed when its interval has passed. -/
theorem allowStatusRequest_cases (interval : Int) {records : List StatusRecord} (hne : records ≠ []) (ip now : Int) :
    (∃ b old a, records = b ++ old :: a ∧ (∀ r ∈ b, old.timestamp < r.timestamp) ∧
        (∀ r ∈ records, old.timestamp ≤ r.timestamp) ∧ (∀ r ∈ records, r.ipAddress ≠ ip) ∧
        allowStatusRequest interval records ip now = .ok (true, b ++ ⟨ip, now⟩ :: a)) ∨
      ∃ b r a, records = b ++ r :: a ∧ r.ipAddress = ip ∧
        allowStatusRequest interval records ip now =
          if interval ≤ now - r.timestamp then .ok (true, b ++ { r with timestamp := now } :: a)
          else .ok (false, records) := by
  obtain ⟨first, rest, rfl⟩ := List.exists_cons_of_ne_nil hne
  rcases scanRecords_cases ip (show [] ++ first :: rest = [] ++ first :: rest from rfl)
    (by simp) (by simp) (by simp) with ⟨b, old, a, hs, hb, hmin, hip, hscan⟩ | ⟨b, r, a, k, hs, hr, hscan⟩
  · refine Or.inl ⟨b, old, a, hs, hb, hmin, hip, ?_⟩
    simp only [List.length_nil] at hscan
    simp only [allowStatusRequest, hscan]
    rw [show first :: rest = b ++ old :: a from hs, set_middle]
  · refine Or.inr ⟨b, r, a, hs, hr, ?_⟩
    simp only [List.length_nil] at hscan
    simp only [allowStatusRequest, hscan]
    rw [show first :: rest = b ++ r :: a from hs, set_middle]

end TibiaLogin.StatusRecords
