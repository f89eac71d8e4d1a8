import Mathlib.Data.List.Basic
import Mathlib.Data.List.Nodup

namespace TibiaLogin.Ledger

variable {α : Type}

inductive Event (α : Type)
  | acquired (a : α)
  | released (a : α)
  deriving DecidableEq, Repr

variable [DecidableEq α]

def Event.apply (held : List α) : Event α → List α
  | .acquired a => a :: held
  | .released a => held.erase a

def heldAfter (start : List α) (log : List (Event α)) : List α := log.foldl Event.apply start

/-- A condition on every event of a log and what is held before it. -/
def Along (p : List α → Event α → Prop) : List α → List (Event α) → Prop
  | _, [] => True
  | held, e :: log => p held e ∧ Along p (e.apply held) log

instance Along.decidable (p : List α → Event α → Prop) [∀ held e, Decidable (p held e)] (held : List α)
    (log : List (Event α)) : Decidable (Along p held log) :=
  match log with
  | [] => isTrue trivial
  | e :: log => @instDecidableAnd _ _ _ (Along.decidable p (e.apply held) log)

/-- Nothing is acquired that is held. -/
def Fresh (held : List α) : Event α → Prop
  | .acquired a => a ∉ held
  | .released _ => True

/-- Nothing is released that is not held. -/
def Owned (held : List α) : Event α → Prop
  | .acquired _ => True
  | .released a => a ∈ held

instance (held : List α) (e : Event α) : Decidable (Fresh held e) :=
  match e with
  | .acquired a => inferInstanceAs (Decidable (a ∉ held))
  | .released _ => isTrue trivial

theorem heldAfter_append (start : List α) (log₁ log₂ : List (Event α)) :
    heldAfter start (log₁ ++ log₂) = heldAfter (heldAfter start log₁) log₂ := List.foldl_append

theorem along_append {p : List α → Event α → Prop} {start : List α} {log₁ log₂ : List (Event α)} :
    Along p start (log₁ ++ log₂) ↔ Along p start log₁ ∧ Along p (heldAfter start log₁) log₂ := by
  induction log₁ generalizing start with
  | nil => exact (and_iff_right trivial).symm
  | cons e log₁ ih =>
      rw [List.cons_append, Along, Along, ih, and_assoc]
      rfl

theorem count_apply {held : List α} {e : Event α} (h : Owned held e) (a : α) :
    [e].count (.acquired a) + held.count a = [e].count (.released a) + (e.apply held).count a := by
  cases e with
  | acquired b =>
      rw [Event.apply, List.count_singleton, List.count_singleton, List.count_cons]
      simp only [beq_iff_eq, Event.acquired.injEq, reduceCtorEq, if_false]
      omega
  | released b =>
      rw [Event.apply, List.count_erase, List.count_singleton, List.count_singleton]
      simp only [beq_iff_eq, Event.released.injEq, reduceCtorEq, if_false]
      by_cases hb : b = a
      · subst hb
        have hpos : 0 < held.count b := List.count_pos_iff.mpr h
        rw [if_pos rfl]
        omega
      · rw [if_neg hb]
        omega

theorem count_acquired {start : List α} {log : List (Event α)} (h : Along Owned start log) (a : α) :
    log.count (.acquired a) + start.count a = log.count (.released a) + (heldAfter start log).count a := by
  induction log generalizing start with
  | nil => rfl
  | cons e log ih =>
      have hstep := count_apply h.1 a
      have hrest := ih h.2
      rw [← List.singleton_append, List.count_append, List.count_append, heldAfter_append]
      rw [show heldAfter start [e] = e.apply start from rfl]
      omega

theorem release_all {held resources : List α} (h : held.Perm resources) :
    Along Owned held (resources.map .released) ∧ heldAfter held (resources.map .released) = [] := by
  induction resources generalizing held with
  | nil => exact ⟨trivial, h.eq_nil⟩
  | cons a resources ih =>
      have hmem : a ∈ held := h.mem_iff.mpr (List.mem_cons_self ..)
      have herase : (held.erase a).Perm resources := by
        have he := h.erase a
        rwa [List.erase_cons_head] at he
      obtain ⟨halong, hafter⟩ := ih herase
      exact ⟨⟨hmem, halong⟩, hafter⟩

end TibiaLogin.Ledger
