import Mathlib.Data.List.Perm.Basic
import Mathlib.Data.List.Perm.Subperm

namespace TibiaLogin.Provenance

variable {α β γ : Type}

/-- Each output comes of an input, and no two outputs of the same one. -/
def From (R : α → β → Prop) (inputs : List α) (outputs : List β) : Prop :=
  ∃ used : List α, used.Subperm inputs ∧ List.Forall₂ R used outputs

variable {R : α → β → Prop} {inputs : List α} {outputs : List β} {a : α} {b : β}

theorem from_nil : From R inputs [] := ⟨[], List.nil_subperm, .nil⟩

theorem From.perm (h : From R inputs outputs) {outputs' : List β} (hp : outputs.Perm outputs') :
    From R inputs outputs' := by
  obtain ⟨used, hused, hrel⟩ := h
  have hcomp : Relation.Comp (List.Forall₂ R) List.Perm used outputs' := ⟨outputs, hrel, hp⟩
  rw [List.forall₂_comp_perm_eq_perm_comp_forall₂] at hcomp
  obtain ⟨used', hperm, hrel'⟩ := hcomp
  exact ⟨used', hperm.symm.subperm.trans hused, hrel'⟩

theorem From.feed (h : From R inputs outputs) (hab : R a b) : From R (inputs ++ [a]) (b :: outputs) := by
  obtain ⟨used, hused, hrel⟩ := h
  refine ⟨a :: used, ?_, .cons hab hrel⟩
  exact ((List.subperm_cons a).mpr hused).trans (List.perm_append_singleton a inputs).symm.subperm

theorem From.drop (h : From R inputs (b :: outputs)) : From R inputs outputs := by
  obtain ⟨used, hused, hrel⟩ := h
  cases hrel with
  | cons hab hrel => exact ⟨_, List.Subperm.cons_self.trans hused, hrel⟩

theorem From.step (h : From R inputs (b :: outputs)) {b' : β} (hstep : ∀ a, R a b → R a b') :
    From R inputs (b' :: outputs) := by
  obtain ⟨used, hused, hrel⟩ := h
  cases hrel with
  | cons hab hrel => exact ⟨_, hused, .cons (hstep _ hab) hrel⟩

theorem From.of_append {front : List β} (h : From R inputs (front ++ outputs)) : From R inputs outputs := by
  induction front with
  | nil => exact h
  | cons b front ih => exact ih h.drop

theorem from_map {f : γ → β} {items : List γ} :
    From R inputs (items.map f) ↔ From (fun a c => R a (f c)) inputs items := by
  simp only [From, List.forall₂_map_right_iff]

theorem From.of_mem (h : From R inputs outputs) (hb : b ∈ outputs) : ∃ a ∈ inputs, R a b := by
  obtain ⟨used, hused, hrel⟩ := h
  obtain ⟨i, hi⟩ := List.mem_iff_getElem?.mp hb
  obtain ⟨hlt, hget⟩ := List.getElem?_eq_some_iff.mp hi
  have hlen := hrel.length_eq
  refine ⟨used[i], hused.subset (List.getElem_mem _), ?_⟩
  rw [← hget]
  exact hrel.get (by omega) hlt

end TibiaLogin.Provenance
