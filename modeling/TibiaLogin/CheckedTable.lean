import Mathlib.Data.List.Basic
import Mathlib.Tactic.Common

namespace TibiaLogin.CheckedTable

variable {τ ε α β : Type} {limit : Int}

/-- A table as it was allocated, for a limit that may be no number of entries. -/
structure Table (α : Type) (limit : Int) where
  entries : List α
  length_eq : entries.length = limit.toNat

/-- Why a run over tables is cut short: an index outside of a table, or a reason
of the program's own. -/
inductive Halt (τ ε : Type)
  | index (table : τ) (i : Int)
  | other (reason : ε)
  deriving DecidableEq, Repr

def Table.replicate (limit : Int) (entry : α) : Table α limit :=
  ⟨List.replicate limit.toNat entry, List.length_replicate⟩

def Table.read (name : τ) (t : Table α limit) (i : Int) : Except (Halt τ ε) α :=
  if h : 0 ≤ i ∧ i < limit then .ok (t.entries.get ⟨i.toNat, by rw [t.length_eq]; omega⟩)
  else .error (.index name i)

def Table.write (name : τ) (t : Table α limit) (i : Int) (entry : α) : Except (Halt τ ε) (Table α limit) :=
  if 0 ≤ i ∧ i < limit then .ok ⟨t.entries.set i.toNat entry, by rw [List.length_set, t.length_eq]⟩
  else .error (.index name i)

/-- A counting loop: the rounds that are left, the counter and what the rounds
work on. A round says whether another one follows. -/
def forLoop (body : Nat → β → Except ε (Bool × β)) : Nat → Nat → β → Except ε β
  | 0, _, b => .ok b
  | n + 1, i, b => do
      let (more, b) ← body i b
      if more then forLoop body n (i + 1) b else .ok b

/-- No index is outside of its table, and what comes out is as stated. -/
def InBounds (Q : α → Prop) : Except (Halt τ ε) α → Prop
  | .ok a => Q a
  | .error (.index _ _) => False
  | .error (.other _) => True

section

variable {P : β → Prop} {Q : α → Prop}

theorem InBounds.mono {R : α → Prop} {x : Except (Halt τ ε) α} (h : InBounds Q x) (hmono : ∀ a, Q a → R a) :
    InBounds R x := by
  cases x with
  | ok a => exact hmono a h
  | error halt =>
      cases halt with
      | index table i => exact h
      | other reason => exact h

theorem InBounds.bind {x : Except (Halt τ ε) β} (h : InBounds P x) {f : β → Except (Halt τ ε) α}
    (hf : ∀ b, P b → InBounds Q (f b)) : InBounds Q (x >>= f) := by
  cases x with
  | ok b => exact hf b h
  | error halt =>
      cases halt with
      | index table i => exact h
      | other reason => exact h

theorem inBounds_read {name : τ} (t : Table α limit) {i : Int} (h : 0 ≤ i ∧ i < limit) :
    InBounds (fun _ => True) (t.read name i : Except (Halt τ ε) α) := by
  rw [Table.read, dif_pos h]
  trivial

theorem inBounds_write {name : τ} (t : Table α limit) {i : Int} (entry : α) (h : 0 ≤ i ∧ i < limit) :
    InBounds (fun _ => True) (t.write name i entry : Except (Halt τ ε) (Table α limit)) := by
  rw [Table.write, if_pos h]
  trivial

/-- The rule of the loop: what holds before a round holds before the next one,
and the loop ends with it or where a round says so. -/
theorem inBounds_forLoop {P : Nat → β → Prop} {Q : β → Prop}
    {body : Nat → β → Except (Halt τ ε) (Bool × β)} (n : Nat) {i : Nat} {b : β} (h : P i b)
    (hround : ∀ j b, i ≤ j → j < i + n → P j b →
      InBounds (fun r : Bool × β => if r.1 then P (j + 1) r.2 else Q r.2) (body j b))
    (hend : ∀ b, P (i + n) b → Q b) : InBounds Q (forLoop body n i b) := by
  induction n generalizing i b with
  | zero => exact hend b h
  | succ n ih =>
      refine (hround i b (Nat.le_refl i) (by omega) h).bind ?_
      rintro ⟨more, b'⟩ hnext
      cases more with
      | false => exact hnext
      | true =>
          refine ih hnext (fun j b hle hlt => hround j b (by omega) (by omega)) fun b hb => hend b ?_
          rw [Nat.add_right_comm] at hb
          exact hb

theorem inBounds_foldlM {f : β → α → Except (Halt τ ε) β} (l : List α) {b : β} (h : P b)
    (hf : ∀ b a, P b → InBounds P (f b a)) : InBounds P (l.foldlM f b) := by
  induction l generalizing b with
  | nil => exact h
  | cons a l ih =>
      rw [List.foldlM_cons]
      exact (hf b a h).bind fun b' hb' => ih hb'

end

theorem Table.read_eq (name : τ) {t : Table α limit} {i : Nat} {a : α} (h : t.entries[i]? = some a) :
    (t.read name i : Except (Halt τ ε) α) = .ok a := by
  obtain ⟨hlt, ha⟩ := List.getElem?_eq_some_iff.mp h
  have hbound : 0 ≤ (i : Int) ∧ (i : Int) < limit := by
    rw [t.length_eq] at hlt
    omega
  rw [Table.read, dif_pos hbound]
  exact congrArg Except.ok ha

theorem Table.write_eq (name : τ) {t : Table α limit} {i : Nat} (h : i < t.entries.length) (entry : α) :
    ∃ t', (t.write name i entry : Except (Halt τ ε) (Table α limit)) = .ok t' ∧
      t'.entries = t.entries.set i entry := by
  have hbound : 0 ≤ (i : Int) ∧ (i : Int) < limit := by
    rw [t.length_eq] at h
    omega
  refine ⟨⟨t.entries.set i entry, by rw [List.length_set, t.length_eq]⟩, ?_, rfl⟩
  rw [Table.write, if_pos hbound]
  rfl

theorem forLoop_list {f : β → α → Except ε β} {body : Nat → β → Except ε (Bool × β)} (l : List α) {i : Nat}
    (h : ∀ j a b, l[j]? = some a → body (i + j) b = (true, ·) <$> f b a) (b : β) :
    forLoop body l.length i b = l.foldlM f b := by
  induction l generalizing i b with
  | nil => rfl
  | cons a l ih =>
      have hfirst := h 0 a b rfl
      rw [Nat.add_zero] at hfirst
      rw [List.length_cons, forLoop, hfirst, List.foldlM_cons]
      cases f b a with
      | error e => rfl
      | ok b' =>
          refine ih (fun j a b hj => ?_) b'
          rw [Nat.add_assoc, Nat.add_comm 1 j]
          exact h (j + 1) a b hj

theorem forLoop_ok {P : Nat → β → Prop} {body : Nat → β → Except ε (Bool × β)} (n : Nat) {i : Nat} {b : β} (h : P i b)
    (hround : ∀ j b, i ≤ j → j < i + n → P j b → ∃ b', body j b = .ok (true, b') ∧ P (j + 1) b') :
    ∃ b', forLoop body n i b = .ok b' ∧ P (i + n) b' := by
  induction n generalizing i b with
  | zero => exact ⟨b, rfl, h⟩
  | succ n ih =>
      obtain ⟨b', hbody, hb'⟩ := hround i b (Nat.le_refl i) (by omega) h
      obtain ⟨b'', hrest, hb''⟩ := ih hb' fun j b hle hlt => hround j b (by omega) (by omega)
      refine ⟨b'', ?_, ?_⟩
      · rw [forLoop, hbody]
        exact hrest
      · rw [Nat.add_right_comm] at hb''
        exact hb''

/-- Two runs end alike: with the same failure, or with related results. -/
def EndAlike (R : α → β → Prop) : Except ε α → Except ε β → Prop
  | .ok a, .ok b => R a b
  | .error e, .error e' => e = e'
  | _, _ => False

theorem EndAlike.bind {γ δ : Type} {R : α → β → Prop} {S : γ → δ → Prop} {x : Except ε α} {y : Except ε β}
    (h : EndAlike R x y) {f : α → Except ε γ} {g : β → Except ε δ} (hf : ∀ a b, R a b → EndAlike S (f a) (g b)) :
    EndAlike S (x >>= f) (y >>= g) := by
  cases x with
  | ok a =>
      cases y with
      | ok b => exact hf a b h
      | error e => exact h.elim
  | error e =>
      cases y with
      | ok b => exact h.elim
      | error e' => exact h

theorem endAlike_foldlM {γ : Type} {R : α → β → Prop} {f : α → γ → Except ε α} {g : β → γ → Except ε β} (l : List γ)
    {a : α} {b : β} (h : R a b) (hf : ∀ a b, R a b → ∀ c ∈ l, EndAlike R (f a c) (g b c)) :
    EndAlike R (l.foldlM f a) (l.foldlM g b) := by
  induction l generalizing a b with
  | nil => exact h
  | cons c l ih =>
      rw [List.foldlM_cons, List.foldlM_cons]
      exact (hf a b h c (List.mem_cons_self ..)).bind fun a' b' h' =>
        ih h' fun a b h c hc => hf a b h c (List.mem_cons_of_mem _ hc)

end TibiaLogin.CheckedTable
