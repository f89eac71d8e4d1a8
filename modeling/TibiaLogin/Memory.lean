import TibiaLogin.MachineInt
import Mathlib.Data.List.Basic

namespace TibiaLogin.Memory

variable {α β ε : Type}

/-- An access outside the object it is made on. -/
inductive Fault
  | read (offset : Int) (count : Nat)
  | write (offset : Int) (count : Nat)
  deriving DecidableEq, Repr

@[simp] theorem ok_bind (a : α) (f : α → Except ε β) : (Except.ok a >>= f) = f a := rfl

@[simp] theorem error_bind (e : ε) (f : α → Except ε β) : (Except.error e >>= f) = .error e := rfl

theorem bind_eq_ok {x : Except ε α} {f : α → Except ε β} {b : β} :
    (x >>= f) = .ok b ↔ ∃ a, x = .ok a ∧ f a = .ok b := by
  cases x with
  | error e => simp
  | ok a => simp

theorem foldlM_invariant {f : β → α → Except ε β} (Inv : List α → β → Prop)
    (hstep : ∀ a l b, Inv (a :: l) b → ∃ b', f b a = .ok b' ∧ Inv l b') {l : List α} {b : β} (h : Inv l b) :
    ∃ b', l.foldlM f b = .ok b' ∧ Inv [] b' := by
  induction l generalizing b with
  | nil => exact ⟨b, rfl, h⟩
  | cons a l ih =>
      obtain ⟨b₁, hb₁, h₁⟩ := hstep a l b h
      obtain ⟨b', hb', h'⟩ := ih h₁
      refine ⟨b', ?_, h'⟩
      rw [List.foldlM_cons, hb₁]
      exact hb'

/-- The bytes from an offset on lie inside an object of the given size. No
byte is touched by an access of length zero, wherever it points. -/
def Within (size : Nat) (offset : Int) (count : Nat) : Prop :=
  count = 0 ∨ (0 ≤ offset ∧ offset + count ≤ size)

instance (size : Nat) (offset : Int) (count : Nat) : Decidable (Within size offset count) :=
  inferInstanceAs (Decidable (_ ∨ _ ∧ _))

def overwrite (mem : List α) (i : Nat) (xs : List α) : List α :=
  mem.take i ++ xs ++ mem.drop (i + xs.length)

def loadBytes (mem : List α) (offset : Int) (count : Nat) : Except Fault (List α) :=
  if Within mem.length offset count then .ok ((mem.drop offset.toNat).take count)
  else .error (.read offset count)

def storeBytes (mem : List α) (offset : Int) (xs : List α) : Except Fault (List α) :=
  if Within mem.length offset xs.length then .ok (overwrite mem offset.toNat xs)
  else .error (.write offset xs.length)

def fillBytes (mem : List α) (offset : Int) (a : α) (count : Nat) : Except Fault (List α) :=
  if Within mem.length offset count then .ok (overwrite mem offset.toNat (List.replicate count a))
  else .error (.write offset count)

/-- After an access outside its object the language leaves open what the
program goes on with, so that value is given from outside. -/
def orStray (x : Except ε α) (stray : α) : α :=
  match x with
  | .ok a => a
  | .error _ => stray

theorem length_overwrite {mem : List α} {i : Nat} {xs : List α} (h : i + xs.length ≤ mem.length) :
    (overwrite mem i xs).length = mem.length := by
  simp only [overwrite, List.length_append, List.length_take, List.length_drop]
  omega

theorem overwrite_nil (mem : List α) (i : Nat) : overwrite mem i [] = mem := by
  simp [overwrite]

theorem take_overwrite {mem : List α} {i : Nat} {xs : List α} (h : i + xs.length ≤ mem.length) :
    (overwrite mem i xs).take (i + xs.length) = mem.take i ++ xs := by
  have hlen : (mem.take i ++ xs).length = i + xs.length := by
    simp only [List.length_append, List.length_take]
    omega
  rw [overwrite, ← hlen, List.take_left]

theorem drop_overwrite {mem : List α} {i : Nat} {xs : List α} (h : i + xs.length ≤ mem.length) :
    (overwrite mem i xs).drop (i + xs.length) = mem.drop (i + xs.length) := by
  have hlen : (mem.take i ++ xs).length = i + xs.length := by
    simp only [List.length_append, List.length_take]
    omega
  conv_lhs => rw [overwrite, ← hlen, List.drop_left]
  rw [hlen]

theorem overwrite_overwrite {mem : List α} {i : Nat} {xs ys : List α}
    (h : i + xs.length + ys.length ≤ mem.length) :
    overwrite (overwrite mem i xs) (i + xs.length) ys = overwrite mem i (xs ++ ys) := by
  have hx : i + xs.length ≤ mem.length := by omega
  conv_lhs => rw [overwrite, take_overwrite hx, ← List.drop_drop, drop_overwrite hx, List.drop_drop]
  simp [overwrite, Nat.add_assoc, List.append_assoc]

theorem overwrite_all {mem xs : List α} (h : xs.length = mem.length) : overwrite mem 0 xs = xs := by
  simp [overwrite, h]

theorem overwrite_take {mem : List α} {i k : Nat} {xs : List α} (h : i + xs.length ≤ k) :
    (overwrite mem i xs).take k = overwrite (mem.take k) i xs := by
  have hA : (mem.take i ++ xs).length ≤ k := by
    simp only [List.length_append, List.length_take]
    omega
  rw [overwrite, overwrite, List.take_append, List.take_of_length_le hA, List.take_take, List.drop_take,
    Nat.min_eq_left (by omega)]
  congr 1
  by_cases hi : i ≤ mem.length
  · rw [List.length_append, List.length_take, Nat.min_eq_left hi]
  · rw [List.drop_eq_nil_of_le (by omega), List.take_nil, List.take_nil]

theorem exists_cons_cons {l : List α} (h : 2 ≤ l.length) : ∃ a b t, l = a :: b :: t := by
  have hpos : 0 < l.length := by omega
  obtain ⟨a, l, rfl⟩ := List.exists_cons_of_length_pos hpos
  rw [List.length_cons] at h
  have hpos' : 0 < l.length := by omega
  obtain ⟨b, t, rfl⟩ := List.exists_cons_of_length_pos hpos'
  exact ⟨a, b, t, rfl⟩

theorem within_natCast {size i count : Nat} (h : i + count ≤ size) : Within size i count :=
  Or.inr (by omega)

theorem loadBytes_of_within {mem : List α} {i count : Nat} (h : i + count ≤ mem.length) :
    loadBytes mem i count = .ok ((mem.drop i).take count) := by
  rw [loadBytes, if_pos (within_natCast h), Int.toNat_natCast]

theorem storeBytes_of_within {mem : List α} {i : Nat} {xs : List α} (h : i + xs.length ≤ mem.length) :
    storeBytes mem i xs = .ok (overwrite mem i xs) := by
  rw [storeBytes, if_pos (within_natCast h), Int.toNat_natCast]

theorem fillBytes_of_within {mem : List α} {i : Nat} {a : α} {count : Nat}
    (h : i + count ≤ mem.length) :
    fillBytes mem i a count = .ok (overwrite mem i (List.replicate count a)) := by
  rw [fillBytes, if_pos (within_natCast h), Int.toNat_natCast]

theorem length_of_storeBytes {mem mem' : List α} {offset : Int} {xs : List α}
    (h : storeBytes mem offset xs = .ok mem') : mem'.length = mem.length := by
  rw [storeBytes] at h
  split_ifs at h with hw
  cases h
  rcases hw with h0 | ⟨hlo, hhi⟩
  · rw [List.length_eq_zero_iff.mp h0, overwrite_nil]
  · exact length_overwrite (by omega)

theorem length_of_fillBytes {mem mem' : List α} {offset : Int} {a : α} {count : Nat}
    (h : fillBytes mem offset a count = .ok mem') : mem'.length = mem.length := by
  have hs : storeBytes mem offset (List.replicate count a) = .ok mem' := by
    rw [storeBytes, List.length_replicate]
    exact h
  exact length_of_storeBytes hs

theorem loadBytes_outside {mem : List α} {offset : Int} {count : Nat} (hc : 0 < count)
    (h : offset < 0 ∨ mem.length < offset + count) :
    loadBytes mem offset count = .error (.read offset count) := by
  rw [loadBytes, if_neg]
  rw [Within]
  omega

end TibiaLogin.Memory
