import Mathlib.Data.List.Rotate

namespace TibiaLogin.KeyStream

variable {α κ : Type} (f : α → κ → α)

def keyed : List κ → List α → List α
  | _, [] => []
  | [], text => text
  | k :: key, a :: text => f a k :: keyed (key ++ [k]) text

@[simp] theorem keyed_nil (key : List κ) : keyed f key [] = [] := by
  cases key <;> rfl

@[simp] theorem keyed_no_key (text : List α) : keyed f [] text = text := by
  cases text <;> rfl

@[simp] theorem length_keyed (key : List κ) (text : List α) : (keyed f key text).length = text.length := by
  induction text generalizing key with
  | nil => rw [keyed_nil]
  | cons a text ih =>
      cases key with
      | nil => rw [keyed_no_key]
      | cons k key => rw [keyed, List.length_cons, List.length_cons, ih]

theorem keyed_append (key : List κ) (text rest : List α) :
    keyed f key (text ++ rest) = keyed f key text ++ keyed f (key.rotate text.length) rest := by
  induction text generalizing key with
  | nil => simp
  | cons a text ih =>
      cases key with
      | nil => simp
      | cons k key =>
          rw [List.cons_append, keyed, keyed, ih, List.length_cons, List.rotate_cons_succ, List.cons_append]

theorem keyed_take (key : List κ) (text : List α) (n : Nat) : (keyed f key text).take n = keyed f key (text.take n) := by
  conv_lhs => rw [← List.take_append_drop n text, keyed_append]
  by_cases h : n ≤ text.length
  · rw [List.take_left' (by rw [length_keyed, List.length_take, Nat.min_eq_left h])]
  · rw [List.drop_eq_nil_of_le (by omega), keyed_nil, List.append_nil]
    exact List.take_of_length_le (by rw [length_keyed, List.length_take]; omega)

theorem keyed_append_self (key : List κ) (text : List α) : keyed f (key ++ key) text = keyed f key text := by
  induction text generalizing key with
  | nil => rw [keyed_nil, keyed_nil]
  | cons a text ih =>
      cases key with
      | nil => rfl
      | cons k key =>
          have hturned : key ++ k :: key ++ [k] = (key ++ [k]) ++ (key ++ [k]) := by
            rw [List.append_assoc, List.append_assoc, List.cons_append, List.singleton_append]
          rw [List.cons_append, keyed, hturned, ih, keyed]

theorem zipWith_keyed (key : List κ) (text : List α) (h : text.length ≤ key.length) :
    List.zipWith f text key = keyed f key text := by
  suffices ∀ rest, List.zipWith f text key = keyed f (key ++ rest) text by
    rw [this [], List.append_nil]
  induction text generalizing key with
  | nil => intro rest; rw [List.zipWith_nil_left, keyed_nil]
  | cons a text ih =>
      intro rest
      cases key with
      | nil => exact absurd h (by simp)
      | cons k key =>
          rw [List.length_cons, List.length_cons, Nat.add_le_add_iff_right] at h
          rw [List.zipWith_cons_cons, List.cons_append, keyed, List.append_assoc, ← ih key h (rest ++ [k])]

theorem keyed_neutral {key : List κ} (h : ∀ k ∈ key, ∀ a, f a k = a) (text : List α) : keyed f key text = text := by
  induction text generalizing key with
  | nil => exact keyed_nil f key
  | cons a text ih =>
      cases key with
      | nil => rfl
      | cons k key =>
          obtain ⟨hk, hrest⟩ := List.forall_mem_cons.mp h
          rw [keyed, hk, ih fun x hx => ?_]
          rcases List.mem_append.mp hx with hx | hx
          · exact hrest x hx
          · rw [List.mem_singleton.mp hx]
            exact hk

theorem keyed_keyed (hf : ∀ a k, f (f a k) k = a) (key : List κ) (text : List α) :
    keyed f key (keyed f key text) = text := by
  induction text generalizing key with
  | nil => rw [keyed_nil, keyed_nil]
  | cons a text ih =>
      cases key with
      | nil => rfl
      | cons k key => rw [keyed, keyed, hf, ih]

end TibiaLogin.KeyStream
