import Mathlib.Algebra.Order.Ring.Int
import Mathlib.Data.List.Basic
import Mathlib.Logic.Function.Basic
import Mathlib.Tactic.Common

/-!
# Memory as a function of the address

A memory gives every address a cell, those inside a buffer and those around it alike, so that an
access beyond the end of a buffer has an address and can be talked about. `load` reads a range of
cells, `store` writes one; `store` followed by `load` is the identity on the range and is invisible
outside it.
-/

namespace Foundations

variable {β : Type*}

/-- The `n` cells from address `a` on. -/
def load (m : ℤ → β) : ℤ → ℕ → List β
  | _, 0 => []
  | a, n + 1 => m a :: load m (a + 1) n

/-- The memory after the cells from address `a` on are overwritten. -/
def store (m : ℤ → β) (a : ℤ) (bs : List β) : ℤ → β := fun x =>
  if a ≤ x then (bs[(x - a).toNat]?).getD (m x) else m x

variable {m m' : ℤ → β} {a b : ℤ} {n k : ℕ} {bs : List β}

@[simp] theorem load_zero (m : ℤ → β) (a : ℤ) : load m a 0 = [] := rfl

theorem load_succ (m : ℤ → β) (a : ℤ) (n : ℕ) : load m a (n + 1) = m a :: load m (a + 1) n := rfl

@[simp] theorem length_load (m : ℤ → β) (a : ℤ) (n : ℕ) : (load m a n).length = n := by
  induction n generalizing a with
  | zero => rfl
  | succ n ih => rw [load_succ, List.length_cons, ih]

theorem load_add (m : ℤ → β) (a : ℤ) (n k : ℕ) : load m a (n + k) = load m a n ++ load m (a + n) k := by
  induction n generalizing a with
  | zero => simp
  | succ n ih =>
    rw [Nat.add_right_comm, load_succ, ih, load_succ, List.cons_append, Nat.cast_succ, add_assoc,
      add_comm 1 (n : ℤ)]

theorem getD_load (m : ℤ → β) (a : ℤ) (h : k < n) (x : β) : (load m a n).getD k x = m (a + k) := by
  induction n generalizing a k with
  | zero => cases h
  | succ n ih =>
    cases k with
    | zero => simp [load_succ]
    | succ k =>
      rw [load_succ, List.getD_cons_succ, ih (a + 1) (Nat.lt_of_succ_lt_succ h), Nat.cast_succ,
        add_assoc, add_comm 1 (k : ℤ)]

theorem load_congr (h : ∀ x, a ≤ x → x < a + n → m x = m' x) : load m a n = load m' a n := by
  induction n generalizing a with
  | zero => rfl
  | succ n ih =>
    rw [load_succ, load_succ, h a le_rfl (by omega), ih fun x hx hx' => h x (by omega) (by omega)]

theorem take_load (h : k ≤ n) : (load m a n).take k = load m a k := by
  obtain ⟨j, rfl⟩ := Nat.exists_eq_add_of_le h
  rw [load_add, List.take_left' (length_load m a k)]

theorem take_load_min (m : ℤ → β) (a : ℤ) (n k : ℕ) :
    (load m a n).take k = load m a (min n k) := by
  rcases le_total n k with h | h
  · rw [Nat.min_eq_left h, List.take_of_length_le (by rwa [length_load])]
  · rw [Nat.min_eq_right h, take_load h]

theorem drop_load (h : k ≤ n) : (load m a n).drop k = load m (a + k) (n - k) := by
  obtain ⟨j, rfl⟩ := Nat.exists_eq_add_of_le h
  rw [load_add, List.drop_left' (length_load m a k), Nat.add_sub_cancel_left]

theorem store_of_lt (h : b < a) : store m a bs b = m b := if_neg (by omega)

theorem store_of_ge (h : a + bs.length ≤ b) : store m a bs b = m b := by
  rw [store, if_pos (by omega), List.getElem?_eq_none (by omega)]
  rfl

/-- Inside, nothing shows of what was there. -/
theorem store_congr (h : a ≤ b) (h' : b < a + bs.length) : store m a bs b = store m' a bs b := by
  have hlt : (b - a).toNat < bs.length := by omega
  simp only [store, if_pos h, List.getElem?_eq_getElem hlt, Option.getD_some]

@[simp] theorem store_nil (m : ℤ → β) (a : ℤ) : store m a [] = m := by
  funext x
  simp [store]

theorem store_cons (m : ℤ → β) (a : ℤ) (c : β) (bs : List β) :
    store m a (c :: bs) = store (Function.update m a c) (a + 1) bs := by
  funext x
  rcases lt_trichotomy x a with h | rfl | h
  · rw [store_of_lt h, store_of_lt (by omega), Function.update_of_ne (by omega)]
  · rw [store_of_lt (lt_add_one x), Function.update_self]
    simp [store]
  · have hx : (x - a).toNat = (x - (a + 1)).toNat + 1 := by omega
    rw [store, store, if_pos (by omega), if_pos (by omega), hx, List.getElem?_cons_succ,
      Function.update_of_ne (by omega)]

/-- What was stored is loaded. -/
theorem load_store_self (m : ℤ → β) (a : ℤ) (bs : List β) : load (store m a bs) a bs.length = bs := by
  induction bs generalizing m a with
  | nil => rfl
  | cons c bs ih =>
    rw [store_cons, List.length_cons, load_succ, ih, store_of_lt (by omega), Function.update_self]

/-- A store is invisible outside its range. -/
theorem load_store_of_disjoint (h : a + bs.length ≤ b ∨ b + n ≤ a) :
    load (store m a bs) b n = load m b n := by
  refine load_congr fun x hx hx' => ?_
  rcases h with h | h
  · exact store_of_ge (by omega)
  · exact store_of_lt (by omega)

/-- A store behind a range extends what is loaded. -/
theorem load_store_append (m : ℤ → β) (a : ℤ) (n : ℕ) (bs : List β) :
    load (store m (a + n) bs) a (n + bs.length) = load m a n ++ bs := by
  rw [load_add, load_store_self, load_store_of_disjoint (.inr le_rfl)]

theorem load_update_add (m : ℤ → β) (a : ℤ) (n k : ℕ) (c : β) :
    load (Function.update m (a + k) c) a n = (load m a n).set k c := by
  induction n generalizing a k with
  | zero => simp
  | succ n ih =>
    cases k with
    | zero =>
      rw [load_succ, load_succ, List.set_cons_zero, Nat.cast_zero, add_zero, Function.update_self]
      congr 1
      exact load_congr fun x hx _ => Function.update_of_ne (by omega) _ _
    | succ k =>
      have hk : a + ((k + 1 : ℕ) : ℤ) = a + 1 + k := by push_cast; omega
      rw [load_succ, load_succ, List.set_cons_succ, hk, ih, Function.update_of_ne (by omega)]

theorem load_update_of_lt {c : β} (h : b < a) : load (Function.update m b c) a n = load m a n :=
  load_congr fun x hx _ => Function.update_of_ne (by omega) _ _

theorem load_update_of_ge {c : β} (h : a + n ≤ b) : load (Function.update m b c) a n = load m a n :=
  load_congr fun x _ hx => Function.update_of_ne (by omega) _ _

end Foundations
