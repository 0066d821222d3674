import NetworkLibrary.Session.Generations
import Mathlib.Data.List.Count
import Mathlib.Data.List.Nodup

/-!
# `SessionArr`

All sessions of a server or a client. Each one runs the program of `Slot`; a thread that works on
several sessions is one thread for each of them here, so that the runs are at least those of the
code. `SessionIDCnt` belongs to the class that holds the array, so that a session takes whatever
value it is given (`Host.netClient`). A slot knows how often it is on `FreeSessionStack`; `Stacked`
ties this to the stack.
-/

namespace NetworkLibrary.Session

open Foundations

/-- `SessionArr`, each session with the threads that work on it. -/
abbrev SessionArr := UInt16 → Threads Slot Frame

namespace SessionArr

/-- The sessions as `Start` leaves them, with `m` threads for each. -/
def start (m : ℕ) : SessionArr := fun slot => Threads.idle (Session.start slot) m

/-- A step of one session. -/
def run (arr : SessionArr) (k : UInt16) (l : ℕ × Act) : Option SessionArr :=
  ((program .netClient).step (arr k) l).map (Function.update arr k)

/-- The next statement of a thread on a session is the `FreeSessionStack.Push` of `ReleaseSession`. -/
def pushing (arr : SessionArr) (k : UInt16) (i : ℕ) : Bool :=
  match (arr k).top i with
  | some (.relPush _) => true
  | _ => false

/-- The sessions on `FreeSessionStack` after `Start`, the last one on top. -/
def free (total : UInt16) : List UInt16 := (List.range total.toNat).reverse.map UInt16.ofNat

variable {arr arr' : SessionArr} {k : UInt16} {i : ℕ} {a : Act}

theorem run_eq {l : ℕ × Act} (h : arr.run k l = some arr') :
    ∃ t, (program .netClient).step (arr k) l = some t ∧ arr' = Function.update arr k t := by
  obtain ⟨t, ht, rfl⟩ := Option.map_eq_some_iff.1 h
  exact ⟨t, ht, rfl⟩

/-- A step of a session is a step of its slot. -/
theorem run_reachable {l : ℕ × Act} (h : arr.run k l = some arr')
    (hr : ∀ k, (system .netClient k).Reachable (arr k)) (j : UInt16) :
    (system .netClient j).Reachable (arr' j) := by
  obtain ⟨t, ht, rfl⟩ := run_eq h
  rcases eq_or_ne j k with rfl | hj
  · rw [Function.update_self]
    exact (hr j).next trivial ht
  · rw [Function.update_of_ne hj]
    exact hr j

/-! ## `FreeSessionStack` -/

/-- One for the frame that pushes its session. -/
def pushes : Frame → ℕ
  | .relPush _ => 1
  | _ => 0

theorem exec_freeCnt_eq {host : Host} {s s' : Slot} {f : Frame} {new : List Frame}
    (h : exec host s f a = some (s', new)) : s'.freeCnt = s.freeCnt + pushes f := by
  revert h
  fun_cases exec host s f a <;> intro h <;> cases h <;> simp [pushes]

theorem call_freeCnt {s s' : Slot} {new : List Frame} (h : call s a = some (s', new)) :
    (a = .accept ∧ s.freeCnt = s'.freeCnt + 1) ∨ a ≠ .accept ∧ s'.freeCnt = s.freeCnt := by
  revert h
  fun_cases call s a <;> intro h <;> cases h <;> simp
  omega

/-- A session goes to the stack with the statement that pushes it, and leaves it with the call that
has popped it. -/
theorem run_freeCnt (h : arr.run k (i, a) = some arr') :
    ((arr k).calls[i]? = some [] ∧ a = .accept ∧
        (arr k).shared.freeCnt = (arr' k).shared.freeCnt + 1) ∨
      ((arr k).calls[i]? = some [] → a ≠ .accept) ∧
        (arr' k).shared.freeCnt = (arr k).shared.freeCnt + if arr.pushing k i then 1 else 0 := by
  obtain ⟨t, ht, rfl⟩ := run_eq h
  rw [Function.update_self]
  obtain ⟨st, hst, -⟩ := Option.bind_eq_some_iff.1 ht
  cases st with
  | nil =>
    obtain ⟨new, hcall, -⟩ := Program.step_idle hst ht
    have hpush : arr.pushing k i = false := by simp [pushing, Threads.top, hst]
    rcases call_freeCnt hcall with ⟨ha, hcnt⟩ | ⟨ha, hcnt⟩
    · exact .inl ⟨hst, ha, hcnt⟩
    · exact .inr ⟨fun _ => ha, by simp [hpush, hcnt]⟩
  | cons f fs =>
    obtain ⟨new, he, -⟩ := Program.step_stack hst ht
    have htop : (arr k).top i = some f := by simp [Threads.top, hst]
    have hcnt : t.shared.freeCnt = _ := exec_freeCnt_eq he
    refine .inr ⟨fun h => by simp [hst] at h, ?_⟩
    rw [hcnt, pushing, htop]
    cases f <;> rfl

/-- Every session is on the stack as often as it knows, but for those that are no part of it. -/
def Stacked (total : UInt16) (arr : SessionArr) (freeSessionStack : List UInt16) : Prop :=
  ∀ k, (arr k).shared.freeCnt = freeSessionStack.count k + if k < total then 0 else 1

variable {total : UInt16} {stack : List UInt16}

theorem toNat_ofNat {n : ℕ} (h : n < total.toNat) : (UInt16.ofNat n).toNat = n :=
  UInt16.toNat_ofNat_of_lt' (h.trans total.toNat_lt)

theorem mem_free : k ∈ free total ↔ k < total := by
  simp only [free, List.mem_map, List.mem_reverse, List.mem_range]
  constructor
  · rintro ⟨n, hn, rfl⟩
    rwa [UInt16.lt_iff_toNat_lt, toNat_ofNat hn]
  · intro h
    exact ⟨k.toNat, UInt16.lt_iff_toNat_lt.1 h, UInt16.ofNat_toNat⟩

theorem nodup_free : (free total).Nodup := by
  rw [free, List.map_reverse, List.nodup_reverse]
  refine List.Nodup.of_map UInt16.toNat ?_
  have hid : ((List.range total.toNat).map UInt16.ofNat).map UInt16.toNat =
      List.range total.toNat := by
    rw [List.map_map]
    exact (List.map_congr_left fun n hn => toNat_ofNat (List.mem_range.1 hn)).trans (List.map_id _)
  rw [hid]
  exact List.nodup_range

theorem length_free : (free total).length = total.toNat := by
  simp [free]

theorem stacked_start (m : ℕ) : Stacked total (start m) (free total) := by
  intro k
  by_cases hk : k < total
  · rw [List.count_eq_one_of_mem nodup_free (mem_free.2 hk), if_pos hk]
    rfl
  · rw [List.count_eq_zero_of_not_mem (mt mem_free.1 hk), if_neg hk]
    rfl

theorem Stacked.pop (h : Stacked total arr (k :: stack)) (hr : arr.run k (i, .accept) = some arr')
    (hi : (arr k).calls[i]? = some []) : Stacked total arr' stack := by
  intro j
  have hj := h j
  obtain ⟨t, -, rfl⟩ := run_eq hr
  rcases eq_or_ne j k with rfl | hne
  · rcases run_freeCnt hr with ⟨-, -, hcnt⟩ | ⟨ha, -⟩
    · rw [List.count_cons_self] at hj
      omega
    · exact absurd rfl (ha hi)
  · rw [List.count_cons_of_ne hne.symm] at hj
    rwa [Function.update_of_ne hne]

theorem Stacked.run (h : Stacked total arr stack) (hr : arr.run k (i, a) = some arr')
    (ha : a ≠ .accept) :
    Stacked total arr' (if arr.pushing k i then k :: stack else stack) := by
  intro j
  have hj := h j
  obtain ⟨t, -, rfl⟩ := run_eq hr
  rcases eq_or_ne j k with rfl | hne
  · rcases run_freeCnt hr with ⟨-, ha', -⟩ | ⟨-, hcnt⟩
    · exact absurd ha' ha
    · rw [hcnt]
      split <;> simp <;> omega
  · rw [Function.update_of_ne hne, hj]
    cases arr.pushing k i with
    | false => rfl
    | true => rw [if_pos rfl, List.count_cons_of_ne hne.symm]

section Custody

variable (hr : ∀ k, (system .netClient k).Reachable (arr k))
include hr

/-- A session is on the stack once at most. -/
theorem Stacked.nodup (h : Stacked total arr stack) : stack.Nodup ∧ ∀ k ∈ stack, k < total := by
  have hone : ∀ k, (arr k).shared.freeCnt ≤ 1 := fun k => by
    have := (custody (hr k)).token_le
    unfold tokens Slot.stock at this
    omega
  refine ⟨List.nodup_iff_count_le_one.2 fun k => ?_, fun k hk => ?_⟩
  · have := h k
    have := hone k
    omega
  · by_contra hge
    have hk' := h k
    have := List.count_pos_iff.2 hk
    have := hone k
    rw [if_neg hge] at hk'
    omega

theorem Stacked.length_le (h : Stacked total arr stack) : stack.length ≤ total.toNat := by
  obtain ⟨hnodup, hmem⟩ := h.nodup hr
  rw [← length_free]
  exact (List.subperm_of_subset hnodup fun k hk => mem_free.2 (hmem k hk)).length_le

/-- When as many sessions are on the stack as there are, every session is. -/
theorem Stacked.full (h : Stacked total arr stack) (hlen : stack.length = total.toNat)
    (k : UInt16) : 0 < (arr k).shared.freeCnt := by
  obtain ⟨hnodup, hmem⟩ := h.nodup hr
  have hk := h k
  by_cases hlt : k < total
  · have hperm : stack.Perm (free total) :=
      (List.subperm_of_subset hnodup fun k hk => mem_free.2 (hmem k hk)).perm_of_length_le
        (by rw [length_free, hlen])
    have := List.count_pos_iff.2 (hperm.mem_iff.2 (mem_free.2 hlt))
    omega
  · rw [if_neg hlt] at hk
    omega

end Custody

end SessionArr

end NetworkLibrary.Session
