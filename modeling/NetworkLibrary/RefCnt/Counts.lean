import NetworkLibrary.RefCnt.Account
import NetworkLibrary.RefCnt.Ledger
import Mathlib.Algebra.BigOperators.Group.Finset.Piecewise
import Mathlib.Data.FinEnum

/-!
# What `RefCnt` counts

`references` are the references on a packet: the handles of the application, those that running
functions have in hand, and the occurrences of the packet in `SendQ` and `SendBuffer` of all
sessions. A step changes their number where it calls `IncrementRef` or `FreePacket`
(`references_session`).
-/

namespace NetworkLibrary.RefCnt

open Foundations Session

variable {s s' : SessionState} {st : Stmt} {b : Session.Act} {e : Effect}
  {pre post old new : List Stmt}

/-! ## Sums over the sessions -/

/-- A sum one of whose terms changes. -/
theorem sum_change {ι : Type*} [Fintype ι] [DecidableEq ι] {v w : ι → ℕ} (j : ι)
    (h : ∀ k, k ≠ j → w k = v k) : ∑ k, w k + v j = ∑ k, v k + w j := by
  have hrest : ∑ k ∈ Finset.univ.erase j, w k = ∑ k ∈ Finset.univ.erase j, v k :=
    Finset.sum_congr rfl fun k hk => h k (Finset.ne_of_mem_erase hk)
  rw [← Finset.add_sum_erase _ w (Finset.mem_univ j),
    ← Finset.add_sum_erase _ v (Finset.mem_univ j), hrest]
  omega

/-- A weight of the functions that run on sessions. -/
def Frame.weigh (w : Stmt → ℕ) : Frame → ℕ
  | .session _ st => w st
  | _ => 0

theorem tally_weigh (w : Stmt → ℕ) (k : UInt16) (sts : List Stmt) :
    tally (Frame.weigh w) (sts.map (.session k)) = tally w sts := by
  simp [tally, Function.comp_def, Frame.weigh]

theorem sum_stmts (w : Stmt → ℕ) (fs : List Frame) :
    ∑ k, tally w (fs.filterMap (Frame.stmt k)) = tally (Frame.weigh w) fs := by
  induction fs with
  | nil => simp
  | cons f fs ih =>
    cases f with
    | session j st =>
      have hterm : ∀ k, tally w ((Frame.session j st :: fs).filterMap (Frame.stmt k)) =
          (if j = k then w st else 0) + tally w (fs.filterMap (Frame.stmt k)) := by
        intro k
        by_cases hj : j = k
        · simp [Frame.stmt, hj]
        · simp [Frame.stmt, hj]
      rw [Finset.sum_congr rfl fun k _ => hterm k, Finset.sum_add_distrib, ih, Finset.sum_ite_eq,
        if_pos (Finset.mem_univ j), tally_cons, Frame.weigh]
    | _ => exact ih.trans (Nat.zero_add _).symm

/-! ## References -/

/-- A call of `FreePacket` has the reference that it drops. -/
def Frame.dropped (p : ℕ) : Frame → ℕ
  | .decRef q => [q].count p
  | _ => 0

/-- The references on a packet that a running function has in hand. -/
def Frame.held (p : ℕ) (f : Frame) : ℕ := f.dropped p + f.weigh (Stmt.held p)

/-- The references on a packet: the handles of the application, those that running functions have in
hand, and the occurrences of the packet in `SendQ` and in `SendBuffer[0..SendPacketCnt)` of all
sessions, without those that the loop of a send completion or of `ReleaseSession` has given up. -/
def references (p : ℕ) (t : Threads Net Frame) : ℕ :=
  t.shared.handles p + tally (Frame.held p) t.frames +
    ∑ k, (t.shared.sessions k).sendQ.count p +
      ∑ k, ((t.shared.sessions k).kept (stmts t k)).count p

theorem references_eq (p : ℕ) (t : Threads Net Frame) :
    references p t = t.shared.handles p + tally (Frame.dropped p) t.frames +
      ∑ k, occurrences p (t.shared.sessions k) (stmts t k) := by
  have hheld : tally (Frame.held p) t.frames = tally (Frame.dropped p) t.frames +
      ∑ k, tally (Stmt.held p) (stmts t k) := by
    simp only [stmts]
    rw [sum_stmts, ← tally_add]
    rfl
  simp only [occurrences, references, Finset.sum_add_distrib, hheld]
  omega

/-- Where no statement of the session is executed, its references stay. -/
theorem Local.occurrences (h : Local s [] s' new) (p : ℕ) :
    occurrences p s' (pre ++ new ++ post) = occurrences p s (pre ++ post) := by
  cases h with
  | stay => rw [List.append_nil]
  | kill id => simp [RefCnt.occurrences, SessionState.kept, Stmt.freed, Stmt.held]
  | send id q => simp [RefCnt.occurrences, SessionState.kept, Stmt.freed, Stmt.held]
  | @call _ _ fs _ =>
    have hfreed : tally Stmt.freed (fs.map Stmt.ofFrame) = 0 := tally_eq_zero.2 fun st hst => by
      obtain ⟨f, -, rfl⟩ := List.mem_map.1 hst
      exact freed_ofFrame f
    have hheld : tally (Stmt.held p) (fs.map Stmt.ofFrame) = 0 := tally_eq_zero.2 fun st hst => by
      obtain ⟨f, -, rfl⟩ := List.mem_map.1 hst
      exact held_ofFrame p f
    simp [RefCnt.occurrences, SessionState.kept, SessionState.buffer, hfreed, hheld]

section Step

variable {t u : Threads Net Frame} {a : Act} {old new pre post : List Frame}

theorem stmts_append (ht : t.frames = pre ++ old ++ post) (k : UInt16) :
    stmts t k = pre.filterMap (Frame.stmt k) ++ old.filterMap (Frame.stmt k) ++
      post.filterMap (Frame.stmt k) := by
  rw [stmts, ht, List.filterMap_append, List.filterMap_append]

/-- A session none of whose statements is executed. -/
theorem Turn.occurrences (h : Turn t.shared a old u.shared new) (ht : t.frames = pre ++ old ++ post)
    (hu : u.frames = pre ++ new ++ post) {k : UInt16} (hold : old.filterMap (Frame.stmt k) = [])
    (p : ℕ) : occurrences p (u.shared.sessions k) (stmts u k) =
      occurrences p (t.shared.sessions k) (stmts t k) := by
  have hl := h.local k
  rw [hold] at hl
  rw [stmts_append ht, stmts_append hu, hold, List.append_nil]
  exact hl.occurrences p

/-- The references that a step adds, where it executes no statement of a session. -/
theorem Turn.references (h : Turn t.shared a old u.shared new) (ht : t.frames = pre ++ old ++ post)
    (hu : u.frames = pre ++ new ++ post) (hold : ∀ k, old.filterMap (Frame.stmt k) = []) (p : ℕ) :
    references p u + (t.shared.handles p + tally (Frame.dropped p) old) =
      references p t + (u.shared.handles p + tally (Frame.dropped p) new) := by
  have hsum : ∑ k, RefCnt.occurrences p (u.shared.sessions k) (stmts u k) =
      ∑ k, RefCnt.occurrences p (t.shared.sessions k) (stmts t k) :=
    Finset.sum_congr rfl fun k _ => h.occurrences ht hu (hold k) p
  have hframes := Program.tally_step (w := Frame.dropped p) ht hu
  rw [references_eq, references_eq, hsum]
  omega

theorem tally_dropped_apply (n : Net) (k : UInt16) (e : Effect) (p : ℕ) :
    tally (Frame.dropped p) (n.apply k e).2 = e.freePacket.toList.count p := by
  have hnext : tally (Frame.dropped p) (e.next.map (Frame.session k)) = 0 :=
    tally_eq_zero.2 fun f hf => by
      obtain ⟨st, -, rfl⟩ := List.mem_map.1 hf
      rfl
  rw [Net.apply, tally_append, hnext]
  cases e.freePacket <;> rfl

/-- The references that a statement of a session adds. -/
theorem references_session {j : UInt16} (he : execSession (t.shared.sessions j) st b = some e)
    (hshared : u.shared = (t.shared.apply j e).1) (ht : t.frames = pre ++ [.session j st] ++ post)
    (hu : u.frames = pre ++ (t.shared.apply j e).2 ++ post)
    (hs : Orderly (t.shared.sessions j) (stmts t j)) (hk : Kept (t.shared.sessions j) (stmts t j))
    (p : ℕ) : references p u = references p t + e.incRef.toList.count p := by
  have hturn : Turn t.shared .next [.session j st] u.shared (t.shared.apply j e).2 :=
    hshared ▸ .session he
  have hother : ∀ k, k ≠ j → occurrences p (u.shared.sessions k) (stmts u k) =
      occurrences p (t.shared.sessions k) (stmts t k) := fun k hne =>
    hturn.occurrences ht hu (by simp [stmt_session_ne hne.symm]) p
  have hself : occurrences p (u.shared.sessions j) (stmts u j) + e.freePacket.toList.count p =
      occurrences p (t.shared.sessions j) (stmts t j) + e.incRef.toList.count p := by
    have hsplit := stmts_append ht j
    rw [List.filterMap_cons, stmt_session] at hsplit
    rw [hsplit] at hs hk ⊢
    rw [stmts_append hu, hshared, apply_sessions, filterMap_apply, Function.update_self]
    exact exec_occurrences hs hk he p
  have hsum := sum_change j hother
  have hframes := Program.tally_step (w := Frame.dropped p) ht hu
  rw [tally_dropped_apply] at hframes
  have hold : tally (Frame.dropped p) [Frame.session j st] = 0 := rfl
  have hhandles : u.shared.handles p = t.shared.handles p := by rw [hshared, Net.apply]
  rw [references_eq, references_eq, hhandles]
  omega

end Step

end NetworkLibrary.RefCnt
