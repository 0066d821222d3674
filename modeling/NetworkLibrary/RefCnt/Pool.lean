import NetworkLibrary.RefCnt.Counts

/-!
# Back to the pool

As long as the application keeps to its handles and no `IncrementRef` finds `RefCnt` at its largest
value, `RefCnt` is the number of the references on the packet, and a packet goes back to the pool
once for each `AllocPacket`, when there are no references on it (`refCnt_eq_references`). `RefCnt`
has 32 bits: with 2^32 handles on a packet it is 0 (`exists_refCnt_wrapped`).
-/

namespace NetworkLibrary.RefCnt

open Foundations Session

/-! ## What the application keeps to -/

/-- The packet that a running `SendPacket` has not called `IncrementRef` of yet. -/
def Stmt.lent (p : ℕ) : Stmt → ℕ
  | .sendInc _ q | .sendFlag _ q | .sendID _ q | .sendRef _ _ q => [q].count p
  | _ => 0

/-- The loans of a packet to the running `SendPacket`s. -/
def Frame.lent (p : ℕ) (f : Frame) : ℕ := f.weigh (Stmt.lent p)

/-- Every handle is freed once, `IncrementRef` and `SendPacket` are called with a handle, and the
last handle is not freed as long as a `SendPacket` of the packet may still call `IncrementRef`. -/
def UserCall.UsesHandles (t : Threads Net Frame) : UserCall → Prop
  | .killSession _ | .allocPacket _ => True
  | .sendPacket _ p | .incrementRef p => 0 < t.shared.handles p
  | .freePacket p => 0 < t.shared.handles p ∧
      (t.shared.handles p = 1 → tally (Frame.lent p) t.frames = 0)

instance (t : Threads Net Frame) : (c : UserCall) → Decidable (c.UsesHandles t)
  | .killSession _ | .allocPacket _ => .isTrue trivial
  | .sendPacket _ p | .incrementRef p => inferInstanceAs (Decidable (0 < t.shared.handles p))
  | .freePacket p => inferInstanceAs (Decidable (0 < t.shared.handles p ∧
      (t.shared.handles p = 1 → tally (Frame.lent p) t.frames = 0)))

/-- The call of the application that a label is. -/
def Act.userCall : Act → Option UserCall
  | .user c => some c
  | _ => Option.none

/-- The calls of the application are as they should be. -/
def UsesHandles (t : Threads Net Frame) (l : ℕ × Act) : Prop :=
  ∀ c ∈ l.2.userCall, c.UsesHandles t

instance (t : Threads Net Frame) (l : ℕ × Act) : Decidable (UsesHandles t l) :=
  inferInstanceAs (Decidable (∀ c ∈ l.2.userCall, c.UsesHandles t))

/-- The packet that the application calls `IncrementRef` of. -/
def Act.incRef : Act → Option ℕ
  | .user (.incrementRef p) => some p
  | _ => Option.none

/-- The packet that `SendPacket` calls `IncrementRef` of. -/
def Frame.incRef : Frame → Option ℕ
  | .session _ (.sendRef _ _ p) => some p
  | _ => none

/-- `IncrementRef` does not find `RefCnt` at 2^32 - 1; in `AllocPacket` it finds it at 0. -/
def Fits (t : Threads Net Frame) (l : ℕ × Act) : Prop :=
  (∀ f ∈ t.top l.1, ∀ p ∈ f.incRef, t.shared.refCnt p + 1 ≠ 0) ∧
    ∀ p ∈ l.2.incRef, t.shared.refCnt p + 1 ≠ 0

instance (t : Threads Net Frame) (l : ℕ × Act) : Decidable (Fits t l) :=
  inferInstanceAs (Decidable (_ ∧ _))

/-! ## The account of a packet in a run -/

/-- An `AllocPacket` or `FreePacket` of the packet between the pool and `RefCnt`. -/
def Frame.underway (p : ℕ) : Frame → ℕ
  | .allocRef q | .toPool q => [q].count p
  | _ => 0

/-- The account of a packet. -/
def account (p : ℕ) (t : Threads Net Frame) : Account where
  refCnt := t.shared.refCnt p
  references := references p t
  handles := t.shared.handles p
  lent := tally (Frame.lent p) t.frames
  pool := t.shared.pool p
  underway := tally (Frame.underway p) t.frames
  allocs := t.shared.allocs p
  frees := t.shared.frees p

section Step

variable {t u : Threads Net Frame} {l : ℕ × Act} {old new pre post : List Frame}
  {s : SessionState} {st : Stmt} {b : Session.Act} {e : Effect}

theorem lent_ofFrame (p : ℕ) (f : Session.Frame) : (Stmt.ofFrame f).lent p = 0 := by
  cases f <;> rfl

/-- A statement of a session takes a reference where it ends a loan. -/
theorem exec_lent (h : execSession s st b = some e) (p : ℕ) :
    tally (Stmt.lent p) e.next + e.incRef.toList.count p ≤ st.lent p := by
  revert h
  fun_cases execSession s st b <;> intro h
  case case1 =>
    obtain ⟨slot, new, -, rfl⟩ := runSlot_eq h
    have hzero : tally (Stmt.lent p) (new.map Stmt.ofFrame) = 0 := tally_eq_zero.2 fun st hst => by
      obtain ⟨f, -, rfl⟩ := List.mem_map.1 hst
      exact lent_ofFrame p f
    simp [hzero]
  case case2 q =>
    obtain ⟨slot, new, he, rfl⟩ := runSlot_eq h
    cases he
    simp [Stmt.ofSendPacket, Stmt.lent]
  case case3 q =>
    obtain ⟨slot, new, he, rfl⟩ := runSlot_eq h
    simp only [Session.exec] at he
    split_ifs at he <;> cases he <;> simp [Stmt.ofSendPacket, Stmt.lent]
  case case4 q =>
    obtain ⟨slot, new, he, rfl⟩ := runSlot_eq h
    simp only [Session.exec] at he
    split_ifs at he <;> cases he <;> simp [Stmt.ofSendPacket, Stmt.lent]
  all_goals cases h
  all_goals simp [Stmt.lent]

theorem exec_incRef (h : execSession s st b = some e) (k : UInt16) {p : ℕ}
    (hp : e.incRef = some p) : (Frame.session k st).incRef = some p := by
  revert h
  fun_cases execSession s st b <;> intro h
  case case1 | case2 | case3 | case4 =>
    obtain ⟨slot, new, -, rfl⟩ := runSlot_eq h
    cases hp
  all_goals cases h
  case case5.refl => exact hp
  all_goals cases hp

theorem tally_lent_apply (n : Net) (k : UInt16) (e : Effect) (p : ℕ) :
    tally (Frame.lent p) (n.apply k e).2 = tally (Stmt.lent p) e.next := by
  have hnext : tally (Frame.lent p) (e.next.map (Frame.session k)) = tally (Stmt.lent p) e.next :=
    tally_weigh (Stmt.lent p) k e.next
  rw [Net.apply, tally_append, hnext]
  cases e.freePacket <;> simp [Frame.lent, Frame.weigh]

theorem tally_underway_apply (n : Net) (k : UInt16) (e : Effect) (p : ℕ) :
    tally (Frame.underway p) (n.apply k e).2 = 0 := by
  refine tally_eq_zero.2 fun f hf => ?_
  rcases List.mem_append.1 hf with hf | hf
  · obtain ⟨q, -, rfl⟩ := Option.mem_map.1 (Option.mem_toList.1 hf)
    rfl
  · obtain ⟨st, -, rfl⟩ := List.mem_map.1 hf
    rfl

theorem apply_refCnt (n : Net) (k : UInt16) {p : ℕ} (hp : e.incRef = some p) :
    (n.apply k e).1.refCnt p = n.refCnt p + 1 := by
  simp [Net.apply, hp]

theorem apply_refCnt_ne (n : Net) (k : UInt16) {p : ℕ} (hp : e.incRef ≠ some p) :
    (n.apply k e).1.refCnt p = n.refCnt p := by
  cases hinc : e.incRef with
  | none => simp [Net.apply, hinc]
  | some q =>
    have hne : p ≠ q := fun h => hp (h ▸ hinc)
    simp [Net.apply, hinc, hne]

/-- A statement of a session. -/
theorem entry_session {j : UInt16} (he : execSession (t.shared.sessions j) st b = some e)
    (hshared : u.shared = (t.shared.apply j e).1) (ht : t.frames = pre ++ [.session j st] ++ post)
    (hu : u.frames = pre ++ (t.shared.apply j e).2 ++ post)
    (hs : Orderly (t.shared.sessions j) (stmts t j)) (hk : Kept (t.shared.sessions j) (stmts t j))
    (hfits : ∀ q ∈ e.incRef, t.shared.refCnt q + 1 ≠ 0) (p : ℕ) :
    (account p t).Entry (account p u) := by
  have hrefs := references_session he hshared ht hu hs hk p
  have hlent := Program.tally_step (w := Frame.lent p) ht hu
  have hway := Program.tally_step (w := Frame.underway p) ht hu
  have hle := exec_lent he p
  rw [tally_lent_apply] at hlent
  rw [tally_underway_apply] at hway
  have hold : tally (Frame.lent p) [Frame.session j st] = st.lent p := Nat.add_zero _
  have hstay : tally (Frame.underway p) u.frames = tally (Frame.underway p) t.frames := hway
  by_cases hp : e.incRef = some p
  · have hone : e.incRef.toList.count p = 1 := by simp [hp]
    have heq : account p u = { account p t with
        refCnt := t.shared.refCnt p + 1
        references := references p t + 1
        lent := tally (Frame.lent p) u.frames } := by
      rw [account, hstay, hrefs, hone, hshared, apply_refCnt _ _ hp]
      rfl
    rw [heq]
    refine .sendRef (hfits p hp) ?_
    show tally (Frame.lent p) u.frames + 1 ≤ tally (Frame.lent p) t.frames
    omega
  · have hnone : e.incRef.toList.count p = 0 := by
      rw [List.count_eq_zero, Option.mem_toList]
      exact hp
    have heq : account p u = { account p t with lent := tally (Frame.lent p) u.frames } := by
      rw [account, hstay, hrefs, hnone, Nat.add_zero, hshared, apply_refCnt_ne _ _ hp]
      rfl
    rw [heq]
    refine .keep ?_
    show tally (Frame.lent p) u.frames ≤ tally (Frame.lent p) t.frames
    omega

theorem count_self (p : ℕ) : [p].count p = 1 := by simp

theorem count_other {p q : ℕ} (h : q ≠ p) : [q].count p = 0 := by simp [h]

theorem account_eq {n : Net} {p r l w : ℕ} (hshared : n = u.shared) (hrefs : references p u = r)
    (hlent : tally (Frame.lent p) u.frames = l) (hway : tally (Frame.underway p) u.frames = w) :
    account p u = ⟨n.refCnt p, r, n.handles p, l, n.pool p, w, n.allocs p, n.frees p⟩ := by
  subst hshared hrefs hlent hway
  rfl

/-- A call of the application. -/
theorem entry_user {c : UserCall} (hc : userCall t.shared c = some (u.shared, new))
    (ht : t.frames = pre ++ [] ++ post) (hu : u.frames = pre ++ new ++ post) (hok : c.UsesHandles t)
    (hfits : ∀ q, c = .incrementRef q → t.shared.refCnt q + 1 ≠ 0) (p : ℕ) :
    (account p t).Entry (account p u) := by
  have hrefs := (Turn.user rfl hc).references ht hu (fun _ => rfl) p
  have hlent := Program.tally_step (w := Frame.lent p) ht hu
  have hway := Program.tally_step (w := Frame.underway p) ht hu
  simp only [tally_nil, Nat.add_zero] at hrefs hlent hway
  cases c with
  | killSession id =>
    obtain ⟨hshared, rfl⟩ := Prod.mk.inj (Option.some.inj hc)
    rw [← hshared] at hrefs
    rw [account_eq hshared (Nat.add_right_cancel hrefs) hlent hway]
    exact .keep le_rfl
  | sendPacket id q =>
    obtain ⟨hshared, rfl⟩ := Prod.mk.inj (Option.some.inj hc)
    rw [← hshared] at hrefs
    rw [account_eq hshared (Nat.add_right_cancel hrefs) hlent hway]
    by_cases hq : q = p
    · subst hq
      simp only [tally_cons, Frame.lent, Frame.weigh, Stmt.lent, count_self]
      exact .lend hok
    · simp only [tally_cons, Frame.lent, Frame.weigh, Stmt.lent, count_other hq]
      exact .keep le_rfl
  | allocPacket q =>
    obtain ⟨hpos, hc⟩ := Option.ite_none_right_eq_some.1 hc
    obtain ⟨hshared, rfl⟩ := Prod.mk.inj (Option.some.inj hc)
    rw [← hshared] at hrefs
    rw [account_eq hshared (Nat.add_right_cancel hrefs) hlent hway]
    by_cases hq : q = p
    · subst hq
      simp only [Function.update_self, tally_cons, Frame.underway, count_self]
      exact .handOut hpos
    · simp only [Function.update_of_ne (Ne.symm hq), tally_cons, Frame.underway, count_other hq]
      exact .keep le_rfl
  | incrementRef q =>
    obtain ⟨hshared, rfl⟩ := Prod.mk.inj (Option.some.inj hc)
    rw [← hshared] at hrefs
    by_cases hq : q = p
    · subst hq
      simp only [Function.update_self, tally_nil] at hrefs
      have hone : references q u = references q t + 1 := by omega
      rw [account_eq hshared hone hlent hway]
      simp only [Function.update_self]
      exact .incRef (hfits q rfl) hok
    · simp only [Function.update_of_ne (Ne.symm hq), tally_nil] at hrefs
      rw [account_eq hshared (Nat.add_right_cancel hrefs) hlent hway]
      simp only [Function.update_of_ne (Ne.symm hq)]
      exact .keep le_rfl
  | freePacket q =>
    obtain ⟨hshared, rfl⟩ := Prod.mk.inj (Option.some.inj hc)
    rw [← hshared] at hrefs
    by_cases hq : q = p
    · subst hq
      have hpos := hok.1
      simp only [Function.update_self, tally_cons, tally_nil, Frame.dropped, count_self] at hrefs
      have hsame : references q u = references q t := by omega
      rw [account_eq hshared hsame hlent hway]
      simp only [Function.update_self]
      exact .giveUp hok.1 hok.2
    · simp only [Function.update_of_ne (Ne.symm hq), tally_cons, tally_nil, Frame.dropped,
        count_other hq] at hrefs
      rw [account_eq hshared (Nat.add_right_cancel hrefs) hlent hway]
      simp only [Function.update_of_ne (Ne.symm hq)]
      exact .keep le_rfl

/-- A statement of `AllocPacket` or `FreePacket`. -/
theorem entry_packet {f : Frame} {a : Act} (hf : f.target = none)
    (he : exec t.shared f a = some (u.shared, new)) (ht : t.frames = pre ++ [f] ++ post)
    (hu : u.frames = pre ++ new ++ post) (p : ℕ) : (account p t).Entry (account p u) := by
  have hstmt : ∀ k, [f].filterMap (Frame.stmt k) = [] := fun k => by
    rw [List.filterMap_cons, (exec_packet hf he k).2.1, List.filterMap_nil]
  have hrefs := (Turn.packet hf he).references ht hu hstmt p
  have hlent := Program.tally_step (w := Frame.lent p) ht hu
  have hway := Program.tally_step (w := Frame.underway p) ht hu
  cases f with
  | session k st => cases hf
  | allocRef q =>
    obtain ⟨hshared, rfl⟩ := Prod.mk.inj (Option.some.inj he)
    rw [← hshared] at hrefs
    by_cases hq : q = p
    · subst hq
      simp only [Function.update_self, tally_nil, tally_cons, Frame.dropped, Nat.add_zero] at hrefs
      simp only [tally_cons, tally_nil, Frame.underway, count_self] at hway
      have hone : references q u = references q t + 1 := by omega
      have hback : tally (Frame.underway q) u.frames = tally (Frame.underway q) t.frames - 1 := by
        omega
      rw [account_eq hshared hone hlent hback]
      simp only [Function.update_self]
      refine .allocRef ?_
      show 0 < tally (Frame.underway q) t.frames
      omega
    · simp only [Function.update_of_ne (Ne.symm hq), tally_cons, tally_nil, Frame.dropped] at hrefs
      simp only [tally_cons, tally_nil, Frame.underway, count_other hq] at hway
      rw [account_eq hshared (Nat.add_right_cancel hrefs) hlent hway]
      simp only [Function.update_of_ne (Ne.symm hq)]
      exact .keep le_rfl
  | decRef q =>
    obtain ⟨hshared, hnew⟩ := Prod.mk.inj (Option.some.inj he)
    have hnew₁ : tally (Frame.dropped p) new = 0 ∧ tally (Frame.lent p) new = 0 := by
      rw [← hnew]
      split <;> exact ⟨rfl, rfl⟩
    have hnew₂ : tally (Frame.underway p) new =
        if t.shared.refCnt q - 1 = 0 then [q].count p else 0 := by
      rw [← hnew, ite_not]
      split <;> rfl
    rw [← hshared, hnew₁.1] at hrefs
    simp only [hnew₁.2, tally_cons, tally_nil, Frame.lent, Frame.weigh, Nat.add_zero] at hlent
    simp only [hnew₂, tally_cons, tally_nil, Frame.underway, Nat.add_zero] at hway
    simp only [tally_cons, tally_nil, Frame.dropped, Nat.add_zero] at hrefs
    by_cases hq : q = p
    · subst hq
      have hle : t.shared.handles q ≤ references q u := by
        have hhandles : u.shared.handles q = t.shared.handles q := by rw [← hshared]
        rw [references_eq, hhandles]
        omega
      rw [count_self] at hrefs hway
      have hone : references q u = references q t - 1 := by omega
      rw [account_eq hshared hone hlent hway]
      simp only [Function.update_self]
      refine .decRef ?_
      show t.shared.handles q < references q t
      omega
    · rw [count_other hq] at hrefs hway
      rw [ite_self] at hway
      rw [account_eq hshared (Nat.add_right_cancel hrefs) hlent hway]
      simp only [Function.update_of_ne (Ne.symm hq)]
      exact .keep le_rfl
  | toPool q =>
    obtain ⟨hshared, rfl⟩ := Prod.mk.inj (Option.some.inj he)
    rw [← hshared] at hrefs
    by_cases hq : q = p
    · subst hq
      simp only [tally_cons, tally_nil, Frame.underway, count_self] at hway
      have hback : tally (Frame.underway q) u.frames = tally (Frame.underway q) t.frames - 1 := by
        omega
      rw [account_eq hshared (Nat.add_right_cancel hrefs) hlent hback]
      simp only [Function.update_self]
      refine .toPool ?_
      show 0 < tally (Frame.underway q) t.frames
      omega
    · simp only [tally_cons, tally_nil, Frame.underway, count_other hq] at hway
      rw [account_eq hshared (Nat.add_right_cancel hrefs) hlent hway]
      simp only [Function.update_of_ne (Ne.symm hq)]
      exact .keep le_rfl

/-- A function of a session starts. -/
theorem entry_call {j : UInt16} {slot : Slot} {frames : List Session.Frame}
    (hc : Session.call (t.shared.sessions j).slot b = some (slot, frames))
    (hshared : u.shared = { t.shared with
      sessions := Function.update t.shared.sessions j { t.shared.sessions j with slot := slot } })
    (ht : t.frames = pre ++ [] ++ post)
    (hu : u.frames = pre ++ (frames.map Stmt.ofFrame).map (.session j) ++ post) (p : ℕ) :
    (account p t).Entry (account p u) := by
  have hturn : Turn t.shared .next [] u.shared ((frames.map Stmt.ofFrame).map (.session j)) :=
    hshared.symm ▸ .call hc
  have hzero : ∀ w : Frame → ℕ, (∀ f, w (.session j (.ofFrame f)) = 0) →
      tally w ((frames.map Stmt.ofFrame).map (.session j)) = 0 := fun w hw =>
    tally_eq_zero.2 fun f hf => by
      rw [List.map_map] at hf
      obtain ⟨f', -, rfl⟩ := List.mem_map.1 hf
      exact hw f'
  have hrefs := hturn.references ht hu (fun _ => rfl) p
  have hlent := Program.tally_step (w := Frame.lent p) ht hu
  have hway := Program.tally_step (w := Frame.underway p) ht hu
  rw [hzero _ fun f => lent_ofFrame p f] at hlent
  rw [hzero _ fun f => rfl] at hway
  rw [hzero _ fun f => rfl, hshared] at hrefs
  rw [account_eq hshared.symm (Nat.add_right_cancel hrefs) hlent hway]
  exact .keep le_rfl

/-- **What a step does to a packet.** -/
theorem step_entry (h : program.step t l = some u)
    (hs : ∀ k, Orderly (t.shared.sessions k) (stmts t k))
    (hk : ∀ k, Kept (t.shared.sessions k) (stmts t k)) (hok : UsesHandles t l) (hfits : Fits t l)
    (p : ℕ) : (account p t).Entry (account p u) := by
  obtain ⟨pre, old, new, post, ht, hu, hturn, htop⟩ := step_turn h
  generalize hn : u.shared = n at hturn
  cases hturn with
  | user ha hc =>
    refine entry_user (hn ▸ hc) ht hu (hok _ (by rw [ha]; rfl)) (fun q hq => ?_) p
    exact hfits.2 q (by rw [ha, hq]; rfl)
  | call hc => exact entry_call hc hn ht hu p
  | session he =>
    refine entry_session he hn ht hu (hs _) (hk _) (fun q hq => ?_) p
    exact hfits.1 _ (htop _ rfl) q (exec_incRef he _ hq)
  | packet hf he => exact entry_packet hf (hn ▸ he) ht hu p

end Step

/-! ## Runs -/

variable {sendBuffer : UInt16 → ℕ → ℕ} {t : Threads Net Frame}

theorem balanced_start (n p : ℕ) :
    (account p (Threads.idle (start sendBuffer) n)).Balanced := by
  have hzero : references p (Threads.idle (start sendBuffer) n) = 0 := by
    simp [references, start, SessionState.kept, SessionState.buffer]
  refine ⟨?_, ?_, rfl, Nat.zero_le _, fun h => ?_⟩
  · exact hzero.symm
  · show 1 + tally (Frame.underway p) (Threads.idle (start sendBuffer) n).frames +
      (if references p (Threads.idle (start sendBuffer) n) = 0 then 0 else 1) = 1
    rw [if_pos hzero, Threads.frames_idle, tally_nil]
  · simp [account] at h

/-- **The books of every packet are balanced.** -/
theorem balanced (h : (system sendBuffer).ReachableVia (fun t l => UsesHandles t l ∧ Fits t l) t)
    (p : ℕ) : (account p t).Balanced := by
  refine h.invariant₂ (J := fun t => ∀ k, Orderly (t.shared.sessions k) (stmts t k) ∧
    Kept (t.shared.sessions k) (stmts t k)) (I := fun t => (account p t).Balanced)
    (fun h k => ⟨orderly h k, kept h k⟩) ?_ ?_
  · rintro _ ⟨n, rfl⟩
    exact balanced_start n p
  · intro t l u hJ _ ih hok hst
    exact ih.entry (step_entry hst (fun k => (hJ k).1) (fun k => (hJ k).2) hok.1 hok.2 p)

/-- **`RefCnt` is the number of the references on a packet.** The pool gets the packet back once for
each `AllocPacket`, when there are no references on it, so that it is in no `SendQ` and not being
sent. -/
theorem refCnt_eq_references
    (h : (system sendBuffer).ReachableVia (fun t l => UsesHandles t l ∧ Fits t l) t) (p : ℕ) :
    (t.shared.refCnt p).toNat = references p t ∧
      t.shared.allocs p + t.shared.pool p = t.shared.frees p + 1 ∧
      t.shared.pool p + tally (Frame.underway p) t.frames = (if references p t = 0 then 1 else 0) ∧
      (0 < t.shared.pool p ∨ .toPool p ∈ t.frames → t.shared.handles p = 0 ∧
        ∀ k, p ∉ (t.shared.sessions k).sendQ ∧
          p ∉ (t.shared.sessions k).kept (stmts t k)) := by
  obtain ⟨hcount, hplace, hbalance, -, -⟩ := balanced h p
  have hpool : t.shared.pool p + tally (Frame.underway p) t.frames =
      if references p t = 0 then 1 else 0 := by
    have hsum : t.shared.pool p + tally (Frame.underway p) t.frames +
      (if references p t = 0 then 0 else 1) = 1 := hplace
    split_ifs at hsum ⊢ <;> omega
  refine ⟨hcount, hbalance, hpool, fun hback => ?_⟩
  have hzero : references p t = 0 := by
    by_contra hne
    rw [if_neg hne] at hpool
    rcases hback with hback | hback
    · omega
    · have := le_tally_of_mem (w := Frame.underway p) hback
      simp only [Frame.underway, count_self] at this
      omega
  simp only [references, Nat.add_eq_zero_iff, Finset.sum_eq_zero_iff, Finset.mem_univ, true_imp_iff,
    List.count_eq_zero] at hzero
  exact ⟨hzero.1.1.1, fun k => ⟨hzero.1.2 k, hzero.2 k⟩⟩

/-- The application sends a packet in `OnClientJoin` and frees its handle; the notification is
worked off by another thread, and the packet is being sent. -/
def sending : List (ℕ × Act) :=
  [(0, .user (.allocPacket 0)), (0, .next), (0, .accept 0), (0, .next), (0, .draw 1)] ++
    List.replicate 8 (0, .next) ++ [(0, .user (.sendPacket 1 0))] ++ List.replicate 7 (0, .next) ++
      [(0, .user (.freePacket 0)), (0, .next), (1, .note 0 0)] ++ List.replicate 7 (1, .next) ++
        [(1, .posted)]

theorem refCnt_eq_references_sending : ∃ t, (system fun _ _ => 0).ReachableVia
    (fun t l => UsesHandles t l ∧ Fits t l) t ∧ (t.shared.sessions 0).slot.sends.length = 1 ∧
      (t.shared.sessions 0).buffer = [0] ∧ t.shared.handles 0 = 0 ∧ t.shared.refCnt 0 = 1 ∧
        references 0 t = 1 ∧ t.shared.pool 0 = 0 := by
  obtain ⟨t, ht, hp⟩ := Lts.exists_reachableVia_of_run (M := system fun _ _ => 0)
    (c := fun t l => decide (UsesHandles t l ∧ Fits t l)) (fun _ _ => of_decide_eq_true) ⟨2, rfl⟩
    sending (p := fun t => decide ((t.shared.sessions 0).slot.sends.length = 1 ∧
      (t.shared.sessions 0).buffer = [0] ∧ t.shared.handles 0 = 0 ∧ t.shared.refCnt 0 = 1))
    (by decide +kernel)
  obtain ⟨h₁, h₂, h₃, h₄⟩ := of_decide_eq_true hp
  obtain ⟨hcount, -, hpool, -⟩ := refCnt_eq_references ht 0
  have hone : references 0 t = 1 := by rw [← hcount, h₄]; rfl
  rw [if_neg (by omega)] at hpool
  exact ⟨t, ht, h₁, h₂, h₃, h₄, hone, by omega⟩

/-- The application calls `AllocPacket` and then `IncrementRef` any number of times. -/
theorem exists_incremented (n : ℕ) : ∃ t, (system fun _ _ => 0).ReachableVia UsesHandles t ∧
    t.calls = [[]] ∧ t.shared.refCnt 0 = UInt32.ofNat (n + 1) ∧ t.shared.handles 0 = n + 1 := by
  induction n with
  | zero =>
    obtain ⟨t, ht, hp⟩ := Lts.exists_reachableVia_of_run (M := system fun _ _ => 0)
      (c := fun t l => decide (UsesHandles t l)) (fun _ _ => of_decide_eq_true) ⟨1, rfl⟩
      [(0, .user (.allocPacket 0)), (0, .next)]
      (p := fun t => decide (t.calls = [[]] ∧ t.shared.refCnt 0 = 1 ∧ t.shared.handles 0 = 1))
      (by decide +kernel)
    exact ⟨t, ht, of_decide_eq_true hp⟩
  | succ n ih =>
    obtain ⟨t, ht, hcalls, hcnt, hhandles⟩ := ih
    have hok : UsesHandles t (0, .user (.incrementRef 0)) := by
      intro c hc
      obtain rfl := Option.some.inj hc
      show 0 < t.shared.handles 0
      omega
    obtain ⟨u, hu, hcalls', hcnt', hhandles'⟩ : ∃ u, program.step t (0, .user (.incrementRef 0)) =
        some u ∧ u.calls = [[]] ∧ u.shared.refCnt 0 = t.shared.refCnt 0 + 1 ∧
          u.shared.handles 0 = t.shared.handles 0 + 1 := by
      refine ⟨_, by rw [Program.step, hcalls]; rfl, rfl, ?_, ?_⟩
      · exact Function.update_self 0 _ t.shared.refCnt
      · exact Function.update_self 0 _ t.shared.handles
    refine ⟨u, ht.next hok hu, hcalls', ?_, by rw [hhandles', hhandles]⟩
    rw [hcnt', hcnt, UInt32.ofNat_add (n + 1) 1]
    rfl

/-- With 2^32 handles on a packet `RefCnt` is 0. -/
theorem exists_refCnt_wrapped :
    ¬∀ t, (system fun _ _ => 0).ReachableVia UsesHandles t →
      ∀ p, (t.shared.refCnt p).toNat = references p t := by
  intro hall
  obtain ⟨t, ht, -, hcnt, hhandles⟩ := exists_incremented (2 ^ 32 - 1)
  have heq := hall t ht 0
  have hle : t.shared.handles 0 ≤ references 0 t := by
    rw [references_eq]
    omega
  have hlt := (t.shared.refCnt 0).toNat_lt
  omega

end NetworkLibrary.RefCnt
