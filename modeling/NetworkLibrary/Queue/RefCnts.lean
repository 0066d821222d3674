import NetworkLibrary.Queue.Fifo

/-!
# What `RefCnt` and `DeleteFlag` give

A node has one reference from its `Enqueue`, which the chain takes over and the `Dequeue` that moves
`Head` drops, and one for each `Enqueue` that has read it as `OldTail`: `RefCnt` counts them
(`refCnt_eq`). Whoever drops the last one may free the node if it then takes the `DeleteFlag`. In
between, the node may get references again; if it has none when the flag is taken, nobody relies on
it, and nobody comes to rely on it any more, since a node that is not on the chain never passes the
test of `Enqueue`. So the runs in which the flag is only taken from nodes without references are
runs in which no node is freed that an `Enqueue` relies on (`guarded_of_counted`).
-/

namespace NetworkLibrary.LockFreeQueue

open Foundations

variable {T : Type*} {w : View} {q q' : Queue T} {f g : Frame T} {a : Act T}
  {new fs pre post : List (Frame T)} {n : ℕ}

/-! ## The references -/

/-- The new node of an `Enqueue`, from its `IncrementRef` on. -/
def Frame.holdsNew : Frame T → Option ℕ
  | .tagNew _ x | .readTail _ x | .incOld _ x _ | .readTailAgain _ x _ => some x.index
  | .readNext _ x _ _ | .testTail _ x _ _ | .casNext _ x _ | .help _ x _ _ => some x.index
  | _ => none

/-- The node that a call drops a reference of when it is done with it. -/
def Frame.holdsOld : Frame T → Option ℕ
  | .readTailAgain _ _ x | .readNext _ _ x _ | .testTail _ _ x _ | .casNext _ _ x => some x.index
  | .help _ _ x _ | .casTail _ x => some x.index
  | .decRef n | .setFlag n => some n
  | _ => none

/-- The references that a frame has on a node. -/
def Frame.holds (n : ℕ) (f : Frame T) : ℕ :=
  (if f.holdsNew = some n then 1 else 0) + if f.holdsOld = some n then 1 else 0

theorem holds_pos_of_relies {x : Tagged} (h : f.relies = some x) : 0 < f.holds x.index := by
  cases f <;> simp_all [Frame.relies, Frame.holds, Frame.holdsOld]

/-- The references on a node and the places that it may be at without one add up: a node that was
handed out is in the pool, or an `Enqueue` is building it, or it is marked or being freed, or it is
on the chain, which has a reference. -/
def Booked (q : Queue T) (fs : List (Frame T)) (n : ℕ) : Prop :=
  q.refCnt n + q.pool.count n + tally (Frame.builds n) fs + tally (Frame.releases n) fs +
      (if q.deleteFlag n = true then 1 else 0) =
    tally (Frame.holds n) fs + if 0 < n ∧ n < q.fresh then 1 else 0

attribute [local simp] Frame.newNode Frame.releasing Frame.builds Frame.releases Frame.holds
  Frame.holdsNew Frame.holdsOld

/-- **A statement keeps the books.** -/
theorem exec_booked (h : exec q f a = some (q', new)) (hfresh : 0 < q.fresh)
    (hflag : ∀ n, f = .setFlag n → q.deleteFlag n = false) (n : ℕ) :
    q'.refCnt n + q'.pool.count n + tally (Frame.builds n) new + tally (Frame.releases n) new +
        (if q'.deleteFlag n = true then 1 else 0) +
        (f.holds n + if 0 < n ∧ n < q.fresh then 1 else 0) =
      q.refCnt n + q.pool.count n + f.builds n + f.releases n +
        (if q.deleteFlag n = true then 1 else 0) +
        (tally (Frame.holds n) new + if 0 < n ∧ n < q'.fresh then 1 else 0) := by
  rcases exec_cases h with h | ⟨rfl, rfl⟩
  · revert h
    fun_cases stmt q f a <;> intro h <;> cases h
    all_goals simp [Function.update_apply]
    all_goals grind
  · simp

/-- A call starts with nothing in its hands. -/
theorem call_booked (h : call q a = some (q', new)) (n : ℕ) :
    q'.refCnt n = q.refCnt n ∧ q'.pool = q.pool ∧ q'.deleteFlag = q.deleteFlag ∧
      q'.fresh = q.fresh ∧ tally (Frame.builds n) new = 0 ∧ tally (Frame.releases n) new = 0 ∧
        tally (Frame.holds n) new = 0 := by
  revert h
  fun_cases call q a <;> intro h <;> cases h <;> simp

/-! ## Runs -/

variable {t : Threads (Queue T) (Frame T)}

/-- A node that a `Dequeue` is about to mark has not been marked. -/
theorem Inv.deleteFlag_eq (h : Inv w q fs) (hf : .setFlag n ∈ fs) : q.deleteFlag n = false := by
  have hle := h.count_le n
  have hretired := h.retired n
  have hone := le_tally_of_mem (w := Frame.releases n) hf
  by_contra hne
  rw [if_pos (Bool.not_eq_false _ ▸ hne)] at hretired
  simp only [Frame.releases, Frame.releasing, if_true] at hone
  omega

/-- **The books of every node are kept.** -/
theorem booked [Inhabited T] (h : (system T).ReachableVia (Program.Steps Guarded) t)
    (hcnt : t.shared.tagCnt < 2 ^ 16) (n : ℕ) : Booked t.shared t.frames n := by
  refine h.invariant₂ (J := fun t => (system T).ReachableVia (Program.Steps Guarded) t)
    (I := fun t => t.shared.tagCnt < 2 ^ 16 → Booked t.shared t.frames n) id ?_ ?_ hcnt
  · rintro _ ⟨k, rfl⟩ -
    simp only [Booked, initQueue, Threads.frames_idle, tally_nil, Threads.shared_idle,
      Function.update_apply]
    grind
  · intro s l t hs _ ih _ hst hcnt
    have hcnt' := (step_tagCnt hst).trans_lt hcnt
    obtain ⟨w, hw⟩ := exists_inv hs hcnt'
    have hbooked := ih hcnt'
    obtain ⟨pre, old, new, post, hfs, hft, hf, -⟩ := Program.step_frames hst
    have hb := Program.tally_step (w := Frame.builds n) hfs hft
    have hr := Program.tally_step (w := Frame.releases n) hfs hft
    have hh := Program.tally_step (w := Frame.holds n) hfs hft
    unfold Booked at hbooked ⊢
    cases hf with
    | call hc =>
      obtain ⟨h₁, h₂, h₃, h₄, h₅, h₆, h₇⟩ := call_booked hc n
      simp only [tally_nil] at hb hr hh
      rw [h₁, h₂, h₃, h₄]
      omega
    | exec he =>
      rename_i f
      have hstep := exec_booked he hw.fresh_pos (fun m hm => hw.deleteFlag_eq (by
        rw [← hm, hfs]
        simp)) n
      simp only [tally_cons, tally_nil] at hb hr hh
      omega

/-- **`RefCnt` counts the references**: those that the running calls have, and one for a node that
is on the chain. -/
theorem refCnt_eq [Inhabited T] (h : (system T).ReachableVia (Program.Steps Guarded) t)
    (hcnt : t.shared.tagCnt < 2 ^ 16) :
    ∃ l, Links 0 t.shared.link t.shared.head.index l ∧
      ∀ n, t.shared.refCnt n = tally (Frame.holds n) t.frames + l.count n := by
  obtain ⟨w, hw⟩ := exists_inv h hcnt
  refine ⟨w.chain t.shared, hw.chain, fun n => ?_⟩
  have hbooked := booked h hcnt n
  have howned := hw.owned n
  have hretired := hw.retired n
  unfold Booked at hbooked
  split_ifs at hbooked howned hretired <;> omega

/-! ## The flag of a node without references -/

/-- Who takes the `DeleteFlag` of a node takes it from a node without references. -/
def takesUnheld (t : Threads (Queue T) (Frame T)) : Frame T → Bool
  | .takeFlag n => t.shared.deleteFlag n = false ∨ t.shared.refCnt n = 0
  | _ => true

/-- The steps on which the queue depends, if its nodes are freed for their `RefCnt`. -/
def Counted (t : Threads (Queue T) (Frame T)) (f : Frame T) (_ : Act T) : Prop :=
  helpsAlong t f = true ∧ takesUnheld t f = true

/-- No `Enqueue` relies on a node that is about to be freed. -/
def Unheld (fs : List (Frame T)) : Prop :=
  ∀ n, .freeNode n ∈ fs → ∀ f ∈ fs, ∀ x, f.relies = some x → x.index ≠ n

/-- An `Enqueue` comes to rely on the node of `Tail` only. -/
theorem exec_relies (h : exec q f a = some (q', new)) (hg : g ∈ new) {x : Tagged}
    (hx : g.relies = some x) : f.relies = some x ∨ x = q.tail := by
  revert hg hx
  rcases exec_cases h with h | ⟨rfl, rfl⟩
  · revert h
    fun_cases stmt q f a <;> intro h <;> cases h <;> simp [Frame.relies] <;> grind
  · rintro hg hx
    exact .inl (List.mem_singleton.1 hg ▸ hx)

/-- A node is about to be freed once its flag has been taken. -/
theorem exec_freeNode (h : exec q f a = some (q', new)) (hn : .freeNode n ∈ new) :
    f = .takeFlag n ∧ q.deleteFlag n = true := by
  rcases exec_cases h with h | ⟨rfl, rfl⟩
  · revert h hn
    fun_cases stmt q f a <;> intro hn h <;> cases h <;> simp_all
  · obtain rfl := List.mem_singleton.1 hn
    simp [exec, Frame.deref, stmt] at h

theorem call_relies (h : call q a = some (q', new)) (hg : g ∈ new) :
    g.relies = none ∧ ∀ n, g ≠ .freeNode n := by
  rcases call_frames h with ⟨rfl, -⟩ | ⟨v, rfl, -⟩ <;> obtain rfl := List.mem_singleton.1 hg <;>
    simp [Frame.relies]

/-- A node that was dequeued is not the one that `Tail` is at. -/
theorem Inv.tail_ne (h : Inv w q fs) (hn : 0 < w.retired.count n) : q.tail.index ≠ n := by
  rintro rfl
  have hle := h.count_le q.tail.index
  have htail : q.tail.index ∈ w.chain q := View.mem_chain.2 (.inr (.inl rfl))
  have hcount := List.count_pos_iff.2 htail
  omega

/-- **A node is not relied on once it is about to be freed**, and never again. -/
theorem Unheld.exec (h : Unheld (pre ++ [f] ++ post)) (hinv : Inv w q (pre ++ [f] ++ post))
    (hbooked : ∀ n, q.refCnt n = 0 → tally (Frame.holds n) (pre ++ [f] ++ post) = 0)
    (htakes : ∀ n, f = .takeFlag n → q.deleteFlag n = true → q.refCnt n = 0)
    (he : exec q f a = some (q', new)) : Unheld (pre ++ new ++ post) := by
  have hrest {g : Frame T} (hg : g ∈ pre ++ post) : g ∈ pre ++ [f] ++ post := by
    simp only [List.mem_append] at hg ⊢
    tauto
  have hcases {g : Frame T} (hg : g ∈ pre ++ new ++ post) : g ∈ new ∨ g ∈ pre ++ post := by
    simp only [List.mem_append] at hg ⊢
    tauto
  intro n hn g hg x hx
  rcases hcases hn with hn | hn
  · -- the flag has just been taken, from a node without references
    obtain ⟨rfl, hflag⟩ := exec_freeNode he hn
    have hzero := tally_eq_zero.1 (hbooked n (htakes n rfl hflag))
    rcases hcases hg with hg | hg
    · rcases exec_relies he hg hx with hx | rfl
      · cases hx
      · refine hinv.tail_ne ?_
        rw [hinv.retired n, if_pos hflag]
        omega
    · rintro rfl
      exact absurd (hzero g (hrest hg)) (holds_pos_of_relies hx).ne'
  · have hn := hrest hn
    rcases hcases hg with hg | hg
    · rcases exec_relies he hg hx with hx | rfl
      · exact h n hn f (by simp) x hx
      · have hone := le_tally_of_mem (w := Frame.releases n) hn
        simp only [Frame.releases, Frame.releasing, if_true] at hone
        refine hinv.tail_ne ?_
        rw [hinv.retired n]
        omega
    · exact h n hn g (hrest hg) x hx

theorem Unheld.call (h : Unheld (pre ++ [] ++ post)) (hc : call q a = some (q', new)) :
    Unheld (pre ++ new ++ post) := by
  intro n hn g hg x hx
  simp only [List.mem_append] at hn hg
  have hn : .freeNode n ∈ pre ++ [] ++ post := by
    rcases hn with (hn | hn) | hn
    · simp [hn]
    · exact absurd rfl ((call_relies hc hn).2 n)
    · simp [hn]
  rcases hg with (hg | hg) | hg
  · exact h n hn g (by simp [hg]) x hx
  · exact absurd ((call_relies hc hg).1.symm.trans hx) (Option.some_ne_none x).symm
  · exact h n hn g (by simp [hg]) x hx

/-- **Nodes freed for their `RefCnt` are not relied on.** In the runs in which the helps go along
the chain and every `DeleteFlag` is taken from a node that has no references by then, while fewer
than 2^16 tags are drawn, no node is freed that an `Enqueue` relies on, so that they are runs of a
queue; and `RefCnt` counts the references that the running calls have, and one for a node that is on
the chain. -/
theorem guarded_of_counted [Inhabited T]
    (h : (system T).ReachableVia (Program.Steps Counted) t) (hcnt : t.shared.tagCnt < 2 ^ 16) :
    (system T).ReachableVia (Program.Steps Guarded) t ∧ Unheld t.frames ∧
      ∃ l, Links 0 t.shared.link t.shared.head.index l ∧
        ∀ n, t.shared.refCnt n = tally (Frame.holds n) t.frames + l.count n := by
  have hruns : (system T).ReachableVia (Program.Steps Guarded) t ∧ Unheld t.frames := by
    induction h with
    | start hinit =>
      refine ⟨.start hinit, ?_⟩
      obtain ⟨k, rfl⟩ := hinit
      rw [Threads.frames_idle]
      exact fun _ hn => absurd hn List.not_mem_nil
    | @next s l t hs hok hst ih =>
      have hcnt' := (step_tagCnt hst).trans_lt hcnt
      obtain ⟨hguarded, hunheld⟩ := ih hcnt'
      refine ⟨hguarded.next (fun f hf => ⟨(hok f hf).1, ?_⟩) hst, ?_⟩
      · cases f with
        | freeNode n =>
          refine List.all_eq_true.2 fun g hg => decide_eq_true fun heq => ?_
          obtain ⟨x, hx, rfl⟩ := Option.map_eq_some_iff.1 heq
          exact hunheld _ (Threads.mem_of_top hf) g hg x hx rfl
        | _ => rfl
      · obtain ⟨w, hw⟩ := exists_inv hguarded hcnt'
        obtain ⟨l, -, hrefCnt⟩ := refCnt_eq hguarded hcnt'
        obtain ⟨pre, old, new, post, hfs, hft, hf, htop⟩ := Program.step_frames hst
        rw [hft]
        rw [hfs] at hw hunheld hrefCnt
        cases hf with
        | call hc => exact hunheld.call hc
        | exec he =>
          rename_i f
          refine hunheld.exec hw (fun n hn => ?_) (fun n hn hflag => ?_) he
          · have := hrefCnt n
            omega
          · have htakes := (hok f (htop f rfl)).2
            subst hn
            simpa [takesUnheld, hflag] using htakes
  exact ⟨hruns.1, hruns.2, refCnt_eq hruns.1 hcnt⟩

/-- `Counted`, decided. -/
def counted (t : Threads (Queue T) (Frame T)) (l : ℕ × Act T) : Bool :=
  (t.top l.1).all fun f => helpsAlong t f && takesUnheld t f

theorem steps_counted (t : Threads (Queue T) (Frame T)) (l : ℕ × Act T)
    (h : counted t l = true) : Program.Steps Counted t l := by
  intro f hf
  simpa [counted, Counted, hf] using h

/-- An `Enqueue` drops the last reference of a node that another thread has dequeued: it is freed. -/
theorem guarded_of_counted_freed :
    ∃ t, (system ℕ).ReachableVia (Program.Steps Guarded) t ∧ t.shared.pool = [1] ∧
      t.shared.refCnt 1 = 0 ∧ tally (Frame.holds 1) t.frames = 0 := by
  obtain ⟨t, ht, hp⟩ := Lts.exists_reachableVia_of_run (M := system ℕ) steps_counted ⟨2, rfl⟩
    (enqueuing 0 10 ++ going 0 6 ++ enqueuing 1 20 ++ going 1 13 ++ [(1, .dequeue)] ++
      going 1 11 ++ going 0 6)
    (p := fun t => decide (t.shared.pool = [1] ∧ t.shared.refCnt 1 = 0 ∧ t.shared.tagCnt = 3))
    (by decide +kernel)
  obtain ⟨hpool, href, hcnt⟩ := of_decide_eq_true hp
  obtain ⟨hguarded, -, l, -, hrefCnt⟩ := guarded_of_counted ht (by omega)
  have := hrefCnt 1
  exact ⟨t, hguarded, hpool, href, by omega⟩

end NetworkLibrary.LockFreeQueue
