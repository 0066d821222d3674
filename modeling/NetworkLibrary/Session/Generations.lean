import NetworkLibrary.Session.Custody
import Mathlib.Data.List.Nodup

/-!
# The generations of a slot

A session ID is the number of the slot in the upper 16 bits and a value of `SessionIDCnt` below.
`ReleaseSession` masks the lower bits off and `InitSession` puts the next value in, so that an ID
names one generation of the slot (`Named`, `Drawn`), and each generation is released at most once
(`Releases`).

`KillSession` and `SendPacket` compare the ID while they hold a reference: from then on the
generation the ID was issued for stays in the slot (`InForce`) until the reference is dropped. The
`DisconnectSession` that `KillSession` calls afterwards is bound to no generation: it may come late
and release the next one (`exists_late_release`).
-/

namespace NetworkLibrary.Session

open Foundations

variable {host : Host} {slot : UInt16} {s s' : Slot} {f : Frame} {a : Act} {new : List Frame}
  {t u : Threads Slot Frame} {pre post : List Frame}

/-! ## Facts about the holder of the token -/

/-- Only the holder of the token touches the ID, the issued IDs and the trace. -/
theorem exec_untouched (h : exec host s f a = some (s', new)) (hf : f.token = 0) :
    s'.sessionID = s.sessionID ∧ s'.issued = s.issued ∧ s'.trace = s.trace := by
  revert h
  fun_cases exec host s f a <;> intro h <;> cases h <;> simp_all [Frame.token]

theorem call_untouched (h : call s a = some (s', new)) :
    s'.sessionID = s.sessionID ∧ s'.issued = s.issued ∧ s'.trace = s.trace ∧
      s'.released = s.released ∧ s.sessionIDCnt ≤ s'.sessionIDCnt := by
  revert h
  fun_cases call s a <;> intro h <;> cases h <;> simp

/-- A fact about the ID, the issued IDs and the trace that only speaks about the holder of the
token is kept for the other frames. -/
theorem Custody.forall_token {Q R : Frame → Prop} (h : Custody t)
    (hs : t.frames = pre ++ [f] ++ post) (hu : u.frames = pre ++ new ++ post)
    (hQ : ∀ f ∈ t.frames, Q f) (hnew : ∀ f' ∈ new, R f') (hR : ∀ f', f'.token = 0 → R f')
    (hkeep : f.token = 0 → ∀ f', Q f' → R f') : ∀ f' ∈ u.frames, R f' := by
  refine Program.forall_frames_step hs hu hQ hnew fun f' hf' hQf => ?_
  rcases Nat.eq_zero_or_pos f.token with h0 | h1
  · exact hkeep h0 f' hQf
  · have hle : f.token ≤ 1 := by cases f <;> simp [Frame.token]
    exact hR f' (h.token_rest hs (by omega) hf')

/-! ## The ID in the slot -/

/-- The statements between `InitSession`'s `|=` and `ReleaseSession`'s `&=` that rely on
`ReleaseArr[0]` being TRUE. -/
def Frame.named : Frame → Bool
  | .discLeave _ | .inLeave _ | .relMask _ => true
  | .initQueues _ | .initInc _ | .initActive _ => true
  | _ => false

theorem token_of_named (h : f.named = true) : f.token = 1 := by
  cases f <;> simp_all [Frame.named, Frame.token]

/-- The slot carries the ID of its generation. -/
structure Named (t : Threads Slot Frame) : Prop where
  frame : ∀ f ∈ t.frames, f.named = true → t.shared.issued.getLast? = some t.shared.sessionID
  active : t.shared.releaseFlag = false → t.shared.issued.getLast? = some t.shared.sessionID

theorem exec_named (h : exec host s f a = some (s', new))
    (hf : f.named = true → s.issued.getLast? = some s.sessionID)
    (hact : s.releaseFlag = false → s.issued.getLast? = some s.sessionID)
    (hrel : ∀ b, f.relies = some b → s.releaseFlag = b) :
    (∀ f' ∈ new, f'.named = true → s'.issued.getLast? = some s'.sessionID) ∧
      (s'.releaseFlag = false → s'.issued.getLast? = some s'.sessionID) := by
  revert h
  fun_cases exec host s f a <;> intro h <;> cases h <;> simp_all [Frame.named, Frame.relies]

theorem call_named (h : call s a = some (s', new)) : ∀ f ∈ new, f.named = false := by
  revert h
  fun_cases call s a <;> intro h <;> cases h <;> simp [Frame.named]

/-- **The slot carries the ID of its generation** in every reachable state. -/
theorem named {ok : Threads Slot Frame → ℕ × Act → Prop}
    (h : (system host slot).ReachableVia ok t) : Named t := by
  refine h.invariant₂ (J := Custody) custody ?_ ?_
  · rintro _ ⟨n, rfl⟩
    refine ⟨?_, ?_⟩ <;> simp [start]
  · intro s l t hc _ ih _ hst
    obtain ⟨pre, old, new, post, hs, ht, hf, -⟩ := Program.step_frames hst
    cases hf with
    | call hcall =>
      obtain ⟨h₁, h₂, -⟩ := call_untouched hcall
      refine ⟨Program.forall_frames_step hs ht ih.frame (fun f hf hn => ?_) fun f _ hf hn => ?_,
        fun hact => ?_⟩
      · simp [call_named hcall f hf] at hn
      · rw [h₁, h₂]
        exact hf hn
      · rw [h₁, h₂]
        exact ih.active ((call_effect hcall).1 ▸ hact)
    | exec he =>
      rename_i f
      have hself : f ∈ s.frames := by rw [hs]; simp
      obtain ⟨hnew, hact⟩ := exec_named he (ih.frame f hself) ih.active (hc.flag f hself)
      refine ⟨hc.forall_token hs ht ih.frame hnew (fun f' h0 hn => ?_) fun h0 f' hf' hn => ?_, hact⟩
      · simp [token_of_named hn] at h0
      · obtain ⟨h₁, h₂, -⟩ := exec_untouched he h0
        rw [h₁, h₂]
        exact hf' hn

/-! ## Each generation is released at most once -/

/-- The generations released. -/
def Slot.releasedGens (s : Slot) : List ℕ := s.released.map Prod.fst

/-- The statements of `InitSession` after the slot has got its ID. -/
def Frame.opening : Frame → Bool
  | .initQueues _ | .initInc _ | .initActive _ => true
  | _ => false

theorem relies_of_opening (h : f.opening = true) : f.relies = some true := by
  cases f <;> simp_all [Frame.opening, Frame.relies]

/-- The generations are released in their order, and the one in the slot is not yet released while
it is initialised or active. -/
structure Releases (t : Threads Slot Frame) : Prop where
  sorted : t.shared.releasedGens.Pairwise (· < ·)
  lt : ∀ g ∈ t.shared.releasedGens, g < t.shared.issued.length
  frame : ∀ f ∈ t.frames, f.opening = true →
    ∀ g ∈ t.shared.releasedGens, g + 1 < t.shared.issued.length
  active : t.shared.releaseFlag = false →
    ∀ g ∈ t.shared.releasedGens, g + 1 < t.shared.issued.length

theorem exec_released (h : exec host s f a = some (s', new))
    (hflag : s'.releaseFlag = s.releaseFlag) (hissued : s'.issued = s.issued) :
    s'.released = s.released ∧ ∀ f' ∈ new, f'.opening = true → f.opening = true := by
  revert h
  fun_cases exec host s f a <;> intro h <;> cases h <;> simp_all [Frame.opening]

theorem call_opening (h : call s a = some (s', new)) : ∀ f ∈ new, f.opening = false := by
  revert h
  fun_cases call s a <;> intro h <;> cases h <;> simp [Frame.opening]

theorem Releases.exec (h : Releases t) (hc : Custody t) (hn : Counted t)
    (hs : t.frames = pre ++ [f] ++ post) (hu : u.frames = pre ++ new ++ post)
    (he : Session.exec host t.shared f a = some (u.shared, new)) : Releases u := by
  have hself : f ∈ t.frames := by rw [hs]; simp
  have hpass := fun hnew hkeep => hc.forall_token hs hu h.frame
    (R := fun f' => f'.opening = true → ∀ g ∈ u.shared.releasedGens, g + 1 < u.shared.issued.length)
    hnew (fun f' h0 h1 => by simp [token_of_relies (relies_of_opening h1)] at h0) hkeep
  rcases exec_effect he with ⟨h₁, h₂⟩ | ⟨c, rfl, h₁, h₂, hu', rfl⟩ | ⟨g, rfl, hu', rfl⟩ |
    ⟨n, rfl, rfl, hu'⟩
  · obtain ⟨h₃, h₄⟩ := exec_released he h₁ h₂
    have h₅ : u.shared.releasedGens = t.shared.releasedGens := by rw [Slot.releasedGens, h₃]; rfl
    simp only [h₅, h₂] at hpass
    refine ⟨h₅ ▸ h.sorted, ?_, ?_, ?_⟩
    · simpa only [h₅, h₂] using h.lt
    · simpa only [h₅, h₂] using
        hpass (fun f' hf' ho => h.frame f hself (h₄ f' hf' ho)) fun _ _ hf' => hf'
    · simpa only [h₅, h₂, h₁] using h.active
  · -- the compare-and-swap releases the generation in the slot, later than all before it
    have hgens : u.shared.releasedGens = t.shared.releasedGens ++ [t.shared.gen] := by
      rw [hu']; simp [Slot.releasedGens]
    have hlen : u.shared.issued = t.shared.issued := by rw [hu']
    have hpos := hc.issued h₁
    have hact := h.active h₁
    have hgen : t.shared.gen + 1 = t.shared.issued.length := by unfold Slot.gen; omega
    refine ⟨?_, ?_, ?_, fun hb => by simp [hu'] at hb⟩
    · rw [hgens, List.pairwise_append]
      refine ⟨h.sorted, List.pairwise_singleton _ _, fun g hg g' hg' => ?_⟩
      obtain rfl := List.mem_singleton.1 hg'
      have := hact g hg
      omega
    · simp only [hgens, hlen, List.mem_append, List.mem_singleton]
      rintro g (hg | rfl)
      · exact h.lt g hg
      · omega
    · refine Program.forall_frames_step hs hu (fun _ _ => trivial) (by simp [Frame.opening]) ?_
      intro f' hf' _ ho
      have := (hc.unheld hn h₁ h₂).2.2 f' (by rw [hs]; simp at hf' ⊢; tauto)
      simp [relies_of_opening ho] at this
  · have hgens : u.shared.releasedGens = t.shared.releasedGens := by rw [hu']; rfl
    have hlen : u.shared.issued = t.shared.issued := by rw [hu']
    simp only [hgens, hlen] at hpass
    refine ⟨hgens ▸ h.sorted, ?_, ?_, fun _ => ?_⟩
    · simpa only [hgens, hlen] using h.lt
    · simpa only [hgens, hlen] using hpass (by simp [Frame.opening]) (by simp [Frame.token])
    · simpa only [hgens, hlen] using h.frame _ hself rfl
  · -- the slot holds a new generation
    have hgens : u.shared.releasedGens = t.shared.releasedGens := by rw [hu']; rfl
    have hlen : u.shared.issued.length = t.shared.issued.length + 1 := by rw [hu']; simp
    have hlt := h.lt
    have hflag : t.shared.releaseFlag = true := hc.flag _ hself true rfl
    simp only [hgens, hlen] at hpass
    refine ⟨hgens ▸ h.sorted, ?_, ?_, fun hb => by simp [hu', hflag] at hb⟩
    · simp only [hgens, hlen]
      exact fun g hg => (hlt g hg).trans (Nat.lt_succ_self _)
    · simp only [hgens, hlen]
      exact hpass (fun f' _ _ g hg => Nat.add_lt_add_right (hlt g hg) 1) (by simp [Frame.token])

/-- **Each generation is released at most once**, and in order. -/
theorem releases {ok : Threads Slot Frame → ℕ × Act → Prop}
    (h : (system host slot).ReachableVia ok t) : Releases t := by
  refine h.invariant₂ (J := fun t => Custody t ∧ Counted t) (fun h => ⟨custody h, refCnt_eq h⟩) ?_ ?_
  · rintro _ ⟨n, rfl⟩
    refine ⟨?_, ?_, ?_, ?_⟩ <;> simp [start, Slot.releasedGens]
  · intro s l t hc _ ih _ hst
    obtain ⟨pre, old, new, post, hs, ht, hf, -⟩ := Program.step_frames hst
    cases hf with
    | call hcall =>
      obtain ⟨-, h₂, -, h₃, -⟩ := call_untouched hcall
      have h₅ : t.shared.releasedGens = s.shared.releasedGens := by rw [Slot.releasedGens, h₃]; rfl
      refine ⟨h₅ ▸ ih.sorted, ?_, ?_, ?_⟩
      · simpa only [h₅, h₂] using ih.lt
      · simp only [h₅, h₂]
        refine Program.forall_frames_step hs ht ih.frame (fun f hf ho => ?_) fun f _ hf => hf
        simp [call_opening hcall f hf] at ho
      · simpa only [h₅, h₂, (call_effect hcall).1] using ih.active
    | exec he => exact ih.exec hc.1 hc.2 hs ht he

/-! ## The IDs are distinct -/

theorem testBit_of_lt {d k i : ℕ} (hd : d < 2 ^ k) (hi : k ≤ i) : d.testBit i = false :=
  Nat.testBit_lt_two_pow (hd.trans_le (Nat.pow_le_pow_right Nat.two_pos hi))

/-- The number of the slot in the upper 16 bits of its IDs. -/
def base (slot : UInt16) : ℕ := slot.toNat <<< 48

theorem testBit_id (slot : UInt16) {d : ℕ} (hd : d < 2 ^ 48) (i : ℕ) :
    (base slot ||| d).testBit i = if i < 48 then d.testBit i else slot.toNat.testBit (i - 48) := by
  rw [Nat.testBit_or]
  unfold base
  rw [Nat.testBit_shiftLeft]
  by_cases hi : i < 48
  · rw [if_pos hi]
    simp only [show ¬ i ≥ 48 by omega, decide_false, Bool.false_and, Bool.false_or]
  · rw [if_neg hi]
    have := testBit_of_lt hd (Nat.le_of_not_lt hi)
    simp only [show i ≥ 48 by omega, decide_true, Bool.true_and, this, Bool.or_false]

theorem testBit_mask (i : ℕ) :
    (0xffff000000000000 : ℕ).testBit i = (decide (48 ≤ i) && decide (i - 48 < 16)) := by
  have hmask : (0xffff000000000000 : ℕ) = (2 ^ 16 - 1) <<< 48 := by decide
  rw [hmask, Nat.testBit_shiftLeft, Nat.testBit_two_pow_sub_one]

/-- `ReleaseSession` takes the value of `SessionIDCnt` out of the ID. -/
theorem id_masked {d : ℕ} (hd : d < 2 ^ 48) :
    (base slot ||| d) &&& 0xffff000000000000 = base slot := by
  refine Nat.eq_of_testBit_eq fun i => ?_
  have h0 := testBit_id slot (Nat.two_pow_pos 48) i
  rw [Nat.or_zero, Nat.zero_testBit] at h0
  rw [Nat.testBit_and, testBit_id slot hd, testBit_mask, h0]
  by_cases hi : i < 48
  · rw [if_pos hi, if_pos hi, decide_eq_false (by omega), Bool.false_and, Bool.and_false]
  · rw [if_neg hi, if_neg hi, decide_eq_true (by omega), Bool.true_and]
    by_cases h16 : i - 48 < 16
    · rw [decide_eq_true h16, Bool.and_true]
    · rw [testBit_of_lt slot.toNat_lt (Nat.le_of_not_lt h16), Bool.false_and]

theorem id_injective {d e : ℕ} (hd : d < 2 ^ 48) (he : e < 2 ^ 48)
    (h : base slot ||| d = base slot ||| e) : d = e := by
  refine Nat.eq_of_testBit_eq fun i => ?_
  have hi := congrArg (fun n => n.testBit i) h
  simp only [testBit_id slot hd, testBit_id slot he] at hi
  rcases Nat.lt_or_ge i 48 with h48 | h48
  · rwa [if_pos h48, if_pos h48] at hi
  · rw [testBit_of_lt hd h48, testBit_of_lt he h48]

/-- The statements at which the slot carries no generation's ID. -/
def Frame.blank : Frame → Bool
  | .relClose _ | .relDrain _ | .relPush _ | .initUse | .initDraw | .initID _ => true
  | _ => false

theorem token_of_blank (h : f.blank = true) : f.token = 1 := by
  cases f <;> simp_all [Frame.blank, Frame.token]

/-- While the slot carries no generation's ID, its ID is `b`. -/
structure Blank (b : ℕ) (t : Threads Slot Frame) : Prop where
  frame : ∀ f ∈ t.frames, f.blank = true → t.shared.sessionID = b
  free : 0 < t.shared.freeCnt → t.shared.sessionID = b

theorem exec_blank (h : exec host s f a = some (s', new)) {b : ℕ}
    (hf : f.blank = true → s.sessionID = b)
    (hmask : ∀ g, f = .relMask g → s.sessionID &&& 0xffff000000000000 = b)
    (hfree : 0 < s.freeCnt → s.sessionID = b ∧ f.token = 0) :
    (∀ f' ∈ new, f'.blank = true → s'.sessionID = b) ∧ (0 < s'.freeCnt → s'.sessionID = b) := by
  revert h
  fun_cases exec host s f a <;> intro h <;> cases h <;> simp_all [Frame.blank, Frame.token]

theorem call_ids (h : call s a = some (s', new)) :
    s'.freeCnt ≤ s.freeCnt ∧
      ∀ f ∈ new, (∀ n, f ≠ .initID n) ∧ (f.blank = true → 0 < s.freeCnt) := by
  revert h
  fun_cases call s a <;> intro h <;> cases h <;> simp_all [Frame.blank]

theorem Blank.exec {b : ℕ} (h : Blank b t) (hc : Custody t) (hn : Named t)
    (hs : t.frames = pre ++ [f] ++ post) (hu : u.frames = pre ++ new ++ post)
    (he : Session.exec host t.shared f a = some (u.shared, new))
    (hmask : ∀ id ∈ t.shared.issued, id &&& 0xffff000000000000 = b) : Blank b u := by
  have hself : f ∈ t.frames := by rw [hs]; simp
  have hfree : 0 < t.shared.freeCnt → t.shared.sessionID = b ∧ f.token = 0 := fun hpos => by
    have h₁ := le_tally_of_mem (w := Frame.token) hself
    have h₂ := hc.token_le
    unfold tokens Slot.stock at h₂
    exact ⟨h.free hpos, by omega⟩
  obtain ⟨hnew, hfree'⟩ := exec_blank he (h.frame f hself) (by
    rintro g rfl
    exact hmask _ (List.mem_of_getLast? (hn.frame _ hself rfl))) hfree
  refine ⟨hc.forall_token hs hu h.frame hnew (fun f' h0 hb => by simp [token_of_blank hb] at h0)
    fun h0 f' hf' hb => ?_, hfree'⟩
  rw [(exec_untouched he h0).1]
  exact hf' hb

theorem Blank.call {b : ℕ} (h : Blank b t) (hs : t.frames = pre ++ [] ++ post)
    (hu : u.frames = pre ++ new ++ post)
    (hcall : Session.call t.shared a = some (u.shared, new)) : Blank b u := by
  obtain ⟨hfree, hnew⟩ := call_ids hcall
  refine ⟨?_, fun hpos => ?_⟩
  · rw [(call_untouched hcall).1]
    exact Program.forall_frames_step hs hu h.frame (fun f hf hb => h.free ((hnew f hf).2 hb))
      fun _ _ hf => hf
  · rw [(call_untouched hcall).1]
    exact h.free (by omega)

/-- IDs are only added. -/
theorem step_issued {l : ℕ × Act} (h : (program host).step t l = some u) :
    t.shared.issued <+: u.shared.issued := by
  obtain ⟨pre, old, new, post, -, -, hf, -⟩ := Program.step_frames h
  cases hf with
  | call hcall => exact (call_effect hcall).2 ▸ List.prefix_refl _
  | exec he =>
    rcases exec_effect he with ⟨-, h⟩ | ⟨c, -, -, -, hu, -⟩ | ⟨g, -, hu, -⟩ | ⟨n, -, -, hu⟩
    · exact h ▸ List.prefix_refl _
    · exact hu ▸ List.prefix_refl _
    · exact hu ▸ List.prefix_refl _
    · exact hu ▸ List.prefix_append _ _

/-- **A slot without a generation's ID has an ID of its own**, as long as no value drawn has
reached the upper 16 bits. -/
theorem blank {ok : Threads Slot Frame → ℕ × Act → Prop}
    (h : (system host slot).ReachableVia ok t)
    (hmask : ∀ id ∈ t.shared.issued, id &&& 0xffff000000000000 = base slot) :
    Blank (base slot) t := by
  refine h.invariant₂ (J := fun t => Custody t ∧ Named t)
    (I := fun t => (∀ id ∈ t.shared.issued, id &&& 0xffff000000000000 = base slot) →
      Blank (base slot) t) (fun h => ⟨custody h, named h⟩) ?_ ?_ hmask
  · rintro _ ⟨n, rfl⟩ -
    exact ⟨by simp, fun _ => rfl⟩
  · intro s l t hc _ ih _ hst hmask
    have hmask := fun id hid => hmask id ((step_issued hst).mem hid)
    obtain ⟨pre, old, new, post, hs, ht, hf, -⟩ := Program.step_frames hst
    cases hf with
    | call hcall => exact (ih hmask).call hs ht hcall
    | exec he => exact (ih hmask).exec hc.1 hc.2 hs ht he hmask

/-- The IDs issued are the increasing values that `InitSession` has drawn, each put into the slot
when it carried none. -/
structure Drawn (slot : UInt16) (ds : List ℕ) (t : Threads Slot Frame) : Prop where
  issued : t.shared.issued = ds.map (base slot ||| ·)
  sorted : ds.Pairwise (· < ·)
  le : ∀ d ∈ ds, d ≤ t.shared.sessionIDCnt
  next : ∀ f ∈ t.frames, ∀ n, f = .initID n → n ≤ t.shared.sessionIDCnt ∧ ∀ d ∈ ds, d < n
  blank : ∀ f ∈ t.frames, f.blank = true → t.shared.sessionID = base slot
  free : 0 < t.shared.freeCnt → t.shared.sessionID = base slot

theorem Drawn.masked {ds : List ℕ} (h : Drawn slot ds t) (hcnt : t.shared.sessionIDCnt < 2 ^ 48) :
    ∀ id ∈ t.shared.issued, id &&& 0xffff000000000000 = base slot := by
  intro id hid
  rw [h.issued] at hid
  obtain ⟨d, hd, rfl⟩ := List.mem_map.1 hid
  exact id_masked ((h.le d hd).trans_lt hcnt)

/-- The statements that issue or draw an ID. -/
theorem exec_ids (h : exec host s f a = some (s', new)) :
    (s'.issued = s.issued ∧ s'.sessionIDCnt = s.sessionIDCnt ∧ ∀ f' ∈ new, ∀ n, f' ≠ .initID n) ∨
      (∃ n, f = .initDraw ∧ a = .draw n ∧ (host = .netClient ∨ n = s.sessionIDCnt + 1) ∧
        s' = { s with sessionIDCnt := n } ∧ new = [.initID n]) ∨
      ∃ n, f = .initID n ∧ new = [.initQueues s.issued.length] ∧
        s' = { s with sessionID := s.sessionID ||| n, issued := s.issued ++ [s.sessionID ||| n] } := by
  revert h
  fun_cases exec host s f a <;> intro h <;> cases h <;> simp_all

/-- The value drawn is larger than those that the slot has drawn before. -/
def Raises (t : Threads Slot Frame) (f : Frame) (a : Act) : Prop :=
  ∀ n, f = .initDraw → a = .draw n → t.shared.sessionIDCnt < n

theorem Drawn.exec {ds : List ℕ} (h : Drawn slot ds t) (hc : Custody t) (hn : Named t)
    (hs : t.frames = pre ++ [f] ++ post) (hu : u.frames = pre ++ new ++ post)
    (he : Session.exec host t.shared f a = some (u.shared, new)) (hraise : Raises t f a)
    (hcnt : t.shared.sessionIDCnt < 2 ^ 48) : ∃ ds, Drawn slot ds u := by
  have hself : f ∈ t.frames := by rw [hs]; simp
  obtain ⟨hblank, hfree'⟩ := Blank.exec ⟨h.blank, h.free⟩ hc hn hs hu he (h.masked hcnt)
  rcases exec_ids he with ⟨h₁, h₂, h₃⟩ | ⟨n, hf, ha, -, hu', rfl⟩ | ⟨n, rfl, rfl, hu'⟩
  · refine ⟨ds, h₁ ▸ h.issued, h.sorted, h₂ ▸ h.le, ?_, hblank, hfree'⟩
    rw [h₂]
    exact Program.forall_frames_step hs hu h.next (fun f' hf' n hn => absurd hn (h₃ f' hf' n))
      fun _ _ hf' => hf'
  · have hlt := hraise n hf ha
    have hcnt' : u.shared.sessionIDCnt = n := by rw [hu']
    refine ⟨ds, by rw [hu']; exact h.issued, h.sorted, fun d hd => ?_, ?_, hblank, hfree'⟩
    · have := h.le d hd
      omega
    · rw [hcnt']
      refine Program.forall_frames_step hs hu h.next (fun f' hf' m hm => ?_) fun f' _ hf' m hm => ?_
      · obtain rfl : m = n := by simp_all
        exact ⟨le_rfl, fun d hd => by have := h.le d hd; omega⟩
      · obtain ⟨h₁, h₂⟩ := hf' m hm
        exact ⟨by omega, h₂⟩
  · have hcnt' : u.shared.sessionIDCnt = t.shared.sessionIDCnt := by rw [hu']
    obtain ⟨hle, hlt⟩ := h.next _ hself n rfl
    refine ⟨ds ++ [n], ?_, ?_, ?_, ?_, hblank, hfree'⟩
    · rw [hu', List.map_append, ← h.issued]
      simp [h.blank _ hself rfl]
    · rw [List.pairwise_append]
      exact ⟨h.sorted, List.pairwise_singleton _ _, fun d hd e he => by simp_all⟩
    · rw [hcnt']
      intro d hd
      rcases List.mem_append.1 hd with hd | hd
      · exact h.le d hd
      · obtain rfl := List.mem_singleton.1 hd
        exact hle
    · -- the token was held by this call of `InitSession`, so there is no other
      refine Program.forall_frames_step hs hu (fun _ _ => trivial) (by simp) ?_
      rintro f' hf' - m rfl
      have := hc.token_rest hs rfl hf'
      cases this

theorem exec_sessionIDCnt (h : exec host s f a = some (s', new))
    (hraise : ∀ n, f = .initDraw → a = .draw n → s.sessionIDCnt < n) :
    s.sessionIDCnt ≤ s'.sessionIDCnt := by
  rcases exec_ids h with ⟨-, h, -⟩ | ⟨n, hf, ha, -, rfl, -⟩ | ⟨n, -, -, rfl⟩
  · exact h.ge
  · exact (hraise n hf ha).le
  · exact le_rfl

/-- **The IDs are distinct** as long as the values drawn increase, and stay below 2^48. -/
theorem drawn_of_raises (h : (system host slot).ReachableVia (Program.Steps Raises) t)
    (hcnt : t.shared.sessionIDCnt < 2 ^ 48) : ∃ ds, Drawn slot ds t := by
  refine h.invariant₂ (J := fun t => Custody t ∧ Named t)
    (I := fun t => t.shared.sessionIDCnt < 2 ^ 48 → ∃ ds, Drawn slot ds t)
    (fun h => ⟨custody h, named h⟩) ?_ ?_ hcnt
  · intro s hs _
    obtain ⟨n, rfl⟩ := hs
    exact ⟨[], rfl, .nil, by simp, by simp, by simp, fun _ => rfl⟩
  · intro s l t hc _ ih hok hst hcnt
    obtain ⟨pre, old, new, post, hs, ht, hf, htop⟩ := Program.step_frames hst
    cases hf with
    | call hcall =>
      obtain ⟨-, h₂, -, -, h₃⟩ := call_untouched hcall
      obtain ⟨-, hnew⟩ := call_ids hcall
      obtain ⟨ds, ih⟩ := ih (h₃.trans_lt hcnt)
      obtain ⟨hblank, hfree⟩ := Blank.call ⟨ih.blank, ih.free⟩ hs ht hcall
      refine ⟨ds, h₂ ▸ ih.issued, ih.sorted, fun d hd => (ih.le d hd).trans h₃, ?_, hblank, hfree⟩
      refine Program.forall_frames_step hs ht ih.next
        (fun f hf n hn => absurd hn ((hnew f hf).1 n)) fun f _ hf n hn => ?_
      exact ⟨(hf n hn).1.trans h₃, (hf n hn).2⟩
    | exec he =>
      have hraise := hok _ (htop _ rfl)
      have hcnt := (exec_sessionIDCnt he hraise).trans_lt hcnt
      obtain ⟨ds, ih⟩ := ih hcnt
      exact ih.exec hc.1 hc.2 hs ht he hraise hcnt

/-- In the server, where one thread draws, the value drawn is the next one. -/
theorem exec_draw {n : ℕ} (h : exec .netServer s .initDraw (.draw n) = some (s', new)) :
    s.sessionIDCnt < n := by
  rw [exec, Option.ite_none_right_eq_some] at h
  obtain ⟨hhost | rfl, -⟩ := h
  · cases hhost
  · exact Nat.lt_succ_self _

theorem raises {ok : Threads Slot Frame → ℕ × Act → Prop}
    (h : (system .netServer slot).ReachableVia ok t) :
    (system .netServer slot).ReachableVia (Program.Steps Raises) t := by
  induction h with
  | start h => exact .start h
  | @next s u l _ _ hst ih =>
    refine ih.next (fun f hf n hdraw ha => ?_) hst
    obtain ⟨pre, old, new, post, -, -, hfires, htop⟩ := Program.step_frames hst
    rw [ha] at hfires
    cases hfires with
    | call hcall => cases hcall
    | exec he =>
      rw [htop _ rfl] at hf
      obtain rfl := Option.some.inj hf
      subst hdraw
      exact exec_draw he

/-- **The IDs of the server are distinct** as long as fewer than 2^48 are drawn. -/
theorem drawn {ok : Threads Slot Frame → ℕ × Act → Prop}
    (h : (system .netServer slot).ReachableVia ok t) (hcnt : t.shared.sessionIDCnt < 2 ^ 48) :
    ∃ ds, Drawn slot ds t :=
  drawn_of_raises (raises h) hcnt

/-! ## A call that passed the check -/

/-- The ID and the generation of a `KillSession` or `SendPacket` that passed the check and has not
yet dropped its reference. -/
def Frame.passed : Frame → Option (ℕ × ℕ)
  | .killUse id g | .killCancel id g | .killDec id g => some (id, g)
  | .sendEnqueue id g | .sendPost id g => some (id, g)
  | _ => none

theorem relies_of_passed {p : ℕ × ℕ} (h : f.passed = some p) :
    f.relies = some false ∧ f.gen = some p.2 := by
  cases f <;> simp_all [Frame.passed, Frame.relies, Frame.gen] <;> simp [← h]

/-- Generation `g` is in the slot, under the ID that was issued for it and for no other one; it is
not released, and all that is outstanding belongs to it. -/
structure InForce (s : Slot) (id g : ℕ) : Prop where
  active : s.releaseFlag = false
  sessionID : s.sessionID = id
  current : g + 1 = s.issued.length
  issuedFor : ∀ g', s.issued[g']? = some id ↔ g' = g
  unreleased : g ∉ s.releasedGens
  pending : ∀ g' ∈ s.pendingGens, g' = g

theorem exec_passed (h : exec host s f a = some (s', new))
    (hf : ∀ p, f.passed = some p → s.sessionID = p.1) :
    (s'.sessionID = s.sessionID ∨ f.relies = some true) ∧
      ∀ f' ∈ new, ∀ p, f'.passed = some p → s'.sessionID = p.1 := by
  revert h
  fun_cases exec host s f a <;> intro h <;> cases h <;> simp_all [Frame.passed, Frame.relies]

theorem call_passed (h : call s a = some (s', new)) : ∀ f ∈ new, f.passed = none := by
  revert h
  fun_cases call s a <;> intro h <;> cases h <;> simp [Frame.passed]

/-- The ID that a call has compared stays in the slot. -/
theorem sessionID_of_passed {ok : Threads Slot Frame → ℕ × Act → Prop}
    (h : (system host slot).ReachableVia ok t) :
    ∀ f ∈ t.frames, ∀ p, f.passed = some p → t.shared.sessionID = p.1 := by
  refine h.invariant₂ (J := Custody)
    (I := fun t => ∀ f ∈ t.frames, ∀ p, f.passed = some p → t.shared.sessionID = p.1) custody ?_ ?_
  · rintro _ ⟨n, rfl⟩
    simp
  · intro s l t hc _ ih _ hst
    obtain ⟨pre, old, new, post, hs, ht, hf, -⟩ := Program.step_frames hst
    cases hf with
    | call hcall =>
      rw [(call_untouched hcall).1]
      refine Program.forall_frames_step hs ht ih (fun f hf p hp => ?_) fun _ _ hf => hf
      simp [call_passed hcall f hf] at hp
    | exec he =>
      rename_i f
      have hself : f ∈ s.frames := by rw [hs]; simp
      obtain ⟨hid, hnew⟩ := exec_passed he (ih f hself)
      refine Program.forall_frames_step hs ht (Q := fun f' => f' ∈ s.frames ∧
        ∀ p, f'.passed = some p → s.shared.sessionID = p.1) (fun f' hf' => ⟨hf', ih f' hf'⟩) hnew ?_
      rintro f' - ⟨hmem, hf'⟩ p hp
      rcases hid with hid | htrue
      · rw [hid]
        exact hf' p hp
      · -- the ID changes only while the slot is released
        have h₁ := hc.flag f hself _ htrue
        have h₂ := hc.flag f' hmem _ (relies_of_passed hp).1
        simp [h₁] at h₂

theorem Drawn.nodup {ds : List ℕ} (h : Drawn slot ds t) (hcnt : t.shared.sessionIDCnt < 2 ^ 48) :
    t.shared.issued.Nodup := by
  have hlt : ∀ d ∈ ds, d < 2 ^ 48 := fun d hd => (h.le d hd).trans_lt hcnt
  rw [h.issued]
  exact List.Nodup.map_on (fun d hd e he => id_injective (hlt d hd) (hlt e he))
    (h.sorted.imp Nat.ne_of_lt)

theorem Drawn.inForce {ds : List ℕ} (hd : Drawn slot ds t)
    {ok : Threads Slot Frame → ℕ × Act → Prop} (h : (system host slot).ReachableVia ok t)
    (hcnt : t.shared.sessionIDCnt < 2 ^ 48) (hact : t.shared.releaseFlag = false) {g : ℕ}
    (hg : g + 1 = t.shared.issued.length) : InForce t.shared t.shared.sessionID g := by
  have hlast := (named h).active hact
  rw [List.getLast?_eq_getElem?, show t.shared.issued.length - 1 = g by omega] at hlast
  refine ⟨hact, rfl, hg, fun g' => ⟨fun hg' => ?_, fun hg' => hg' ▸ hlast⟩, fun hmem => ?_,
    fun g' hg' => ?_⟩
  · exact (List.getElem?_inj (List.getElem?_eq_some_iff.1 hg').1 (hd.nodup hcnt)).1
      (hg'.trans hlast.symm)
  · have := (releases h).active hact g hmem
    omega
  · have := (custody h).pendingGen g' hg'
    omega

/-- **A call that passed the check.** While fewer than 2^48 IDs are drawn, no generation is
released twice, and the generation whose ID a `KillSession` or `SendPacket` has compared is in
force until the call drops its reference, and after a `SendPacket` until the completion it posted
is handled and its reference dropped. -/
theorem inForce_of_passed (h : (system .netServer slot).Reachable t)
    (hcnt : t.shared.sessionIDCnt < 2 ^ 48) :
    t.shared.releasedGens.Nodup ∧
      (∀ f ∈ t.frames, ∀ id g, f.passed = some (id, g) → InForce t.shared id g) ∧
      (∀ g ∈ t.shared.notes, InForce t.shared t.shared.sessionID g) ∧
      ∀ f ∈ t.frames, ∀ g, f.gen = some g → f.relies = some false →
        InForce t.shared t.shared.sessionID g := by
  have hc := custody h
  obtain ⟨ds, hd⟩ := drawn h hcnt
  refine ⟨(releases h).sorted.imp Nat.ne_of_lt, fun f hf id g hp => ?_, fun g hg => ?_,
    fun f hf g hg hr => ?_⟩
  · obtain ⟨hr, hg⟩ := relies_of_passed hp
    obtain rfl : t.shared.sessionID = id := sessionID_of_passed h f hf _ hp
    exact hd.inForce h hcnt (hc.flag f hf _ hr) (hc.gen f hf g hg)
  · have hmem : g ∈ t.shared.pendingGens := by simp [Slot.pendingGens, hg]
    exact hd.inForce h hcnt (hc.pending (pending_pos_of_mem hmem)) (hc.pendingGen g hmem)
  · exact hd.inForce h hcnt (hc.flag f hf _ hr) (hc.gen f hf g hg)

/-- A thread accepts a connection with the next ID and posts its receive. -/
def accepting (i n : ℕ) : List (ℕ × Act) :=
  [(i, .accept), (i, .next), (i, .draw n)] ++ List.replicate 10 (i, .next) ++
    [(i, .posted), (i, .next), (i, .next)]

/-- A thread calls `KillSession` with the ID of the slot and stands before its `DecrementRef`. -/
def killing (i id : ℕ) : List (ℕ × Act) := (i, .killSession id) :: List.replicate 5 (i, .next)

theorem inForce_of_passed_killSession :
    ∃ t, (system .netServer 0).Reachable t ∧ Frame.killUse 1 0 ∈ t.frames ∧
      InForce t.shared 1 0 := by
  obtain ⟨t, ht, hp⟩ := Lts.exists_reachable_of_run (M := system .netServer 0) ⟨2, rfl⟩
    (accepting 0 1 ++ (killing 1 1).take 4)
    (p := fun t => decide (t.shared.sessionIDCnt = 1 ∧ Frame.killUse 1 0 ∈ t.frames))
    (by decide +kernel)
  obtain ⟨hcnt, hmem⟩ := of_decide_eq_true hp
  exact ⟨t, ht, hmem, (inForce_of_passed ht (by rw [hcnt]; decide)).2.1 _ hmem 1 0 rfl⟩

/-! ## A release that comes late -/

/-- A `KillSession` drops the last reference of generation 0 and stalls before
`DisconnectSession`'s compare-and-swap; another one releases the generation, the slot is reused,
and the worker that drops the last reference of generation 1 stalls in turn. -/
def lateRelease : List (ℕ × Act) :=
  accepting 0 1 ++ killing 1 1 ++ [(2, .recvDone 0 0), (2, .next), (1, .next)] ++
    killing 3 1 ++ List.replicate 8 (3, .next) ++ accepting 0 2 ++
    [(2, .recvDone 0 0), (2, .next), (1, .next)]

/-- **A `KillSession` may release a generation that its ID was not issued for.** Its
`DisconnectSession` runs after it has dropped its reference. -/
theorem exists_late_release :
    ¬∀ t, (system .netServer 0).Reachable t → t.shared.sessionIDCnt < 2 ^ 48 →
      ∀ g id, (g, some id) ∈ t.shared.released → t.shared.issued[g]? = some id := by
  intro hall
  obtain ⟨t, ht, hp⟩ := Lts.exists_reachable_of_run (M := system .netServer 0) ⟨4, rfl⟩ lateRelease
    (p := fun t => decide (t.shared.sessionIDCnt = 2 ∧ (1, some 1) ∈ t.shared.released ∧
      t.shared.issued = [1, 2])) (by decide +kernel)
  obtain ⟨hcnt, hmem, hissued⟩ := of_decide_eq_true hp
  have := hall t ht (by rw [hcnt]; decide) 1 1 hmem
  simp [hissued] at this

end NetworkLibrary.Session
