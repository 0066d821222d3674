import NetworkLibrary.Send.Order

/-!
# No wake-up is lost

A notification does nothing when `SendFlag` is set: it relies on the holder of the flag to look at
`Size` again. So whenever `Size` is positive somebody must be on the way to sending: a notification
or a send is outstanding, or a frame is before its next look at `Size` (`Frame.looks`). In the runs
of a session that is not killed and whose sends all succeed (`Smooth`) this is an invariant, and
`SendFlag` is never set without a holder.
-/

namespace NetworkLibrary.Send

open Foundations

/-- A frame that will look at `Size`, or post something that will. -/
def Frame.looks : Frame → ℕ
  | .postNote | .use | .exchange | .recheck | .retake => 1
  | f => f.holds

/-- The steps of a session that is not killed and whose sends all succeed and complete with more
than 0 bytes. -/
def Smooth (_ : Threads SendSide Frame) (l : ℕ × Act) : Prop :=
  l.2 ≠ .killSession ∧ l.2 ≠ .refused ∧ l.2 ≠ .sendDone 0

variable {f : Frame} {s s' : SendSide} {a : Act} {new : List Frame} {sendBuffer : ℕ → ℕ}
  {t u : Threads SendSide Frame} {pre post : List Frame}

/-- `SendFlag` has a holder when it is set, and somebody will look at `Size` when it is positive. -/
structure Awake (t : Threads SendSide Frame) : Prop where
  use : t.shared.sessionUseFlag = true
  held : t.shared.sendFlag = true → 0 < tokens t
  looked : 0 < t.shared.size → 0 < t.shared.sends + t.shared.notes + tally Frame.looks t.frames

theorem holds_le_looks (f : Frame) : f.holds ≤ f.looks := by
  cases f <;> simp [Frame.holds, Frame.looks]

theorem exec_awake (h : exec s f a = some (s', new)) (huse : s.sessionUseFlag = true)
    (ha : a ≠ .refused) (hcov : f.covered s.size) :
    s'.sessionUseFlag = true ∧
      (s'.sendFlag = false ∨ 0 < s'.sends + tally Frame.holds new ∨
        s'.sendFlag = s.sendFlag ∧ f.holds = 0 ∧ s'.sends = s.sends) ∧
      (s'.size ≤ 0 ∨ 0 < s'.sends + s'.notes + tally Frame.looks new ∨
        s.sendFlag = true ∧ f.holds = 0 ∧ s'.sends = s.sends ∨
        f.looks = 0 ∧ s'.size = s.size ∧ s'.sends = s.sends ∧ s'.notes = s.notes) := by
  revert h
  fun_cases exec s f a <;> intro h <;> cases h <;>
    simp_all [Frame.holds, Frame.looks, Frame.covered]

theorem call_awake (h : call s a = some (s', new)) (hkill : a ≠ .killSession)
    (hzero : a ≠ .sendDone 0) :
    s'.sessionUseFlag = s.sessionUseFlag ∧ s'.sendFlag = s.sendFlag ∧ s'.size = s.size ∧
      s'.sends + tally Frame.holds new = s.sends ∧
      s.sends + s.notes ≤ s'.sends + s'.notes + tally Frame.looks new := by
  revert h
  fun_cases call s a <;> intro h <;> cases h <;> simp_all [Frame.holds, Frame.looks] <;> omega

theorem Awake.exec (h : Awake t) (hcov : Covered t) (hs : t.frames = pre ++ [f] ++ post)
    (hu : u.frames = pre ++ new ++ post) (ha : a ≠ .refused)
    (he : Send.exec t.shared f a = some (u.shared, new)) : Awake u := by
  obtain ⟨huse, hheld, hlooked⟩ := exec_awake he h.use ha (hcov.frame f (by rw [hs]; simp))
  have hholds := Program.tally_step (w := Frame.holds) hs hu
  have hlooks := Program.tally_step (w := Frame.looks) hs hu
  have hnew : tally Frame.holds new ≤ tally Frame.holds u.frames := by
    rw [hu, tally_append, tally_append]
    omega
  have hnew' : tally Frame.looks new ≤ tally Frame.looks u.frames := by
    rw [hu, tally_append, tally_append]
    omega
  have hle : tally Frame.holds t.frames ≤ tally Frame.looks t.frames :=
    tally_mono fun f _ => holds_le_looks f
  simp only [tally_cons, tally_nil] at hholds hlooks
  refine ⟨huse, fun hset => ?_, fun hpos => ?_⟩
  · unfold tokens
    rcases hheld with hclear | hpos | ⟨h₁, h₂, h₃⟩
    · simp [hset] at hclear
    · omega
    · have := h.held (h₁ ▸ hset)
      unfold tokens at this
      omega
  · rcases hlooked with hle | hpos' | ⟨hset, h0, h₁⟩ | ⟨h₁, h₂, h₃, h₄⟩
    · omega
    · omega
    · -- the flag was set: its holder will look
      have hle' : tally Frame.holds u.frames ≤ tally Frame.looks u.frames :=
        tally_mono fun f _ => holds_le_looks f
      have := h.held hset
      unfold tokens at this
      omega
    · have := h.looked (h₂ ▸ hpos)
      omega

theorem Awake.call (h : Awake t) (hs : t.frames = pre ++ [] ++ post)
    (hu : u.frames = pre ++ new ++ post) (hkill : a ≠ .killSession) (hzero : a ≠ .sendDone 0)
    (hc : Send.call t.shared a = some (u.shared, new)) : Awake u := by
  obtain ⟨huse, hflag, hsize, hsends, hnotes⟩ := call_awake hc hkill hzero
  have hholds := Program.tally_step (w := Frame.holds) hs hu
  have hlooks := Program.tally_step (w := Frame.looks) hs hu
  simp only [tally_nil] at hholds hlooks
  refine ⟨huse.trans h.use, fun hset => ?_, fun hpos => ?_⟩
  · have := h.held (hflag ▸ hset)
    unfold tokens at this ⊢
    omega
  · have := h.looked (hsize ▸ hpos)
    omega

/-- **Somebody always looks again.** -/
theorem awake (h : (system sendBuffer).ReachableVia Smooth t) : Awake t := by
  refine h.invariant₂ (J := Covered) covered ?_ ?_
  · rintro _ ⟨n, rfl⟩
    refine ⟨rfl, ?_, ?_⟩ <;> simp [initSession]
  · rintro s l t hcov - ih ⟨hkill, hrefused, hzero⟩ hst
    obtain ⟨pre, old, new, post, hs, ht, hf, -⟩ := Program.step_frames hst
    cases hf with
    | call hc => exact ih.call hs ht hkill hzero hc
    | exec he => exact ih.exec hcov hs ht hrefused he

/-- **No wake-up is lost.** In the runs of a session that is not killed and whose sends all succeed
and complete with more than 0 bytes, `SendQ` is empty and `SendFlag` clear in every state in which
no function is running, no notification is posted and no send is outstanding. -/
theorem no_lost_wakeUp (h : (system sendBuffer).ReachableVia Smooth t) (hq : t.Quiet)
    (hnotes : t.shared.notes = 0) (hsends : t.shared.sends = 0) :
    t.shared.queue = [] ∧ t.shared.sendFlag = false := by
  obtain ⟨-, hheld, hlooked⟩ := awake h
  have hlen := queue_length_eq h
  have hnonneg := (covered h).nonneg
  rw [Threads.Quiet] at hq
  rw [hq, tally_nil] at hlooked hlen
  rw [tokens, hq, tally_nil] at hheld
  refine ⟨List.length_eq_zero_iff.1 (by omega), ?_⟩
  by_contra hset
  have := hheld (by simpa using hset)
  omega

/-- `Smooth`, decided. -/
def smooth (_ : Threads SendSide Frame) (l : ℕ × Act) : Bool :=
  l.2 ≠ .killSession && l.2 ≠ .refused && l.2 ≠ .sendDone 0

theorem smooth_spec (t : Threads SendSide Frame) (l : ℕ × Act) (h : smooth t l = true) :
    Smooth t l := by
  simpa [smooth, Smooth, and_assoc] using h

theorem no_lost_wakeUp_one :
    ∃ t, (system fun _ => 0).ReachableVia Smooth t ∧ t.shared.sent = [7] ∧ t.shared.queue = [] ∧
      t.shared.sendFlag = false := by
  obtain ⟨t, ht, hp⟩ := Lts.exists_reachableVia_of_run (M := system fun _ => 0)
    smooth_spec ⟨2, rfl⟩
    (sending 0 7 ++ [(1, .note)] ++ List.replicate 10 (1, .next) ++ [(1, .posted), (1, .next)] ++
      [(1, .sendDone 5)] ++ List.replicate 9 (1, .next))
    (p := fun t => decide (t.Quiet ∧ t.shared.notes = 0 ∧ t.shared.sends = 0 ∧
      t.shared.sent = [7])) (by decide +kernel)
  obtain ⟨hq, hnotes, hsends, hsent⟩ := of_decide_eq_true hp
  exact ⟨t, ht, hsent, no_lost_wakeUp ht hq hnotes hsends⟩

end NetworkLibrary.Send
