import NetworkLibrary.Send.Post
import Mathlib.Tactic.Linarith

/-!
# One send at a time, in order

`SendFlag` is the token of the send side: it is held by the statements of `SendPost` between the
exchange that took it and `WSASend`, then by the outstanding send, and by the handler of its
completion until it clears the flag. The flag may be set without a holder, after a refused `WSASend`
or a completion of 0 bytes; then nothing is sent any more. `Ledger` says where the packets are that
were enqueued and not yet sent, `Covered` that the holder dequeues no more packets than `Size`
counts.
-/

namespace NetworkLibrary.Send

open Foundations

/-- A frame that holds `SendFlag`. -/
def Frame.holds : Frame → ℕ
  | .sentFree | .sentCnt | .sentFlag | .readSize | .loop _ | .clearFlag => 1
  | .drain _ _ | .dequeueSize _ _ | .dequeuePop _ _ | .dequeueUndo | .crash => 1
  | .store _ _ _ | .setCnt _ | .wsaSend _ => 1
  | _ => 0

/-- A frame whose packet is in the queue but not in `Size`. -/
def Frame.lags : Frame → ℕ
  | .enqueueSize | .dequeuePop _ _ | .dequeueUndo => 1
  | _ => 0

/-- The packets that a frame has taken off the queue. -/
def Frame.inHand : Frame → List ℕ
  | .drain _ buf | .dequeueSize _ buf | .dequeuePop _ buf | .setCnt buf | .wsaSend buf => buf
  | .store _ buf p => buf ++ [p]
  | _ => []

/-- A frame dequeues no more packets than `Size` counts. -/
def Frame.covered (size : ℤ) : Frame → Prop
  | .loop n | .drain n _ | .dequeuePop n _ | .store n _ _ => 0 ≤ n ∧ n ≤ size
  | .dequeueSize n _ => 0 ≤ n ∧ n + 1 ≤ size
  | .dequeueUndo | .crash => False
  | _ => True

/-- A frame that is about to write `SendBuffer` or `SendPacketCnt`. -/
def Frame.writes : Frame → Bool
  | .sentCnt | .store _ _ _ | .setCnt _ => true
  | _ => false

variable {f : Frame} {s s' : SendSide} {a : Act} {new : List Frame}

theorem holds_le_one : f.holds ≤ 1 := by
  cases f <;> simp [Frame.holds]

theorem covered_of_holds_eq_zero {size : ℤ} (h : f.holds = 0) : f.covered size := by
  cases f <;> simp_all [Frame.covered, Frame.holds]

theorem covered_mono {m n : ℤ} (h : f.covered m) (hle : m ≤ n) : f.covered n := by
  cases f <;> grind [Frame.covered]

theorem holds_of_writes (h : f.writes = true) : f.holds = 1 := by
  cases f <;> simp_all [Frame.writes, Frame.holds]

/-- Only the statements that `writes` names write `SendBuffer` and `SendPacketCnt`. -/
theorem exec_writes (h : exec s f a = some (s', new)) :
    f.writes = true ∨ s'.sendBuffer = s.sendBuffer ∧ s'.sendPacketCnt = s.sendPacketCnt := by
  revert h
  fun_cases exec s f a <;> intro h <;> cases h <;> simp [Frame.writes]

theorem call_writes (h : call s a = some (s', new)) :
    s'.sendBuffer = s.sendBuffer ∧ s'.sendPacketCnt = s.sendPacketCnt := by
  revert h
  fun_cases call s a <;> intro h <;> cases h <;> simp

/-! ## `Size` and the queue -/

theorem exec_lags (h : exec s f a = some (s', new)) :
    (s'.queue.length - s'.size : ℤ) + f.lags = s.queue.length - s.size + tally Frame.lags new := by
  revert h
  fun_cases exec s f a <;> intro h <;> cases h
  all_goals simp_all [Frame.lags]
  all_goals omega

theorem call_lags (h : call s a = some (s', new)) :
    s'.queue = s.queue ∧ s'.size = s.size ∧ tally Frame.lags new = 0 := by
  revert h
  fun_cases call s a <;> intro h <;> cases h <;> simp [Frame.lags]

variable {sendBuffer : ℕ → ℕ} {t u : Threads SendSide Frame} {pre post : List Frame}

/-- `Size` counts the packets in the queue, less those whose `Enqueue` has not raised it yet and
those whose `Dequeue` has already lowered it. -/
theorem queue_length_eq {ok : Threads SendSide Frame → ℕ × Act → Prop}
    (h : (system sendBuffer).ReachableVia ok t) :
    (t.shared.queue.length : ℤ) = t.shared.size + tally Frame.lags t.frames := by
  have := Program.conserved (P := program) (fun s => s.queue.length - s.size) Frame.lags
    (fun g a old g' new hf => by
      cases hf with
      | call hc =>
        obtain ⟨h₁, h₂, h₃⟩ := call_lags hc
        simp [h₁, h₂, h₃]
      | exec he => simpa using exec_lags he) h
  simp only [initSession, List.length_nil] at this
  omega

/-! ## The holder of `SendFlag` -/

/-- All tokens. -/
def tokens (t : Threads SendSide Frame) : ℕ := t.shared.sends + tally Frame.holds t.frames

/-- What a statement does to `SendFlag` and to the tokens. -/
theorem exec_holds (h : exec s f a = some (s', new)) :
    (s'.sendFlag = s.sendFlag ∧ s'.sends + tally Frame.holds new ≤ s.sends + f.holds) ∨
      (s.sendFlag = false ∧ s'.sendFlag = true ∧ s'.sends = s.sends ∧
        tally Frame.holds new = f.holds + 1) ∨
      (s'.sendFlag = false ∧ s'.sends = s.sends ∧ tally Frame.holds new = 0 ∧ f.holds = 1) := by
  revert h
  fun_cases exec s f a <;> intro h <;> cases h <;> simp_all [Frame.holds]

theorem call_holds (h : call s a = some (s', new)) :
    s'.sendFlag = s.sendFlag ∧ s'.sends + tally Frame.holds new ≤ s.sends := by
  revert h
  fun_cases call s a <;> intro h <;> cases h
  all_goals refine ⟨rfl, ?_⟩
  all_goals simp only [tally_cons, tally_nil, Frame.holds]
  all_goals omega

/-- **`SendFlag` has at most one holder**, and none while it is clear. -/
theorem tokens_le {ok : Threads SendSide Frame → ℕ × Act → Prop}
    (h : (system sendBuffer).ReachableVia ok t) :
    tokens t ≤ 1 ∧ (t.shared.sendFlag = false → tokens t = 0) := by
  refine h.invariant
    (I := fun t => tokens t ≤ 1 ∧ (t.shared.sendFlag = false → tokens t = 0)) ?_ ?_
  · rintro _ ⟨n, rfl⟩
    simp [tokens, initSession]
  · rintro s l t ⟨hle, hzero⟩ - hst
    obtain ⟨pre, old, new, post, hs, ht, hf, -⟩ := Program.step_frames hst
    have htally := Program.tally_step (w := Frame.holds) hs ht
    unfold tokens at hle hzero ⊢
    cases hf with
    | call hcall =>
      obtain ⟨h₁, h₂⟩ := call_holds hcall
      rw [tally_nil] at htally
      refine ⟨by omega, fun hclear => ?_⟩
      have := hzero (h₁ ▸ hclear)
      omega
    | exec he =>
      simp only [tally_cons, tally_nil] at htally
      rcases exec_holds he with ⟨h₁, h₂⟩ | ⟨h₁, h₂, h₃, h₄⟩ | ⟨h₁, h₂, h₃, h₄⟩
      · refine ⟨by omega, fun hclear => ?_⟩
        have := hzero (h₁ ▸ hclear)
        omega
      · have := hzero h₁
        exact ⟨by omega, fun hclear => by simp [h₂] at hclear⟩
      · exact ⟨by omega, fun _ => by omega⟩

/-- Two frames cannot both hold `SendFlag`. -/
theorem holds_rest (h : tokens t ≤ 1) (hs : t.frames = pre ++ [f] ++ post) (hf : f.holds = 1)
    {f' : Frame} (hf' : f' ∈ pre ++ post) : f'.holds = 0 := by
  have := Program.add_le_tally (w := Frame.holds) hs hf'
  simp only [tally_cons, tally_nil, tokens] at this h
  omega

/-! ## No `Dequeue` fails -/

/-- The holder dequeues no more than `Size` counts, and has not met an empty queue. -/
structure Covered (t : Threads SendSide Frame) : Prop where
  nonneg : 0 ≤ t.shared.size
  frame : ∀ f ∈ t.frames, f.covered t.shared.size
  crashed : t.shared.crashed = false

theorem exec_covered (h : exec s f a = some (s', new)) (hnonneg : 0 ≤ s.size)
    (hf : f.covered s.size) :
    0 ≤ s'.size ∧ (∀ f' ∈ new, f'.covered s'.size) ∧ s'.crashed = s.crashed ∧
      (s.size ≤ s'.size ∨ f.holds = 1) := by
  revert h
  fun_cases exec s f a <;> intro h <;> cases h <;> simp_all [Frame.covered, Frame.holds] <;> omega

theorem call_covered (h : call s a = some (s', new)) :
    s'.size = s.size ∧ s'.crashed = s.crashed ∧ ∀ f ∈ new, ∀ n, f.covered n := by
  revert h
  fun_cases call s a <;> intro h <;> cases h <;> simp [Frame.covered]

/-- **`Dequeue` never fails in `SendPost`.** -/
theorem covered {ok : Threads SendSide Frame → ℕ × Act → Prop}
    (h : (system sendBuffer).ReachableVia ok t) : Covered t := by
  refine h.invariant₂ (J := fun t => tokens t ≤ 1) (fun h => (tokens_le h).1) ?_ ?_
  · rintro _ ⟨n, rfl⟩
    refine ⟨?_, ?_, ?_⟩ <;> simp [initSession]
  · intro s l t hle _ ih _ hst
    obtain ⟨pre, old, new, post, hs, ht, hf, -⟩ := Program.step_frames hst
    cases hf with
    | call hcall =>
      obtain ⟨h₁, h₂, h₃⟩ := call_covered hcall
      refine ⟨h₁ ▸ ih.nonneg, ?_, h₂.trans ih.crashed⟩
      rw [h₁]
      exact Program.forall_frames_step hs ht ih.frame (fun f hf => h₃ f hf _) fun _ _ hf => hf
    | exec he =>
      rename_i f
      obtain ⟨h₁, h₂, h₃, h₄⟩ := exec_covered he ih.nonneg (ih.frame f (by rw [hs]; simp))
      refine ⟨h₁, ?_, h₃.trans ih.crashed⟩
      refine Program.forall_frames_step hs ht ih.frame h₂ fun f' hf' hcov => ?_
      rcases h₄ with hsize | hholds
      · exact covered_mono hcov hsize
      · exact covered_of_holds_eq_zero (holds_rest hle hs hholds hf')

/-- A packet is there when `Dequeue` looks for it. -/
theorem queue_ne_nil {ok : Threads SendSide Frame → ℕ × Act → Prop}
    (h : (system sendBuffer).ReachableVia ok t) {n : ℤ} {buf : List ℕ}
    (hf : .dequeuePop n buf ∈ t.frames) : t.shared.queue ≠ [] := by
  intro hnil
  have hlen := queue_length_eq h
  have hlag := le_tally_of_mem (w := Frame.lags) hf
  have hsize := (covered h).nonneg
  simp only [Frame.lags, hnil, List.length_nil] at hlag hlen
  omega

/-! ## Where the packets are -/

/-- The packets enqueued are those sent, those in hand and those in the queue, in this order. -/
def SendSide.Holds (s : SendSide) (inHand : List ℕ) : Prop :=
  s.enqueued = s.sent ++ inHand ++ s.queue

/-- The whereabouts of the packets, as long as `SendFlag` has a holder or is clear. -/
structure Ledger (t : Threads SendSide Frame) : Prop where
  clear : t.shared.sendFlag = false → t.shared.Holds []
  out : 0 < t.shared.sends → t.shared.Holds []
  frame : ∀ f ∈ t.frames, f.holds = 1 → t.shared.Holds f.inHand
  sent : t.shared.sent <+: t.shared.enqueued

theorem exec_ledger_holder (h : exec s f a = some (s', new)) (hf : f.holds = 1)
    (hin : s.Holds f.inHand) (hset : s.sendFlag = true) (hcov : f.covered s.size) :
    (∀ f' ∈ new, f'.holds = 1 → s'.Holds f'.inHand) ∧ (s'.sendFlag = false → s'.Holds []) ∧
      (s'.sends ≤ s.sends ∨ s'.Holds []) ∧ s'.sent <+: s'.enqueued := by
  revert h
  fun_cases exec s f a <;> intro h <;> cases h <;>
    simp_all [Frame.holds, Frame.inHand, SendSide.Holds, Frame.covered]
  omega

theorem exec_ledger_other (h : exec s f a = some (s', new)) (hf : f.holds = 0) :
    (∀ l, s.Holds l → s'.Holds l) ∧
      (∀ f' ∈ new, f'.holds = 1 → f'.inHand = [] ∧ s.sendFlag = false) ∧
      (s'.sendFlag = false → s.sendFlag = false) ∧ s'.sends = s.sends ∧ s'.sent = s.sent ∧
      s.enqueued <+: s'.enqueued := by
  revert h
  fun_cases exec s f a <;> intro h <;> cases h <;>
    simp_all [Frame.holds, Frame.inHand, SendSide.Holds]

theorem call_ledger (h : call s a = some (s', new)) :
    (∀ l, s.Holds l → s'.Holds l) ∧ (∀ f ∈ new, f.holds = 1 → f.inHand = [] ∧ 0 < s.sends) ∧
      s'.sendFlag = s.sendFlag ∧ s'.sends ≤ s.sends ∧ s'.sent = s.sent ∧
      s'.enqueued = s.enqueued := by
  revert h
  fun_cases call s a <;> intro h <;> cases h <;>
    simp_all [Frame.holds, Frame.inHand, SendSide.Holds]

theorem Ledger.exec (h : Ledger t) (hle : tokens t ≤ 1)
    (hzero : t.shared.sendFlag = false → tokens t = 0) (hcov : Covered t)
    (hs : t.frames = pre ++ [f] ++ post) (hu : u.frames = pre ++ new ++ post)
    (he : Send.exec t.shared f a = some (u.shared, new)) : Ledger u := by
  have hself : f ∈ t.frames := by rw [hs]; simp
  rcases Nat.eq_zero_or_pos f.holds with h0 | h1
  · obtain ⟨hkeep, hnew, hclear, hsends, hsent, henq⟩ := exec_ledger_other he h0
    refine ⟨fun hc => hkeep _ (h.clear (hclear hc)), fun hpos => hkeep _ (h.out (hsends ▸ hpos)), ?_,
      hsent ▸ h.sent.trans henq⟩
    refine Program.forall_frames_step hs hu h.frame (fun f' hf' hh => ?_)
      fun f' _ hf' hh => hkeep _ (hf' hh)
    obtain ⟨hin, hc⟩ := hnew f' hf' hh
    exact hin ▸ hkeep _ (h.clear hc)
  · have hf : f.holds = 1 := Nat.le_antisymm holds_le_one h1
    have htok := le_tally_of_mem (w := Frame.holds) hself
    have hsends : t.shared.sends = 0 := by
      unfold tokens at hle
      omega
    have hset : t.shared.sendFlag = true := by
      by_contra hne
      have := hzero (by simpa using hne)
      unfold tokens at this
      omega
    obtain ⟨hnew, hclear, hout, hpre⟩ :=
      exec_ledger_holder he hf (h.frame f hself hf) hset (hcov.frame f hself)
    refine ⟨hclear, fun hpos => hout.resolve_left (by omega), ?_, hpre⟩
    refine Program.forall_frames_step hs hu h.frame hnew fun f' hf' _ hh => ?_
    have := holds_rest hle hs hf hf'
    omega

/-- **Every packet is accounted for**, in every reachable state. -/
theorem ledger {ok : Threads SendSide Frame → ℕ × Act → Prop}
    (h : (system sendBuffer).ReachableVia ok t) : Ledger t := by
  refine h.invariant₂ (J := fun t => (tokens t ≤ 1 ∧ (t.shared.sendFlag = false → tokens t = 0)) ∧
    Covered t) (fun h => ⟨tokens_le h, covered h⟩) ?_ ?_
  · rintro _ ⟨n, rfl⟩
    refine ⟨?_, ?_, ?_, ?_⟩ <;> simp [initSession, SendSide.Holds]
  · intro s l t hJ _ ih _ hst
    obtain ⟨pre, old, new, post, hs, ht, hf, -⟩ := Program.step_frames hst
    cases hf with
    | call hcall =>
      obtain ⟨hkeep, hnew, hflag, hsends, hsent, henq⟩ := call_ledger hcall
      refine ⟨fun hc => hkeep _ (ih.clear (hflag ▸ hc)),
        fun hpos => hkeep _ (ih.out (hpos.trans_le hsends)), ?_, by rw [hsent, henq]; exact ih.sent⟩
      refine Program.forall_frames_step hs ht ih.frame (fun f hf hh => ?_)
        fun f _ hf hh => hkeep _ (hf hh)
      obtain ⟨hin, hpos⟩ := hnew f hf hh
      exact hin ▸ hkeep _ (ih.out hpos)
    | exec he => exact ih.exec hJ.1.1 hJ.1.2 hJ.2 hs ht he

theorem writes_eq_false {ok : Threads SendSide Frame → ℕ × Act → Prop}
    (h : (system sendBuffer).ReachableVia ok t) (hpos : 0 < t.shared.sends) :
    ∀ f ∈ t.frames, f.writes = false := by
  intro f hf
  by_contra hne
  have hholds := holds_of_writes (Bool.not_eq_false _ ▸ hne)
  have hmem := le_tally_of_mem (w := Frame.holds) hf
  have hle := (tokens_le h).1
  unfold tokens at hle
  omega

/-- **Sends are made one at a time and in order.** In every reachable state at most one `WSASend`
is outstanding; the packets handed to successful `WSASend`s are a prefix of the packets enqueued;
while a send is outstanding nobody is about to write `SendBuffer` or `SendPacketCnt`, and no step
changes them; and no `Dequeue` of `SendPost` has failed. -/
theorem sends_ordered (h : (system sendBuffer).Reachable t) :
    t.shared.sends ≤ 1 ∧ t.shared.sent <+: t.shared.enqueued ∧
      (0 < t.shared.sends → (∀ f ∈ t.frames, f.writes = false) ∧
        ∀ l u, (system sendBuffer).step t l = some u →
          u.shared.sendBuffer = t.shared.sendBuffer ∧
            u.shared.sendPacketCnt = t.shared.sendPacketCnt) ∧
      t.shared.crashed = false := by
  have hle := (tokens_le h).1
  unfold tokens at hle
  refine ⟨by omega, (ledger h).sent, fun hpos => ⟨writes_eq_false h hpos, fun l u hst => ?_⟩,
    (covered h).crashed⟩
  obtain ⟨pre, old, new, post, hs, -, hf, -⟩ := Program.step_frames hst
  cases hf with
  | call hcall => exact call_writes hcall
  | exec he =>
    rename_i f
    refine (exec_writes he).resolve_left ?_
    simp [writes_eq_false h hpos f (by rw [hs]; simp)]

/-- A thread calls `SendPacket`. -/
def sending (i packet : ℕ) : List (ℕ × Act) :=
  (i, .sendPacket packet) :: List.replicate 3 (i, .next)

theorem sends_ordered_one :
    ∃ t, (system fun _ => 0).Reachable t ∧ t.shared.sends = 1 ∧ t.shared.sent = [7] ∧
      t.shared.sent <+: t.shared.enqueued ∧ t.shared.crashed = false := by
  obtain ⟨t, ht, hp⟩ := Lts.exists_reachable_of_run (M := system fun _ => 0) ⟨2, rfl⟩
    (sending 0 7 ++ [(1, .note)] ++ List.replicate 10 (1, .next) ++ [(1, .posted)])
    (p := fun t => decide (t.shared.sends = 1 ∧ t.shared.sent = [7])) (by decide +kernel)
  obtain ⟨h₁, h₂⟩ := of_decide_eq_true hp
  obtain ⟨-, hpre, -, hcrash⟩ := sends_ordered ht
  exact ⟨t, ht, h₁, h₂, hpre, hcrash⟩

end NetworkLibrary.Send
