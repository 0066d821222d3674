import NetworkLibrary.Session.References

/-!
# Who may change the slot

Nothing locks a session. What orders the functions that work on it is that each of them relies on
one value of `ReleaseArr[0]` (`relies`): those that hold a reference and have seen it FALSE rely
on it staying FALSE, those that release or initialise the slot rely on it staying TRUE. The first
are safe because the compare-and-swap of `DisconnectSession` needs a count of 0; the second
because only one of them exists at a time.

The latter is the custody of the slot, a token that is passed on: from `FreeSessionStack` to
`InitSession`, to the accepting thread, with the posted receive to the worker that handles it and
back with the next post. It ends when no receive is posted again, and the compare-and-swap that
releases the slot, which then finds no reference and hence no token, creates it anew
(`Custody.token_le`).
-/

namespace NetworkLibrary.Session

open Foundations

/-- The value of `ReleaseArr[0]` that a frame relies on. -/
def Frame.relies : Frame → Option Bool
  | .killInc _ | .killFlag _ | .staleDec _ | .sendInc _ | .sendFlag _ | .discCas _ => none
  | .discLeave _ | .inLeave _ | .relMask _ | .relClose _ | .relDrain _ | .relPush _ => some true
  | .initUse | .initDraw | .initID _ | .initQueues _ | .initInc _ | .initActive _ => some true
  | _ => some false

/-- The generation a frame works on. -/
def Frame.gen : Frame → Option ℕ
  | .killInc _ | .killFlag _ | .killID _ | .staleDec _ => none
  | .sendInc _ | .sendFlag _ | .sendID _ | .discCas _ => none
  | .initUse | .initDraw | .initID _ => none
  | .killUse _ g | .killCancel _ g | .killDec _ g | .sendEnqueue _ g | .sendPost _ g => some g
  | .discLeave g | .inLeave g | .relMask g | .relClose g | .relDrain g | .relPush g => some g
  | .initQueues g | .initInc g | .initActive g | .openSocket g | .openJoin g | .inJoin g => some g
  | .recvUse g | .recvBuf g | .recvInc g | .wsaRecv g => some g
  | .recvUndo g | .recvRecheck g | .recvCancel g => some g
  | .recvMove g | .recvCheck g | .recvGet g | .recvCall g | .inRecv g | .recvShift g => some g
  | .sent g | .postInc g | .postUse g | .postFlag g | .wsaSend g => some g
  | .postUndo g | .postRecheck g | .postCancel g | .endDec g => some g

/-- The token a frame holds: the custody of the slot. -/
def Frame.token : Frame → ℕ
  | .discLeave _ | .inLeave _ | .relMask _ | .relClose _ | .relDrain _ | .relPush _ => 1
  | .initUse | .initDraw | .initID _ | .initQueues _ | .initInc _ | .initActive _ => 1
  | .openSocket _ | .openJoin _ | .inJoin _ => 1
  | .recvUse _ | .recvBuf _ | .recvInc _ | .wsaRecv _ => 1
  | .recvMove _ | .recvCheck _ | .recvGet _ | .recvCall _ | .inRecv _ | .recvShift _ => 1
  | _ => 0

variable {f : Frame}

theorem holds_pos_of_relies (h : f.relies = some false) : 0 < f.holds := by
  cases f <;> simp_all [Frame.relies, Frame.holds]

theorem token_of_relies (h : f.relies = some true) : f.token = 1 := by
  cases f <;> simp_all [Frame.relies, Frame.token]

theorem relies_of_token (h : 0 < f.token) : ∃ b, f.relies = some b := by
  cases f <;> simp_all [Frame.relies, Frame.token]

theorem relies_of_gen {g : ℕ} (h : f.gen = some g) : ∃ b, f.relies = some b := by
  cases f <;> simp_all [Frame.relies, Frame.gen]

/-- The tokens outside the frames: on `FreeSessionStack` and with the posted receive. -/
def Slot.stock (s : Slot) : ℕ := s.freeCnt + s.recvs.length

/-- The generations that operations are outstanding or notifications posted for. -/
def Slot.pendingGens (s : Slot) : List ℕ :=
  s.recvs.map (·.gen) ++ s.sends.map (·.gen) ++ s.notes

/-- All tokens. -/
def tokens (t : Threads Slot Frame) : ℕ := t.shared.stock + tally Frame.token t.frames

/-- The custody of the slot, and what every function relies on. -/
structure Custody (t : Threads Slot Frame) : Prop where
  /-- There is at most one token, -/
  token_le : tokens t ≤ 1
  /-- and exactly one while the slot is released. -/
  token_eq : t.shared.releaseFlag = true → tokens t = 1
  free : 0 < t.shared.freeCnt → t.shared.releaseFlag = true
  flag : ∀ f ∈ t.frames, ∀ b, f.relies = some b → t.shared.releaseFlag = b
  pending : 0 < t.shared.pending → t.shared.releaseFlag = false
  gen : ∀ f ∈ t.frames, ∀ g, f.gen = some g → g + 1 = t.shared.issued.length
  pendingGen : ∀ g ∈ t.shared.pendingGens, g + 1 = t.shared.issued.length
  issued : t.shared.releaseFlag = false → 0 < t.shared.issued.length

/-! ## One statement -/

variable {host : Host} {slot : UInt16} {s s' : Slot} {a : Act} {new : List Frame}

/-- The statements that change `ReleaseArr[0]` or give the slot an ID. -/
theorem exec_effect (h : exec host s f a = some (s', new)) :
    (s'.releaseFlag = s.releaseFlag ∧ s'.issued = s.issued) ∨
      (∃ c, f = .discCas c ∧ s.releaseFlag = false ∧ s.refCnt = 0 ∧
        s' = { s with releaseFlag := true, released := s.released ++ [(s.gen, c)] } ∧
        new = [.discLeave s.gen]) ∨
      (∃ g, f = .initActive g ∧ s' = { s with releaseFlag := false } ∧ new = [.openSocket g]) ∨
      ∃ n, f = .initID n ∧ new = [.initQueues s.issued.length] ∧
        s' = { s with sessionID := s.sessionID ||| n, issued := s.issued ++ [s.sessionID ||| n] } := by
  revert h
  fun_cases exec host s f a <;> intro h <;> cases h <;> simp_all

theorem call_effect (h : call s a = some (s', new)) :
    s'.releaseFlag = s.releaseFlag ∧ s'.issued = s.issued := by
  revert h
  fun_cases call s a <;> intro h <;> cases h <;> simp

/-- The token is passed on, unless the code does not post a receive again. -/
theorem exec_token (h : exec host s f a = some (s', new))
    (hflag : s'.releaseFlag = s.releaseFlag) :
    s'.stock + tally Frame.token new = s.stock + f.token ∨
      s'.stock + tally Frame.token new ≤ s.stock + f.token ∧ f.relies = some false := by
  revert h
  fun_cases exec host s f a <;> intro h <;> cases h <;>
    simp_all [Frame.token, Frame.relies, Slot.stock] <;> omega

theorem call_token (h : call s a = some (s', new)) :
    s'.stock + tally Frame.token new = s.stock ∨
      s'.stock + tally Frame.token new ≤ s.stock ∧ 0 < s.pending := by
  revert h
  fun_cases call s a <;> intro h <;> cases h
  all_goals try have hk := List.length_eraseIdx_add_one (List.getElem?_eq_some_iff.1 ‹_›).1
  all_goals simp_all [Frame.token, Slot.stock, Slot.pending]
  all_goals omega

/-- What the new frames rely on holds after the statement. -/
theorem exec_relies (h : exec host s f a = some (s', new))
    (hf : ∀ b, f.relies = some b → s.releaseFlag = b) :
    ∀ f' ∈ new, ∀ b, f'.relies = some b → s'.releaseFlag = b := by
  revert h
  fun_cases exec host s f a <;> intro h <;> cases h <;> simp_all [Frame.relies]

theorem exec_gen (h : exec host s f a = some (s', new))
    (hf : ∀ g, f.gen = some g → g + 1 = s.issued.length)
    (hpos : s.releaseFlag = false → 0 < s.issued.length)
    (hr : ∀ b, f.relies = some b → s.releaseFlag = b) :
    ∀ f' ∈ new, ∀ g, f'.gen = some g → g + 1 = s'.issued.length := by
  revert h
  fun_cases exec host s f a <;> intro h <;> cases h <;>
    simp_all [Frame.gen, Slot.gen, Frame.relies] <;>
    omega

theorem exec_pending (h : exec host s f a = some (s', new)) :
    (s'.pending = s.pending ∨ f.relies = some false) ∧
      ∀ g ∈ s'.pendingGens, g ∈ s.pendingGens ∨ f.gen = some g := by
  revert h
  fun_cases exec host s f a <;> intro h <;> cases h <;>
    simp_all [Frame.gen, Frame.relies, Slot.pending, Slot.pendingGens, Function.comp_def] <;>
    grind

theorem call_pending (h : call s a = some (s', new)) :
    (∀ g ∈ s'.pendingGens, g ∈ s.pendingGens) ∧
      ∀ f ∈ new, ∀ g, f.gen = some g → g ∈ s.pendingGens := by
  revert h
  fun_cases call s a <;> intro h <;> cases h
  all_goals try have hk := List.mem_of_getElem? ‹_›
  all_goals simp_all [Frame.gen, Slot.pendingGens]
  all_goals grind [List.mem_of_mem_eraseIdx]

theorem call_relies (h : call s a = some (s', new)) :
    s'.pending ≤ s.pending ∧ (s'.freeCnt ≤ s.freeCnt) ∧
      ∀ f ∈ new, ∀ b, f.relies = some b → (b = true ∧ 0 < s.freeCnt ∨ b = false ∧ 0 < s.pending) := by
  revert h
  fun_cases call s a <;> intro h <;> cases h
  all_goals try have hk := List.length_eraseIdx_add_one (List.getElem?_eq_some_iff.1 ‹_›).1
  all_goals simp_all [Frame.relies, Slot.pending]
  all_goals omega

theorem exec_freeCnt (h : exec host s f a = some (s', new)) :
    s'.freeCnt = s.freeCnt ∨ f.relies = some true ∧ s'.releaseFlag = s.releaseFlag := by
  revert h
  fun_cases exec host s f a <;> intro h <;> cases h <;> simp_all [Frame.relies]

/-! ## Runs -/

/-- The references counted, as an assumption on a state. -/
def Counted (t : Threads Slot Frame) : Prop :=
  t.shared.refCnt = t.shared.pending + tally Frame.holds t.frames

variable {t u : Threads Slot Frame} {l : ℕ × Act} {pre old post : List Frame}

/-- An active slot with a count of 0 is in nobody's hands. -/
theorem Custody.unheld (h : Custody t) (hc : Counted t) (hflag : t.shared.releaseFlag = false)
    (hz : t.shared.refCnt = 0) :
    tokens t = 0 ∧ t.shared.pending = 0 ∧ ∀ f ∈ t.frames, f.relies = none := by
  have hp : t.shared.pending = 0 := by unfold Counted at hc; omega
  have hh : tally Frame.holds t.frames = 0 := by unfold Counted at hc; omega
  have hnone : ∀ f ∈ t.frames, f.relies = none := by
    intro f hf
    cases hb : f.relies with
    | none => rfl
    | some b =>
      obtain rfl : false = b := hflag ▸ h.flag f hf b hb
      have := holds_pos_of_relies hb
      have := tally_eq_zero.1 hh f hf
      omega
  refine ⟨?_, hp, hnone⟩
  have htok : tally Frame.token t.frames = 0 := tally_eq_zero.2 fun f hf => by
    by_contra hne
    obtain ⟨b, hb⟩ := relies_of_token (Nat.pos_of_ne_zero hne)
    simp [hnone f hf] at hb
  have hfree : t.shared.freeCnt = 0 := by
    by_contra hne
    simp [h.free (Nat.pos_of_ne_zero hne)] at hflag
  have hrecv : t.shared.recvs.length = 0 := by unfold Slot.pending at hp; omega
  unfold tokens Slot.stock
  omega

/-- Two frames cannot both hold the token. -/
theorem Custody.token_rest (h : Custody t) (hs : t.frames = pre ++ [f] ++ post) (hf : f.token = 1)
    {f' : Frame} (hf' : f' ∈ pre ++ post) : f'.token = 0 := by
  have h₁ := Program.add_le_tally (w := Frame.token) hs hf'
  have h₂ := h.token_le
  simp only [tally_cons, tally_nil, hf, tokens] at h₁ h₂
  omega

/-- The other frames can go on relying on `ReleaseArr[0]`, and on their generation. -/
theorem Custody.exec_rest (h : Custody t) (hc : Counted t) (hs : t.frames = pre ++ [f] ++ post)
    (he : exec host t.shared f a = some (s', new)) {f' : Frame} (hf' : f' ∈ pre ++ post) :
    (∀ b, f'.relies = some b → s'.releaseFlag = b) ∧
      ∀ g, f'.gen = some g → g + 1 = s'.issued.length := by
  have hmem : f' ∈ t.frames := by
    rw [hs]
    simp only [List.mem_append] at hf' ⊢
    tauto
  have hself : f ∈ t.frames := by rw [hs]; simp
  have hflag := h.flag f' hmem
  have hgen := h.gen f' hmem
  -- a frame that relies on TRUE holds the token, so it cannot be there beside another such frame
  have alone : f.relies = some true → f'.relies ≠ some true := fun h₁ h₂ => by
    have := h.token_rest hs (token_of_relies h₁) hf'
    rw [token_of_relies h₂] at this
    cases this
  rcases exec_effect he with ⟨h₁, h₂⟩ | ⟨c, rfl, h₁, h₂, rfl, -⟩ | ⟨g, rfl, rfl, -⟩ | ⟨n, rfl, -, rfl⟩
  · exact ⟨fun b hb => h₁ ▸ hflag b hb, fun g hg => h₂ ▸ hgen g hg⟩
  · have hnone := (h.unheld hc h₁ h₂).2.2 f' hmem
    refine ⟨fun b hb => by simp [hnone] at hb, fun g hg => hgen g hg⟩
  · refine ⟨fun b hb => ?_, hgen⟩
    cases b with
    | false => rfl
    | true => exact absurd hb (alone rfl)
  · refine ⟨hflag, fun g hg => ?_⟩
    obtain ⟨b, hb⟩ := relies_of_gen hg
    have h₁ := h.flag _ hself true rfl
    obtain rfl : b = true := by rw [← hflag b hb, h₁]
    exact absurd hb (alone rfl)

theorem pending_pos_of_mem {g : ℕ} (h : g ∈ s.pendingGens) : 0 < s.pending := by
  have := List.length_pos_of_mem h
  simpa [Slot.pendingGens, Slot.pending, Nat.add_assoc] using this

theorem Custody.exec (h : Custody t) (hc : Counted t) (hs : t.frames = pre ++ [f] ++ post)
    (hu : u.frames = pre ++ new ++ post)
    (he : Session.exec host t.shared f a = some (u.shared, new)) : Custody u := by
  have hself : f ∈ t.frames := by rw [hs]; simp
  have htok := Program.tally_step (w := Frame.token) hs hu
  have hflag' : ∀ f' ∈ u.frames, ∀ b, f'.relies = some b → u.shared.releaseFlag = b :=
    Program.forall_frames_step hs hu (fun _ _ => trivial) (exec_relies he (h.flag f hself))
      fun f' hf' _ => (h.exec_rest hc hs he hf').1
  have hgen' : ∀ f' ∈ u.frames, ∀ g, f'.gen = some g → g + 1 = u.shared.issued.length :=
    Program.forall_frames_step hs hu (fun _ _ => trivial)
      (exec_gen he (h.gen f hself) h.issued (h.flag f hself))
      fun f' hf' _ => (h.exec_rest hc hs he hf').2
  have hle := h.token_le
  have heq := h.token_eq
  have hrel := h.flag f hself
  obtain ⟨hpend, hpendGen⟩ := exec_pending he
  simp only [tally_cons, tally_nil, tokens] at htok hle heq
  rcases exec_effect he with ⟨h₁, h₂⟩ | ⟨c, rfl, h₁, h₂, hu', rfl⟩ | ⟨g, rfl, hu', rfl⟩ |
    ⟨n, rfl, rfl, hu'⟩
  · have hstock := exec_token he h₁
    refine ⟨?_, fun hb => ?_, fun hpos => ?_, hflag', fun hpos => ?_, hgen', fun g hg => ?_, ?_⟩
    · unfold tokens
      omega
    · have hb' : t.shared.releaseFlag = true := h₁ ▸ hb
      have := heq hb'
      rcases hstock with hstock | ⟨-, hfalse⟩
      · unfold tokens
        omega
      · simp [hrel _ hfalse] at hb'
    · rcases exec_freeCnt he with hfree | ⟨htrue, -⟩
      · exact h₁ ▸ h.free (hfree ▸ hpos)
      · exact h₁ ▸ hrel _ htrue
    · rcases hpend with hpend | hfalse
      · exact h₁ ▸ h.pending (hpend ▸ hpos)
      · exact h₁ ▸ hrel _ hfalse
    · rcases hpendGen g hg with hg | hg
      · exact h₂ ▸ h.pendingGen g hg
      · exact h₂ ▸ h.gen f hself g hg
    · rw [h₁, h₂]
      exact h.issued
  · -- the compare-and-swap finds no token and no operation, and creates the token
    obtain ⟨hno, hp, -⟩ := h.unheld hc h₁ h₂
    have hp' : u.shared.pending = 0 := by rw [hu']; exact hp
    have hone : tokens u = 1 := by
      have hst : u.shared.stock = t.shared.stock := by rw [hu']; rfl
      simp only [Frame.token, tally_cons, tally_nil, tokens] at htok hno ⊢
      omega
    have htrue : u.shared.releaseFlag = true := by rw [hu']
    exact ⟨hone.le, fun _ => hone, fun _ => htrue, hflag', fun hpos => by omega, hgen',
      fun g hg => by have := pending_pos_of_mem hg; omega, fun hb => by simp [htrue] at hb⟩
  · -- `ReleaseArr[0] = FALSE`
    have hst : u.shared.stock = t.shared.stock := by rw [hu']; rfl
    have hfalse : u.shared.releaseFlag = false := by rw [hu']
    have hlen : u.shared.issued = t.shared.issued := by rw [hu']
    simp only [Frame.token, tally_cons, tally_nil] at htok
    have hself' := le_tally_of_mem (w := Frame.token) hself
    simp only [Frame.token] at hself'
    refine ⟨?_, fun hb => by simp [hfalse] at hb, fun hpos => ?_, hflag', fun _ => hfalse, hgen',
      fun g hg => ?_, fun _ => ?_⟩
    · unfold tokens
      omega
    · rw [hu'] at hpos
      simp only [Slot.stock] at hle
      dsimp only at hpos
      omega
    · rw [hu'] at hg
      exact hlen ▸ h.pendingGen g hg
    · have := h.gen _ hself g rfl
      rw [hlen]
      omega
  · -- the slot gets its next ID: nothing is outstanding
    have hst : u.shared.stock = t.shared.stock := by rw [hu']; rfl
    have hflag : u.shared.releaseFlag = t.shared.releaseFlag := by rw [hu']
    have htrue : t.shared.releaseFlag = true := hrel true rfl
    have hp : t.shared.pending = 0 := by
      by_contra hne
      simp [h.pending (Nat.pos_of_ne_zero hne)] at htrue
    have hp' : u.shared.pending = 0 := by rw [hu']; exact hp
    have := heq htrue
    simp only [Frame.token, tally_cons, tally_nil] at htok
    refine ⟨?_, fun _ => ?_, fun _ => hflag ▸ htrue, hflag', fun hpos => by omega, hgen',
      fun g hg => by have := pending_pos_of_mem hg; omega, fun hb => by simp [hflag, htrue] at hb⟩
    all_goals
      unfold tokens
      omega

theorem Custody.call (h : Custody t) (hs : t.frames = pre ++ [] ++ post)
    (hu : u.frames = pre ++ new ++ post)
    (hcall : Session.call t.shared a = some (u.shared, new)) : Custody u := by
  have htok := Program.tally_step (w := Frame.token) hs hu
  obtain ⟨h₁, h₂⟩ := call_effect hcall
  obtain ⟨hpend, hfree, hrelies⟩ := call_relies hcall
  obtain ⟨hgens, hgen⟩ := call_pending hcall
  have hle := h.token_le
  have heq := h.token_eq
  simp only [tally_nil, tokens] at htok hle heq
  have hstock := call_token hcall
  refine ⟨?_, fun hb => ?_, fun hpos => h₁ ▸ h.free (by omega), ?_,
    fun hpos => h₁ ▸ h.pending (by omega), ?_, fun g hg => h₂ ▸ h.pendingGen g (hgens g hg), ?_⟩
  · unfold tokens
    omega
  · have hb' : t.shared.releaseFlag = true := h₁ ▸ hb
    have := heq hb'
    rcases hstock with hstock | ⟨-, hpos⟩
    · unfold tokens
      omega
    · simp [h.pending hpos] at hb'
  · refine Program.forall_frames_step hs hu h.flag (fun f hf b hb => ?_) fun f _ hf b hb =>
      h₁ ▸ hf b hb
    rcases hrelies f hf b hb with ⟨rfl, hpos⟩ | ⟨rfl, hpos⟩
    · exact h₁ ▸ h.free hpos
    · exact h₁ ▸ h.pending hpos
  · exact Program.forall_frames_step hs hu h.gen
      (fun f hf g hg => h₂ ▸ h.pendingGen g (hgen f hf g hg)) fun f _ hf g hg => h₂ ▸ hf g hg
  · rw [h₁, h₂]
    exact h.issued

/-- **The slot is in custody in every reachable state.** -/
theorem custody {ok : Threads Slot Frame → ℕ × Act → Prop}
    (h : (system host slot).ReachableVia ok t) : Custody t := by
  refine h.invariant₂ (J := Counted) refCnt_eq ?_ ?_
  · rintro _ ⟨n, rfl⟩
    refine ⟨?_, fun _ => ?_, fun _ => rfl, ?_, ?_, ?_, ?_, ?_⟩ <;>
      simp [tokens, start, Slot.stock, Slot.pending, Slot.pendingGens]
  · intro s l t hc _ ih _ hst
    obtain ⟨pre, old, new, post, hs, ht, hf, -⟩ := Program.step_frames hst
    cases hf with
    | call hcall => exact ih.call hs ht hcall
    | exec he => exact ih.exec hc hs ht he

end NetworkLibrary.Session
