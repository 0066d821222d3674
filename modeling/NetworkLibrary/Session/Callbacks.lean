import NetworkLibrary.Session.Generations
import Mathlib.Data.List.Induction
import Mathlib.Data.Nat.SuccPred

/-!
# The callbacks of a generation

Nothing locks a session, yet the application sees its callbacks one after the other: they are all
made by the holder of the slot's token. `Phase` is the order the application may rely on, as an
automaton; `Phased` ties the phase of the generation in the slot to the statement the holder is
about to execute, or to where the token rests.

* `callbacks_ordered`: the callbacks of a generation are a prefix of
  `OnClientJoin (OnRecv)* OnClientLeave`, each returning before the next is called, all with the
  generation's ID; one receive at most is outstanding, and `RecvQ` is in one place.
-/

namespace NetworkLibrary.Session

open Foundations

/-! ## The order of the callbacks -/

/-- Where a generation stands. -/
inductive Phase
  | fresh
  | joining
  | joined
  | receiving
  | leaving
  | left
  deriving DecidableEq

namespace Phase

/-- The callbacks that may come next. -/
def next : Phase → Event → Option Phase
  | fresh, .onClientJoin => some joining
  | joining, .onClientJoinReturn => some joined
  | joined, .onRecv => some receiving
  | receiving, .onRecvReturn => some joined
  | joined, .onClientLeave => some leaving
  | leaving, .onClientLeaveReturn => some left
  | _, _ => none

/-- `n` calls of `OnRecv`, one after the other. -/
def onRecvs (n : ℕ) : List Event := (List.replicate n [.onRecv, .onRecvReturn]).flatten

/-- The callbacks that lead to a phase. -/
def events (n : ℕ) : Phase → List Event
  | fresh => []
  | joining => [.onClientJoin]
  | joined => [.onClientJoin, .onClientJoinReturn] ++ onRecvs n
  | receiving => [.onClientJoin, .onClientJoinReturn] ++ onRecvs n ++ [.onRecv]
  | leaving => [.onClientJoin, .onClientJoinReturn] ++ onRecvs n ++ [.onClientLeave]
  | left =>
    [.onClientJoin, .onClientJoinReturn] ++ onRecvs n ++ [.onClientLeave, .onClientLeaveReturn]

theorem onRecvs_succ (n : ℕ) : onRecvs (n + 1) = onRecvs n ++ [.onRecv, .onRecvReturn] := by
  simp [onRecvs, List.replicate_succ']

theorem events_next {p q : Phase} {e : Event} (n : ℕ) (h : p.next e = some q) :
    ∃ m, p.events n ++ [e] = q.events m := by
  revert h
  fun_cases next p e <;> intro h <;> cases h
  · exact ⟨0, rfl⟩
  · exact ⟨0, rfl⟩
  · exact ⟨n, by simp [events]⟩
  · exact ⟨n + 1, by simp [events, onRecvs_succ]⟩
  · exact ⟨n, by simp [events]⟩
  · exact ⟨n, by simp [events]⟩

theorem exists_events {es : List Event} {p : Phase} (h : es.foldlM next fresh = some p) :
    ∃ n, es = p.events n := by
  induction es using List.reverseRecOn generalizing p with
  | nil =>
    obtain rfl : fresh = p := by simpa using h
    exact ⟨0, rfl⟩
  | append_singleton es e ih =>
    rw [List.foldlM_append, Option.bind_eq_bind, Option.bind_eq_some_iff] at h
    obtain ⟨q, hq, he⟩ := h
    obtain ⟨n, rfl⟩ := ih hq
    exact events_next n (by simpa using he)

theorem events_prefix (n : ℕ) (p : Phase) : ∃ m, p.events n <+: left.events m := by
  cases p with
  | fresh => exact ⟨0, List.nil_prefix⟩
  | joining => exact ⟨n, by simp [events]⟩
  | joined => exact ⟨n, List.prefix_append _ _⟩
  | receiving =>
    refine ⟨n + 1, [.onRecvReturn, .onClientLeave, .onClientLeaveReturn], ?_⟩
    simp [events, onRecvs_succ]
  | leaving => exact ⟨n, [.onClientLeaveReturn], by simp [events]⟩
  | left => exact ⟨n, List.prefix_refl _⟩

end Phase

/-! ## The phase of a generation -/

/-- The callbacks made for generation `g`. -/
def Slot.events (s : Slot) (g : ℕ) : List Event := (s.trace.filter (·.gen = g)).map (·.event)

/-- The phase that the callbacks of generation `g` have led to, if they came in order. -/
def Slot.phase (s : Slot) (g : ℕ) : Option Phase := (s.events g).foldlM Phase.next .fresh

/-- The generation in the slot, if there has been one, is in phase `p`. -/
def Slot.InPhase (s : Slot) (p : Phase) : Prop :=
  ∀ g, g + 1 = s.issued.length → s.phase g = some p

/-- The phase of the generation in the slot at a statement of the holder of the token. -/
def Frame.phase : Frame → Option Phase
  | .relMask _ | .relClose _ | .relDrain _ | .relPush _ | .initUse | .initDraw | .initID _ =>
    some .left
  | .initQueues _ | .initInc _ | .initActive _ | .openSocket _ | .openJoin _ => some .fresh
  | .inJoin _ => some .joining
  | .recvUse _ | .recvBuf _ | .recvInc _ | .wsaRecv _ => some .joined
  | .recvMove _ | .recvCheck _ | .recvGet _ | .recvCall _ | .recvShift _ => some .joined
  | .inRecv _ => some .receiving
  | .discLeave _ => some .joined
  | .inLeave _ => some .leaving
  | _ => none

variable {host : Host} {slot : UInt16} {s s' : Slot} {f : Frame} {a : Act} {new : List Frame}
  {t u : Threads Slot Frame} {pre post : List Frame}

theorem token_of_phase {p : Phase} (h : f.phase = some p) : f.token = 1 := by
  cases f <;> simp_all [Frame.phase, Frame.token]

theorem phase_log (g g' : ℕ) (e : Event) (id : ℕ) :
    (s.log g e id).phase g' = if g' = g then (s.phase g).bind (·.next e) else s.phase g' := by
  by_cases h : g' = g
  · subst h
    simp [Slot.phase, Slot.events, List.filter_append, List.foldlM_append]
  · have hne : g ≠ g' := fun he => h he.symm
    simp [Slot.phase, Slot.events, List.filter_append, h, hne]

theorem Slot.InPhase.log {p q : Phase} {e : Event} {g id : ℕ} (h : s.InPhase p)
    (hg : g + 1 = s.issued.length) (hn : p.next e = some q) : (s.log g e id).InPhase q := by
  intro g' hg'
  obtain rfl : g' = g := by simp at hg'; omega
  rw [phase_log, if_pos rfl, h g' hg]
  exact hn

/-- The phases of the generations, and what they rest on. -/
structure Phased (t : Threads Slot Frame) : Prop where
  lt : ∀ c ∈ t.shared.trace, c.gen < t.shared.issued.length
  past : ∀ g, g + 1 < t.shared.issued.length → t.shared.phase g = some .left
  frame : ∀ f ∈ t.frames, ∀ p, f.phase = some p → t.shared.InPhase p
  recv : t.shared.recvs ≠ [] → t.shared.InPhase .joined
  free : 0 < t.shared.freeCnt → t.shared.InPhase .left
  /-- No receive will be posted again, and nobody has released the slot yet. -/
  rest : t.shared.releaseFlag = false → tokens t = 0 → t.shared.InPhase .joined

theorem Slot.inPhase_fresh (hlt : ∀ c ∈ s.trace, c.gen < s.issued.length)
    (hi : s'.issued.length = s.issued.length + 1) (ht : s'.trace = s.trace) : s'.InPhase .fresh := by
  intro g hg
  have : s'.events g = [] := by
    simp only [Slot.events, ht, List.map_eq_nil_iff, List.filter_eq_nil_iff, decide_eq_true_eq]
    intro c hc
    have := hlt c hc
    omega
  rw [Slot.phase, this]
  rfl

/-- The holder of the token leaves its generation in the phase that the next holder starts from. -/
theorem exec_phase (h : exec host s f a = some (s', new))
    (hf : ∀ p, f.phase = some p → s.InPhase p) (hg : ∀ g, f.gen = some g → g + 1 = s.issued.length)
    (hlt : ∀ c ∈ s.trace, c.gen < s.issued.length) (htok : f.token = 1) :
    ∀ f' ∈ new, ∀ p, f'.phase = some p → s'.InPhase p := by
  revert h
  fun_cases exec host s f a <;> intro h <;> cases h <;> simp_all [Frame.phase, Frame.gen, Frame.token]
  case case32.refl => exact Slot.inPhase_fresh hlt (by simp) rfl
  all_goals first
    | exact hf
    | exact Slot.InPhase.log hf hg rfl

/-- A statement logs callbacks of the generation in the slot only. -/
theorem exec_past (h : exec host s f a = some (s', new))
    (hg : ∀ g, f.gen = some g → g + 1 = s.issued.length)
    (hlt : ∀ c ∈ s.trace, c.gen < s.issued.length) :
    (∀ c ∈ s'.trace, c.gen < s'.issued.length) ∧
      ∀ g, g + 1 < s.issued.length → s'.phase g = s.phase g := by
  revert h
  fun_cases exec host s f a <;> intro h <;> cases h <;>
    simp_all [Frame.gen, phase_log]
  case case32.refl => exact ⟨fun c hc => (hlt c hc).le, fun _ _ => rfl⟩
  all_goals first
    | exact fun _ _ => rfl
    | grind

/-- Where the token goes when the holder does not pass it to another frame. -/
theorem exec_lays_down (h : exec host s f a = some (s', new)) (htok : f.token = 1)
    (hnew : tally Frame.token new = 0) :
    s'.trace = s.trace ∧ s'.issued = s.issued ∧
      (f.phase = some .joined ∧ s'.freeCnt = s.freeCnt ∨
        f.phase = some .left ∧ s'.recvs = s.recvs ∧ s'.releaseFlag = s.releaseFlag ∧
          f.relies = some true) := by
  revert h
  fun_cases exec host s f a <;> intro h <;> cases h <;>
    simp_all [Frame.phase, Frame.token, Frame.relies]

theorem exec_keeps (h : exec host s f a = some (s', new))
    (hnew : f.token = 0 ∨ 0 < tally Frame.token new) :
    s'.freeCnt = s.freeCnt ∧ s'.recvs.length = s.recvs.length := by
  revert h
  fun_cases exec host s f a <;> intro h <;> cases h <;> simp_all [Frame.token]

theorem exec_releasing (h : exec host s f a = some (s', new)) (htok : f.token = 0) {p : Phase} :
    ∀ f' ∈ new, f'.phase = some p → s.releaseFlag = false ∧ s.refCnt = 0 ∧ p = .joined := by
  revert h
  fun_cases exec host s f a <;> intro h <;> cases h <;> simp_all [Frame.phase, Frame.token]

theorem call_phase (h : call s a = some (s', new)) :
    (∀ f ∈ new, ∀ p, f.phase = some p →
      p = .joined ∧ s.recvs ≠ [] ∨ p = .left ∧ 0 < s.freeCnt) ∧
      (s'.recvs ≠ [] → s.recvs ≠ []) ∧
      (s.recvs = [] → s'.stock + tally Frame.token new = s.stock) := by
  revert h
  fun_cases call s a <;> intro h <;> cases h <;>
    simp_all [Frame.phase, Frame.token, Slot.stock]
  · omega
  · rintro hnil
    simp_all

theorem token_le_one : f.token ≤ 1 := by
  cases f <;> simp [Frame.token]

theorem phase_congr (h : s'.trace = s.trace) (g : ℕ) : s'.phase g = s.phase g := by
  rw [Slot.phase, Slot.phase, Slot.events, Slot.events, h]

theorem Slot.InPhase.congr {p : Phase} (h : s.InPhase p) (ht : s'.trace = s.trace)
    (hi : s'.issued = s.issued) : s'.InPhase p := fun g hg =>
  (phase_congr ht g).trans (h g (hi ▸ hg))

/-- A statement of a frame that does not hold the token. -/
theorem Phased.exec_other (h : Phased t) (hc : Custody t) (hs : t.frames = pre ++ [f] ++ post)
    (hu : u.frames = pre ++ new ++ post)
    (he : exec host t.shared f a = some (u.shared, new)) (htok : f.token = 0) (hz : Counted t) :
    Phased u := by
  obtain ⟨-, hissued, htrace⟩ := exec_untouched he htok
  obtain ⟨hfree, hrecvs⟩ := exec_keeps he (.inl htok)
  refine ⟨?_, fun g hg => ?_, ?_, fun hne => ?_, fun hpos => ?_, fun hact hno => ?_⟩
  · rw [htrace, hissued]
    exact h.lt
  · rw [phase_congr htrace]
    exact h.past g (hissued ▸ hg)
  · refine Program.forall_frames_step hs hu h.frame (fun f' hf' p hp => ?_)
      fun f' _ hf' p hp => (hf' p hp).congr htrace hissued
    -- only the compare-and-swap of `DisconnectSession` hands out a token
    obtain ⟨hact, hcnt, rfl⟩ := exec_releasing he htok f' hf' hp
    exact (h.rest hact (hc.unheld hz hact hcnt).1).congr htrace hissued
  · refine (h.recv fun hnil => hne ?_).congr htrace hissued
    exact List.length_eq_zero_iff.1 (hrecvs.trans (by rw [hnil]; rfl))
  · exact (h.free (hfree ▸ hpos)).congr htrace hissued
  · have htally := Program.tally_step (w := Frame.token) hs hu
    have hstock : u.shared.stock = t.shared.stock := by
      rw [Slot.stock, Slot.stock, hfree, hrecvs]
    simp only [tally_cons, tally_nil, htok, tokens] at htally hno
    have hzero : tokens t = 0 := by
      unfold tokens
      omega
    refine (h.rest ?_ hzero).congr htrace hissued
    by_contra hne
    have := hc.token_eq (by simpa using hne)
    omega

/-- A statement of the holder of the token. -/
theorem Phased.exec_holder (h : Phased t) (hc : Custody t) (hs : t.frames = pre ++ [f] ++ post)
    (hu : u.frames = pre ++ new ++ post)
    (he : exec host t.shared f a = some (u.shared, new)) (htok : f.token = 1) : Phased u := by
  have hself : f ∈ t.frames := by rw [hs]; simp
  have hframe := h.frame f hself
  have hgen := hc.gen f hself
  have hle := hc.token_le
  have hmem := le_tally_of_mem (w := Frame.token) hself
  unfold tokens Slot.stock at hle
  have hfree₀ : t.shared.freeCnt = 0 := by omega
  have hrecv₀ : t.shared.recvs.length = 0 := by omega
  obtain ⟨hlt, hpast⟩ := exec_past he hgen h.lt
  -- the frames that replace `f` carry the token on, or it is laid down
  have hlaid : tally Frame.token new = 0 → _ := exec_lays_down he htok
  have hkept : 0 < tally Frame.token new → _ := fun hpos => exec_keeps he (.inr hpos)
  refine ⟨hlt, fun g hg => ?_, ?_, fun hne => ?_, fun hpos => ?_, fun hact hno => ?_⟩
  · rcases exec_effect he with ⟨-, hi⟩ | ⟨c, rfl, -⟩ | ⟨g', rfl, hu', -⟩ | ⟨n, rfl, -, hu'⟩
    · rw [hpast g (hi ▸ hg)]
      exact h.past g (hi ▸ hg)
    · cases htok
    · have hi : u.shared.issued = t.shared.issued := by rw [hu']
      rw [hpast g (hi ▸ hg)]
      exact h.past g (hi ▸ hg)
    · -- the generation before has been left
      have hi : u.shared.issued.length = t.shared.issued.length + 1 := by rw [hu']; simp
      rw [phase_congr (s := t.shared) (by rw [hu'])]
      rcases Nat.lt_or_ge (g + 1) t.shared.issued.length with hg' | hg'
      · exact h.past g hg'
      · exact hframe .left rfl g (by omega)
  · exact hc.forall_token hs hu h.frame (exec_phase he hframe hgen h.lt htok)
      (fun f' h0 p hp => by simp [token_of_phase hp] at h0) (fun h0 => by omega)
  · rcases Nat.eq_zero_or_pos (tally Frame.token new) with hnew | hnew
    · obtain ⟨htrace, hissued, ⟨hp, -⟩ | ⟨-, hr, -⟩⟩ := hlaid hnew
      · exact (hframe _ hp).congr htrace hissued
      · exact absurd (List.length_eq_zero_iff.1 (hr ▸ hrecv₀)) hne
    · exact absurd (List.length_eq_zero_iff.1 ((hkept hnew).2.trans hrecv₀)) hne
  · rcases Nat.eq_zero_or_pos (tally Frame.token new) with hnew | hnew
    · obtain ⟨htrace, hissued, ⟨-, hf⟩ | ⟨hp, -⟩⟩ := hlaid hnew
      · omega
      · exact (hframe _ hp).congr htrace hissued
    · have := (hkept hnew).1
      omega
  · have htally := Program.tally_step (w := Frame.token) hs hu
    simp only [tally_cons, tally_nil, htok, tokens] at htally hno
    obtain ⟨htrace, hissued, ⟨hp, -⟩ | ⟨-, -, hflag, hr⟩⟩ := hlaid (by omega)
    · exact (hframe _ hp).congr htrace hissued
    · rw [hflag, hc.flag f hself _ hr] at hact
      cases hact

theorem Phased.call (h : Phased t) (hs : t.frames = pre ++ [] ++ post)
    (hu : u.frames = pre ++ new ++ post) (hcall : call t.shared a = some (u.shared, new)) :
    Phased u := by
  obtain ⟨-, hissued, htrace, -⟩ := call_untouched hcall
  obtain ⟨hphase, hrecvs, hstock⟩ := call_phase hcall
  refine ⟨?_, fun g hg => ?_, ?_, fun hne => (h.recv (hrecvs hne)).congr htrace hissued,
    fun hpos => (h.free (hpos.trans_le (call_relies hcall).2.1)).congr htrace hissued,
    fun hact hno => ?_⟩
  · rw [htrace, hissued]
    exact h.lt
  · rw [phase_congr htrace]
    exact h.past g (hissued ▸ hg)
  · refine Program.forall_frames_step hs hu h.frame (fun f hf p hp => ?_)
      fun f _ hf p hp => (hf p hp).congr htrace hissued
    rcases hphase f hf p hp with ⟨rfl, hne⟩ | ⟨rfl, hpos⟩
    · exact (h.recv hne).congr htrace hissued
    · exact (h.free hpos).congr htrace hissued
  · by_cases hne : t.shared.recvs = []
    · have htally := Program.tally_step (w := Frame.token) hs hu
      have := hstock hne
      simp only [tally_nil, tokens] at htally hno
      refine (h.rest ((call_effect hcall).1 ▸ hact) ?_).congr htrace hissued
      unfold tokens
      omega
    · exact (h.recv hne).congr htrace hissued

/-- **Every generation goes through the phases in order**, in every reachable state. -/
theorem phased {ok : Threads Slot Frame → ℕ × Act → Prop}
    (h : (system host slot).ReachableVia ok t) : Phased t := by
  refine h.invariant₂ (J := fun t => Custody t ∧ Counted t) (fun h => ⟨custody h, refCnt_eq h⟩) ?_ ?_
  · rintro _ ⟨n, rfl⟩
    refine ⟨?_, ?_, ?_, ?_, ?_, ?_⟩ <;> simp [start, Slot.InPhase]
  · intro s l t hc _ ih _ hst
    obtain ⟨pre, old, new, post, hs, ht, hf, -⟩ := Program.step_frames hst
    cases hf with
    | call hcall => exact ih.call hs ht hcall
    | exec he =>
      rename_i f
      rcases Nat.eq_zero_or_pos f.token with h0 | h1
      · exact ih.exec_other hc.1 hs ht he h0 hc.2
      · exact ih.exec_holder hc.1 hs ht he (Nat.le_antisymm token_le_one h1)

/-! ## The IDs in the trace -/

/-- The statements that log a callback. -/
def Frame.logs : Frame → Bool
  | .discLeave _ | .inLeave _ | .openJoin _ | .inJoin _ | .recvCall _ | .inRecv _ => true
  | _ => false

theorem named_or_relies_of_logs (h : f.logs = true) : f.named = true ∨ f.relies = some false := by
  cases f <;> simp_all [Frame.logs, Frame.named, Frame.relies]

theorem exec_logs (h : exec host s f a = some (s', new)) :
    s'.trace = s.trace ∧ s.issued <+: s'.issued ∨
      s'.issued = s.issued ∧ f.logs = true ∧
        ∃ g e, f.gen = some g ∧ s'.trace = s.trace ++ [⟨g, e, s.sessionID⟩] := by
  revert h
  fun_cases exec host s f a <;> intro h <;> cases h <;> simp_all [Frame.gen, Frame.logs]

/-- Every callback is given the ID of its generation. -/
theorem trace_sessionID {ok : Threads Slot Frame → ℕ × Act → Prop}
    (h : (system host slot).ReachableVia ok t) :
    ∀ c ∈ t.shared.trace, t.shared.issued[c.gen]? = some c.sessionID := by
  refine h.invariant₂ (J := fun t => Custody t ∧ Named t)
    (I := fun t => ∀ c ∈ t.shared.trace, t.shared.issued[c.gen]? = some c.sessionID)
    (fun h => ⟨custody h, named h⟩) ?_ ?_
  · rintro _ ⟨n, rfl⟩
    simp [start]
  · intro s l t hc _ ih _ hst
    obtain ⟨pre, old, new, post, hs, ht, hf, -⟩ := Program.step_frames hst
    cases hf with
    | call hcall =>
      obtain ⟨-, hissued, htrace, -⟩ := call_untouched hcall
      rw [hissued, htrace]
      exact ih
    | exec he =>
      rename_i f
      have hself : f ∈ s.frames := by rw [hs]; simp
      rcases exec_logs he with ⟨htrace, hpre⟩ | ⟨hissued, hlogs, g, e, hg, htrace⟩
      · intro c hmem
        have hid := ih c (htrace ▸ hmem)
        obtain ⟨hlt, -⟩ := List.getElem?_eq_some_iff.1 hid
        rw [← hid]
        obtain ⟨ids, hids⟩ := hpre
        rw [← hids, List.getElem?_append_left hlt]
      · intro c hmem
        rw [htrace, List.mem_append, List.mem_singleton] at hmem
        rw [hissued]
        rcases hmem with hmem | rfl
        · exact ih c hmem
        · have hlast : s.shared.issued.getLast? = some s.shared.sessionID := by
            rcases named_or_relies_of_logs hlogs with hn | hr
            · exact hc.2.frame f hself hn
            · exact hc.2.active (hc.1.flag f hself _ hr)
          have hlen := hc.1.gen f hself g hg
          rw [List.getLast?_eq_getElem?, show s.shared.issued.length - 1 = g by omega] at hlast
          exact hlast

/-! ## What the application and `RecvQ` see -/

/-- The statements that use `RecvQ`. -/
def Frame.usesRecvQ : Frame → Bool
  | .initQueues _ | .recvBuf _ | .recvMove _ | .recvCheck _ | .recvGet _ | .recvShift _ => true
  | _ => false

theorem token_of_usesRecvQ (h : f.usesRecvQ = true) : f.token = 1 := by
  cases f <;> simp_all [Frame.usesRecvQ, Frame.token]

theorem countP_usesRecvQ_le (l : List Frame) : l.countP (·.usesRecvQ) ≤ tally Frame.token l := by
  induction l with
  | nil => simp
  | cons f l ih =>
    rw [List.countP_cons, tally_cons]
    split
    · have := token_of_usesRecvQ ‹_›
      omega
    · omega

theorem phase_of_token (h : 0 < f.token) : ∃ p, f.phase = some p := by
  cases f <;> simp_all [Frame.phase, Frame.token]

theorem Phased.exists_phase (h : Phased t) (hc : Custody t) (g : ℕ) :
    ∃ p, t.shared.phase g = some p := by
  rcases Nat.lt_trichotomy (g + 1) t.shared.issued.length with hg | hg | hg
  · exact ⟨.left, h.past g hg⟩
  · rcases Nat.eq_zero_or_pos (tokens t) with h0 | hpos
    · have hact : t.shared.releaseFlag = false := by
        by_contra hne
        have := hc.token_eq (by simpa using hne)
        omega
      exact ⟨.joined, h.rest hact h0 g hg⟩
    · unfold tokens Slot.stock at hpos
      by_cases hfree : 0 < t.shared.freeCnt
      · exact ⟨.left, h.free hfree g hg⟩
      · by_cases hrecv : t.shared.recvs = []
        · obtain ⟨f, hf, htok⟩ := exists_of_tally_pos (w := Frame.token) (l := t.frames) (by
            rw [hrecv, List.length_nil] at hpos
            omega)
          obtain ⟨p, hp⟩ := phase_of_token htok
          exact ⟨p, h.frame f hf p hp g hg⟩
        · exact ⟨.joined, h.recv hrecv g hg⟩
  · have : t.shared.events g = [] := by
      simp only [Slot.events, List.map_eq_nil_iff, List.filter_eq_nil_iff, decide_eq_true_eq]
      intro c hmem
      have := h.lt c hmem
      omega
    exact ⟨.fresh, by rw [Slot.phase, this]; rfl⟩

/-- **The callbacks of a generation are ordered.** In every reachable state, the callbacks made so
far for a generation are a prefix of `OnClientJoin`, calls of `OnRecv` one after the other, and
`OnClientLeave`; all callbacks were given the ID of their generation; and at most one receive is
outstanding, with nobody using `RecvQ` meanwhile, and one thread at most otherwise. -/
theorem callbacks_ordered (h : (system host slot).Reachable t) :
    (∀ g, ∃ n, t.shared.events g <+: [.onClientJoin, .onClientJoinReturn] ++ Phase.onRecvs n ++
      [.onClientLeave, .onClientLeaveReturn]) ∧
      (∀ c ∈ t.shared.trace, t.shared.issued[c.gen]? = some c.sessionID) ∧
      t.shared.recvs.length + t.frames.countP (·.usesRecvQ) ≤ 1 := by
  have hc := custody h
  refine ⟨fun g => ?_, trace_sessionID h, ?_⟩
  · obtain ⟨p, hp⟩ := (phased h).exists_phase hc g
    obtain ⟨n, hn⟩ := Phase.exists_events hp
    rw [hn]
    exact Phase.events_prefix n p
  · have := hc.token_le
    have := countP_usesRecvQ_le t.frames
    unfold tokens Slot.stock at *
    omega

theorem callbacks_ordered_onRecv :
    ∃ t, (system .netServer 0).Reachable t ∧
      t.shared.events 0 = [.onClientJoin, .onClientJoinReturn, .onRecv] ∧
      (∃ n, t.shared.events 0 <+: [.onClientJoin, .onClientJoinReturn] ++ Phase.onRecvs n ++
        [.onClientLeave, .onClientLeaveReturn]) ∧
      t.shared.recvs.length + t.frames.countP (·.usesRecvQ) ≤ 1 := by
  obtain ⟨t, ht, hp⟩ := Lts.exists_reachable_of_run (M := system .netServer 0) ⟨2, rfl⟩
    (accepting 0 1 ++ (1, .recvDone 0 8) :: List.replicate 4 (1, .next))
    (p := fun t => decide (t.shared.events 0 = [.onClientJoin, .onClientJoinReturn, .onRecv]))
    (by decide +kernel)
  obtain ⟨h₁, -, h₂⟩ := callbacks_ordered ht
  exact ⟨t, ht, of_decide_eq_true hp, h₁ 0, h₂⟩

end NetworkLibrary.Session
