import NetworkLibrary.Send.Order

/-!
# The room of `SendBuffer`

`SendPost` writes one entry of `wsabuf` and of `SendBuffer`, both arrays of 1000, for every packet
that `GetUseSize` counted, and nothing bounds that count: `SendPacket` queues packets while an
earlier send is outstanding. In the runs in which every count is at most 1000 the indices stay below
1000 (`index_lt`); a greater count leads to index 1000 as soon as its thread runs on
(`exists_index_of_readSize`).
-/

namespace NetworkLibrary.Send

open Foundations

/-- The length of `wsabuf` and `SendBuffer`. -/
def sendBufferSize : ℕ := 1000

/-- The index at which a frame is about to write `wsabuf` and `SendBuffer`. -/
def Frame.index : Frame → Option ℕ
  | .store _ buf _ => some buf.length
  | _ => none

/-- `packetCnt = SendQ.GetUseSize()` is executed only while `Size` is at most 1000. -/
def Fits (t : Threads SendSide Frame) (f : Frame) (_ : Act) : Prop :=
  f = .readSize → t.shared.size ≤ sendBufferSize

/-- The packets a frame has taken off the queue and those it will take are at most 1000. -/
def Frame.fits : Frame → Prop
  | .loop n => n ≤ sendBufferSize
  | .drain n buf => n + buf.length ≤ sendBufferSize
  | .dequeueSize n buf | .dequeuePop n buf | .store n buf _ => n + 1 + buf.length ≤ sendBufferSize
  | _ => True

variable {f : Frame} {s s' : SendSide} {a : Act} {new fs : List Frame} {sendBuffer : ℕ → ℕ}
  {t : Threads SendSide Frame} {i : ℕ} {n : ℤ} {buf : List ℕ}

theorem exec_fits (h : exec s f a = some (s', new)) (hf : f.fits)
    (hread : f = .readSize → s.size ≤ sendBufferSize) : ∀ f' ∈ new, f'.fits := by
  revert h
  fun_cases exec s f a <;> intro h <;> cases h <;> simp_all [Frame.fits]
  all_goals omega

theorem call_fits (h : call s a = some (s', new)) : ∀ f ∈ new, f.fits := by
  revert h
  fun_cases call s a <;> intro h <;> cases h <;> simp [Frame.fits]

theorem fits (h : (system sendBuffer).ReachableVia (Program.Steps Fits) t) :
    ∀ f ∈ t.frames, f.fits := by
  refine h.invariant (I := fun t => ∀ f ∈ t.frames, f.fits) ?_ ?_
  · rintro _ ⟨n, rfl⟩
    simp
  · intro s l t ih hok hst
    obtain ⟨pre, old, new, post, hs, ht, hf, htop⟩ := Program.step_frames hst
    refine Program.forall_frames_step hs ht ih ?_ fun _ _ hf => hf
    cases hf with
    | call hcall => exact call_fits hcall
    | exec he =>
      rename_i f
      exact exec_fits he (ih f (by rw [hs]; simp)) (hok f (htop f rfl))

/-- **The indices stay below 1000** in every run in which `SendPost` never counts more than 1000
packets. -/
theorem index_lt (h : (system sendBuffer).ReachableVia (Program.Steps Fits) t) (hf : f ∈ t.frames)
    (hi : f.index = some i) : i < sendBufferSize := by
  have hfits := fits h f hf
  have hcov := (covered h).frame f hf
  cases f with
  | store n buf p =>
    obtain rfl := Option.some.inj hi
    obtain ⟨hnonneg, -⟩ := hcov
    unfold Frame.fits at hfits
    omega
  | _ => cases hi

/-! ## A count that is too large -/

/-- A statement of thread `i`, in a reachable state. -/
theorem exists_next (h : (system sendBuffer).Reachable t) (hc : t.calls[i]? = some (f :: fs))
    (he : exec t.shared f .next = some (s', new)) :
    ∃ u, (system sendBuffer).Reachable u ∧ u.shared = s' ∧ u.calls[i]? = some (new ++ fs) := by
  obtain ⟨u, hu, hshared, hcalls⟩ := Program.step_top (P := program) hc he
  exact ⟨u, h.next trivial hu, hshared, hcalls⟩

/-- One packet of a drain, up to the write of its entry. -/
theorem exists_store (h : (system sendBuffer).Reachable t)
    (hc : t.calls[i]? = some (.drain n buf :: fs)) (hn : 0 < n) :
    ∃ u p, (system sendBuffer).Reachable u ∧ u.calls[i]? = some (.store (n - 1) buf p :: fs) := by
  obtain ⟨u, hu, -, hcu⟩ := exists_next h hc (by rw [exec, if_pos hn.ne'])
  have hsize : ¬u.shared.size ≤ 0 := by
    obtain ⟨hnonneg, hle⟩ := (covered hu).frame _ (Program.mem_frames_of_top hcu)
    omega
  obtain ⟨v, hv, -, hcv⟩ := exists_next hu hcu (by rw [exec, if_neg hsize])
  have hqueue := queue_ne_nil hv (Program.mem_frames_of_top hcv)
  obtain ⟨p, queue, hq⟩ := List.exists_cons_of_ne_nil hqueue
  obtain ⟨w, hw, -, hcw⟩ := exists_next hv hcv (by rw [exec, hq])
  exact ⟨w, p, hw, hcw⟩

/-- A drain reaches the entry of every packet it counted. -/
theorem exists_store_add (h : (system sendBuffer).Reachable t)
    (hc : t.calls[i]? = some (.drain n buf :: fs)) (k : ℕ) (hn : k < n) :
    ∃ u p buf', (system sendBuffer).Reachable u ∧ buf'.length = buf.length + k ∧
      u.calls[i]? = some (.store (n - 1 - k) buf' p :: fs) := by
  induction k with
  | zero =>
    obtain ⟨u, p, hu, hcu⟩ := exists_store h hc (by omega)
    exact ⟨u, p, buf, hu, rfl, by simpa using hcu⟩
  | succ k ih =>
    obtain ⟨u, p, buf', hu, hlen, hcu⟩ := ih (by push_cast at hn; omega)
    obtain ⟨v, hv, -, hcv⟩ := exists_next hu hcu rfl
    obtain ⟨w, p', hw, hcw⟩ := exists_store hv hcv (by push_cast at hn; omega)
    refine ⟨w, p', buf' ++ [p], hw, ?_, ?_⟩
    · rw [List.length_append, hlen]
      rfl
    · rw [hcw]
      congr 3
      push_cast
      omega

/-- **A count of more than 1000 leads beyond the end of the arrays.** -/
theorem exists_index_of_readSize (h : (system sendBuffer).Reachable t)
    (hc : t.calls[i]? = some (.readSize :: fs)) (hsize : sendBufferSize < t.shared.size) :
    ∃ u, (system sendBuffer).Reachable u ∧ ∃ f ∈ u.frames, f.index = some sendBufferSize := by
  have hne : t.shared.size ≠ 0 := by
    unfold sendBufferSize at hsize
    omega
  obtain ⟨u, hu, -, hcu⟩ := exists_next h hc rfl
  obtain ⟨v, hv, -, hcv⟩ := exists_next hu hcu (by rw [exec, if_neg hne])
  obtain ⟨w, p, buf, hw, hlen, hcw⟩ := exists_store_add hv hcv sendBufferSize hsize
  refine ⟨w, hw, _, Program.mem_frames_of_top hcw, ?_⟩
  rw [Frame.index, hlen]
  simp

/-- `k` packets sent before a worker looks at the first notification. -/
theorem exists_queued (k : ℕ) : ∃ s : SendSide, (system fun _ => 0).Reachable ⟨s, [[], []]⟩ ∧
    s.size = k ∧ s.notes = k ∧ s.sendFlag = false ∧ s.sessionUseFlag = true := by
  induction k with
  | zero => exact ⟨initSession fun _ => 0, .start ⟨2, rfl⟩, rfl, rfl, rfl, rfl⟩
  | succ k ih =>
    obtain ⟨s, hs, hsize, hnotes, hflag, huse⟩ := ih
    refine ⟨_, hs.run (c := fun _ _ => true) (fun _ _ _ => trivial) (sending 0 7) rfl, ?_, ?_,
      hflag, huse⟩
    · simp [hsize]
    · simp [hnotes]

/-- **The indices of `SendPost` reach 1000**: 1001 packets are sent, and then a worker gets the
first notification. -/
theorem exists_index_outside :
    ¬∀ (sendBuffer : ℕ → ℕ) t, (system sendBuffer).Reachable t → ∀ f ∈ t.frames, ∀ i,
      f.index = some i → i < sendBufferSize := by
  intro hall
  obtain ⟨s, hs, hsize, hnotes, hflag, huse⟩ := exists_queued 1001
  have hrun : (system fun _ => 0).run (fun _ _ => true) ⟨s, [[], []]⟩
      [(1, .note), (1, .next), (1, .next)] =
        some ⟨{ s with notes := s.notes - 1, sendFlag := true }, [[], [.readSize]]⟩ := by
    have hpos : 0 < s.notes := by omega
    simp [Lts.run, system, Program.lts, Program.step, Program.stepStack, program, call, exec, hpos,
      huse, hflag]
  have hread := hs.run (fun _ _ _ => trivial) _ hrun
  obtain ⟨u, hu, f, hf, hi⟩ := exists_index_of_readSize (i := 1) hread rfl (by
    rw [hsize]
    decide)
  exact lt_irrefl _ (hall _ u hu f hf _ hi)

/-- `Fits`, decided. -/
def fitting (t : Threads SendSide Frame) (l : ℕ × Act) : Bool :=
  t.top l.1 ≠ some .readSize || t.shared.size ≤ sendBufferSize

theorem fitting_spec (t : Threads SendSide Frame) (l : ℕ × Act) (h : fitting t l = true) :
    Program.Steps Fits t l := by
  rintro f hf rfl
  simpa [fitting, hf] using h

theorem index_lt_two :
    ∃ t, (system fun _ => 0).ReachableVia (Program.Steps Fits) t ∧
      t.frames = [.store 0 [7] 8] ∧ 1 < sendBufferSize := by
  obtain ⟨t, ht, hp⟩ := Lts.exists_reachableVia_of_run (M := system fun _ => 0)
    fitting_spec ⟨2, rfl⟩
    (sending 0 7 ++ sending 0 8 ++ [(1, .note)] ++ List.replicate 11 (1, .next))
    (p := fun t => decide (t.frames = [.store 0 [7] 8])) (by decide +kernel)
  have hframes := of_decide_eq_true hp
  exact ⟨t, ht, hframes, index_lt (f := .store 0 [7] 8) ht (by simp [hframes]) rfl⟩

end NetworkLibrary.Send
