import NetworkLibrary.RefCnt.SendBuffer

/-!
# The references on a packet

`occurrences` are the references that a session has on a packet: in `SendQ`, in the part of
`SendBuffer` that no running loop has given up yet, and in the hands of a running `SendPacket` or
`SendPost`. A statement of the session moves them; the only ones that change their number are the
`IncrementRef` of `SendPacket` and the calls of `FreePacket`.
-/

namespace NetworkLibrary.RefCnt

open Foundations Session

/-- The references on a packet that a running function has in hand. -/
def Stmt.held (p : ℕ) : Stmt → ℕ
  | .sendEncode _ _ q | .sendEnqueue _ _ q => [q].count p
  | .drain _ _ wsabuf => wsabuf.count p
  | .store _ _ wsabuf q => wsabuf.count p + [q].count p
  | _ => 0

/-- How many packets of `SendBuffer` a loop has given up. -/
def Stmt.freed : Stmt → ℕ
  | .sentLoop _ i _ | .relLoop _ i _ => i
  | _ => 0

/-- The packets in `SendBuffer[0..SendPacketCnt)` that have not been given up. -/
def SessionState.kept (s : SessionState) (sts : List Stmt) : List ℕ :=
  s.buffer.drop (tally Stmt.freed sts)

/-- The references on a packet that a session has. -/
def occurrences (p : ℕ) (s : SessionState) (sts : List Stmt) : ℕ :=
  s.sendQ.count p + (s.kept sts).count p + tally (Stmt.held p) sts

variable {s s' : SessionState} {st st' : Stmt} {a : Session.Act} {e : Effect}
  {pre post old new : List Stmt} {p : ℕ}

theorem freed_ofFrame (f : Session.Frame) : (Stmt.ofFrame f).freed = 0 := by
  cases f <;> rfl

theorem held_ofFrame (p : ℕ) (f : Session.Frame) : (Stmt.ofFrame f).held p = 0 := by
  cases f <;> rfl

theorem freed_ofSendPacket (q : ℕ) (f : Session.Frame) : (Stmt.ofSendPacket q f).freed = 0 := by
  cases f <;> rfl

theorem held_ofSendPacket (p q : ℕ) (f : Session.Frame) : (Stmt.ofSendPacket q f).held p = 0 := by
  cases f <;> rfl

theorem token_of_freed (h : 0 < st.freed) : 0 < st.token ∨ st.view.relies = some true := by
  cases st <;> simp_all [Stmt.freed, Stmt.token, Stmt.view, Session.Frame.relies]

/-- A packet is taken out of `SendQ`. -/
theorem count_pop (p q : ℕ) (l : List ℕ) : (q :: l).count p = l.count p + [q].count p := by
  rw [← List.singleton_append, List.count_append, Nat.add_comm]

/-- A loop gives up a packet of `SendBuffer`. -/
theorem count_drop (buffer : ℕ → ℕ) {i n : ℕ} (h : i < n) (p : ℕ) :
    (((List.range n).map buffer).drop i).count p =
      (((List.range n).map buffer).drop (i + 1)).count p + [buffer i].count p := by
  have hi : i < ((List.range n).map buffer).length := by simpa using h
  rw [← List.cons_getElem_drop_succ (h := hi), count_pop]
  simp

/-- Beside a function that may use `SendBuffer` nobody gives packets up. -/
theorem Orderly.freed_rest (h : Orderly s (pre ++ [st] ++ post)) (hk : Kept s (pre ++ [st] ++ post))
    (hst : 0 < st.token ∨ st.view.relies = some true) :
    tally Stmt.freed pre = 0 ∧ tally Stmt.freed post = 0 := by
  have hrest : ∀ st' ∈ pre ++ post, st'.freed = 0 := by
    intro st' hst'
    by_contra hne
    obtain ⟨htok, hrel⟩ : st'.token = 0 ∧ st'.view.relies ≠ some true := by
      rcases hst with hst | hst
      · exact (h.of_token hk hst).2 st' hst'
      · exact (hk.of_releasing hst).2 st' hst'
    rcases token_of_freed (Nat.pos_of_ne_zero hne) with h | h
    · omega
    · exact hrel h
  exact ⟨tally_eq_zero.2 fun st' hst' => hrest st' (List.mem_append_left _ hst'),
    tally_eq_zero.2 fun st' hst' => hrest st' (List.mem_append_right _ hst')⟩

/-- A statement of the slot has no packet in hand. -/
theorem quiet_hands (h : execSession s st a = some e) (hst : st.inSlot = true) :
    (tally Stmt.freed e.next = 0 ∧ st.freed = 0) ∧ ∀ p, tally (Stmt.held p) e.next = 0 ∧
      st.held p = 0 := by
  have hzero : ∀ {f : Session.Frame} {next : Session.Frame → Stmt}, s.runSlot f a next = some e →
      (∀ f, (next f).freed = 0) → (∀ p f, (next f).held p = 0) →
        tally Stmt.freed e.next = 0 ∧ ∀ p, tally (Stmt.held p) e.next = 0 := by
    intro f next hr hfreed hheld
    obtain ⟨slot, fs, -, rfl⟩ := runSlot_eq hr
    refine ⟨tally_eq_zero.2 fun st' hst' => ?_, fun p => tally_eq_zero.2 fun st' hst' => ?_⟩
    · obtain ⟨f', -, rfl⟩ := List.mem_map.1 hst'
      exact hfreed f'
    · obtain ⟨f', -, rfl⟩ := List.mem_map.1 hst'
      exact hheld p f'
  cases st with
  | slot f =>
    have := hzero h freed_ofFrame held_ofFrame
    exact ⟨⟨this.1, rfl⟩, fun p => ⟨this.2 p, rfl⟩⟩
  | sendInc id q | sendFlag id q | sendID id q =>
    have := hzero h (freed_ofSendPacket q) fun p => held_ofSendPacket p q
    exact ⟨⟨this.1, rfl⟩, fun p => ⟨this.2 p, rfl⟩⟩
  | _ => cases hst

/-- **One statement of a session** moves the references that it has. -/
theorem exec_occurrences (h : Orderly s (pre ++ [st] ++ post)) (hk : Kept s (pre ++ [st] ++ post))
    (he : execSession s st a = some e) (p : ℕ) :
    occurrences p e.session (pre ++ e.next ++ post) + e.freePacket.toList.count p =
      occurrences p s (pre ++ [st] ++ post) + e.incRef.toList.count p := by
  have hs := h.sound st (by simp)
  have hrest := h.freed_rest hk
  by_cases hst : st.inSlot = true
  · obtain ⟨⟨slot, hslot⟩, hinc, hfree, -, -, -⟩ := quiet he hst hs
    obtain ⟨⟨h₁, h₂⟩, h₃⟩ := quiet_hands he hst
    rw [hinc, hfree, hslot]
    simp only [occurrences, SessionState.kept, SessionState.buffer, tally_append, tally_cons,
      tally_nil, h₁, h₂, (h₃ p).1, (h₃ p).2]
  · revert he
    fun_cases execSession s st a <;> intro he <;> try exact absurd rfl hst
    all_goals cases he
    all_goals
      simp_all [occurrences, SessionState.kept, SessionState.buffer, Stmt.held, Stmt.freed,
        Stmt.token, Stmt.view, Session.Frame.relies, Stmt.Sound, SessionState.Clean]
    case case18.refl =>
      have := count_pop p ‹_› ‹_›
      omega
    case case22.refl =>
      have := count_drop s.sendBuffer ‹_ < s.sendPacketCnt› p
      omega
    case case23.refl => simp [List.drop_eq_nil_of_le, *]
    case case25.refl =>
      have := count_pop p ‹_› ‹_›
      omega
    case case28.refl =>
      have := count_drop s.sendBuffer ‹_ < s.sendPacketCnt› p
      omega
    case case29.refl => simp [List.drop_eq_nil_of_le, *]
    all_goals omega

end NetworkLibrary.RefCnt
