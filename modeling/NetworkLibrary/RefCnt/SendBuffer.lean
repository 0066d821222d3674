import NetworkLibrary.RefCnt.Sessions
import Mathlib.Data.Nat.SuccPred

/-!
# Who may use `SendBuffer`

`SendFlag` is a lock that changes hands. `SendPost` takes it, and with it the right to drain `SendQ`
into `SendBuffer`; a posted `WSASend` keeps it, and the handler of the completion that frees the
packets gives it up. A send that fails or is cancelled leaves `SendFlag` at 1 for good, with the
packets in `SendBuffer[0..SendPacketCnt)` for `ReleaseSession`. So there is at most one such right
for a session (`Orderly.token_le`), and while there is none, `SendPacketCnt` is 0 unless `SendFlag`
is 1. `ReleaseSession` and `InitSession` do not look at `SendFlag`: the custody of the slot keeps the
others away from them.
-/

namespace NetworkLibrary.RefCnt

open Foundations Session

/-- The right to use `SendBuffer`, as a frame of `SendPost` or of a send completion has it. -/
def Stmt.token : Stmt → ℕ
  | .useSize _ | .clearFlag _ | .drain _ _ _ | .store _ _ _ _ | .slot (.wsaSend _) => 1
  | .sentCnt _ | .sentLoop _ _ _ | .sentFlag _ => 1
  | _ => 0

/-- Between the end of `ReleaseSession` and the end of `InitSession`. -/
def isFree : Session.Frame → Bool
  | .relPush _ | .initUse | .initDraw | .initID _ | .initInc _ | .initActive _ => true
  | _ => false

namespace SessionState

/-- The session has no packets. -/
def Clean (s : SessionState) : Prop := s.sendQ = [] ∧ s.sendPacketCnt = 0

end SessionState

/-- What a function knows of the packets of its session. -/
def Stmt.Sound (s : SessionState) : Stmt → Prop
  | .slot f => Stmt.ofFrame f = .slot f ∧ (isFree f = true → s.Clean)
  | .useSize _ | .clearFlag _ | .sentFlag _ => s.sendPacketCnt = 0
  | .drain _ _ wsabuf | .store _ _ wsabuf _ =>
    s.sendPacketCnt = 0 ∧ (List.range wsabuf.length).map s.sendBuffer = wsabuf
  | .sentLoop _ i n => i ≤ n ∧ n = s.sendPacketCnt
  | .relCnt _ => s.sendQ = []
  | .relLoop _ i n => s.sendQ = [] ∧ i ≤ n ∧ n = s.sendPacketCnt
  | .initFlag _ | .initCnt _ | .initQueue _ => s.Clean
  | _ => True

/-- The rights to use `SendBuffer`: those of the frames and of posted sends. -/
def tokens (s : SessionState) (sts : List Stmt) : ℕ := s.slot.sends.length + tally Stmt.token sts

/-- The use of `SendBuffer` is in order. -/
structure Orderly (s : SessionState) (sts : List Stmt) : Prop where
  token_le : tokens s sts ≤ 1
  flag : s.sendFlag = false → tokens s sts = 0 ∧ s.sendPacketCnt = 0
  free : 0 < s.slot.freeCnt → s.Clean
  sound : ∀ st ∈ sts, st.Sound s

/-- What the custody of the slot says of the functions that run on a session. -/
structure Kept (s : SessionState) (sts : List Stmt) : Prop where
  flag : ∀ st ∈ sts, ∀ b, st.view.relies = some b → s.slot.releaseFlag = b
  pending : 0 < s.slot.pending → s.slot.releaseFlag = false
  free : 0 < s.slot.freeCnt → s.slot.releaseFlag = true
  /-- A function that relies on the slot being released is the only one. -/
  alone : ∀ pre st post, sts = pre ++ [st] ++ post → st.view.relies = some true →
    s.slot.freeCnt = 0 ∧ ∀ st' ∈ pre ++ post, st'.view.relies ≠ some true

variable {s s' : SessionState} {st st' : Stmt} {a : Session.Act} {e : Effect} {f : Session.Frame}
  {pre post old new : List Stmt} {slot slot' : Slot} {fs : List Session.Frame}

/-! ## What the frames know -/

theorem relies_of_token (h : 0 < st.token) : st.view.relies = some false := by
  cases st with
  | slot f => cases f <;> simp_all [Stmt.token, Stmt.view, Session.Frame.relies]
  | _ => simp_all [Stmt.token, Stmt.view, Session.Frame.relies]

theorem relies_of_isFree (h : isFree f = true) : f.relies = some true := by
  cases f <;> simp_all [isFree, Session.Frame.relies]

/-- A function that has no right to use `SendBuffer` and does not have the slot for itself knows
nothing. -/
theorem Stmt.Sound.of_idle (h : st.Sound s) (htok : st.token = 0)
    (hrel : st.view.relies ≠ some true) (s' : SessionState) : st.Sound s' := by
  cases st with
  | slot f => exact ⟨h.1, fun hf => absurd (relies_of_isFree hf) hrel⟩
  | _ => simp_all [Stmt.Sound, Stmt.token, Stmt.view, Session.Frame.relies]

theorem Stmt.Sound.of_eq (h : st.Sound s) (hq : s'.sendQ = s.sendQ)
    (hbuf : s'.sendBuffer = s.sendBuffer) (hcnt : s'.sendPacketCnt = s.sendPacketCnt) :
    st.Sound s' := by
  cases st with
  | sentLoop g i n => exact ⟨h.1, h.2.trans hcnt.symm⟩
  | relLoop g i n => exact ⟨hq.trans h.1, h.2.1, h.2.2.trans hcnt.symm⟩
  | _ => simp_all [Stmt.Sound, SessionState.Clean]

/-- Only `SendBuffer` and its count matter to those who have the right to use it. -/
theorem Stmt.Sound.of_buffer (h : st.Sound s) (hrel : st.view.relies ≠ some true)
    (hbuf : s'.sendBuffer = s.sendBuffer) (hcnt : s'.sendPacketCnt = s.sendPacketCnt) :
    st.Sound s' := by
  cases st with
  | slot f => exact ⟨h.1, fun hf => absurd (relies_of_isFree hf) hrel⟩
  | sentLoop g i n => exact ⟨h.1, h.2.trans hcnt.symm⟩
  | _ => simp_all [Stmt.Sound, Stmt.view, Session.Frame.relies]

/-! ## Statements of the slot -/

/-- No statement of the slot creates the right to use `SendBuffer`. -/
theorem slot_token (h : Session.exec .netClient slot f a = some (slot', fs))
    (hf : Stmt.ofFrame f = .slot f) :
    slot'.sends.length + tally Stmt.token (fs.map Stmt.ofFrame) ≤
      slot.sends.length + (Stmt.slot f).token := by
  revert h
  fun_cases Session.exec .netClient slot f a <;> intro h <;> cases h <;>
    simp_all [Stmt.ofFrame, Stmt.token]

/-- A slot becomes free where it is initialised or released. -/
theorem slot_free (h : Session.exec .netClient slot f a = some (slot', fs)) :
    (0 < slot'.freeCnt → 0 < slot.freeCnt ∨ isFree f = true) ∧
      (Stmt.ofFrame f = .slot f → ∀ f' ∈ fs,
        (isFree f' = true ∨ ∃ g, f' = .initQueues g) → isFree f = true) := by
  revert h
  fun_cases Session.exec .netClient slot f a <;> intro h <;> cases h <;>
    simp_all [isFree, Stmt.ofFrame]

theorem call_token (h : Session.call slot a = some (slot', fs)) :
    slot'.sends.length + tally Stmt.token (fs.map Stmt.ofFrame) ≤ slot.sends.length := by
  revert h
  fun_cases Session.call slot a <;> intro h <;> cases h
  all_goals try have hk := List.length_eraseIdx_add_one (List.getElem?_eq_some_iff.1 ‹_›).1
  all_goals simp_all [Stmt.ofFrame, Stmt.token]
  all_goals omega

theorem call_free (h : Session.call slot a = some (slot', fs)) :
    slot'.freeCnt ≤ slot.freeCnt ∧ ∀ f ∈ fs,
      (isFree f = true → 0 < slot.freeCnt) ∧ ∀ g, f ≠ .initQueues g := by
  revert h
  fun_cases Session.call slot a <;> intro h <;> cases h <;> simp_all [isFree]

/-- How a function starts that the slot starts. -/
theorem sound_ofFrame (f : Session.Frame)
    (h : isFree f = true ∨ (∃ g, f = .initQueues g) → s.Clean) : (Stmt.ofFrame f).Sound s := by
  cases f <;> simp_all [Stmt.ofFrame, Stmt.Sound, isFree]

theorem sound_ofSendPacket (p : ℕ) (f : Session.Frame) (hf : isFree f = false)
    (h : Stmt.ofFrame f = .slot f) : (Stmt.ofSendPacket p f).Sound s := by
  cases f <;> simp_all [Stmt.ofSendPacket, Stmt.Sound, isFree]

/-- The functions whose statement is one of the slot. -/
def Stmt.inSlot : Stmt → Bool
  | .slot _ | .sendInc _ _ | .sendFlag _ _ | .sendID _ _ => true
  | _ => false

/-- A statement of the slot leaves the packets alone. -/
structure Quiet (s : SessionState) (st : Stmt) (e : Effect) : Prop where
  session : ∃ slot, e.session = { s with slot := slot }
  incRef : e.incRef = none
  freePacket : e.freePacket = none
  token : tokens e.session e.next ≤ tokens s [st]
  sound : ∀ st' ∈ e.next, st'.Sound e.session
  free : 0 < e.session.slot.freeCnt → 0 < s.slot.freeCnt ∨ s.Clean

theorem quiet (h : execSession s st a = some e) (hst : st.inSlot = true) (hs : st.Sound s) :
    Quiet s st e := by
  have hsend : ∀ {f : Session.Frame} {p : ℕ}, isFree f = false → Stmt.ofFrame f = .slot f →
      s.runSlot f a (.ofSendPacket p) = some e → (∀ slot fs,
        Session.exec .netClient s.slot f a = some (slot, fs) →
          slot.sends = s.slot.sends ∧ ∀ f' ∈ fs, isFree f' = false ∧ Stmt.ofFrame f' = .slot f' ∧
            (Stmt.ofSendPacket p f').token = 0) → st.token = 0 → Quiet s st e := by
    intro f p hfree hf hr hnext htok
    obtain ⟨slot, fs, he, rfl⟩ := runSlot_eq hr
    obtain ⟨hsends, hfs⟩ := hnext slot fs he
    refine ⟨⟨slot, rfl⟩, rfl, rfl, ?_, fun st' hst' => ?_, fun hpos => ?_⟩
    · have hzero : tally Stmt.token (fs.map (Stmt.ofSendPacket p)) = 0 :=
        tally_eq_zero.2 fun st' hst' => by
          obtain ⟨f', hf', rfl⟩ := List.mem_map.1 hst'
          exact (hfs f' hf').2.2
      rw [tokens, tokens, hzero, hsends]
      omega
    · obtain ⟨f', hf', rfl⟩ := List.mem_map.1 hst'
      exact sound_ofSendPacket p f' (hfs f' hf').1 (hfs f' hf').2.1
    · rcases (slot_free he).1 hpos with h | h
      · exact .inl h
      · rw [hfree] at h
        cases h
  cases st with
  | slot f =>
    have hr : s.runSlot f a .ofFrame = some e := h
    obtain ⟨slot, fs, he, rfl⟩ := runSlot_eq hr
    have htok := slot_token he hs.1
    obtain ⟨hfree, hnew⟩ := slot_free he
    refine ⟨⟨slot, rfl⟩, rfl, rfl, ?_, fun st' hst' => ?_, fun hpos => ?_⟩
    · rw [tokens, tokens, tally_cons, tally_nil]
      omega
    · obtain ⟨f', hf', rfl⟩ := List.mem_map.1 hst'
      exact sound_ofFrame f' fun h => hs.2 (hnew hs.1 f' hf' h)
    · exact (hfree hpos).imp_right hs.2
  | sendInc id p =>
    exact hsend rfl rfl h (fun slot fs he => by cases he; simp [isFree, Stmt.ofFrame,
      Stmt.ofSendPacket, Stmt.token]) rfl
  | sendFlag id p =>
    refine hsend rfl rfl h (fun slot fs he => ?_) rfl
    simp only [Session.exec] at he
    split_ifs at he <;> cases he <;> simp [isFree, Stmt.ofFrame, Stmt.ofSendPacket, Stmt.token]
  | sendID id p =>
    refine hsend rfl rfl h (fun slot fs he => ?_) rfl
    simp only [Session.exec] at he
    split_ifs at he <;> cases he <;> simp [isFree, Stmt.ofFrame, Stmt.ofSendPacket, Stmt.token]
  | _ => cases hst

/-! ## Statements of a session -/

/-- `SendFlag` is taken where nobody has the right to use `SendBuffer`, and cleared by the one that
has it, or where the session is initialised. -/
theorem exec_token (h : execSession s st a = some e) (hs : st.Sound s) :
    (tokens e.session e.next ≤ tokens s [st] ∧
      (e.session.sendFlag = s.sendFlag ∨ e.session.sendFlag = true ∨
        st.view.relies = some true ∧ e.session.sendPacketCnt = 0)) ∨
    (s.sendFlag = false ∧ e.session.sendFlag = true ∧
      tokens e.session e.next = tokens s [st] + 1) ∨
    (e.session.sendFlag = false ∧ e.session.sendPacketCnt = 0 ∧
      tokens e.session e.next + 1 = tokens s [st]) := by
  by_cases hst : st.inSlot = true
  · obtain ⟨⟨slot, hslot⟩, -, -, htok, -, -⟩ := quiet h hst hs
    exact .inl ⟨htok, .inl (by rw [hslot])⟩
  · revert h
    fun_cases execSession s st a <;> intro h <;> try exact absurd rfl hst
    all_goals cases h
    all_goals simp_all [tokens, Stmt.token, Stmt.Sound, Stmt.view, Session.Frame.relies,
      SessionState.Clean]

theorem exec_cnt (h : execSession s st a = some e) (hs : st.Sound s) :
    e.session.sendPacketCnt = s.sendPacketCnt ∨ e.session.sendPacketCnt = 0 ∨
      0 < st.token ∧ e.session.sendFlag = s.sendFlag := by
  by_cases hst : st.inSlot = true
  · obtain ⟨slot, hslot⟩ := (quiet h hst hs).session
    exact .inl (by rw [hslot])
  · revert h
    fun_cases execSession s st a <;> intro h <;> try exact absurd rfl hst
    all_goals cases h
    all_goals simp [Stmt.token]

/-- What the other functions of the session know is not touched, unless by one that has the right to
use `SendBuffer` or the slot for itself. -/
theorem exec_others (h : execSession s st a = some e) (hs : st.Sound s) :
    (e.session.sendBuffer = s.sendBuffer ∧ e.session.sendPacketCnt = s.sendPacketCnt ∨
      0 < st.token ∨ st.view.relies = some true) ∧
      (e.session.sendQ = s.sendQ ∨ st.view.relies ≠ none) := by
  by_cases hst : st.inSlot = true
  · obtain ⟨slot, hslot⟩ := (quiet h hst hs).session
    exact ⟨.inl (by rw [hslot]; exact ⟨rfl, rfl⟩), .inl (by rw [hslot])⟩
  · revert h
    fun_cases execSession s st a <;> intro h <;> try exact absurd rfl hst
    all_goals cases h
    all_goals simp [Stmt.token, Stmt.view, Session.Frame.relies]

theorem range_map_store (buffer : ℕ → ℕ) (l : List ℕ) (p : ℕ)
    (h : (List.range l.length).map buffer = l) :
    (List.range (l.length + 1)).map (Function.update buffer l.length p) = l ++ [p] := by
  rw [List.range_succ, List.map_append]
  congr 1
  · conv_rhs => rw [← h]
    refine List.map_congr_left fun i hi => ?_
    rw [Function.update_of_ne (List.mem_range.1 hi).ne]
  · simp

theorem exec_sound (h : execSession s st a = some e) (hs : st.Sound s)
    (hflag : s.sendFlag = false → s.sendPacketCnt = 0) : ∀ st' ∈ e.next, st'.Sound e.session := by
  by_cases hst : st.inSlot = true
  · exact (quiet h hst hs).sound
  · revert h
    fun_cases execSession s st a <;> intro h <;> try exact absurd rfl hst
    all_goals cases h
    all_goals simp_all [Stmt.Sound, Stmt.ofFrame, isFree, SessionState.Clean]
    case case20.refl => exact range_map_store _ _ _ hs.2

/-- The slot is free where the session has no packets. -/
theorem exec_freeCnt (h : execSession s st a = some e) (hs : st.Sound s)
    (hpos : 0 < e.session.slot.freeCnt) :
    0 < s.slot.freeCnt ∨ s.Clean ∧ ∃ slot, e.session = { s with slot := slot } := by
  by_cases hst : st.inSlot = true
  · exact ((quiet h hst hs).free hpos).imp_right fun hclean => ⟨hclean, (quiet h hst hs).session⟩
  · revert h
    fun_cases execSession s st a <;> intro h <;> try exact absurd rfl hst
    all_goals cases h
    all_goals exact .inl hpos

/-! ## The functions beside -/

theorem Kept.of_releasing (hk : Kept s (pre ++ [st] ++ post)) (hst : st.view.relies = some true) :
    s.slot.sends = [] ∧ ∀ st' ∈ pre ++ post, st'.token = 0 ∧ st'.view.relies ≠ some true := by
  have hflag := hk.flag st (by simp) true hst
  constructor
  · by_contra hne
    have hpos : 0 < s.slot.pending := by
      have := List.length_pos_of_ne_nil hne
      rw [Slot.pending]
      omega
    exact Bool.false_ne_true ((hk.pending hpos).symm.trans hflag)
  · intro st' hst'
    refine ⟨?_, (hk.alone pre st post rfl hst).2 st' hst'⟩
    by_contra htok
    have hmem : st' ∈ pre ++ [st] ++ post := by
      simp only [List.mem_append] at hst' ⊢
      tauto
    have := hk.flag st' hmem false (relies_of_token (Nat.pos_of_ne_zero htok))
    exact Bool.false_ne_true (this.symm.trans hflag)

theorem Orderly.of_token (h : Orderly s (pre ++ [st] ++ post)) (hk : Kept s (pre ++ [st] ++ post))
    (hst : 0 < st.token) :
    s.slot.sends = [] ∧ ∀ st' ∈ pre ++ post, st'.token = 0 ∧ st'.view.relies ≠ some true := by
  have hle := h.token_le
  simp only [tokens, tally_append, tally_cons, tally_nil] at hle
  refine ⟨List.eq_nil_of_length_eq_zero (by omega), fun st' hst' => ⟨?_, fun hrel => ?_⟩⟩
  · have := le_tally_of_mem (w := Stmt.token) hst'
    rw [tally_append] at this
    omega
  · have hmem : st' ∈ pre ++ [st] ++ post := by
      simp only [List.mem_append] at hst' ⊢
      tauto
    have htrue := hk.flag st' hmem true hrel
    have hfalse := hk.flag st (by simp) false (relies_of_token hst)
    exact Bool.false_ne_true (hfalse.symm.trans htrue)

/-- What the other functions know stays true. -/
theorem Orderly.sound_rest (h : Orderly s (pre ++ [st] ++ post))
    (hk : Kept s (pre ++ [st] ++ post)) (he : execSession s st a = some e) :
    ∀ st' ∈ pre ++ post, st'.Sound e.session := by
  intro st' hst'
  have hmem : st' ∈ pre ++ [st] ++ post := by
    simp only [List.mem_append] at hst' ⊢
    tauto
  have hs := h.sound st' hmem
  obtain ⟨hbuf, hqueue⟩ := exec_others he (h.sound st (by simp))
  rcases hbuf with ⟨hbuf, hcnt⟩ | htok | hrel
  · by_cases hrel : st'.view.relies = some true
    · -- it has the slot for itself, so that the statement relies on nothing
      rcases hqueue with hqueue | hsome
      · exact hs.of_eq hqueue hbuf hcnt
      · obtain ⟨b, hb⟩ := Option.ne_none_iff_exists'.1 hsome
        have htrue := hk.flag st' hmem true hrel
        rw [hk.flag st (by simp) b hb] at htrue
        rw [htrue] at hb
        exact absurd hrel ((hk.of_releasing hb).2 st' hst').2
    · exact hs.of_buffer hrel hbuf hcnt
  · obtain ⟨h₁, h₂⟩ := (h.of_token hk htok).2 st' hst'
    exact hs.of_idle h₁ h₂ _
  · obtain ⟨h₁, h₂⟩ := (hk.of_releasing hrel).2 st' hst'
    exact hs.of_idle h₁ h₂ _

theorem Orderly.exec (h : Orderly s (pre ++ [st] ++ post)) (hk : Kept s (pre ++ [st] ++ post))
    (he : execSession s st a = some e) : Orderly e.session (pre ++ e.next ++ post) := by
  have hst := h.sound st (by simp)
  have hle := h.token_le
  have hflag := h.flag
  have htok := exec_token he hst
  have hcnt := exec_cnt he hst
  simp only [tokens, tally_append, tally_cons, tally_nil] at hle hflag htok
  refine ⟨?_, fun hclear => ?_, fun hpos => ?_, ?_⟩
  · simp only [tokens, tally_append]
    rcases htok with htok | ⟨hclear, -, htok⟩ | htok
    · omega
    · have := hflag hclear
      omega
    · omega
  · simp only [tokens, tally_append]
    rcases htok with ⟨htok, hsame | hset | ⟨hrel, hzero⟩⟩ | ⟨-, hset, -⟩ | ⟨-, hzero, htok⟩
    · obtain ⟨hno, hzero⟩ := hflag (hsame ▸ hclear)
      refine ⟨by omega, ?_⟩
      rcases hcnt with hcnt | hcnt | ⟨hpos, -⟩
      · rw [hcnt, hzero]
      · exact hcnt
      · omega
    · rw [hset] at hclear
      cases hclear
    · obtain ⟨hsends, hrest⟩ := hk.of_releasing hrel
      have hpre : tally Stmt.token pre = 0 :=
        tally_eq_zero.2 fun st' hst' => (hrest st' (List.mem_append_left _ hst')).1
      have hpost : tally Stmt.token post = 0 :=
        tally_eq_zero.2 fun st' hst' => (hrest st' (List.mem_append_right _ hst')).1
      have hzero' : st.token = 0 := by
        by_contra hne
        rw [relies_of_token (Nat.pos_of_ne_zero hne)] at hrel
        cases hrel
      rw [hsends, List.length_nil] at htok
      exact ⟨by omega, hzero⟩
    · rw [hset] at hclear
      cases hclear
    · exact ⟨by omega, hzero⟩
  · rcases exec_freeCnt he hst hpos with hfree | ⟨hclean, slot, hsame⟩
    · -- the slot is free, so that the statement relies on nothing
      have htrue := hk.free hfree
      have hnone : st.view.relies = none := by
        by_contra hsome
        obtain ⟨b, hb⟩ := Option.ne_none_iff_exists'.1 hsome
        rw [hk.flag st (by simp) b hb] at htrue
        rw [htrue] at hb
        have := (hk.alone pre st post rfl hb).1
        omega
      obtain ⟨hbuf, hqueue⟩ := exec_others he hst
      rcases hbuf with ⟨-, hcnt⟩ | hpos | hrel
      · exact ⟨(hqueue.resolve_right (not_not.2 hnone)).trans (h.free hfree).1,
          hcnt.trans (h.free hfree).2⟩
      · rw [relies_of_token hpos] at hnone
        cases hnone
      · rw [hrel] at hnone
        cases hnone
    · rw [hsame]
      exact hclean
  · intro st' hst'
    rw [List.append_assoc, List.mem_append, List.mem_append] at hst'
    rcases hst' with hst' | hst' | hst'
    · exact h.sound_rest hk he st' (List.mem_append_left _ hst')
    · exact exec_sound he hst (fun hclear => (hflag hclear).2) st' hst'
    · exact h.sound_rest hk he st' (List.mem_append_right _ hst')

/-- A function starts. -/
theorem Orderly.start (h : Orderly s (pre ++ post)) (slot : Slot) (hfree : slot.freeCnt ≤ s.slot.freeCnt)
    (htok : slot.sends.length + tally Stmt.token new ≤ s.slot.sends.length)
    (hnew : ∀ st ∈ new, st.Sound s) : Orderly { s with slot := slot } (pre ++ new ++ post) := by
  have hle := h.token_le
  have hflag := h.flag
  simp only [tokens, tally_append] at hle hflag
  refine ⟨?_, fun hclear => ?_, fun hpos => h.free (hpos.trans_le hfree), ?_⟩
  · simp only [tokens, tally_append]
    omega
  · have := hflag hclear
    simp only [tokens, tally_append]
    exact ⟨by omega, this.2⟩
  · intro st hst
    refine Stmt.Sound.of_eq (s := s) ?_ rfl rfl rfl
    rw [List.append_assoc, List.mem_append, List.mem_append] at hst
    rcases hst with hst | hst | hst
    · exact h.sound st (List.mem_append_left _ hst)
    · exact hnew st hst
    · exact h.sound st (List.mem_append_right _ hst)

/-! ## Runs -/

/-- What a step is for one session: nothing, a function starts, or a statement is executed. -/
inductive Local (s : SessionState) : List Stmt → SessionState → List Stmt → Prop
  | stay : Local s [] s []
  | kill (id : ℕ) : Local s [] s [.slot (.killInc id)]
  | send (id p : ℕ) : Local s [] s [.sendInc id p]
  | call {b : Session.Act} {slot : Slot} {fs : List Session.Frame} :
    Session.call s.slot b = some (slot, fs) →
      Local s [] { s with slot := slot } (fs.map Stmt.ofFrame)
  | exec {st : Stmt} {b : Session.Act} {e : Effect} :
    execSession s st b = some e → Local s [st] e.session e.next

theorem exec_packet {n n' : Net} {f : Frame} {a : Act} {new : List Frame} (hf : f.target = none)
    (h : RefCnt.exec n f a = some (n', new)) (k : UInt16) : n'.sessions = n.sessions ∧
      f.stmt k = none ∧ new.filterMap (Frame.stmt k) = [] := by
  cases f with
  | session j st => cases hf
  | allocRef p => cases h; exact ⟨rfl, rfl, rfl⟩
  | decRef p =>
    cases h
    refine ⟨rfl, rfl, ?_⟩
    split <;> rfl
  | toPool p => cases h; exact ⟨rfl, rfl, rfl⟩

theorem Turn.local {n n' : Net} {b : Act} {old new : List Frame} (h : Turn n b old n' new) (k : UInt16) :
    Local (n.sessions k) (old.filterMap (Frame.stmt k)) (n'.sessions k)
      (new.filterMap (Frame.stmt k)) := by
  cases h with
  | user _ hc =>
    obtain ⟨hsame, hnew⟩ := userCall_stmt hc k
    rw [hsame]
    rcases hnew with hnil | ⟨id, hkill⟩ | ⟨id, p, hsend⟩
    · rw [hnil]
      exact .stay
    · rw [hkill]
      exact .kill id
    · rw [hsend]
      exact .send id p
  | @call j b slot frames hc =>
    by_cases hj : j = k
    · subst hj
      rw [filterMap_stmt]
      simp only [Function.update_self]
      exact .call hc
    · rw [filterMap_stmt_ne hj]
      simp only [Function.update_of_ne (Ne.symm hj)]
      exact .stay
  | @session j st b e he =>
    by_cases hj : j = k
    · subst hj
      simp only [apply_sessions, Function.update_self, filterMap_apply, List.filterMap_cons,
        stmt_session, List.filterMap_nil]
      exact .exec he
    · simp only [apply_sessions, Function.update_of_ne (Ne.symm hj), filterMap_apply_ne hj,
        List.filterMap_cons, stmt_session_ne hj, List.filterMap_nil]
      exact .stay
  | packet hf he =>
    obtain ⟨hsame, hold, hnew⟩ := exec_packet hf he k
    rw [hsame, hnew, List.filterMap_cons, hold]
    exact .stay

theorem Orderly.local (h : Orderly s (pre ++ old ++ post)) (hk : Kept s (pre ++ old ++ post))
    (hl : Local s old s' new) : Orderly s' (pre ++ new ++ post) := by
  cases hl with
  | stay => exact h
  | kill id =>
    rw [List.append_nil] at h
    exact h.start s.slot le_rfl le_rfl fun st hst => by
      obtain rfl := List.mem_singleton.1 hst
      exact ⟨rfl, fun h => nomatch h⟩
  | send id p =>
    rw [List.append_nil] at h
    exact h.start s.slot le_rfl le_rfl fun st hst => by
      obtain rfl := List.mem_singleton.1 hst
      trivial
  | call hc =>
    rw [List.append_nil] at h
    obtain ⟨hfree, hnew⟩ := call_free hc
    refine h.start _ hfree (call_token hc) fun st hst => ?_
    obtain ⟨f, hf, rfl⟩ := List.mem_map.1 hst
    refine sound_ofFrame f fun hf' => ?_
    rcases hf' with hf' | ⟨g, hg⟩
    · exact h.free ((hnew f hf).1 hf')
    · exact absurd hg ((hnew f hf).2 g)
  | exec he => exact h.exec hk he

/-- The functions that run on a session. -/
def stmts (t : Threads Net Frame) (k : UInt16) : List Stmt := t.frames.filterMap (Frame.stmt k)

variable {sendBuffer : UInt16 → ℕ → ℕ} {ok : Threads Net Frame → ℕ × Act → Prop}
  {t : Threads Net Frame}

theorem frames_slotOf (k : UInt16) (t : Threads Net Frame) :
    (slotOf k t).frames = (stmts t k).map Stmt.view := by
  rw [slotOf, Threads.frames_part, filterMap_view, stmts]

theorem kept (h : (system sendBuffer).ReachableVia ok t) (k : UInt16) :
    Kept (t.shared.sessions k) (stmts t k) := by
  have hc := custody (slot_reachable h k)
  have hframes := frames_slotOf k t
  refine ⟨fun st hst b hb => ?_, hc.pending, hc.free, fun pre st post hsts hst => ?_⟩
  · exact hc.flag st.view (hframes ▸ List.mem_map_of_mem hst) b hb
  · rw [hsts, List.map_append, List.map_append, List.map_singleton] at hframes
    constructor
    · have hle := hc.token_le
      rw [Session.tokens, hframes, tally_append, tally_append, tally_cons, token_of_relies hst,
        Slot.stock] at hle
      show (slotOf k t).shared.freeCnt = 0
      omega
    · intro st' hst' hrel
      have hmem : st'.view ∈ pre.map Stmt.view ++ post.map Stmt.view := by
        rw [← List.map_append]
        exact List.mem_map_of_mem hst'
      have := hc.token_rest hframes (token_of_relies hst) hmem
      rw [token_of_relies hrel] at this
      cases this

/-- **The use of `SendBuffer` is in order** in every session. -/
theorem orderly (h : (system sendBuffer).ReachableVia ok t) (k : UInt16) :
    Orderly (t.shared.sessions k) (stmts t k) := by
  refine h.invariant₂ (J := fun t => Kept (t.shared.sessions k) (stmts t k))
    (I := fun t => Orderly (t.shared.sessions k) (stmts t k)) (fun h => kept h k) ?_ ?_
  · rintro _ ⟨n, rfl⟩
    have hnil : stmts (Threads.idle (start sendBuffer) n) k = [] := by simp [stmts]
    rw [hnil]
    exact ⟨Nat.zero_le 1, fun _ => ⟨rfl, rfl⟩, fun _ => ⟨rfl, rfl⟩, fun st hst => nomatch hst⟩
  · intro t l u hk _ ih _ hst
    obtain ⟨pre, old, new, post, ht, hu, hturn, -⟩ := step_turn hst
    have hsplit := congrArg (List.filterMap (Frame.stmt k)) ht
    simp only [stmts, hu, hsplit, List.filterMap_append] at ih hk ⊢
    exact ih.local hk (hturn.local k)

end NetworkLibrary.RefCnt
