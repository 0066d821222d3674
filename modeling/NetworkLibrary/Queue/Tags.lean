import NetworkLibrary.Queue.Accounts

/-!
# The tags of `Head`

A `Dequeue` draws one tag and writes it into `Head` at most once, so that no value of `Head` comes
back while fewer than 2^16 tags are drawn: a `Dequeue` that may still write its tag into `Head` is
alone with that tag, and no frame has read it from there (`Tags`).
-/

namespace NetworkLibrary.LockFreeQueue

open Foundations

variable {T : Type*} {q q' : Queue T} {f : Frame T} {a : Act T} {new : List (Frame T)}
  {ok : Threads (Queue T) (Frame T) → ℕ × Act T → Prop} {t u : Threads (Queue T) (Frame T)}

/-- The tag that a `Dequeue` may still write into `Head`. -/
def Frame.own : Frame T → Option ℕ
  | .readHead next | .readCurTail next _ | .readHeadNext next _ _ => some next.tag
  | .testHead next _ _ | .moveTail next _ | .readData next _ | .casHead next _ _ => some next.tag
  | _ => none

/-- The value of `Head` that a `Dequeue` may still compare with. -/
def Frame.curHead : Frame T → Option Tagged
  | .readCurTail _ curHead | .readHeadNext _ curHead _ | .testHead _ curHead _ => some curHead
  | .readData _ curHead | .casHead _ curHead _ => some curHead
  | _ => none

/-- One for the frames with a given tag of their own. -/
def Frame.owns (tag : ℕ) (f : Frame T) : ℕ := if f.own = some tag then 1 else 0

/-- Nobody has read a value of `Head` with this tag. -/
def Unread (tag : ℕ) (q : Queue T) (frames : List (Frame T)) : Prop :=
  q.head.tag ≠ tag ∧ ∀ f ∈ frames, ∀ x, f.curHead = some x → x.tag ≠ tag

/-- Only its owner may write a tag that was drawn into `Head`, and nobody has seen it there. -/
structure Tags (t : Threads (Queue T) (Frame T)) : Prop where
  drawn : ∀ tag, t.shared.tagCnt < tag → Unread tag t.shared t.frames ∧
    tally (Frame.owns tag) t.frames = 0
  unique : ∀ tag, tally (Frame.owns tag) t.frames ≤ 1
  unread : ∀ tag, 0 < tally (Frame.owns tag) t.frames → Unread tag t.shared t.frames

/-- A statement draws a tag; or it moves `Head` to its own tag, which it gives up; or it leaves
`Head` alone. -/
theorem exec_tags (h : exec q f a = some (q', new)) :
    (∀ f' ∈ new, ∀ x, f'.curHead = some x → f.curHead = some x ∨ x = q.head) ∧
      (q'.head = q.head ∧ q'.tagCnt = q.tagCnt + 1 ∧ f.own = none ∧
          (∀ tag, tally (Frame.owns tag) new ≤ if q.getTagCnt = tag then 1 else 0) ∨
        q'.head = q.head ∧ q'.tagCnt = q.tagCnt ∧
          (∀ tag, tally (Frame.owns tag) new ≤ f.owns tag) ∨
        f.own = some q'.head.tag ∧ q'.tagCnt = q.tagCnt ∧
          ∀ tag, tally (Frame.owns tag) new = 0) := by
  rcases exec_cases h with h | ⟨rfl, rfl⟩
  · revert h
    fun_cases stmt q f a <;> intro h <;> cases h <;>
      simp [Frame.own, Frame.owns, Frame.curHead, Tagged.setPtr]
  · simp +contextual

theorem Tags.call (h : Tags t) {pre post : List (Frame T)} (hs : t.frames = pre ++ [] ++ post)
    (hu : u.frames = pre ++ new ++ post)
    (hc : LockFreeQueue.call t.shared a = some (u.shared, new)) : Tags u := by
  obtain ⟨-, -, -, -, hcnt, hhead⟩ := call_accounts hc
  have hnew : ∀ f ∈ new, f.curHead = none ∧ f.own = none := by
    rcases call_frames hc with ⟨rfl, -⟩ | ⟨v, rfl, -⟩ <;> simp [Frame.curHead, Frame.own]
  have hunread : ∀ tag, Unread tag t.shared t.frames → Unread tag u.shared u.frames := by
    refine fun tag h => ⟨hhead ▸ h.1, ?_⟩
    refine Program.forall_frames_step hs hu h.2 (fun f hf x hx => ?_) fun _ _ hf => hf
    simp [(hnew f hf).1] at hx
  have hzero : ∀ tag, tally (Frame.owns tag) new = 0 := fun tag =>
    tally_eq_zero.2 fun f hf => by simp [Frame.owns, (hnew f hf).2]
  have htally : ∀ tag, tally (Frame.owns tag) u.frames = tally (Frame.owns tag) t.frames := by
    intro tag
    have := Program.tally_step (w := Frame.owns tag) hs hu
    rw [tally_nil, hzero] at this
    omega
  refine ⟨fun tag htag => ?_, fun tag => htally tag ▸ h.unique tag, fun tag hpos => ?_⟩
  · obtain ⟨h₁, h₂⟩ := h.drawn tag (hcnt ▸ htag)
    exact ⟨hunread tag h₁, htally tag ▸ h₂⟩
  · exact hunread tag (h.unread tag (htally tag ▸ hpos))

theorem Tags.exec (h : Tags t) {pre post : List (Frame T)} (hs : t.frames = pre ++ [f] ++ post)
    (hu : u.frames = pre ++ new ++ post) (hcnt : u.shared.tagCnt < 2 ^ 16)
    (he : LockFreeQueue.exec t.shared f a = some (u.shared, new)) : Tags u := by
  obtain ⟨hread, hcases⟩ := exec_tags he
  have htally : ∀ tag, tally (Frame.owns tag) u.frames + f.owns tag =
      tally (Frame.owns tag) t.frames + tally (Frame.owns tag) new := by
    intro tag
    simpa using Program.tally_step (w := Frame.owns tag) hs hu
  -- what nobody has read is still unread unless this statement writes it into `Head`
  have hunread : ∀ tag, u.shared.head.tag ≠ tag → Unread tag t.shared t.frames →
      Unread tag u.shared u.frames := by
    refine fun tag hne h => ⟨hne, ?_⟩
    refine Program.forall_frames_step hs hu h.2 (fun f' hf' x hx => ?_) fun _ _ hf => hf
    rcases hread f' hf' x hx with hx | rfl
    · exact h.2 f (by rw [hs]; simp) x hx
    · exact h.1
  rcases hcases with ⟨h₁, h₂, h₃, h₄⟩ | ⟨h₁, h₂, h₃⟩ | ⟨h₁, h₂, h₃⟩
  · -- a tag is drawn
    have htag : t.shared.getTagCnt = u.shared.tagCnt := by
      rw [Queue.getTagCnt, ← h₂, Nat.mod_eq_of_lt hcnt]
    have hold : ∀ tag, f.owns tag = 0 := by
      intro tag
      simp [Frame.owns, h₃]
    rw [htag] at h₄
    simp only [hold] at htally
    refine ⟨fun tag hlt => ?_, fun tag => ?_, fun tag hpos => ?_⟩
    · obtain ⟨hu, h0⟩ := h.drawn tag (by omega)
      refine ⟨hunread tag (h₁ ▸ hu.1) hu, ?_⟩
      have := htally tag
      have := h₄ tag
      rw [if_neg (by omega)] at this
      omega
    · have h5 := htally tag
      have h6 := h₄ tag
      split at h6
      · next heq =>
        have := (h.drawn tag (by omega)).2
        omega
      · have := h.unique tag
        omega
    · rcases Nat.eq_zero_or_pos (tally (Frame.owns tag) t.frames) with h0 | hpos'
      · have h5 := htally tag
        have h6 := h₄ tag
        split at h6
        · next heq =>
          have hu := (h.drawn tag (by omega)).1
          exact hunread tag (h₁ ▸ hu.1) hu
        · omega
      · have hu := h.unread tag hpos'
        exact hunread tag (h₁ ▸ hu.1) hu
  · -- `Head` and the tags stay
    have hle : ∀ tag, tally (Frame.owns tag) u.frames ≤ tally (Frame.owns tag) t.frames := by
      intro tag
      have := htally tag
      have := h₃ tag
      omega
    refine ⟨fun tag hlt => ?_, fun tag => (hle tag).trans (h.unique tag), fun tag hpos => ?_⟩
    · obtain ⟨hu, h0⟩ := h.drawn tag (h₂ ▸ hlt)
      have := hle tag
      exact ⟨hunread tag (h₁ ▸ hu.1) hu, by omega⟩
    · have hu := h.unread tag (hpos.trans_le (hle tag))
      exact hunread tag (h₁ ▸ hu.1) hu
  · -- `Head` gets the tag of the running frame
    have hown : f.owns u.shared.head.tag = 1 := by simp [Frame.owns, h₁]
    have hself : f.owns u.shared.head.tag ≤ tally (Frame.owns u.shared.head.tag) t.frames :=
      le_tally_of_mem (by rw [hs]; simp)
    have hle : ∀ tag, tally (Frame.owns tag) u.frames ≤ tally (Frame.owns tag) t.frames := by
      intro tag
      have := htally tag
      have := h₃ tag
      omega
    refine ⟨fun tag hlt => ?_, fun tag => (hle tag).trans (h.unique tag), fun tag hpos => ?_⟩
    · obtain ⟨hu, h0⟩ := h.drawn tag (h₂ ▸ hlt)
      refine ⟨hunread tag ?_ hu, ?_⟩
      · rintro rfl
        omega
      · have := hle tag
        omega
    · have hu := h.unread tag (hpos.trans_le (hle tag))
      refine hunread tag ?_ hu
      rintro rfl
      have h₅ := htally u.shared.head.tag
      have h₆ := h.unique u.shared.head.tag
      have h₇ := h₃ u.shared.head.tag
      omega

theorem step_tagCnt {l : ℕ × Act T} (h : program.step t l = some u) :
    t.shared.tagCnt ≤ u.shared.tagCnt := by
  obtain ⟨pre, old, new, post, -, -, hf, -⟩ := Program.step_frames h
  cases hf with
  | call hc =>
    obtain ⟨-, -, -, -, hcnt, -⟩ := call_accounts hc
    exact hcnt.ge
  | exec he => rcases (exec_tags he).2 with ⟨-, h, -⟩ | ⟨-, h, -⟩ | ⟨-, h, -⟩ <;> omega

/-- **No value of `Head` comes back** while fewer than 2^16 tags are drawn. -/
theorem tags [Inhabited T] (h : (system T).ReachableVia ok t)
    (hcnt : t.shared.tagCnt < 2 ^ 16) : Tags t := by
  refine h.invariant (I := fun t => t.shared.tagCnt < 2 ^ 16 → Tags t) ?_ ?_ hcnt
  · rintro _ ⟨n, rfl⟩ -
    refine ⟨fun tag hpos => ?_, ?_, ?_⟩
    · simp only [initQueue, Tagged.setPtr, Tagged.zero, Threads.shared_idle] at hpos
      simp [Unread, initQueue, Tagged.setPtr, Tagged.zero]
      omega
    · simp
    · simp
  · rintro s l t ih - hst hcnt
    have := ih ((step_tagCnt hst).trans_lt hcnt)
    obtain ⟨pre, old, new, post, hs, ht, hf, -⟩ := Program.step_frames hst
    cases hf with
    | call hc => exact this.call hs ht hc
    | exec he => exact this.exec hs ht hcnt he

end NetworkLibrary.LockFreeQueue
