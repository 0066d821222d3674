import NetworkLibrary.Session.SessionArr

/-!
# `NetClient`

All sessions of a client, with `FreeSessionStack`, `SessionIDCnt` and the calls of `Connect`. To the
runs of `SessionArr` is added what the sessions share:
`GetFreeSession` pops the stack, `ReleaseSession` pushes it, and `++SessionIDCnt` reads the counter
in one step and writes it in another. A call of `Connect` runs on the session it has popped; its
last statement, `return session->SessionID`, comes when the others are done.
-/

namespace NetworkLibrary.NetClient

open Foundations Session

/-- The client, and the record of the values that `Connect` has returned. -/
structure Client where
  sessions : SessionArr
  freeSessionStack : List UInt16
  sessionIDCnt : ℕ
  /-- The value of `SessionIDCnt` that the `InitSession` of a session has read. -/
  read : UInt16 → Option ℕ
  /-- The running calls of `Connect`, by their sessions and threads: the generation and the ID that
  `OnConnect` was called with, once it was called. -/
  connecting : UInt16 × ℕ → Option (Option (ℕ × ℕ))
  /-- How often `SessionIDCnt` was raised. -/
  drawn : ℕ
  /-- The ID that each `Connect` has passed to `OnConnect`, if it has called it, and the value it
  has returned. -/
  returned : List (Option ℕ × ℕ)

/-- The client after `Start`, with `m` threads for each session. -/
def start (maxSessionCnt : UInt16) (m : ℕ) : Client where
  sessions := SessionArr.start m
  freeSessionStack := SessionArr.free maxSessionCnt
  sessionIDCnt := 0
  read _ := none
  connecting _ := none
  drawn := 0
  returned := []

/-- The steps of a client; `k` is a session, `i` a thread. -/
inductive Label
  /-- A `Connect` fails before `GetFreeSession`, or finds no free session. -/
  | connectFails
  /-- `Connect`: `GetFreeSession` pops the session. -/
  | connect (k : UInt16) (i : ℕ)
  /-- `++SessionIDCnt`, the read. -/
  | readCnt (k : UInt16) (i : ℕ)
  /-- `++SessionIDCnt`, the write. -/
  | writeCnt (k : UInt16) (i : ℕ)
  /-- Any other statement. -/
  | session (k : UInt16) (i : ℕ) (a : Act)
  /-- `Connect`: `return session->SessionID`. -/
  | ret (k : UInt16) (i : ℕ)

namespace Client

/-- A step of one session. -/
def run (c : Client) (k : UInt16) (l : ℕ × Act) : Option Client :=
  (c.sessions.run k l).map fun arr => { c with sessions := arr }

/-- What a statement of a session does beyond the session: `FreeSessionStack.Push`, and the call of
`OnConnect`. -/
def effect (c : Client) (k : UInt16) (i : ℕ) (c' : Client) : Client :=
  match (c.sessions k).top i with
  | some (.relPush _) => { c' with freeSessionStack := k :: c.freeSessionStack }
  | some (.openJoin g) =>
    { c' with connecting := Function.update c.connecting (k, i)
                (some (some (g, (c.sessions k).shared.sessionID))) }
  | _ => c'

/-- The statements that need nothing but their session: `FindSession` leads to it, and a thread
with a running `Connect` starts nothing else. -/
def allowed (c : Client) (k : UInt16) (i : ℕ) (a : Act) : Bool :=
  (match a with
    | .killSession id | .sendPacket id => id >>> 48 = k.toNat
    | .accept | .otherSlot => false
    | _ => true) &&
  match (c.sessions k).top i with
    | none => (c.connecting (k, i)).isNone
    | some f => f ≠ .initDraw

end Client

/-- One step. -/
def step (c : Client) : Label → Option Client
  | .connectFails => some { c with returned := c.returned ++ [(none, 0)] }
  | .connect k i =>
    if c.freeSessionStack.head? = some k ∧ (c.sessions k).calls[i]? = some [] ∧
        c.connecting (k, i) = none then
      (c.run k (i, .accept)).map fun c' =>
        { c' with
          freeSessionStack := c.freeSessionStack.tail
          connecting := Function.update c.connecting (k, i) (some none) }
    else none
  | .readCnt k i =>
    if (c.sessions k).top i = some .initDraw ∧ c.read k = none then
      some { c with read := Function.update c.read k (some c.sessionIDCnt) }
    else none
  | .writeCnt k i =>
    if (c.sessions k).top i = some .initDraw then
      (c.read k).bind fun r => (c.run k (i, .draw (r + 1))).map fun c' =>
        { c' with
          sessionIDCnt := r + 1
          read := Function.update c.read k none
          drawn := c.drawn + 1 }
    else none
  | .session k i a => if c.allowed k i a then (c.run k (i, a)).map (c.effect k i) else none
  | .ret k i =>
    if (c.sessions k).calls[i]? = some [] then
      (c.connecting (k, i)).map fun p =>
        { c with
          connecting := Function.update c.connecting (k, i) none
          returned := c.returned ++ [(p.map Prod.snd, (c.sessions k).shared.sessionID)] }
    else none

/-- The runs of a client. -/
def system (maxSessionCnt : UInt16) : Lts Client Label where
  init c := ∃ m, c = start maxSessionCnt m
  step := step

/-! ## The sessions of a client -/

variable {c c' : Client} {k : UInt16} {i : ℕ} {a : Act} {l : Label} {n : UInt16}

namespace Client

theorem run_eq {l : ℕ × Act} (h : c.run k l = some c') :
    ∃ t, (program .netClient).step (c.sessions k) l = some t ∧
      c' = { c with sessions := Function.update c.sessions k t } := by
  obtain ⟨arr, ha, rfl⟩ := Option.map_eq_some_iff.1 h
  obtain ⟨t, ht, rfl⟩ := SessionArr.run_eq ha
  exact ⟨t, ht, rfl⟩

@[simp] theorem effect_sessions : (c.effect k i c').sessions = c'.sessions := by
  unfold effect
  split <;> rfl

@[simp] theorem effect_read : (c.effect k i c').read = c'.read := by
  unfold effect
  split <;> rfl

@[simp] theorem effect_sessionIDCnt : (c.effect k i c').sessionIDCnt = c'.sessionIDCnt := by
  unfold effect
  split <;> rfl

@[simp] theorem effect_drawn : (c.effect k i c').drawn = c'.drawn := by
  unfold effect
  split <;> rfl

@[simp] theorem effect_returned : (c.effect k i c').returned = c'.returned := by
  unfold effect
  split <;> rfl

end Client

/-- A step of the client is a step of one of its sessions, or of none. -/
theorem step_sessions (h : step c l = some c') :
    c'.sessions = c.sessions ∨ ∃ k i a t, (program .netClient).step (c.sessions k) (i, a) = some t ∧
      c'.sessions = Function.update c.sessions k t ∧ a ≠ .otherSlot ∧
      ((c.sessions k).top i = some .initDraw → ∃ r, l = .writeCnt k i ∧ c.read k = some r ∧
        a = .draw (r + 1)) := by
  cases l with
  | connectFails =>
    obtain rfl := Option.some.inj h
    exact .inl rfl
  | connect k i =>
    simp only [step, Option.ite_none_right_eq_some] at h
    obtain ⟨⟨-, hidle, -⟩, h⟩ := h
    obtain ⟨c₁, hrun, rfl⟩ := Option.map_eq_some_iff.1 h
    obtain ⟨t, ht, rfl⟩ := Client.run_eq hrun
    exact .inr ⟨k, i, _, t, ht, rfl, by simp, by simp [Threads.top, hidle]⟩
  | readCnt k i =>
    simp only [step, Option.ite_none_right_eq_some] at h
    obtain ⟨-, h⟩ := h
    obtain rfl := Option.some.inj h
    exact .inl rfl
  | writeCnt k i =>
    simp only [step, Option.ite_none_right_eq_some] at h
    obtain ⟨-, h⟩ := h
    obtain ⟨r, hr, h⟩ := Option.bind_eq_some_iff.1 h
    obtain ⟨c₁, hrun, rfl⟩ := Option.map_eq_some_iff.1 h
    obtain ⟨t, ht, rfl⟩ := Client.run_eq hrun
    exact .inr ⟨k, i, _, t, ht, rfl, by simp, fun _ => ⟨r, rfl, hr, rfl⟩⟩
  | session k i a =>
    simp only [step, Option.ite_none_right_eq_some] at h
    obtain ⟨hallowed, h⟩ := h
    obtain ⟨c₁, hrun, rfl⟩ := Option.map_eq_some_iff.1 h
    obtain ⟨t, ht, rfl⟩ := Client.run_eq hrun
    refine .inr ⟨k, i, a, t, ht, by simp, ?_, fun htop => ?_⟩
    · rintro rfl
      simp [Client.allowed] at hallowed
    · simp [Client.allowed, htop] at hallowed
  | ret k i =>
    simp only [step, Option.ite_none_right_eq_some] at h
    obtain ⟨-, h⟩ := h
    obtain ⟨p, -, rfl⟩ := Option.map_eq_some_iff.1 h
    exact .inl rfl

/-- **Every session of a client runs as a slot.** -/
theorem sessions_reachable {ok : Client → Label → Prop} (h : (system n).ReachableVia ok c)
    (k : UInt16) : (Session.system .netClient k).Reachable (c.sessions k) := by
  refine h.invariant
    (I := fun c => ∀ k, (Session.system .netClient k).Reachable (c.sessions k)) ?_ ?_ k
  · rintro _ ⟨m, rfl⟩ k
    exact .start ⟨m, rfl⟩
  · intro c l c' ih _ hst k
    rcases step_sessions hst with heq | ⟨j, i, a, t, ht, heq, -⟩
    · rw [heq]
      exact ih k
    · rw [heq]
      rcases eq_or_ne k j with rfl | hk
      · rw [Function.update_self]
        exact (ih k).next trivial ht
      · rw [Function.update_of_ne hk]
        exact ih k

end NetworkLibrary.NetClient
