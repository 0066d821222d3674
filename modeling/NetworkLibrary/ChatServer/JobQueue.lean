import NetworkLibrary.ChatServer.Sectors
import NetworkLibrary.Session.Callbacks

/-!
# The job queue of `ChatServer`

The callbacks post jobs, from any number of threads: each enqueues its job in `JobQueue` and sets
`JobEvent`. `UpdateThreadFunc` handles the jobs one after the other and waits for the event where it
finds the queue empty. The callbacks of a session come as `NetServer` makes them: in the order of
`Session.Phase`, each returning before the next one.

`JobQueue` is an ideal queue whose `Size` is raised one step after a job is linked; `Dequeue` first
takes 1 off `Size` and fails if it was not positive. `JobEvent` resets itself.

* `jobs_in_order`: the jobs are handled once each, in the order in which they were posted, and those
  of a session in order: what the job loop relies on (`Job.inOrder`) is what it gets;
* `no_lost_job`: while the thread waits and the event is not set, every job that has not been
  handled is one whose callback has not set the event yet.
-/

namespace NetworkLibrary.JobQueue

open Foundations ChatServer

/-- `Job`, as it is posted. -/
inductive Posted
  | join (sessionID : UInt64)
  | message (sessionID : UInt64) (packet : Delivered)
  | leave (sessionID : UInt64)
  | heartbeat

/-- The job when it is handled, with what `CharacterPool.Alloc` and `timeGetTime` return. -/
def Posted.job (character : ℕ) (time : UInt32) : Posted → Job
  | .join sessionID => .join sessionID character time
  | .message sessionID packet => .message sessionID packet time
  | .leave sessionID => .leave sessionID
  | .heartbeat => .heartbeat time

/-- What has been posted of a job. -/
def posted : Job → Posted
  | .join sessionID .. => .join sessionID
  | .message sessionID packet _ => .message sessionID packet
  | .leave sessionID => .leave sessionID
  | .heartbeat _ => .heartbeat

/-- `ChatServer`, as far as the job queue goes, where the callbacks of the sessions stand, and the
record of the run. -/
structure Content where
  /-- The jobs linked in `JobQueue`. -/
  queue : List Posted
  /-- `JobQueue.Size`. -/
  size : ℤ
  jobEvent : Bool
  /-- The thread of `UpdateThreadFunc` has been started. -/
  started : Bool
  state : State
  phase : UInt64 → Session.Phase
  /-- The jobs in the order in which they were linked. -/
  enqueued : List Posted
  handled : List Job

/-- The running functions, by the statement they are about to execute. -/
inductive Frame
  /-- A callback, or `HeartbeatTimerThread`: `JobQueue.Enqueue(job)` links the job. -/
  | enqueueLink (job : Posted)
  /-- The end of `Enqueue`: `Size` is raised. -/
  | enqueueSize (job : Posted)
  /-- `SetEvent(JobEvent)`. -/
  | setEvent (job : Posted)
  /-- The callback returns; the timer thread sleeps and goes on. -/
  | ret (job : Posted)
  /-- `JobQueue.Dequeue(job)`: `Size` is lowered and tested. -/
  | dequeueSize
  /-- The job is taken off the queue. -/
  | dequeuePop
  /-- `Dequeue` fails: `Size` is raised again. -/
  | dequeueUndo
  /-- The `switch` over the job's type. -/
  | handle (job : Posted)
  /-- `WaitForSingleObject(JobEvent, INFINITE)`. -/
  | wait

inductive Act
  | next
  /-- `NetServer` calls a callback. -/
  | onClientJoin (sessionID : UInt64)
  | onRecv (sessionID : UInt64) (packet : Delivered)
  | onClientLeave (sessionID : UInt64)
  /-- The constructor starts the thread of `UpdateThreadFunc`. -/
  | contentThread
  | timerThread
  /-- What `CharacterPool.Alloc` and `timeGetTime` return. -/
  | answers (character : ℕ) (time : UInt32)

namespace Content

variable (s : Content)

/-- A callback of the session is called or returns, if it may come next. -/
def advance (sessionID : UInt64) (e : Session.Event) : Option Content :=
  ((s.phase sessionID).next e).map fun p =>
    { s with phase := Function.update s.phase sessionID p }

/-- The callback that posts the job. -/
def calls : Posted → Option Content
  | .join sessionID => s.advance sessionID .onClientJoin
  | .message sessionID _ => s.advance sessionID .onRecv
  | .leave sessionID => s.advance sessionID .onClientLeave
  | .heartbeat => some s

def returns : Posted → Option Content
  | .join sessionID => s.advance sessionID .onClientJoinReturn
  | .message sessionID _ => s.advance sessionID .onRecvReturn
  | .leave sessionID => s.advance sessionID .onClientLeaveReturn
  | .heartbeat => some s

end Content

/-- The calls of an idle thread. -/
def call (s : Content) : Act → Option (Content × List Frame)
  | .onClientJoin sessionID =>
    (s.calls (.join sessionID)).map fun s => (s, [.enqueueLink (.join sessionID)])
  | .onRecv sessionID packet =>
    (s.calls (.message sessionID packet)).map fun s =>
      (s, [.enqueueLink (.message sessionID packet)])
  | .onClientLeave sessionID =>
    (s.calls (.leave sessionID)).map fun s => (s, [.enqueueLink (.leave sessionID)])
  | .timerThread => some (s, [.enqueueLink .heartbeat])
  | .contentThread =>
    if s.started then none else some ({ s with started := true }, [.dequeueSize])
  | .next | .answers .. => none

/-- The statements. After a `Crash`, nothing is handled. -/
def exec (s : Content) : Frame → Act → Option (Content × List Frame)
  | .enqueueLink job, _ =>
    some ({ s with queue := s.queue ++ [job], enqueued := s.enqueued ++ [job] }, [.enqueueSize job])
  | .enqueueSize job, _ => some ({ s with size := s.size + 1 }, [.setEvent job])
  | .setEvent job, _ => some ({ s with jobEvent := true }, [.ret job])
  | .ret .heartbeat, _ => some (s, [.enqueueLink .heartbeat])
  | .ret job, _ => (s.returns job).map fun s => (s, [])
  | .dequeueSize, _ =>
    if s.size ≤ 0 then some ({ s with size := s.size - 1 }, [.dequeueUndo])
    else some ({ s with size := s.size - 1 }, [.dequeuePop])
  | .dequeuePop, _ =>
    match s.queue with
    | job :: queue => some ({ s with queue := queue }, [.handle job])
    | [] => some (s, [.dequeuePop]) -- `Dequeue` tries again
  | .dequeueUndo, _ => some ({ s with size := s.size + 1 }, [.wait])
  | .handle job, .answers character time =>
    if .crash ∈ s.state.events then none
    else
      (s.state.server.update (job.job character time)).map fun (server, events) =>
        ({ s with
          state :=
            ⟨server, (job.job character time).advance s.state.phase, s.state.events ++ events⟩
          handled := s.handled ++ [job.job character time] }, [.dequeueSize])
  | .handle _, _ => none
  | .wait, _ =>
    if s.jobEvent then some ({ s with jobEvent := false }, [.dequeueSize]) else none

/-- The functions of `ChatServer` around `JobQueue`. -/
def program : Program Content Frame Act := ⟨call, exec⟩

/-- The content after the constructor, without sessions. -/
def initContent (state : State) : Content where
  queue := []
  size := 0
  jobEvent := false
  started := false
  state := state
  phase := fun _ => .fresh
  enqueued := []
  handled := []

/-- The runs of `ChatServer`. -/
def system (state : State) : Lts (Threads Content Frame) (ℕ × Act) :=
  program.lts (initContent state)

variable {s s' : Content} {f : Frame} {a : Act} {new pre post : List Frame} {state : State}
  {ok : Threads Content Frame → ℕ × Act → Prop} {t u : Threads Content Frame} {p : Posted}

/-! ## The cases of a step -/

/-- What a statement does. -/
inductive Executes (s : Content) : Frame → Content → List Frame → Prop
  | link (p : Posted) : Executes s (.enqueueLink p)
    { s with queue := s.queue ++ [p], enqueued := s.enqueued ++ [p] } [.enqueueSize p]
  | size (p : Posted) : Executes s (.enqueueSize p) { s with size := s.size + 1 } [.setEvent p]
  | setEvent (p : Posted) : Executes s (.setEvent p) { s with jobEvent := true } [.ret p]
  | timer : Executes s (.ret .heartbeat) s [.enqueueLink .heartbeat]
  | ret {p : Posted} {s' : Content} : s.returns p = some s' → Executes s (.ret p) s' []
  | fail : s.size ≤ 0 → Executes s .dequeueSize { s with size := s.size - 1 } [.dequeueUndo]
  | grant : 0 < s.size → Executes s .dequeueSize { s with size := s.size - 1 } [.dequeuePop]
  | pop {p : Posted} {queue : List Posted} : s.queue = p :: queue →
    Executes s .dequeuePop { s with queue := queue } [.handle p]
  | retry : s.queue = [] → Executes s .dequeuePop s [.dequeuePop]
  | undo : Executes s .dequeueUndo { s with size := s.size + 1 } [.wait]
  | handle {p : Posted} {job : Job} {server : Server} {events : List Event} : posted job = p →
    .crash ∉ s.state.events → s.state.server.update job = some (server, events) →
    Executes s (.handle p)
      { s with
        state := ⟨server, job.advance s.state.phase, s.state.events ++ events⟩
        handled := s.handled ++ [job] } [.dequeueSize]
  | wake : s.jobEvent = true → Executes s .wait { s with jobEvent := false } [.dequeueSize]

theorem posted_job (character : ℕ) (time : UInt32) : posted (p.job character time) = p := by
  cases p <;> rfl

theorem executes (h : exec s f a = some (s', new)) : Executes s f s' new := by
  revert h
  fun_cases exec s f a <;> intro h
  case case1 p => cases h; exact .link p
  case case2 p => cases h; exact .size p
  case case3 p => cases h; exact .setEvent p
  case case4 => cases h; exact .timer
  case case5 p _ =>
    obtain ⟨s', hs', heq⟩ := Option.map_eq_some_iff.1 h
    cases heq
    exact .ret hs'
  case case6 hle => cases h; exact .fail hle
  case case7 hle => cases h; exact .grant (not_le.1 hle)
  case case8 p queue hq => cases h; exact .pop hq
  case case9 hq => cases h; exact .retry hq
  case case10 => cases h; exact .undo
  case case11 => cases h
  case case12 p character time hcrash =>
    obtain ⟨⟨server, events⟩, hupdate, heq⟩ := Option.map_eq_some_iff.1 h
    cases heq
    exact .handle (posted_job character time) hcrash hupdate
  case case13 => cases h
  case case14 hevent => cases h; exact .wake hevent
  case case15 => cases h

/-- What a call does. -/
inductive Calls (s : Content) : Content → List Frame → Prop
  | callback {p : Posted} {s' : Content} : s.calls p = some s' → Calls s s' [.enqueueLink p]
  | contentThread : s.started = false → Calls s { s with started := true } [.dequeueSize]

theorem calls (h : call s a = some (s', new)) : Calls s s' new := by
  cases a with
  | onClientJoin sessionID | onRecv sessionID packet | onClientLeave sessionID =>
    obtain ⟨s', hs', heq⟩ := Option.map_eq_some_iff.1 h
    cases heq
    exact .callback hs'
  | timerThread =>
    cases h
    exact .callback (p := .heartbeat) rfl
  | contentThread =>
    obtain ⟨hstarted, heq⟩ := Option.ite_none_left_eq_some.1 h
    cases heq
    exact .contentThread (Bool.not_eq_true _ ▸ hstarted)
  | next => cases h
  | answers => cases h

/-! ## Where the sessions stand -/

namespace Posted

/-- The session of a job. -/
def session : Posted → Option UInt64
  | .join sessionID | .message sessionID _ | .leave sessionID => some sessionID
  | .heartbeat => none

/-- What must have come of the session. -/
def before : Posted → ChatServer.Phase
  | .join _ => .unknown
  | .message .. | .leave _ | .heartbeat => .joined

/-- What comes of it. -/
def after : Posted → ChatServer.Phase
  | .join _ | .message .. | .heartbeat => .joined
  | .leave _ => .left

/-- Where the session stands while the callback runs. -/
def running : Posted → Session.Phase
  | .join _ => .joining
  | .message .. | .heartbeat => .receiving
  | .leave _ => .leaving

end Posted

/-- What has come of a session that is in no callback. -/
def rest : Session.Phase → Option ChatServer.Phase
  | .fresh => some .unknown
  | .joined => some .joined
  | .left => some .left
  | .joining | .receiving | .leaving => none

/-- A callback is called that may come next. -/
theorem calls_cases (h : s.calls p = some s') : p.session = none ∧ s' = s ∨
    ∃ id, p.session = some id ∧ rest (s.phase id) = some p.before ∧
      s' = { s with phase := Function.update s.phase id p.running } := by
  cases p with
  | join id | message id packet | leave id =>
    obtain ⟨q, hq, rfl⟩ := Option.map_eq_some_iff.1 h
    refine .inr ⟨id, rfl, ?_⟩
    cases hphase : s.phase id <;> rw [hphase] at hq <;> cases hq
    exact ⟨rfl, rfl⟩
  | heartbeat =>
    cases h
    exact .inl ⟨rfl, rfl⟩

theorem returns_cases (h : s.returns p = some s') : p.session = none ∧ s' = s ∨
    ∃ id q, p.session = some id ∧ s.phase id = p.running ∧ rest q = some p.after ∧
      s' = { s with phase := Function.update s.phase id q } := by
  cases p with
  | join id | message id packet | leave id =>
    obtain ⟨q, hq, rfl⟩ := Option.map_eq_some_iff.1 h
    refine .inr ⟨id, q, rfl, ?_⟩
    cases hphase : s.phase id <;> rw [hphase] at hq <;> cases hq
    exact ⟨rfl, rfl, rfl⟩
  | heartbeat =>
    cases h
    exact .inl ⟨rfl, rfl⟩

/-- A callback changes nothing but where its session stands. -/
theorem eq_of_calls (h : s.calls p = some s') : ∃ phase, s' = { s with phase := phase } := by
  rcases calls_cases h with ⟨-, rfl⟩ | ⟨id, -, -, rfl⟩
  · exact ⟨_, rfl⟩
  · exact ⟨_, rfl⟩

theorem eq_of_returns (h : s.returns p = some s') : ∃ phase, s' = { s with phase := phase } := by
  rcases returns_cases h with ⟨-, rfl⟩ | ⟨id, q, -, -, -, rfl⟩
  · exact ⟨_, rfl⟩
  · exact ⟨_, rfl⟩

/-! ## The queue and the thread that waits -/

/-- What a frame still owes to `Size`, or to the queue. -/
def Frame.owes : Frame → ℕ
  | .enqueueSize _ | .dequeueUndo | .dequeuePop => 1
  | _ => 0

/-- The frames of `UpdateThreadFunc`. -/
def Frame.updates : Frame → ℕ
  | .dequeueSize | .dequeuePop | .dequeueUndo | .handle _ | .wait => 1
  | _ => 0

/-- The job has been linked, and `JobEvent` has not been set for it. -/
def Frame.late : Frame → ℕ
  | .enqueueSize _ | .setEvent _ => 1
  | _ => 0

/-- `Dequeue` has failed. -/
def Frame.idles : Frame → ℕ
  | .dequeueUndo | .wait => 1
  | _ => 0

/-- `Size` is what is queued, but for what the frames owe. -/
theorem length_queue (h : (system state).ReachableVia ok t) :
    (t.shared.queue.length : ℤ) - t.shared.size = tally Frame.owes t.frames := by
  have hcons := Program.conserved (P := program)
    (fun s => (s.queue.length : ℤ) - s.size) Frame.owes (fun s a old s' new hf => ?_) h
  · simpa [initContent] using hcons
  cases hf with
  | call hc =>
    cases calls hc with
    | callback hs =>
      obtain ⟨phase, rfl⟩ := eq_of_calls hs
      rfl
    | contentThread => rfl
  | exec he =>
    cases executes he with
    | ret hs =>
      obtain ⟨phase, rfl⟩ := eq_of_returns hs
      rfl
    | pop hq =>
      simp only [hq, List.length_cons, tally_cons, tally_nil, Frame.owes]
      omega
    | _ => simp [Frame.owes] <;> omega

/-- One thread runs `UpdateThreadFunc`, once it has been started. -/
theorem tally_updates (h : (system state).ReachableVia ok t) :
    (if t.shared.started then 1 else 0 : ℤ) = tally Frame.updates t.frames := by
  have hcons := Program.conserved (P := program)
    (fun s => if s.started then 1 else 0) Frame.updates (fun s a old s' new hf => ?_) h
  · simpa [initContent] using hcons
  cases hf with
  | call hc =>
    cases calls hc with
    | callback hs =>
      obtain ⟨phase, rfl⟩ := eq_of_calls hs
      simp [Frame.updates]
    | contentThread hstarted => simp [Frame.updates, hstarted]
  | exec he =>
    cases executes he with
    | ret hs =>
      obtain ⟨phase, rfl⟩ := eq_of_returns hs
      simp [Frame.updates]
    | _ => simp [Frame.updates]

theorem idles_le_updates (f : Frame) : f.idles ≤ f.updates := by
  cases f <;> simp [Frame.idles, Frame.updates]

/-- Where `Dequeue` has failed and the event is not set, everything queued is late. -/
def Noticed (t : Threads Content Frame) : Prop :=
  t.shared.jobEvent = false → 0 < tally Frame.idles t.frames →
    t.shared.queue.length ≤ tally Frame.late t.frames

theorem owes_le (f : Frame) : f.owes ≤ f.late + f.updates := by
  cases f <;> simp [Frame.owes, Frame.late, Frame.updates]

theorem noticed (h : (system state).ReachableVia ok t) : Noticed t := by
  refine h.invariant₂ (J := (system state).ReachableVia ok) id ?_ ?_
  · rintro _ ⟨n, rfl⟩ - hpos
    simp at hpos
  · rintro t l u ht - ih - hst hevent hpos
    obtain ⟨pre, old, new, post, hs, hu, hf, -⟩ := Program.step_frames hst
    have hupdates := tally_updates ht
    have hqueue := length_queue ht
    have hone : (if t.shared.started then 1 else 0 : ℤ) ≤ 1 := by split <;> simp
    have hidles := tally_mono (l := pre ++ post) fun f _ => idles_le_updates f
    have howes := tally_mono (l := pre ++ post) fun f _ => owes_le f
    rw [tally_add] at howes
    rw [Noticed, hs] at ih
    rw [hs] at hupdates hqueue
    rw [hu] at hpos ⊢
    simp only [tally_append] at ih hpos hupdates hqueue hidles howes ⊢
    generalize t.shared = s, u.shared = s' at *
    cases hf with
    | call hc =>
      cases calls hc with
      | callback hcalls =>
        obtain ⟨phase, rfl⟩ := eq_of_calls hcalls
        simp only [tally_cons, tally_nil, Frame.idles, Frame.late] at *
        exact ih hevent hpos
      | contentThread =>
        simp only [tally_cons, tally_nil, Frame.idles, Frame.late] at *
        exact ih hevent hpos
    | exec he =>
      cases executes he with
      | ret hreturns =>
        obtain ⟨phase, rfl⟩ := eq_of_returns hreturns
        simp only [tally_cons, tally_nil, Frame.idles, Frame.late] at *
        exact ih hevent hpos
      | setEvent => cases hevent
      | link =>
        simp only [tally_cons, tally_nil, Frame.idles, Frame.late, List.length_append,
          List.length_singleton] at *
        have := ih hevent hpos
        omega
      | size | timer | undo =>
        simp only [tally_cons, tally_nil, Frame.idles, Frame.late] at *
        have := ih hevent (by omega)
        omega
      | fail hle =>
        -- what is queued has not been counted in `Size`
        simp only [tally_cons, tally_nil, Frame.idles, Frame.late, Frame.owes, Frame.updates] at *
        omega
      | grant | retry | handle | wake | pop =>
        simp only [tally_cons, tally_nil, Frame.idles, Frame.updates] at hpos hupdates
        omega

/-! ## The jobs that have been handled -/

/-- The job that a frame has taken off the queue. -/
def Frame.held : Frame → List Posted
  | .handle p => [p]
  | _ => []

theorem held_of_updates {l : List Frame} (h : tally Frame.updates l = 0) :
    l.flatMap Frame.held = [] := by
  refine List.flatMap_eq_nil_iff.2 fun f hf => ?_
  have hzero := tally_eq_zero.1 h f hf
  cases f <;> first | rfl | cases hzero

/-- What has been enqueued has been handled, is being handled, or is queued. -/
theorem enqueued_eq (h : (system state).ReachableVia ok t) :
    t.shared.enqueued =
      t.shared.handled.map posted ++ t.frames.flatMap Frame.held ++ t.shared.queue := by
  refine h.invariant₂ (J := (system state).ReachableVia ok) id (I := fun t => t.shared.enqueued =
    t.shared.handled.map posted ++ t.frames.flatMap Frame.held ++ t.shared.queue) ?_ ?_
  · rintro _ ⟨n, rfl⟩
    simp [initContent]
  · rintro t l u ht - ih - hst
    obtain ⟨pre, old, new, post, hs, hu, hf, -⟩ := Program.step_frames hst
    have hupdates := tally_updates ht
    have hone : (if t.shared.started then 1 else 0 : ℤ) ≤ 1 := by split <;> simp
    rw [hs] at hupdates ih
    rw [hu]
    simp only [tally_append, List.flatMap_append] at hupdates ih ⊢
    generalize t.shared = s, u.shared = s' at *
    -- while `UpdateThreadFunc` is at one of its statements, no other frame holds a job
    have hpre : tally Frame.updates old = 1 →
        pre.flatMap Frame.held = [] ∧ post.flatMap Frame.held = [] := fun hold =>
      ⟨held_of_updates (by omega), held_of_updates (by omega)⟩
    cases hf with
    | call hc =>
      cases calls hc with
      | callback hcalls =>
        obtain ⟨phase, rfl⟩ := eq_of_calls hcalls
        exact ih
      | contentThread => exact ih
    | exec he =>
      cases executes he with
      | link p =>
        dsimp only
        rw [ih]
        simp [Frame.held]
      | ret hreturns =>
        obtain ⟨phase, rfl⟩ := eq_of_returns hreturns
        exact ih
      | pop hq =>
        obtain ⟨h₁, h₂⟩ := hpre rfl
        rw [ih, hq, h₁, h₂]
        simp [Frame.held]
      | handle hjob =>
        obtain ⟨h₁, h₂⟩ := hpre rfl
        dsimp only
        rw [ih, h₁, h₂, List.map_append, List.map_singleton, hjob]
        simp [Frame.held]
      | _ => exact ih

/-- Only `UpdateThreadFunc` holds a job. -/
theorem enqueued_of_updates (h : (system state).ReachableVia ok t) (hf : f ∈ t.frames)
    (hone : f.updates = 1) :
    t.shared.enqueued = t.shared.handled.map posted ++ f.held ++ t.shared.queue := by
  have hupdates := tally_updates h
  have hle : (if t.shared.started then 1 else 0 : ℤ) ≤ 1 := by split <;> simp
  have henqueued := enqueued_eq h
  obtain ⟨pre, post, hsplit⟩ := List.append_of_mem hf
  rw [hsplit, tally_append, tally_cons, hone] at hupdates
  rw [hsplit, List.flatMap_append, List.flatMap_cons, held_of_updates (l := pre) (by omega),
    held_of_updates (l := post) (by omega), List.nil_append, List.append_nil] at henqueued
  exact henqueued

/-! ## The order of the jobs -/

/-- What comes of the sessions with the job. -/
def Posted.advance (phase : UInt64 → ChatServer.Phase) (p : Posted) : UInt64 → ChatServer.Phase :=
  match p.session with
  | some id => Function.update phase id p.after
  | none => phase

/-- What has come of the sessions with the jobs. -/
def enqueuedPhase (ps : List Posted) : UInt64 → ChatServer.Phase :=
  ps.foldl Posted.advance fun _ => .unknown

/-- The jobs of each session come in order: the first one is `Join`, and the last one is `Leave`. -/
def InOrder (ps : List Posted) : Prop :=
  ∀ pre p post, ps = pre ++ p :: post → ∀ id, p.session = some id → enqueuedPhase pre id = p.before

theorem enqueuedPhase_append (ps : List Posted) (p : Posted) :
    enqueuedPhase (ps ++ [p]) = p.advance (enqueuedPhase ps) := by
  rw [enqueuedPhase, List.foldl_append]
  rfl

theorem inOrder_append {ps : List Posted} (h : InOrder ps)
    (hp : ∀ id, p.session = some id → enqueuedPhase ps id = p.before) : InOrder (ps ++ [p]) := by
  intro pre q post heq id hid
  rcases List.append_eq_append_iff.1 heq with ⟨l, rfl, hl⟩ | ⟨l, rfl, hl⟩
  · cases l with
    | nil =>
      obtain ⟨rfl, -⟩ := List.cons.inj hl
      rw [List.append_nil]
      exact hp id hid
    | cons x l =>
      obtain ⟨-, hl⟩ := List.cons.inj hl
      simp at hl
  · cases l with
    | nil =>
      rw [List.append_nil] at hp
      obtain ⟨rfl, -⟩ := List.cons.inj hl
      exact hp id hid
    | cons x l =>
      obtain ⟨rfl, rfl⟩ := List.cons.inj hl
      exact h pre q l rfl id hid

/-- What is known of the session of a frame. -/
def Frame.Agrees (s : Content) : Frame → Prop
  | .enqueueLink p => ∀ id, p.session = some id →
    s.phase id = p.running ∧ enqueuedPhase s.enqueued id = p.before
  | .enqueueSize p | .setEvent p | .ret p => ∀ id, p.session = some id →
    s.phase id = p.running ∧ enqueuedPhase s.enqueued id = p.after
  | _ => True

/-- The frame runs a callback of the session. -/
def Frame.of (id : UInt64) : Frame → ℕ
  | .enqueueLink p | .enqueueSize p | .setEvent p | .ret p => if p.session = some id then 1 else 0
  | _ => 0

/-- The jobs come in order, and the callbacks know where they are. -/
structure Ordered (s : Content) (fs : List Frame) : Prop where
  order : InOrder s.enqueued
  rests : ∀ id q, rest (s.phase id) = some q → enqueuedPhase s.enqueued id = q
  frames : ∀ f ∈ fs, f.Agrees s

theorem rest_running (p : Posted) : rest p.running = none := by
  cases p <;> rfl

/-- The callbacks of a session do not overlap. -/
theorem tally_of (h : (system state).ReachableVia ok t) (id : UInt64) :
    (if rest (t.shared.phase id) = none then 1 else 0 : ℤ) = tally (Frame.of id) t.frames := by
  have hcons := Program.conserved (P := program)
    (fun s => if rest (s.phase id) = none then 1 else 0) (Frame.of id)
    (fun s a old s' new hf => ?_) h
  · simpa [initContent, rest] using hcons
  cases hf with
  | call hc =>
    cases calls hc with
    | callback hs =>
      rcases calls_cases hs with ⟨hnone, rfl⟩ | ⟨id', hid', hrest, rfl⟩
      · simp [Frame.of, hnone]
      · by_cases hid : id' = id
        · subst hid
          simp [Frame.of, hid', hrest, rest_running]
        · simp [Frame.of, hid', hid, Function.update_of_ne (Ne.symm hid)]
    | contentThread => simp [Frame.of]
  | exec he =>
    cases executes he with
    | ret hs =>
      rcases returns_cases hs with ⟨hnone, rfl⟩ | ⟨id', q, hid', hphase, hrest, rfl⟩
      · simp [Frame.of, hnone]
      · by_cases hid : id' = id
        · subst hid
          simp [Frame.of, hid', hphase, hrest, rest_running]
        · simp [Frame.of, hid', hid, Function.update_of_ne (Ne.symm hid)]
    | _ => simp [Frame.of, Posted.session]

/-- What is known of a frame is about its own session. -/
theorem Frame.Agrees.congr (h : f.Agrees s) (hsame : ∀ id, f.of id = 0 ∨
    s'.phase id = s.phase id ∧ enqueuedPhase s'.enqueued id = enqueuedPhase s.enqueued id) :
    f.Agrees s' := by
  cases f with
  | enqueueLink p | enqueueSize p | setEvent p | ret p =>
    intro id hid
    rcases hsame id with hzero | ⟨hphase, henqueued⟩
    · simp [Frame.of, hid] at hzero
    · rw [hphase, henqueued]
      exact h id hid
  | _ => trivial

/-- A step that is about no session. -/
theorem Ordered.keep {old fs ft : List Frame} (h : Ordered s fs) (hs : fs = pre ++ old ++ post)
    (ht : ft = pre ++ new ++ post) (hphase : s'.phase = s.phase)
    (henqueued : enqueuedPhase s'.enqueued = enqueuedPhase s.enqueued)
    (horder : InOrder s'.enqueued)
    (hnew : ∀ f ∈ new, f.Agrees s') : Ordered s' ft := by
  refine ⟨horder, ?_, Program.forall_frames_step hs ht h.frames hnew fun f _ hagrees =>
    hagrees.congr fun id => .inr ⟨by rw [hphase], by rw [henqueued]⟩⟩
  rw [hphase, henqueued]
  exact h.rests

/-- A step that is about a session, whose only frame it is. -/
theorem Ordered.change {old fs ft : List Frame} (h : Ordered s fs) (hs : fs = pre ++ old ++ post)
    (ht : ft = pre ++ new ++ post) (id : UInt64)
    (hone : tally (Frame.of id) fs = tally (Frame.of id) old) (horder : InOrder s'.enqueued)
    (hself : ∀ q, rest (s'.phase id) = some q → enqueuedPhase s'.enqueued id = q)
    (hnew : ∀ f ∈ new, f.Agrees s')
    (hsame : ∀ id', id' ≠ id → s'.phase id' = s.phase id' ∧
      enqueuedPhase s'.enqueued id' = enqueuedPhase s.enqueued id') : Ordered s' ft := by
  refine ⟨horder, fun id' q hq => ?_, Program.forall_frames_step hs ht h.frames hnew
    fun f hf hagrees => hagrees.congr fun id' => ?_⟩
  · by_cases hid : id' = id
    · subst hid
      exact hself q hq
    · rw [(hsame id' hid).2]
      exact h.rests id' q ((hsame id' hid).1 ▸ hq)
  · by_cases hid : id' = id
    · subst hid
      have hle := Program.add_le_tally (w := Frame.of id') hs hf
      left
      omega
    · exact .inr (hsame id' hid)

theorem ordered (h : (system state).ReachableVia ok t) : Ordered t.shared t.frames := by
  refine h.invariant₂ (J := (system state).ReachableVia ok) id
    (I := fun t => Ordered t.shared t.frames) ?_ ?_
  · rintro _ ⟨n, rfl⟩
    exact ⟨fun pre p post heq => by simp [initContent] at heq, fun id q hq => Option.some.inj hq,
      by simp⟩
  · rintro t l u ht - ih - hst
    obtain ⟨pre, old, new, post, hs, hu, hf, -⟩ := Program.step_frames hst
    have hone := tally_of ht
    have hagrees : ∀ f ∈ old, f.Agrees t.shared := fun f hf => ih.frames f (by rw [hs]; simp [hf])
    generalize t.shared = s, u.shared = s', t.frames = fs, u.frames = ft at *
    cases hf with
    | call hc =>
      cases calls hc with
      | @callback p _ hcalls =>
        rcases calls_cases hcalls with ⟨hnone, rfl⟩ | ⟨id, hid, hrest, rfl⟩
        · exact ih.keep hs hu rfl rfl ih.order (by simp [Frame.Agrees, hnone])
        have hzero := hone id
        rw [hrest, if_neg (by simp)] at hzero
        refine ih.change hs hu id (by simpa using hzero.symm) ih.order ?_ ?_
          fun id' hne => ⟨Function.update_of_ne hne .., rfl⟩
        · dsimp only
          rw [Function.update_self, rest_running]
          exact fun q hq => nomatch hq
        · simp only [List.mem_singleton, forall_eq, Frame.Agrees, hid, Option.some.injEq]
          rintro _ rfl
          exact ⟨Function.update_self .., ih.rests id _ hrest⟩
      | contentThread => exact ih.keep hs hu rfl rfl ih.order (by simp [Frame.Agrees])
    | exec he =>
      cases executes he with
      | link p =>
        have hp := hagrees _ (List.mem_singleton_self _)
        have horder := inOrder_append ih.order fun id hid => (hp id hid).2
        cases hsession : p.session with
        | none =>
          refine ih.keep hs hu rfl ?_ horder (by simp [Frame.Agrees, hsession])
          rw [enqueuedPhase_append, Posted.advance, hsession]
        | some id =>
          obtain ⟨hrunning, -⟩ := hp id hsession
          have hnow := hone id
          rw [hrunning, rest_running, if_pos rfl] at hnow
          refine ih.change hs hu id ?_ horder ?_ ?_ fun id' hne => ⟨rfl, ?_⟩
          · rw [tally_cons, tally_nil, Frame.of, if_pos hsession]
            omega
          · dsimp only
            rw [hrunning, rest_running]
            exact fun q hq => nomatch hq
          · simp only [List.mem_singleton, forall_eq, Frame.Agrees, hsession, Option.some.injEq,
              enqueuedPhase_append, Posted.advance]
            rintro _ rfl
            exact ⟨hrunning, Function.update_self ..⟩
          · dsimp only
            rw [enqueuedPhase_append, Posted.advance, hsession]
            exact Function.update_of_ne hne ..
      | size p => exact ih.keep hs hu rfl rfl ih.order (by simpa [Frame.Agrees] using hagrees)
      | setEvent p => exact ih.keep hs hu rfl rfl ih.order (by simpa [Frame.Agrees] using hagrees)
      | @ret p _ hreturns =>
        rcases returns_cases hreturns with ⟨-, rfl⟩ | ⟨id, q, hid, hrunning, hrest, rfl⟩
        · exact ih.keep hs hu rfl rfl ih.order (by simp)
        have hnow := hone id
        rw [hrunning, rest_running, if_pos rfl] at hnow
        refine ih.change hs hu id ?_ ih.order ?_ (by simp)
          fun id' hne => ⟨Function.update_of_ne hne .., rfl⟩
        · rw [tally_cons, tally_nil, Frame.of, if_pos hid]
          omega
        · dsimp only
          rw [Function.update_self, hrest]
          intro _ hq
          obtain rfl := Option.some.inj hq
          exact (hagrees _ (List.mem_singleton_self _) id hid).2
      | _ => exact ih.keep hs hu rfl rfl ih.order (by simp [Frame.Agrees, Posted.session])

/-! ## The job loop -/

/-- The server has handled the jobs as `jobs` does. -/
structure Runs (state : State) (s : Content) : Prop where
  run : jobs.run (fun _ _ => true) state s.handled = some s.state
  phase : s.state.phase = enqueuedPhase (s.handled.map posted)

/-- A job in order is one that the job loop takes. -/
theorem inOrder_of_before {phase : UInt64 → ChatServer.Phase} {job : Job}
    (h : ∀ id, (posted job).session = some id → phase id = (posted job).before) :
    job.inOrder phase = true := by
  cases job with
  | join id | message id | leave id => exact decide_eq_true (h id rfl)
  | heartbeat => rfl

theorem advance_posted {phase : UInt64 → ChatServer.Phase} {job : Job}
    (h : ∀ id, (posted job).session = some id → phase id = (posted job).before) :
    job.advance phase = (posted job).advance phase := by
  cases job with
  | join id | leave id | heartbeat => rfl
  | message id m time =>
    have hjoined : phase id = .joined := h id rfl
    exact (Function.update_eq_self_iff.2 hjoined.symm).symm

/-- The job that is being handled comes in order. -/
theorem phase_of_handle (h : (system state).ReachableVia ok t) (hr : Runs state t.shared)
    (hp : .handle p ∈ t.frames) {id : UInt64} (hid : p.session = some id) :
    t.shared.state.phase id = p.before := by
  have henqueued := enqueued_of_updates h hp rfl
  rw [hr.phase]
  exact (ordered h).order _ p t.shared.queue (by simpa [Frame.held] using henqueued) id hid

theorem runs (h0 : jobs.init state) (h : (system state).ReachableVia ok t) :
    Runs state t.shared := by
  refine h.invariant₂ (J := (system state).ReachableVia ok) id (I := fun t => Runs state t.shared)
    ?_ ?_
  · rintro _ ⟨n, rfl⟩
    exact ⟨rfl, funext h0.2.2.2.1⟩
  · rintro t l u ht - ih - hst
    obtain ⟨pre, old, new, post, hs, -, hf, -⟩ := Program.step_frames hst
    have hhandle : ∀ p, old = [.handle p] → ∀ id, p.session = some id →
        t.shared.state.phase id = p.before := fun p hold id hid =>
      phase_of_handle ht ih (by rw [hs, hold]; simp) hid
    generalize t.shared = s, u.shared = s' at *
    cases hf with
    | call hc =>
      cases calls hc with
      | callback hcalls =>
        obtain ⟨phase, rfl⟩ := eq_of_calls hcalls
        exact ⟨ih.run, ih.phase⟩
      | contentThread => exact ⟨ih.run, ih.phase⟩
    | exec he =>
      cases executes he with
      | ret hreturns =>
        obtain ⟨phase, rfl⟩ := eq_of_returns hreturns
        exact ⟨ih.run, ih.phase⟩
      | @handle _ job server events hjob hcrash hupdate =>
        subst hjob
        have hbefore := hhandle _ rfl
        refine ⟨?_, ?_⟩
        · dsimp only
          rw [Lts.run_append, ih.run, Option.bind_some, Lts.run, if_pos rfl,
            step_eq_some.2 ⟨hcrash, inOrder_of_before hbefore, server, events, hupdate, rfl⟩]
          rfl
        · dsimp only
          rw [List.map_append, List.map_singleton, enqueuedPhase_append, ← ih.phase,
            advance_posted hbefore]
      | _ => exact ⟨ih.run, ih.phase⟩

/-- **The jobs are handled once each, in the order in which they were posted.** The server is where
the job loop gets with the jobs handled so far; the others are queued, but for the one being
handled. `MessageControl` and `LeaveCharacter` find the character of their session, and
`CreateCharacter` finds that there is none yet. -/
theorem jobs_in_order (h0 : jobs.init state) (h : (system state).Reachable t) :
    jobs.run (fun _ _ => true) state t.shared.handled = some t.shared.state ∧
    (∃ held, held.length ≤ 1 ∧
      t.shared.enqueued = t.shared.handled.map posted ++ held ++ t.shared.queue) ∧
    ∀ p id, .handle p ∈ t.frames → p.session = some id →
      (id ∈ t.shared.state.server.characterMap ↔ p ≠ .join id) := by
  have hruns := runs h0 h
  refine ⟨hruns.run, ⟨_, ?_, enqueued_eq h⟩, fun p id hp hid => ?_⟩
  · have hupdates := tally_updates h
    have hle : (t.frames.flatMap Frame.held).length ≤ tally Frame.updates t.frames := by
      rw [List.length_flatMap]
      refine tally_mono (w := fun f : Frame => f.held.length) fun f _ => ?_
      cases f <;> simp [Frame.held, Frame.updates]
    split at hupdates <;> omega
  · have hreach : jobs.Reachable t.shared.state := Lts.ReachableVia.run (fun _ _ _ => trivial) _
      (.start h0) hruns.run
    rw [(consistent_of_reachable hreach).map id, phase_of_handle h hruns hp hid]
    cases p <;> simp_all [Posted.before, Posted.session]

/-- `n` statements of a thread. -/
def going (i n : ℕ) : List (ℕ × Act) := List.replicate n (i, .next)

/-- The job of a session that joins. -/
def Posted.joins (sessionID : UInt64) : Posted → Bool
  | .join id => id = sessionID
  | _ => false

/-- The handling of a message of a session. -/
def Frame.passes (sessionID : UInt64) : Frame → Bool
  | .handle (.message id _) => id = sessionID
  | _ => false

theorem eq_of_joins {id : UInt64} (h : p.joins id = true) : p = .join id := by
  cases p with
  | join id' => rw [of_decide_eq_true h]
  | _ => cases h

theorem exists_of_passes {id : UInt64} (h : f.passes id = true) :
    ∃ packet, f = .handle (.message id packet) := by
  unfold Frame.passes at h
  split at h
  · exact ⟨_, by rw [of_decide_eq_true h]⟩
  · cases h

/-- A session joins, and its first message is about to be handled. -/
def joining : List (ℕ × Act) :=
  [(0, .contentThread), (1, .onClientJoin 1)] ++ going 1 4 ++
    [(1, .onRecv 1 (.ofList [7, 0] (by decide)))] ++ going 1 3 ++ going 0 2 ++
    [(0, .answers 5 0)] ++ going 0 2

theorem jobs_in_order_joining : ∃ t, (system .empty).Reachable t ∧
    t.shared.handled.map posted = [.join 1] ∧ 1 ∈ t.shared.state.server.characterMap := by
  obtain ⟨t, ht, hp⟩ := Lts.exists_reachable_of_run (M := system .empty) ⟨2, rfl⟩ joining
    (p := fun t => (t.top 0).any (Frame.passes 1) &&
      decide ((t.shared.handled.map posted).map (Posted.joins 1) = [true])) (by decide +kernel)
  obtain ⟨htop, hhandled⟩ := (Bool.and_eq_true_iff).1 hp
  obtain ⟨f, hf, hpasses⟩ := (Option.any_eq_true ..).1 htop
  obtain ⟨packet, rfl⟩ := exists_of_passes hpasses
  obtain ⟨p, hposted, hjoins⟩ := List.map_eq_singleton_iff.1 (of_decide_eq_true hhandled)
  obtain ⟨-, -, hall⟩ := jobs_in_order init_empty ht
  refine ⟨t, ht, hposted.trans (by rw [eq_of_joins hjoins]), ?_⟩
  exact (hall _ 1 (Threads.mem_of_top hf) rfl).2 (by simp)

/-- **No job is lost.** While `UpdateThreadFunc` waits and `JobEvent` is not set, the jobs that have
not been handled are queued, and there are not more of them than callbacks that have posted a job
and not set the event yet; where there is no such callback, all jobs have been handled. -/
theorem no_lost_job (h : (system state).Reachable t) (hwait : .wait ∈ t.frames)
    (hevent : t.shared.jobEvent = false) :
    t.shared.enqueued = t.shared.handled.map posted ++ t.shared.queue ∧
      t.shared.queue.length ≤ tally Frame.late t.frames := by
  refine ⟨by simpa [Frame.held] using enqueued_of_updates h hwait rfl, noticed h hevent ?_⟩
  exact (le_refl 1).trans (le_tally_of_mem (w := Frame.idles) hwait)

/-- `WaitForSingleObject`. -/
def Frame.waits : Frame → Bool
  | .wait => true
  | _ => false

theorem eq_of_waits (h : f.waits = true) : f = .wait := by
  cases f with
  | wait => rfl
  | _ => cases h

/-- A job has been linked while the thread went to sleep. -/
theorem no_lost_job_late : ∃ t, (system .empty).Reachable t ∧ .wait ∈ t.frames ∧
    t.shared.queue.length = 1 ∧ t.shared.queue.length ≤ tally Frame.late t.frames := by
  obtain ⟨t, ht, hp⟩ := Lts.exists_reachable_of_run (M := system .empty) ⟨2, rfl⟩
    ([(0, .contentThread), (1, .onClientJoin 1)] ++ going 1 1 ++ going 0 2)
    (p := fun t => (t.top 0).any Frame.waits &&
      decide (t.shared.jobEvent = false ∧ t.shared.queue.length = 1)) (by decide +kernel)
  obtain ⟨htop, hnow⟩ := (Bool.and_eq_true_iff).1 hp
  obtain ⟨f, hf, hwaits⟩ := (Option.any_eq_true ..).1 htop
  obtain ⟨hevent, hlen⟩ := of_decide_eq_true hnow
  obtain rfl := eq_of_waits hwaits
  have hwait := Threads.mem_of_top hf
  exact ⟨t, ht, hwait, hlen, (no_lost_job ht hwait hevent).2⟩

end NetworkLibrary.JobQueue
