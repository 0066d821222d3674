import NetworkLibrary.Session.Callbacks
import NetworkLibrary.Session.SessionArr

/-!
# `NetServer::Stop`

A server with its accept thread, its workers, the threads of the application, and the first call of
`Stop` (a later one returns at once). The threads have one number each on all sessions: 0 is the
accept thread, 1 the thread that has called `Stop`, the `threadCnt` next ones are the workers, all
others belong to the application. A callback of one session may call `KillSession` or `SendPacket`
for another one; these calls are calls of an application thread here.

`FreeSessionStack` is an ideal stack, but `Size` is apart from it, as in the code: `Pop` lowers it
before it takes a session off, `Push` raises it when the session is on.
-/

namespace NetworkLibrary.NetServer

open Foundations Session

/-- `AcceptThread`, by the statement it is about to execute. -/
inductive Accepting
  /-- `while (!server->Shutdown)`. -/
  | test
  /-- `accept`. -/
  | accept
  /-- `accept` has failed: `if (server->Shutdown)`. -/
  | failed
  /-- `OnConnectionRequest()`. -/
  | request
  /-- `GetFreeSession`: `Pop` lowers `Size`, and tests it. -/
  | lowerSize
  /-- `Pop` raises `Size` again, and returns no session. -/
  | undoSize
  /-- `Pop` takes the session on top. -/
  | pop
  /-- `InitSession` and all that follows, on this session. -/
  | session (k : UInt16)
  | exited
  deriving DecidableEq

/-- `Stop`, by the statement it is about to execute. -/
inductive Stopping
  /-- `Shutdown.exchange(1)`. -/
  | exchange
  /-- The sweep over the sessions: `session->ReleaseArr[0] == FALSE`. -/
  | sweep (i : UInt16)
  /-- `KillSession(session->SessionID)`. -/
  | kill (i : UInt16)
  /-- Inside this `KillSession`, for session `k`. -/
  | killing (i k : UInt16)
  /-- `while (GetConnectedSessionCnt() > 0)`. -/
  | wait
  /-- `closesocket(ListenSocket)`. -/
  | closeListen
  /-- `AcceptThread_.join()`. -/
  | joinAccept
  /-- `PostQueuedCompletionStatus` for every worker. -/
  | post
  /-- `t.join()` for every worker. -/
  | joinWorkers
  | returned
  deriving DecidableEq

/-- `Stop` has left the wait loop. -/
def Stopping.waited : Stopping → Bool
  | .closeListen | .joinAccept | .post | .joinWorkers | .returned => true
  | _ => false

/-- The server. -/
structure Server where
  sessions : SessionArr
  freeSessionStack : List UInt16
  /-- `Size` of `FreeSessionStack`. -/
  size : ℤ
  /-- The threads that have pushed a session and are about to raise `Size`. -/
  raising : List ℕ
  sessionIDCnt : ℕ
  shutdown : Bool
  /-- `ListenSocket` is open. -/
  listening : Bool
  accepting : Accepting
  stopping : Stopping
  /-- The notifications that `Stop` has posted for the workers to exit. -/
  exits : ℕ
  /-- The workers that have exited. -/
  exited : List ℕ
  /-- `Stop` has waited for 5 seconds in vain. -/
  timedOut : Bool

/-- The server after `Start`, with `m` threads. -/
def start (totalSessionCnt : UInt16) (m : ℕ) : Server where
  sessions := SessionArr.start m
  freeSessionStack := SessionArr.free totalSessionCnt
  size := totalSessionCnt.toNat
  raising := []
  sessionIDCnt := 0
  shutdown := false
  listening := true
  accepting := .test
  stopping := .exchange
  exits := 0
  exited := []
  timedOut := false

/-- The steps of a server. -/
inductive Label
  /-- The accept thread executes its own next statement; `ok` is the answer of `accept` (a
  connection) or of `OnConnectionRequest`. -/
  | acceptThread (ok : Bool)
  /-- `Stop` executes its own next statement. -/
  | stop
  /-- `Stop` gives up waiting. -/
  | timeout
  /-- Thread `i` executes a statement on session `k`, or starts to work on it. -/
  | session (k : UInt16) (i : ℕ) (a : Act)
  /-- A thread that has pushed a session raises `Size`. -/
  | raiseSize (i : ℕ)
  /-- A worker takes a notification to exit. -/
  | exit (i : ℕ)

namespace Server

variable (totalSessionCnt threadCnt : UInt16) (s : Server)

/-- `GetConnectedSessionCnt`, in 32 bits. -/
def getConnectedSessionCnt : BitVec 32 :=
  BitVec.ofNat 32 totalSessionCnt.toNat - BitVec.ofInt 32 s.size

/-- A step of one session. -/
def run (k : UInt16) (l : ℕ × Act) : Option Server :=
  (s.sessions.run k l).map fun arr => { s with sessions := arr }

/-- The next statement of the accept thread. -/
def acceptThread (ok : Bool) : Option Server :=
  match s.accepting with
  | .test => some { s with accepting := if s.shutdown then .exited else .accept }
  | .accept => some { s with accepting := if s.listening ∧ ok then .request else .failed }
  -- 10004 while there is no `Shutdown`: the code goes on with the invalid socket
  | .failed => some { s with accepting := if s.shutdown then .exited else .request }
  | .request => some { s with accepting := if ok then .lowerSize else .test }
  | .lowerSize =>
    some { s with size := s.size - 1, accepting := if s.size ≤ 0 then .undoSize else .pop }
  | .undoSize => some { s with size := s.size + 1, accepting := .test }
  | .pop =>
    match s.freeSessionStack with
    | k :: stack =>
      if (s.sessions k).calls[0]? = some [] then
        (s.run k (0, .accept)).map fun s' =>
          { s' with freeSessionStack := stack, accepting := .session k }
      else none
    | [] => none
  | .session k =>
    if (s.sessions k).calls[0]? = some [] ∧ 0 ∉ s.raising then some { s with accepting := .test }
    else none
  | .exited => none

/-- The next statement of `Stop`. -/
def stop : Option Server :=
  match s.stopping with
  | .exchange => some { s with shutdown := true, stopping := .sweep 0 }
  | .sweep i =>
    if i < totalSessionCnt then
      some { s with stopping := if (s.sessions i).shared.releaseFlag then .sweep (i + 1) else .kill i }
    else some { s with stopping := .wait }
  | .kill i =>
    let id := (s.sessions i).shared.sessionID
    let k := UInt16.ofNat (id >>> 48)
    if (s.sessions k).calls[1]? = some [] then
      (s.run k (1, .killSession id)).map fun s' => { s' with stopping := .killing i k }
    else none
  | .killing i k =>
    if (s.sessions k).calls[1]? = some [] ∧ 1 ∉ s.raising then
      some { s with stopping := .sweep (i + 1) }
    else none
  | .wait =>
    some { s with stopping := if s.getConnectedSessionCnt totalSessionCnt = 0 then .closeListen else .wait }
  | .closeListen => some { s with listening := false, stopping := .joinAccept }
  | .joinAccept =>
    if s.accepting = .exited then some { s with stopping := .post } else none
  | .post => some { s with exits := threadCnt.toNat, stopping := .joinWorkers }
  | .joinWorkers =>
    if ∀ i < threadCnt.toNat, i + 2 ∈ s.exited then some { s with stopping := .returned } else none
  | .returned => none

/-- Thread `i` is a worker and works on no session. -/
def waiting (i : ℕ) : Bool :=
  2 ≤ i && i < threadCnt.toNat + 2 && i ∉ s.exited && i ∉ s.raising &&
    (SessionArr.free totalSessionCnt).all fun k => (s.sessions k).top i = none

/-- What a thread with nothing to do on a session may start there: a worker takes completions, and
the application calls functions. -/
def starts (i : ℕ) : Act → Bool
  | .killSession _ | .sendPacket _ => threadCnt.toNat + 2 ≤ i
  | .recvDone _ _ | .sendDone _ _ | .note _ => s.waiting totalSessionCnt threadCnt i
  | _ => false

/-- The statements that a thread may execute on a session: `FindSession` leads to it, and
`GenerateSessionID` raises the counter. -/
def allowed (k : UInt16) (i : ℕ) (a : Act) : Bool :=
  k < totalSessionCnt && i ∉ s.raising &&
    ((s.sessions k).top i ≠ none || s.starts totalSessionCnt threadCnt i a) &&
    match a with
    | .killSession id | .sendPacket id => id >>> 48 = k.toNat
    | .draw n => n = s.sessionIDCnt + 1
    | .accept => false
    | _ => true

/-- One step. -/
def step : Label → Option Server
  | .acceptThread ok => s.acceptThread ok
  | .stop => s.stop totalSessionCnt threadCnt
  | .timeout =>
    if s.stopping = .wait ∧ s.getConnectedSessionCnt totalSessionCnt ≠ 0 then
      some { s with stopping := .closeListen, timedOut := true }
    else none
  | .session k i a =>
    if s.allowed totalSessionCnt threadCnt k i a then
      (s.run k (i, a)).map fun s' =>
        { s' with
          sessionIDCnt :=
            if (s.sessions k).top i = some .initDraw then s.sessionIDCnt + 1 else s.sessionIDCnt
          freeSessionStack :=
            if s.sessions.pushing k i then k :: s.freeSessionStack else s.freeSessionStack
          raising := if s.sessions.pushing k i then i :: s.raising else s.raising }
    else none
  | .raiseSize i =>
    if i ∈ s.raising then some { s with size := s.size + 1, raising := s.raising.erase i } else none
  | .exit i =>
    if s.waiting totalSessionCnt threadCnt i ∧ 0 < s.exits then
      some { s with exits := s.exits - 1, exited := i :: s.exited }
    else none

end Server

/-- The runs of a server. -/
def system (totalSessionCnt threadCnt : UInt16) : Lts Server Label where
  init s := ∃ m, s = start totalSessionCnt m
  step := Server.step totalSessionCnt threadCnt

end NetworkLibrary.NetServer
