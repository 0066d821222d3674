import NetworkLibrary.Foundations.Threads
import Mathlib.Logic.Function.Basic

/-!
# The send side of a session

`SendPacket`, `SendPost` and the worker's handlers of notifications and send completions on one
generation of a session, run by any number of threads; `NetServer` and `NetClient` have the same
code. The generation stays in force while any of them runs, so that the model has neither its
references nor its ID.

`SendQ` is an ideal queue whose `Size` is raised one step after a packet is linked; `Dequeue` first
takes 1 off `Size` and fails if it was not positive, and then looks for a packet until it gets one.
Packets are numbers. `SendBuffer` is a map from indices, those below 1000 as long as at most 1000
packets are queued at a drain.
-/

namespace NetworkLibrary.Send

open Foundations

/-- The fields of `Session` that the send side uses, what the completion port holds for it, and the
record of the run. -/
structure SendSide where
  sessionUseFlag : Bool
  sendFlag : Bool
  /-- The packets linked in `SendQ`. -/
  queue : List ℕ
  /-- `SendQ.Size`. -/
  size : ℤ
  sendBuffer : ℕ → ℕ
  sendPacketCnt : ℕ
  /-- Posted `WSASend`s whose completion no worker has got yet. -/
  sends : ℕ
  /-- Posted notifications that no worker has got yet. -/
  notes : ℕ
  /-- The packets in the order in which they were linked. -/
  enqueued : List ℕ
  /-- The packets handed to successful calls of `WSASend`. -/
  sent : List ℕ
  crashed : Bool

/-- The send side after `InitSession`. -/
def initSession (sendBuffer : ℕ → ℕ) : SendSide where
  sessionUseFlag := true
  sendFlag := false
  queue := []
  size := 0
  sendBuffer := sendBuffer
  sendPacketCnt := 0
  sends := 0
  notes := 0
  enqueued := []
  sent := []
  crashed := false

/-- The running functions, by the statement they are about to execute. `wsabuf` are the packets
that the local array of `SendPost` points to. -/
inductive Frame
  /-- `SendPacket`, after the check of the ID: `SendQ.Enqueue(packet)` links the packet. -/
  | enqueueLink (packet : ℕ)
  /-- The end of `Enqueue`: `Size` is raised. -/
  | enqueueSize
  /-- `PostQueuedCompletionStatus`. -/
  | postNote
  /-- A send completion of more than 0 bytes: the packets of `SendBuffer` are freed. -/
  | sentFree
  /-- `SendPacketCnt = 0`. -/
  | sentCnt
  /-- `SendFlag = 0`. -/
  | sentFlag
  /-- `SendPost`: `SessionUseFlag == false`. -/
  | use
  /-- `SendFlag.exchange(1) == 1`. -/
  | exchange
  /-- `packetCnt = SendQ.GetUseSize()`. -/
  | readSize
  /-- `while (!packetCnt)`. -/
  | loop (packetCnt : ℤ)
  /-- `SendFlag = 0`. -/
  | clearFlag
  /-- `if (SendQ.GetUseSize())`. -/
  | recheck
  /-- `if (SendFlag.exchange(1) == 0)`. -/
  | retake
  /-- `while (packetCnt--)`. -/
  | drain (packetCnt : ℤ) (wsabuf : List ℕ)
  /-- `SendQ.Dequeue(tmpPacket)`: `Size` is lowered and tested. -/
  | dequeueSize (packetCnt : ℤ) (wsabuf : List ℕ)
  /-- The packet is taken off the queue. -/
  | dequeuePop (packetCnt : ℤ) (wsabuf : List ℕ)
  /-- `Dequeue` fails: `Size` is raised again. -/
  | dequeueUndo
  /-- `Dequeue` returned false: `Crash`. -/
  | crash
  /-- `SendBuffer[wsabufCnt] = tmpPacket`. -/
  | store (packetCnt : ℤ) (wsabuf : List ℕ) (tmpPacket : ℕ)
  /-- `SendPacketCnt = wsabufCnt`. -/
  | setCnt (wsabuf : List ℕ)
  /-- `WSASend`. -/
  | wsaSend (wsabuf : List ℕ)
  /-- `SessionUseFlag == false` after the post: at most `CancelIoEx`. -/
  | postUse
  deriving DecidableEq

/-- The labels: the call an idle thread makes, or the answer to the statement that is executed
(`next` where there is nothing to answer). -/
inductive Act
  | next
  /-- A thread calls `SendPacket`. -/
  | sendPacket (packet : ℕ)
  /-- A worker gets a posted notification. -/
  | note
  /-- A worker gets the completion of a send. -/
  | sendDone (transferred : ℕ)
  /-- A thread executes `SessionUseFlag = false` of `KillSession`. -/
  | killSession
  /-- `WSASend` accepts the operation. -/
  | posted
  /-- `WSASend` fails with 10004, 10022, 10053 or 10054. -/
  | refused
  deriving DecidableEq

/-- The calls of an idle thread. -/
def call (s : SendSide) : Act → Option (SendSide × List Frame)
  | .sendPacket packet => some (s, [.enqueueLink packet])
  | .note => if 0 < s.notes then some ({ s with notes := s.notes - 1 }, [.use]) else none
  | .sendDone n =>
    if 0 < s.sends then
      if n = 0 then some ({ s with sends := s.sends - 1 }, [])
      else some ({ s with sends := s.sends - 1 }, [.sentFree])
    else none
  | .killSession => some ({ s with sessionUseFlag := false }, [])
  | _ => none

/-- The statements. -/
def exec (s : SendSide) : Frame → Act → Option (SendSide × List Frame)
  -- SendPacket
  | .enqueueLink p, _ =>
    some ({ s with queue := s.queue ++ [p], enqueued := s.enqueued ++ [p] }, [.enqueueSize])
  | .enqueueSize, _ => some ({ s with size := s.size + 1 }, [.postNote])
  | .postNote, _ => some ({ s with notes := s.notes + 1 }, [])
  -- WorkerThread, send completion
  | .sentFree, _ => some (s, [.sentCnt])
  | .sentCnt, _ => some ({ s with sendPacketCnt := 0 }, [.sentFlag])
  | .sentFlag, _ => some ({ s with sendFlag := false }, [.use])
  -- SendPost
  | .use, _ => if s.sessionUseFlag = false then some (s, []) else some (s, [.exchange])
  | .exchange, _ =>
    if s.sendFlag = true then some ({ s with sendFlag := true }, [])
    else some ({ s with sendFlag := true }, [.readSize])
  | .readSize, _ => some (s, [.loop s.size])
  | .loop n, _ => if n = 0 then some (s, [.clearFlag]) else some (s, [.drain n []])
  | .clearFlag, _ => some ({ s with sendFlag := false }, [.recheck])
  | .recheck, _ => if s.size ≠ 0 then some (s, [.retake]) else some (s, [])
  | .retake, _ =>
    if s.sendFlag = false then some ({ s with sendFlag := true }, [.readSize])
    else some ({ s with sendFlag := true }, [])
  | .drain n buf, _ =>
    if n ≠ 0 then some (s, [.dequeueSize (n - 1) buf]) else some (s, [.setCnt buf])
  | .dequeueSize n buf, _ =>
    if s.size ≤ 0 then some ({ s with size := s.size - 1 }, [.dequeueUndo])
    else some ({ s with size := s.size - 1 }, [.dequeuePop n buf])
  | .dequeuePop n buf, _ =>
    match s.queue with
    | p :: queue => some ({ s with queue := queue }, [.store n buf p])
    | [] => some (s, [.dequeuePop n buf]) -- `Dequeue` tries again
  | .dequeueUndo, _ => some ({ s with size := s.size + 1 }, [.crash])
  | .crash, _ => some ({ s with crashed := true }, [])
  | .store n buf p, _ =>
    some ({ s with sendBuffer := Function.update s.sendBuffer buf.length p }, [.drain n (buf ++ [p])])
  | .setCnt buf, _ => some ({ s with sendPacketCnt := buf.length }, [.wsaSend buf])
  | .wsaSend buf, .posted => some ({ s with sends := s.sends + 1, sent := s.sent ++ buf }, [.postUse])
  | .wsaSend _, .refused => some (s, [])
  | .wsaSend _, _ => none
  | .postUse, _ => some (s, [])

/-- The functions of the send side. -/
def program : Program SendSide Frame Act := ⟨call, exec⟩

/-- The runs of the send side. -/
def system (sendBuffer : ℕ → ℕ) : Lts (Threads SendSide Frame) (ℕ × Act) :=
  program.lts (initSession sendBuffer)

end NetworkLibrary.Send
