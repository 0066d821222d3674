import NetworkLibrary.Session.Slot
import Mathlib.Tactic.Linarith

/-!
# The references of a session

`ReleaseArr[1]` counts references: one for every running function that has incremented it and not
yet decremented it, and one for every outstanding operation and posted notification. `holds` says
how many references a frame holds, and `refCnt_eq` that the count is right in every reachable
state, released or not.
-/

namespace NetworkLibrary.Session

open Foundations

/-- The references a frame holds. A function that called `RecvPost` or `SendPost` still holds its
own. -/
def Frame.holds : Frame → ℕ
  | .killInc _ | .sendInc _ => 0
  | .killFlag _ | .killID _ | .killUse _ _ | .killCancel _ _ | .killDec _ _ | .staleDec _ => 1
  | .sendFlag _ | .sendID _ | .sendEnqueue _ _ | .sendPost _ _ => 1
  | .discCas _ | .discLeave _ | .inLeave _ => 0
  | .relMask _ | .relClose _ | .relDrain _ | .relPush _ => 0
  | .initUse | .initDraw | .initID _ | .initQueues _ | .initInc _ => 0
  | .initActive _ | .openSocket _ | .openJoin _ | .inJoin _ => 1
  | .recvUse _ | .recvBuf _ | .recvInc _ | .recvRecheck _ | .recvCancel _ => 1
  | .wsaRecv _ | .recvUndo _ => 2
  | .recvMove _ | .recvCheck _ | .recvGet _ | .recvCall _ | .inRecv _ | .recvShift _ => 1
  | .sent _ | .postInc _ | .postRecheck _ | .postCancel _ | .endDec _ => 1
  | .postUse _ | .postFlag _ | .wsaSend _ | .postUndo _ => 2

/-- The operations outstanding and the notifications posted. -/
def Slot.pending (s : Slot) : ℕ := s.recvs.length + s.sends.length + s.notes.length

variable {host : Host} {slot : UInt16} {s s' : Slot} {f : Frame} {a : Act} {old new : List Frame}

/-! ## The count -/

theorem exec_holds (h : exec host s f a = some (s', new)) :
    (s'.refCnt - s'.pending : ℤ) + f.holds = s.refCnt - s.pending + tally Frame.holds new := by
  revert h
  fun_cases exec host s f a <;> intro h <;> cases h
  all_goals simp_all [Frame.holds, Slot.pending]
  all_goals omega

theorem call_holds (h : call s a = some (s', new)) :
    (s'.refCnt - s'.pending : ℤ) = s.refCnt - s.pending + tally Frame.holds new := by
  revert h
  fun_cases call s a <;> intro h <;> cases h
  all_goals try have hk := List.length_eraseIdx_add_one (List.getElem?_eq_some_iff.1 ‹_›).1
  all_goals simp_all [Frame.holds, Slot.pending]
  all_goals omega

/-- **The count is the number of references.** -/
theorem refCnt_eq {ok : Threads Slot Frame → ℕ × Act → Prop} {t : Threads Slot Frame}
    (h : (system host slot).ReachableVia ok t) :
    t.shared.refCnt = t.shared.pending + tally Frame.holds t.frames := by
  have := Program.conserved (P := program host) (fun s => s.refCnt - s.pending) Frame.holds
    (fun g a old g' new hf => by
      cases hf with
      | call hc => simpa using call_holds hc
      | exec he => simpa using exec_holds he) h
  simp only [start, Slot.pending, List.length_nil] at this ⊢
  omega

end NetworkLibrary.Session
