import NetworkLibrary.Foundations.Parts
import NetworkLibrary.RefCnt.Net
import NetworkLibrary.Session.Custody
import Mathlib.Data.List.Chain

/-!
# The sessions of a run

Every session of a run is a run of its slot (`slot_reachable`), so that the custody of the slot
orders the functions that work on its `SendQ` and `SendBuffer` too. The frames of the session are
those of its slot, among the frames of other sessions on the same call stacks: what stands below the
call of a function is a callback, whichever session it is about (`Above`).
-/

namespace NetworkLibrary.RefCnt

open Foundations Session

/-- The statement of the slot that a statement is part of. -/
def Stmt.view : Stmt → Session.Frame
  | .slot f => f
  | .sendInc id _ => .sendInc id
  | .sendFlag id _ => .sendFlag id
  | .sendID id _ => .sendID id
  | .sendRef id g _ | .sendEncode id g _ | .sendEnqueue id g _ => .sendEnqueue id g
  | .exchange g | .useSize g | .clearFlag g | .recheck g | .retake g => .postFlag g
  | .drain g _ _ | .store g _ _ _ => .postFlag g
  | .sentCnt g | .sentLoop g _ _ | .sentFlag g => .sent g
  | .relQueue g | .relCnt g | .relLoop g _ _ => .relDrain g
  | .initFlag g | .initCnt g | .initQueue g => .initQueues g

/-- The functions that run on a session. -/
def Frame.stmt (k : UInt16) : Frame → Option Stmt
  | .session k' st => if k' = k then some st else none
  | _ => none

/-- The frames of a session. -/
def Frame.view (k : UInt16) (f : Frame) : Option Session.Frame := (f.stmt k).map Stmt.view

/-- The session that a frame works on. -/
def Frame.target : Frame → Option UInt16
  | .session k _ => some k
  | _ => none

/-- What a frame may stand on in a call stack: on a callback, or on a function that works on the
same session; the functions of a packet call nobody. -/
def Above (upper lower : Frame) : Prop :=
  ∃ k st, lower = .session k st ∧
    (st.inCallback = true ∨ upper.target = some k ∨ upper.target = none)

/-- The slot of a session, with the frames that work on it. -/
abbrev slotOf (k : UInt16) (t : Threads Net Frame) : Threads Slot Session.Frame :=
  t.part (fun n => (n.sessions k).slot) (Frame.view k)

variable {n n' : Net} {k : UInt16} {f : Frame} {a : Act} {new fs : List Frame}
  {s : SessionState} {st : Stmt} {b : Session.Act} {e : Effect}

@[simp] theorem view_ofFrame (f : Session.Frame) : (Stmt.ofFrame f).view = f := by
  cases f <;> rfl

@[simp] theorem view_ofSendPacket (p : ℕ) (f : Session.Frame) :
    (Stmt.ofSendPacket p f).view = f := by
  cases f <;> rfl

@[simp] theorem stmt_session (st : Stmt) : (Frame.session k st).stmt k = some st := by
  simp [Frame.stmt]

theorem stmt_session_ne {j : UInt16} (h : j ≠ k) (st : Stmt) :
    (Frame.session j st).stmt k = none := by
  simp [Frame.stmt, h]

@[simp] theorem filterMap_stmt (sts : List Stmt) :
    (sts.map (Frame.session k)).filterMap (Frame.stmt k) = sts := by
  simp [List.filterMap_map]

theorem filterMap_stmt_ne {j : UInt16} (h : j ≠ k) (sts : List Stmt) :
    (sts.map (Frame.session j)).filterMap (Frame.stmt k) = [] := by
  simp [stmt_session_ne h]

@[simp] theorem filterMap_stmt_decRef (p : Option ℕ) :
    (p.map Frame.decRef).toList.filterMap (Frame.stmt k) = [] := by
  cases p <;> rfl

theorem filterMap_view (fs : List Frame) :
    fs.filterMap (Frame.view k) = (fs.filterMap (Frame.stmt k)).map Stmt.view :=
  (List.map_filterMap).symm

@[simp] theorem view_session (st : Stmt) : (Frame.session k st).view k = some st.view := by
  simp [Frame.view]

theorem view_session_ne {j : UInt16} (h : j ≠ k) (st : Stmt) :
    (Frame.session j st).view k = none := by
  simp [Frame.view, stmt_session_ne h]

theorem filterMap_view_ne {j : UInt16} (h : j ≠ k) (sts : List Stmt) :
    (sts.map (Frame.session j)).filterMap (Frame.view k) = [] := by
  rw [filterMap_view, filterMap_stmt_ne h, List.map_nil]

theorem filterMap_view_decRef (p : Option ℕ) :
    (p.map Frame.decRef).toList.filterMap (Frame.view k) = [] := by
  rw [filterMap_view, filterMap_stmt_decRef, List.map_nil]

@[simp] theorem apply_sessions (n : Net) (k : UInt16) (e : Effect) :
    (n.apply k e).1.sessions = Function.update n.sessions k e.session := rfl

@[simp] theorem filterMap_apply (n : Net) (k : UInt16) (e : Effect) :
    (n.apply k e).2.filterMap (Frame.stmt k) = e.next := by
  rw [Net.apply, List.filterMap_append, filterMap_stmt_decRef, filterMap_stmt, List.nil_append]

theorem filterMap_apply_ne {j : UInt16} (h : j ≠ k) (n : Net) (e : Effect) :
    (n.apply j e).2.filterMap (Frame.stmt k) = [] := by
  rw [Net.apply, List.filterMap_append, filterMap_stmt_decRef, filterMap_stmt_ne h, List.nil_append]

/-! ## One statement -/

theorem callSession_eq (h : n.callSession k b = some (n', new)) :
    ∃ slot frames, Session.call (n.sessions k).slot b = some (slot, frames) ∧
      n' = { n with
        sessions := Function.update n.sessions k { n.sessions k with slot := slot } } ∧
      new = (frames.map Stmt.ofFrame).map (.session k) := by
  obtain ⟨r, hr, h⟩ := Option.map_eq_some_iff.1 h
  cases h
  exact ⟨r.1, r.2, hr, rfl, by rw [List.map_map]; rfl⟩

/-- The calls: of the application, or of a function of a session. -/
theorem call_cases (h : call n a = some (n', new)) :
    (∃ c, a = .user c ∧ userCall n c = some (n', new)) ∨
      ∃ k b, n.callSession k b = some (n', new) := by
  cases a with
  | user c => exact .inl ⟨c, rfl, h⟩
  | accept k => exact .inr ⟨k, _, h⟩
  | recvDone k j m => exact .inr ⟨k, _, h⟩
  | sendDone k j m => exact .inr ⟨k, _, h⟩
  | note k j => exact .inr ⟨k, _, h⟩
  | _ => cases h

/-- A statement of a session is a call out of a callback, or one of `execSession`. -/
theorem exec_session (h : exec n (.session k st) a = some (n', new)) :
    (∃ c calls, a = .user c ∧ st.inCallback = true ∧ userCall n c = some (n', calls) ∧
        new = calls ++ [.session k st]) ∨
      ∃ b e, execSession (n.sessions k) st b = some e ∧ n.apply k e = (n', new) := by
  cases a with
  | user c =>
    simp only [exec, Option.ite_none_right_eq_some] at h
    obtain ⟨hin, h⟩ := h
    obtain ⟨⟨_, calls⟩, hc, heq⟩ := Option.map_eq_some_iff.1 h
    cases heq
    exact .inl ⟨c, calls, rfl, hin, hc, rfl⟩
  | _ =>
    obtain ⟨e, he, heq⟩ := Option.map_eq_some_iff.1 h
    exact .inr ⟨_, e, he, heq⟩

theorem runSlot_eq {f : Session.Frame} {next : Session.Frame → Stmt}
    (h : s.runSlot f b next = some e) :
    ∃ slot new, Session.exec .netClient s.slot f b = some (slot, new) ∧
      e = { session := { s with slot := slot }, next := new.map next } := by
  obtain ⟨r, hr, rfl⟩ := Option.map_eq_some_iff.1 h
  exact ⟨r.1, r.2, hr, rfl⟩

/-- A statement of a session is one of its slot, or a part of one that leaves the slot alone. -/
theorem execSession_slot (h : execSession s st b = some e) :
    (e.session.slot = s.slot ∧ e.next.map Stmt.view = [st.view]) ∨
      ∃ c, Session.exec .netClient s.slot st.view c =
        some (e.session.slot, e.next.map Stmt.view) := by
  have hslot : ∀ {f : Session.Frame} {next : Session.Frame → Stmt},
      s.runSlot f b next = some e → (∀ f, (next f).view = f) →
        ∃ c, Session.exec .netClient s.slot f c = some (e.session.slot, e.next.map Stmt.view) := by
    intro f next hr hnext
    obtain ⟨slot, new, he, rfl⟩ := runSlot_eq hr
    refine ⟨b, ?_⟩
    simp [he, Function.comp_def, hnext]
  revert h
  fun_cases execSession s st b <;> intro h
  case case1 => exact .inr (hslot h view_ofFrame)
  case case2 p => exact .inr (hslot h (view_ofSendPacket p))
  case case3 p => exact .inr (hslot h (view_ofSendPacket p))
  case case4 p => exact .inr (hslot h (view_ofSendPacket p))
  -- where the function leaves the part, the slot takes its statement with the answer for that
  all_goals cases h
  all_goals first
    | exact .inl ⟨rfl, rfl⟩
    | exact .inr ⟨.next, rfl⟩
    | exact .inr ⟨.none, rfl⟩

/-! ## Calls of the application -/

theorem inCallback_iff : st.inCallback = true ↔
    ∃ g, st = .slot (.inJoin g) ∨ st = .slot (.inRecv g) ∨ st = .slot (.inLeave g) := by
  constructor
  · intro h
    cases st with
    | slot f => cases f <;> simp_all [Stmt.inCallback]
    | _ => cases h
  · rintro ⟨g, rfl | rfl | rfl⟩ <;> rfl

/-- What a call of the application is for a session: the call of one of its functions, or
nothing. -/
theorem userCall_stmt {c : UserCall} (h : userCall n c = some (n', new)) (k : UInt16) :
    n'.sessions = n.sessions ∧ (new.filterMap (Frame.stmt k) = [] ∨
      (∃ id, new.filterMap (Frame.stmt k) = [.slot (.killInc id)]) ∨
      ∃ id p, new.filterMap (Frame.stmt k) = [.sendInc id p]) := by
  cases c with
  | killSession id =>
    cases h
    by_cases hk : findSession id = k
    · exact ⟨rfl, .inr (.inl ⟨id, by simp [hk]⟩)⟩
    · exact ⟨rfl, .inl (by simp [stmt_session_ne hk])⟩
  | sendPacket id p =>
    cases h
    by_cases hk : findSession id = k
    · exact ⟨rfl, .inr (.inr ⟨id, p, by simp [hk]⟩)⟩
    · exact ⟨rfl, .inl (by simp [stmt_session_ne hk])⟩
  | allocPacket p =>
    obtain ⟨-, h⟩ := Option.ite_none_right_eq_some.1 h
    cases h
    exact ⟨rfl, .inl rfl⟩
  | incrementRef p => cases h; exact ⟨rfl, .inl rfl⟩
  | freePacket p => cases h; exact ⟨rfl, .inl rfl⟩

/-- The slot has that call too, on an idle thread as in a callback. -/
theorem userCall_view {c : UserCall} (h : userCall n c = some (n', new)) (k : UInt16) :
    new.filterMap (Frame.view k) = [] ∨
      ∃ b, ∀ s : Slot, Session.call s b = some (s, new.filterMap (Frame.view k)) ∧
        ∀ st : Stmt, st.inCallback = true → Session.exec .netClient s st.view b =
          some (s, new.filterMap (Frame.view k) ++ [st.view]) := by
  rw [filterMap_view]
  rcases (userCall_stmt h k).2 with hnil | ⟨id, hkill⟩ | ⟨id, p, hsend⟩
  · exact .inl (by rw [hnil, List.map_nil])
  · refine .inr ⟨.killSession id, fun s => ⟨by rw [hkill]; rfl, fun st hst => ?_⟩⟩
    rw [hkill]
    obtain ⟨g, rfl | rfl | rfl⟩ := inCallback_iff.1 hst <;> rfl
  · refine .inr ⟨.sendPacket id, fun s => ⟨by rw [hsend]; rfl, fun st hst => ?_⟩⟩
    rw [hsend]
    obtain ⟨g, rfl | rfl | rfl⟩ := inCallback_iff.1 hst <;> rfl

theorem userCall_length {c : UserCall} (h : userCall n c = some (n', new)) : new.length ≤ 1 := by
  revert h
  fun_cases userCall n c <;> intro h <;> cases h <;> simp

/-! ## One step -/

/-- What a step does to the state, and the frames that it replaces. A callback that calls stays. -/
inductive Turn (n : Net) (a : Act) : List Frame → Net → List Frame → Prop
  | user {c : UserCall} {n' : Net} {new : List Frame} :
    a = .user c → userCall n c = some (n', new) → Turn n a [] n' new
  | call {k : UInt16} {b : Session.Act} {slot : Slot} {frames : List Session.Frame} :
    Session.call (n.sessions k).slot b = some (slot, frames) →
      Turn n a []
        { n with sessions := Function.update n.sessions k { n.sessions k with slot := slot } }
        ((frames.map Stmt.ofFrame).map (.session k))
  | session {k : UInt16} {st : Stmt} {b : Session.Act} {e : Effect} :
    execSession (n.sessions k) st b = some e →
      Turn n a [.session k st] (n.apply k e).1 (n.apply k e).2
  | packet {f : Frame} {n' : Net} {new : List Frame} :
    f.target = none → exec n f a = some (n', new) → Turn n a [f] n' new

theorem step_turn {t u : Threads Net Frame} {l : ℕ × Act} (h : program.step t l = some u) :
    ∃ pre old new post, t.frames = pre ++ old ++ post ∧ u.frames = pre ++ new ++ post ∧
      Turn t.shared l.2 old u.shared new ∧ ∀ f, old = [f] → t.top l.1 = some f := by
  obtain ⟨pre, old, new, post, ht, hu, hf, htop⟩ := Program.step_frames h
  cases hf with
  | call hc =>
    rcases call_cases hc with ⟨c, ha, hc⟩ | ⟨k, b, hc⟩
    · exact ⟨pre, [], new, post, ht, hu, .user ha hc, htop⟩
    · obtain ⟨slot, frames, hcall, hn, rfl⟩ := callSession_eq hc
      refine ⟨pre, [], _, post, ht, hu, ?_, htop⟩
      rw [hn]
      exact .call hcall
  | @exec f _ _ he =>
    cases f with
    | session k st =>
      rcases exec_session he with ⟨c, calls, ha, -, hc, rfl⟩ | ⟨b, e, hb, heq⟩
      · refine ⟨pre, [], calls, .session k st :: post, ?_, ?_, .user ha hc, fun f hf => nomatch hf⟩
        · simpa using ht
        · simpa using hu
      · obtain ⟨hn, hnew⟩ := Prod.mk.inj heq
        refine ⟨pre, _, new, post, ht, hu, ?_, htop⟩
        rw [← hn, ← hnew]
        exact .session hb
    | _ => exact ⟨pre, _, new, post, ht, hu, .packet rfl he, htop⟩

/-! ## Call stacks -/

theorem isChain_of_length_le {l : List Frame} (h : l.length ≤ 1) : l.IsChain Above := by
  match l, h with
  | [], _ => exact .nil
  | [f], _ => exact .singleton f

/-- What replaces the running function stands on the frames below it. -/
theorem isChain_replace {f : Frame} (hnew : new.IsChain Above)
    (hlast : ∀ u ∈ new.getLast?, ∀ l, Above f l → Above u l)
    (h : (f :: fs).IsChain Above) : (new ++ fs).IsChain Above := by
  refine List.isChain_append.2 ⟨hnew, h.of_cons, fun u hu l hl => hlast u hu l ?_⟩
  exact (List.isChain_cons.1 h).1 l hl

theorem isChain_session (sts : List Stmt) : (sts.map (Frame.session k)).IsChain Above := by
  induction sts with
  | nil => exact .nil
  | cons st sts ih =>
    refine List.isChain_cons.2 ⟨fun l hl => ?_, ih⟩
    obtain ⟨sl, -, rfl⟩ := List.mem_map.1 (List.mem_of_head? hl)
    exact ⟨k, sl, rfl, .inr (.inl rfl)⟩

theorem Above.of_target {u u' l : Frame} (h : Above u l) (ht : u'.target = u.target) :
    Above u' l := by
  obtain ⟨k, st, rfl, h⟩ := h
  exact ⟨k, st, rfl, ht ▸ h⟩

theorem above_decRef {p : ℕ} {l : Frame} (h : Above (.session k st) l) : Above (.decRef p) l := by
  obtain ⟨j, sl, rfl, -⟩ := h
  exact ⟨j, sl, rfl, .inr (.inr rfl)⟩

theorem apply_isChain (h : ((Frame.session k st) :: fs).IsChain Above) :
    ((n.apply k e).2 ++ fs).IsChain Above := by
  refine isChain_replace ?_ ?_ h
  · refine List.isChain_append.2 ⟨?_, isChain_session _, fun u hu l hl => ?_⟩
    · exact isChain_of_length_le (by cases e.freePacket <;> simp)
    · obtain ⟨p, -, rfl⟩ := Option.mem_map.1 (Option.mem_toList.1 (List.mem_of_getLast? hu))
      obtain ⟨sl, -, rfl⟩ := List.mem_map.1 (List.mem_of_head? hl)
      exact ⟨k, sl, rfl, .inr (.inr rfl)⟩
  · intro u hu l hl
    rcases List.mem_append.1 (List.mem_of_getLast? hu) with hu | hu
    · obtain ⟨p, -, rfl⟩ := Option.mem_map.1 (Option.mem_toList.1 hu)
      exact above_decRef hl
    · obtain ⟨sl, -, rfl⟩ := List.mem_map.1 hu
      exact Above.of_target hl rfl

theorem stepStack_isChain (h : program.stepStack n fs a = some (n', new))
    (hfs : fs.IsChain Above) : new.IsChain Above := by
  cases fs with
  | nil =>
    rcases call_cases h with ⟨c, -, hc⟩ | ⟨k, b, hc⟩
    · exact isChain_of_length_le (userCall_length hc)
    · obtain ⟨slot, frames, -, -, rfl⟩ := callSession_eq hc
      exact isChain_session _
  | cons f fs =>
    obtain ⟨⟨g, new⟩, he, heq⟩ := Option.map_eq_some_iff.1 h
    cases heq
    cases f with
    | session k st =>
      rcases exec_session he with ⟨c, calls, -, hin, hc, rfl⟩ | ⟨b, e, -, heq⟩
      · -- the callback waits for the function it has called
        rw [List.append_assoc]
        refine (isChain_of_length_le (userCall_length hc)).append hfs fun u _ l hl => ?_
        cases hl
        exact ⟨k, st, rfl, .inl hin⟩
      · cases heq
        exact apply_isChain hfs
    | decRef p =>
      cases he
      refine isChain_replace (isChain_of_length_le ?_) (fun u hu l hl => ?_) hfs
      · split <;> simp
      · have htarget : u.target = none := by
          split at hu
          · cases hu
          · cases hu
            rfl
        exact Above.of_target hl htarget
    | allocRef p => cases he; exact hfs.of_cons
    | toPool p => cases he; exact hfs.of_cons

/-- A callback waits below the functions that it has called. -/
theorem stacked {sendBuffer : UInt16 → ℕ → ℕ} {ok : Threads Net Frame → ℕ × Act → Prop}
    {t : Threads Net Frame} (h : (system sendBuffer).ReachableVia ok t) :
    ∀ st ∈ t.calls, st.IsChain Above := by
  refine h.invariant (I := fun t => ∀ st ∈ t.calls, st.IsChain Above) ?_ ?_
  · rintro _ ⟨m, rfl⟩ st hst
    obtain ⟨-, rfl⟩ := List.mem_replicate.1 hst
    exact .nil
  · intro s l t ih _ hst
    exact Program.forall_calls_step hst ih fun st _ g st' hr => stepStack_isChain hr

/-- Below a callback of another session, a session has a callback too, if anything. -/
theorem filterMap_below {j : UInt16} (hj : j ≠ k) (h : (Frame.session j st :: fs).IsChain Above) :
    fs.filterMap (Frame.view k) = [] ∨
      ∃ st' : Stmt, st'.inCallback = true ∧
        ∃ l, fs.filterMap (Frame.view k) = st'.view :: l := by
  induction fs generalizing j st with
  | nil => exact .inl rfl
  | cons l fs ih =>
    obtain ⟨habove, htail⟩ := List.isChain_cons_cons.1 h
    obtain ⟨i, sl, rfl, hl⟩ := habove
    by_cases hi : i = k
    · subst hi
      rcases hl with hl | hl | hl
      · exact .inr ⟨sl, hl, _, by rw [List.filterMap_cons, view_session]⟩
      · exact absurd (Option.some.inj hl) hj
      · cases hl
    · rw [List.filterMap_cons, view_session_ne hi]
      exact ih hi htail

/-! ## The slots -/

/-- A step that concerns one session. -/
theorem moves_session {j : UInt16} (fs : List Frame)
    (hs : n'.sessions = Function.update n.sessions j s)
    (hself : (Session.program .netClient).Moves (n.sessions j).slot (fs.filterMap (Frame.view j))
      s.slot (new.filterMap (Frame.view j)))
    (hother : ∀ k, j ≠ k → new.filterMap (Frame.view k) = fs.filterMap (Frame.view k))
    (k : UInt16) : (Session.program .netClient).Moves (n.sessions k).slot
      (fs.filterMap (Frame.view k)) (n'.sessions k).slot (new.filterMap (Frame.view k)) := by
  rcases eq_or_ne j k with rfl | hj
  · rwa [hs, Function.update_self]
  · rw [hs, Function.update_of_ne hj.symm, hother k hj]
    exact .stay _ _

/-- A statement of a session. -/
theorem apply_moves {j : UInt16} (he : execSession (n.sessions j) st b = some e) (k : UInt16) :
    (Session.program .netClient).Moves (n.sessions k).slot
      ((Frame.session j st :: fs).filterMap (Frame.view k)) ((n.apply j e).1.sessions k).slot
      (((n.apply j e).2 ++ fs).filterMap (Frame.view k)) := by
  refine moves_session _ rfl ?_ (fun k hj => ?_) k
  · rw [Net.apply, List.filterMap_append, List.filterMap_append, filterMap_view_decRef,
      List.nil_append, filterMap_view (e.next.map _), filterMap_stmt, List.filterMap_cons,
      view_session]
    rcases execSession_slot he with ⟨hslot, hnext⟩ | ⟨c, hc⟩
    · rw [hslot, hnext]
      exact .stay _ _
    · exact .of_exec hc _
  · rw [Net.apply, List.filterMap_append, List.filterMap_append, filterMap_view_decRef,
      filterMap_view_ne hj, List.filterMap_cons, view_session_ne hj]
    rfl

/-- A call out of a callback, which may be one of another session. -/
theorem userCall_moves {j : UInt16} {c : UserCall} (hc : userCall n c = some (n', new))
    (hin : st.inCallback = true) (hfs : (Frame.session j st :: fs).IsChain Above) (k : UInt16) :
    (Session.program .netClient).Moves (n.sessions k).slot
      ((Frame.session j st :: fs).filterMap (Frame.view k)) (n'.sessions k).slot
      ((new ++ Frame.session j st :: fs).filterMap (Frame.view k)) := by
  rw [List.filterMap_append, (userCall_stmt hc k).1]
  rcases userCall_view hc k with hnil | ⟨b, hb⟩
  · rw [hnil]
    exact .stay _ _
  have below : ∀ l : List Session.Frame, (l = [] ∨ ∃ st' : Stmt, st'.inCallback = true ∧
      ∃ r, l = st'.view :: r) → (Session.program .netClient).Moves (n.sessions k).slot l
        (n.sessions k).slot (new.filterMap (Frame.view k) ++ l) := by
    rintro l (rfl | ⟨st', hin', r, rfl⟩)
    · rw [List.append_nil]
      exact .of_call (hb _).1
    · have := Program.Moves.of_exec (Q := Session.program .netClient)
        ((hb (n.sessions k).slot).2 st' hin') r
      rwa [List.append_assoc] at this
  refine below _ ?_
  by_cases hj : j = k
  · subst hj
    exact .inr ⟨st, hin, _, by rw [List.filterMap_cons, view_session]⟩
  · rw [List.filterMap_cons, view_session_ne hj]
    exact filterMap_below hj hfs

/-- A step of a thread is a step of it in the slot of each session, or does not concern it. -/
theorem stepStack_moves (h : program.stepStack n fs a = some (n', new)) (hfs : fs.IsChain Above)
    (k : UInt16) : (Session.program .netClient).Moves (n.sessions k).slot
      (fs.filterMap (Frame.view k)) (n'.sessions k).slot (new.filterMap (Frame.view k)) := by
  cases fs with
  | nil =>
    rcases call_cases h with ⟨c, -, hc⟩ | ⟨j, b, hc⟩
    · rw [(userCall_stmt hc k).1]
      rcases userCall_view hc k with hnil | ⟨b, hb⟩
      · rw [hnil]
        exact .stay _ _
      · exact .of_call (hb _).1
    · obtain ⟨slot, frames, hcall, rfl, rfl⟩ := callSession_eq hc
      refine moves_session [] rfl ?_ (fun k hj => filterMap_view_ne hj _) k
      rw [filterMap_view (List.map _ _), filterMap_stmt, List.map_map]
      refine Program.Moves.of_call (a := b) ?_
      simpa [Session.program, Function.comp_def] using hcall
  | cons f fs =>
    obtain ⟨⟨g, new⟩, he, heq⟩ := Option.map_eq_some_iff.1 h
    cases heq
    cases f with
    | session j st =>
      rcases exec_session he with ⟨c, calls, -, hin, hc, rfl⟩ | ⟨b, e, hb, heq⟩
      · rw [List.append_assoc]
        exact userCall_moves hc hin hfs k
      · cases heq
        exact apply_moves hb k
    | decRef p =>
      cases he
      split
      · exact .stay _ _
      · exact .stay _ _
    | allocRef p => cases he; exact .stay _ _
    | toPool p => cases he; exact .stay _ _

variable {sendBuffer : UInt16 → ℕ → ℕ} {ok : Threads Net Frame → ℕ × Act → Prop}
  {t : Threads Net Frame}

/-- **Each session runs as its slot does.** -/
theorem slot_reachable (h : (system sendBuffer).ReachableVia ok t) (k : UInt16) :
    (Session.system .netClient k).Reachable (slotOf k t) := by
  have hmoves : ∀ {t : Threads Net Frame} {st st' : List Frame} {a : Act} {n : Net},
      (∀ st ∈ t.calls, st.IsChain Above) → st ∈ t.calls →
        program.stepStack t.shared st a = some (n, st') →
          (Session.program .netClient).Moves (t.shared.sessions k).slot
            (st.filterMap (Frame.view k)) (n.sessions k).slot (st'.filterMap (Frame.view k)) :=
    fun hs hst hr => stepStack_moves hr (hs _ hst) k
  exact Program.reachable_part stacked hmoves h

end NetworkLibrary.RefCnt
