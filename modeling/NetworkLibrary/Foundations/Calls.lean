import NetworkLibrary.Foundations.Threads
import Mathlib.Logic.Function.Basic

/-!
# The calls of a run

`Program.watched` runs a program and keeps a log of the calls that its threads make: which call
started when, and with which statement it returned. The log changes nothing in the run
(`watch_threads`).
-/

namespace Foundations

variable {G F A : Type*}

/-- An entry of the log. Calls are numbered in the order they start. -/
inductive Event (F A : Type*)
  /-- An idle thread makes a call. -/
  | call (id : ℕ) (a : A)
  /-- The call returns with its last statement. -/
  | ret (id : ℕ) (f : F)

/-- The threads, and the calls they have made. -/
structure Watched (G F A : Type*) where
  threads : Threads G F
  /-- The number of calls. -/
  count : ℕ
  /-- The last call of every thread. -/
  ids : ℕ → ℕ
  log : List (Event F A)

/-- What a statement adds to the log, by the call stack that it leaves. -/
def returned (id : ℕ) (f : F) : List F → List (Event F A)
  | [] => [.ret id f]
  | _ => []

namespace Program

variable (P : Program G F A)

/-- One step, which is logged. -/
def watch (w : Watched G F A) (l : ℕ × A) : Option (Watched G F A) :=
  (P.step w.threads l).map fun t =>
    match w.threads.calls[l.1]? with
    | some (f :: _) =>
      { w with
        threads := t, log := w.log ++ returned (w.ids l.1) f ((t.calls[l.1]?).getD []) }
    | _ => ⟨t, w.count + 1, Function.update w.ids l.1 w.count, w.log ++ [.call w.count l.2]⟩

/-- The runs of a program, with their logs. -/
def watched (g₀ : G) : Lts (Watched G F A) (ℕ × A) where
  init w := ∃ n, w = ⟨Threads.idle g₀ n, 0, fun _ => 0, []⟩
  step := P.watch

variable {P} {w v : Watched G F A} {l : ℕ × A}

/-- The log does not matter for the threads. -/
theorem watch_threads (w : Watched G F A) (l : ℕ × A) :
    (P.watch w l).map Watched.threads = P.step w.threads l := by
  rw [watch, Option.map_map]
  refine Eq.trans (Option.map_congr fun t _ => ?_) (congrFun Option.map_id _)
  rw [Function.comp_apply]
  split <;> rfl

/-- **A logged step** starts a call, or executes a statement, with which the call may return. -/
theorem watch_cases (h : P.watch w l = some v) :
    (∃ g new, w.threads.calls[l.1]? = some [] ∧ P.call w.threads.shared l.2 = some (g, new) ∧
        v = ⟨⟨g, w.threads.calls.set l.1 new⟩, w.count + 1, Function.update w.ids l.1 w.count,
          w.log ++ [.call w.count l.2]⟩) ∨
      ∃ f fs g new, w.threads.calls[l.1]? = some (f :: fs) ∧
        P.exec w.threads.shared f l.2 = some (g, new) ∧
        v = { w with
          threads := ⟨g, w.threads.calls.set l.1 (new ++ fs)⟩
          log := w.log ++ returned (w.ids l.1) f (new ++ fs) } := by
  obtain ⟨t, ht, rfl⟩ := Option.map_eq_some_iff.1 h
  obtain ⟨st, hst, hmap⟩ := Option.bind_eq_some_iff.1 ht
  obtain ⟨⟨g, st'⟩, hr, rfl⟩ := Option.map_eq_some_iff.1 hmap
  rw [hst]
  cases st with
  | nil => exact .inl ⟨g, st', rfl, hr, rfl⟩
  | cons f fs =>
    obtain ⟨⟨g', new⟩, he, heq⟩ := Option.map_eq_some_iff.1 hr
    obtain ⟨rfl, rfl⟩ := Prod.mk.inj heq
    refine .inr ⟨f, fs, g', new, rfl, he, ?_⟩
    rw [List.getElem?_set_self (List.getElem?_eq_some_iff.1 hst).1]
    rfl

theorem watch_log (h : P.watch w l = some v) : w.log <+: v.log := by
  rcases watch_cases h with ⟨g, new, -, -, rfl⟩ | ⟨f, fs, g, new, -, -, rfl⟩ <;>
    exact List.prefix_append _ _

/-- The frames after the call stack of one thread has changed. -/
theorem tally_set {x : F → ℕ} {calls : List (List F)} {i : ℕ} {st : List F}
    (h : calls[i]? = some st) (st' : List F) :
    tally x (calls.set i st').flatten + tally x st = tally x calls.flatten + tally x st' := by
  obtain ⟨hi, rfl⟩ := List.getElem?_eq_some_iff.1 h
  have hsplit : calls = calls.take i ++ calls[i] :: calls.drop (i + 1) := by
    rw [List.cons_getElem_drop_succ, List.take_append_drop]
  have hbefore : tally x calls.flatten = tally x (calls.take i).flatten + (tally x calls[i] +
      tally x (calls.drop (i + 1)).flatten) := by
    conv_lhs => rw [hsplit]
    rw [List.flatten_append, List.flatten_cons, tally_append, tally_append]
  rw [List.set_eq_take_cons_drop st' hi, List.flatten_append, List.flatten_cons, tally_append,
    tally_append, hbefore]
  omega

end Program

/-- The runs of a system from a state on. -/
def Lts.after {σ α : Type*} (M : Lts σ α) (s : σ) : Lts σ α := { M with init := (· = s) }

end Foundations
