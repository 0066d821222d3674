import NetworkLibrary.Foundations.Calls
import Mathlib.Algebra.BigOperators.Ring.Finset
import Mathlib.Algebra.Order.BigOperators.Group.Finset
import Mathlib.Algebra.Order.Ring.Int
import Mathlib.Tactic.Linarith

/-!
# Containers with a reservation counter

A container that counts its elements may let every removal lower the counter before it looks for an
element: one that finds a positive counter is admitted, one that does not raises the counter again
and reports an empty container. `Reserves` says that a program does this, for any number of
insertions and removals that overlap.

A removal that was refused may mislead another one: until it has raised the counter again, the
counter is too small. `Reserves.excused` says that this is the only way in which a removal can
report an empty container where it should not.
-/

namespace Foundations

variable {G F A : Type*}

/-- What a running call still does to the counter. -/
inductive Role
  /-- It inserts, and will raise the counter at its end. -/
  | inserts
  /-- It removes, and has not lowered the counter. -/
  | asks
  /-- It has found a positive counter when it lowered it. -/
  | admitted
  /-- It has found none, and will raise the counter again at its end. -/
  | refused
  deriving DecidableEq

/-- Where a call is. -/
inductive Phase
  | unborn
  | running (r : Role)
  | done (r : Role)
  deriving DecidableEq

namespace Phase

/-- What the call has taken off the counter. -/
def taken : Phase → ℤ
  | .running .admitted | .done .admitted | .running .refused => 1
  | .done .inserts => -1
  | _ => 0

/-- The call gets an element. -/
def won : Phase → Bool
  | .running .admitted | .done .admitted => true
  | _ => false

/-- The call reports an empty container. -/
def lost : Phase → Bool
  | .running .refused | .done .refused => true
  | _ => false

/-- What a running call becomes where the counter is `n`. -/
inductive Next (n : ℤ) : Role → Phase → Prop
  | keep (r : Role) : Next n r (.running r)
  | insert : Next n .inserts (.done .inserts)
  | enter : 0 < n → Next n .asks (.running .admitted)
  | refuse : n ≤ 0 → Next n .asks (.running .refused)
  | serve : Next n .admitted (.done .admitted)
  | fail : Next n .refused (.done .refused)

end Phase

/-- A call stack: the call at the bottom has a role, the functions that it calls have none. -/
def Based (role : F → Option Role) (r : Role) : List F → Prop
  | [] => False
  | f :: fs => fs = [] ∧ role f = some r ∨ role f = none ∧ Based role r fs

/-- The call stack of a call. -/
def Phase.Shows (role : F → Option Role) (fs : List F) : Phase → Prop
  | .unborn => False
  | .running r => Based role r fs
  | .done _ => fs = []

/-- A program whose calls keep a reservation counter: `removes` are the calls for an element,
`lowers` the statement that lowers the counter in them. -/
structure Reserves (P : Program G F A) (size : G → ℤ) (role : F → Option Role) (removes : A → Bool)
    (lowers : F → Prop) : Prop where
  call : ∀ {g g' a new}, P.call g a = some (g', new) →
    size g' = size g ∧ Based role (if removes a then .asks else .inserts) new
  helper : ∀ {g g' f a new}, P.exec g f a = some (g', new) → role f = none →
    size g' = size g ∧ ∀ f' ∈ new, role f' = none
  turn : ∀ {g g' f a new r}, P.exec g f a = some (g', new) → role f = some r →
    ∃ p, Phase.Next (size g) r p ∧ p.Shows role new ∧
      size g' + p.taken = size g + (Phase.running r).taken ∧
      (r = .asks → p = .running .refused → lowers f)

/-- The call puts an element in, and has returned. -/
def Event.inserted (role : F → Option Role) : Event F A → Bool
  | .ret _ f => role f = some .inserts
  | .call _ _ => false

section Claims

variable (P : Program G F A) (g₀ : G) (role : F → Option Role) (removes : A → Bool)

/-- In no continuation does the call report an empty container. -/
def Succeeds (w : Watched G F A) (id : ℕ) : Prop :=
  ∀ v, ((P.watched g₀).after w).Reachable v → ∀ f, .ret id f ∈ v.log → role f ≠ some .refused

/-- At some moment between the start and the end of a call, as many other removals that are
successful in the end had started as insertions had returned. -/
def Excused (w : Watched G F A) (id : ℕ) : Prop :=
  ∃ pre post, w.log = pre ++ post ∧ (∃ a, .call id a ∈ pre) ∧ (∀ f, .ret id f ∉ pre) ∧
    ∃ others : Finset ℕ,
      (∀ k ∈ others, k ≠ id ∧ (∃ a, .call k a ∈ pre ∧ removes a = true) ∧
        Succeeds P g₀ role w k) ∧
      pre.countP (Event.inserted role) ≤ others.card

/-- Every report of an empty container is excused. -/
def Truthful (w : Watched G F A) : Prop :=
  ∀ id f, .ret id f ∈ w.log → role f = some .refused → Excused P g₀ role removes w id

end Claims

/-- A call is not excused if an insertion had returned when it started, and all other removals have
reported an empty container. -/
theorem not_excused {P : Program G F A} {g₀ : G} {role : F → Option Role} {removes : A → Bool}
    {w : Watched G F A} {id : ℕ} {tail : List (Event F A)} (before : List (Event F A))
    (hlog : w.log = before ++ tail)
    (hcall : ∀ a, .call id a ∉ before) (hinserted : 0 < before.countP (Event.inserted role))
    (hlost : ∀ k a, .call k a ∈ w.log → removes a = true → k ≠ id →
      ∃ f, .ret k f ∈ w.log ∧ role f = some .refused) :
    ¬Excused P g₀ role removes w id := by
  rintro ⟨pre, post, hsplit, ⟨a, ha⟩, -, others, hothers, hcard⟩
  have hbefore : before <+: pre := by
    rcases List.prefix_or_prefix_of_prefix ⟨post, hsplit.symm⟩ ⟨tail, hlog.symm⟩ with h | h
    · exact absurd (h.subset ha) (hcall a)
    · exact h
  have hcount := hbefore.sublist.countP_le (p := Event.inserted role)
  obtain ⟨k, hk⟩ : others.Nonempty := Finset.card_pos.1 (by omega)
  obtain ⟨hne, ⟨b, hb, hremoves⟩, hsucc⟩ := hothers k hk
  have hb : .call k b ∈ w.log := by
    rw [hsplit]
    exact List.mem_append_left _ hb
  obtain ⟨f, hf, hrole⟩ := hlost k b hb hremoves hne
  exact hsucc w (.start rfl) f hf hrole

/-- A removal is refused, an insertion starts and returns, and a second removal is refused before the
first one has returned. -/
theorem not_truthful {P : Program G F A} {g₀ : G} {role : F → Option Role} {removes : A → Bool}
    {w : Watched G F A} {a b : A} {f g : F}
    (hlog : w.log = [.call 0 a, .call 1 b, .ret 1 f, .call 2 a, .ret 2 g, .ret 0 g])
    (hb : removes b = false) (hf : role f = some .inserts) (hg : role g = some .refused) :
    ¬Truthful P g₀ role removes w := by
  intro h
  refine not_excused [.call 0 a, .call 1 b, .ret 1 f] hlog (by simp) ?_
    (fun k c hk hremoves hne => ⟨g, ?_, hg⟩) (h 2 g (by simp [hlog]) hg)
  · simp [Event.inserted, hf]
  · rw [hlog] at hk ⊢
    simp only [List.mem_cons, Event.call.injEq, reduceCtorEq, List.not_mem_nil, false_or,
      or_false] at hk
    obtain ⟨rfl, -⟩ | ⟨-, rfl⟩ | ⟨rfl, -⟩ := hk
    · simp
    · rw [hb] at hremoves
      cases hremoves
    · exact absurd rfl hne

/-- The removals that were refused and have not raised the counter again. -/
def refusals (role : F → Option Role) (frames : List F) : ℕ :=
  tally (fun f => if role f = some .refused then 1 else 0) frames

/-- A counter that is not positive when it is lowered would not be positive without the removals
that were refused. -/
def Orderly (size : G → ℤ) (role : F → Option Role) (lowers : F → Prop) (w : Watched G F A)
    (l : ℕ × A) : Prop :=
  ∀ f, w.threads.top l.1 = some f → lowers f → size w.threads.shared ≤ 0 →
    size w.threads.shared + refusals role w.threads.frames ≤ 0

/-! ## The calls of a run and the counter -/

section Stacks

variable {role : F → Option Role} {r : Role} {f : F} {fs new : List F}

theorem Based.append (hnew : ∀ f ∈ new, role f = none) (h : Based role r fs) :
    Based role r (new ++ fs) := by
  induction new with
  | nil => exact h
  | cons f new ih => exact .inr ⟨hnew f (by simp), ih fun g hg => hnew g (by simp [hg])⟩

/-- The weight of a role in a call stack. -/
theorem Based.tally (h : Based role r fs) (x : Role) :
    tally (fun f => if role f = some x then 1 else 0) fs = if r = x then 1 else 0 := by
  induction fs with
  | nil => exact h.elim
  | cons f fs ih =>
    rw [tally_cons]
    rcases h with ⟨rfl, hf⟩ | ⟨hf, h⟩
    · simp [hf]
    · rw [ih h]
      simp [hf]

variable {P : Program G F A} {size : G → ℤ} {removes : A → Bool} {lowers : F → Prop} {g g' : G}
  {a : A}

/-- A statement in a call stack. -/
theorem Reserves.exec (hP : Reserves P size role removes lowers)
    (he : P.exec g f a = some (g', new)) (hst : Based role r (f :: fs)) :
    ∃ p, Phase.Next (size g) r p ∧ p.Shows role (new ++ fs) ∧
      size g' + p.taken = size g + (Phase.running r).taken ∧
      (r = .asks → p = .running .refused → lowers f) ∧
      (p ≠ .running r → fs = [] ∧ role f = some r) := by
  rcases hst with ⟨rfl, hf⟩ | ⟨hf, hst⟩
  · obtain ⟨p, hnext, hshows, hsize, hlow⟩ := hP.turn he hf
    rw [List.append_nil]
    exact ⟨p, hnext, hshows, hsize, hlow, fun _ => ⟨rfl, hf⟩⟩
  · obtain ⟨hsize, hnone⟩ := hP.helper he hf
    refine ⟨.running r, .keep r, hst.append hnone, by rw [hsize], ?_, fun h => absurd rfl h⟩
    rintro rfl h
    cases h

/-- The statements of a call, by what they leave on its stack. -/
theorem exists_next {n n' : ℤ} (h : Based role r new ∧ n' = n ∨
    r = .inserts ∧ new = [] ∧ n' = n + 1 ∨ r = .refused ∧ new = [] ∧ n' = n + 1 ∨
    r = .admitted ∧ new = [] ∧ n' = n ∨
    r = .asks ∧ 0 < n ∧ Based role .admitted new ∧ n' = n - 1 ∨
    r = .asks ∧ n ≤ 0 ∧ Based role .refused new ∧ n' = n - 1 ∧ lowers f) :
    ∃ p, Phase.Next n r p ∧ p.Shows role new ∧ n' + p.taken = n + (Phase.running r).taken ∧
      (r = .asks → p = .running .refused → lowers f) := by
  rcases h with ⟨hb, rfl⟩ | ⟨rfl, hnew, rfl⟩ | ⟨rfl, hnew, rfl⟩ | ⟨rfl, hnew, rfl⟩ |
    ⟨rfl, hn, hb, rfl⟩ | ⟨rfl, hn, hb, rfl, hlow⟩
  · refine ⟨_, .keep r, hb, rfl, ?_⟩
    rintro rfl h
    cases h
  · exact ⟨_, .insert, hnew, by simp [Phase.taken], fun h => by cases h⟩
  · exact ⟨_, .fail, hnew, by simp [Phase.taken], fun h => by cases h⟩
  · exact ⟨_, .serve, hnew, by simp [Phase.taken], fun h => by cases h⟩
  · exact ⟨_, .enter hn, hb, by simp [Phase.taken], fun _ h => by cases h⟩
  · exact ⟨_, .refuse hn, hb, by simp [Phase.taken], fun _ _ => hlow⟩

end Stacks

/-- The sum of a weight over the calls. -/
def weigh (x : Phase → ℤ) (count : ℕ) (phase : ℕ → Phase) : ℤ :=
  ∑ id ∈ Finset.range count, x (phase id)

variable {x : Phase → ℤ} {n id : ℕ} {phase : ℕ → Phase} {p : Phase}

theorem weigh_update (x : Phase → ℤ) (phase : ℕ → Phase) (p : Phase) (hid : id < n) :
    weigh x n (Function.update phase id p) + x (phase id) = weigh x n phase + x p := by
  have hmem : id ∈ Finset.range n := Finset.mem_range.2 hid
  have hrest : ∑ k ∈ (Finset.range n).erase id, x (Function.update phase id p k) =
      ∑ k ∈ (Finset.range n).erase id, x (phase k) :=
    Finset.sum_congr rfl fun k hk => by rw [Function.update_of_ne (Finset.ne_of_mem_erase hk)]
  rw [weigh, weigh, ← Finset.add_sum_erase _ _ hmem, ← Finset.add_sum_erase _ _ hmem, hrest,
    Function.update_self]
  omega

theorem weigh_succ : weigh x (n + 1) (Function.update phase n p) = weigh x n phase + x p := by
  rw [weigh, Finset.sum_range_succ, Function.update_self, weigh]
  congr 1
  refine Finset.sum_congr rfl fun k hk => ?_
  rw [Function.update_of_ne (Finset.mem_range.1 hk).ne]

section Tracks

variable (size : G → ℤ) (role : F → Option Role) (removes : A → Bool)

/-- The running calls are those of the threads, one for each. -/
structure Placed (calls : List (List F)) (ids : ℕ → ℕ) (phase : ℕ → Phase) : Prop where
  stack : ∀ i st, calls[i]? = some st → st ≠ [] →
    ∃ r, phase (ids i) = .running r ∧ Based role r st
  distinct : ∀ i j st st', calls[i]? = some st → st ≠ [] → calls[j]? = some st' → st' ≠ [] →
    ids i = ids j → i = j

/-- Where the calls of a run are. -/
structure Tracks (w : Watched G F A) (phase : ℕ → Phase) : Prop
    extends Placed role w.threads.calls w.ids phase where
  unborn : ∀ id, w.count ≤ id → phase id = .unborn
  called : ∀ id r, phase id = .running r ∨ phase id = .done r →
    ∃ a, .call id a ∈ w.log ∧ (removes a = true ↔ r ≠ .inserts)
  returned : ∀ id f, .ret id f ∈ w.log → ∃ r, role f = some r ∧ phase id = .done r
  inserted : (w.log.countP (Event.inserted role) : ℤ) =
    weigh (fun p => if p = .done .inserts then 1 else 0) w.count phase
  size : size w.threads.shared + weigh Phase.taken w.count phase = 0
  refused : (refusals role w.threads.frames : ℤ) =
    weigh (fun p => if p = .running .refused then 1 else 0) w.count phase

variable {size role removes} {P : Program G F A} {lowers : F → Prop} {w v : Watched G F A}
  {l : ℕ × A} {r : Role} {f : F} {fs : List F}

theorem Phase.Next.inserts_iff {n : ℤ} {r' : Role} (h : Phase.Next n r p)
    (hp : p = .running r' ∨ p = .done r') : r' ≠ .inserts ↔ r ≠ .inserts := by
  cases h <;> rcases hp with hp | hp <;> cases hp <;> simp

theorem Phase.Next.done {n : ℤ} {r' : Role} (h : Phase.Next n r (.done r')) : r' = r := by
  cases h <;> rfl

/-- What the log and the frames show of a call after one of its statements. -/
theorem Phase.Shows.log (hshows : p.Shows role fs) (hdone : ∀ r, p = .done r → role f = some r)
    (id : ℕ) :
    ((returned id f fs : List (Event F A)).countP (Event.inserted role) : ℤ) =
        (if p = .done .inserts then 1 else 0) ∧
      (refusals role fs : ℤ) = (if p = .running .refused then 1 else 0) ∧
      (∀ k f', .ret k f' ∈ (returned id f fs : List (Event F A)) →
        k = id ∧ ∃ r, role f' = some r ∧ p = .done r) ∧
      (fs ≠ [] → ∃ r, p = .running r ∧ Based role r fs) := by
  cases p with
  | unborn => exact hshows.elim
  | running r =>
    have hbased : Based role r fs := hshows
    have hlog : (returned id f fs : List (Event F A)) = [] := by
      cases fs with
      | nil => exact hbased.elim
      | cons g fs => rfl
    rw [hlog, refusals, hbased.tally .refused]
    refine ⟨by simp, by simp, fun k f' h => absurd h List.not_mem_nil, fun _ => ⟨r, rfl, hbased⟩⟩
  | done r =>
    obtain rfl : fs = [] := hshows
    have hrole := hdone r rfl
    refine ⟨?_, by simp [refusals], fun k f' h => ?_, fun h => absurd rfl h⟩
    · simp [returned, Event.inserted, hrole]
    · obtain ⟨rfl, rfl⟩ := Event.ret.inj (List.mem_singleton.1 h)
      exact ⟨rfl, r, hrole, rfl⟩

/-- One call stack changes, and with it the phase of its call. -/
theorem Placed.set {calls : List (List F)} {ids ids' : ℕ → ℕ} {phase' : ℕ → Phase} {i : ℕ}
    {st st' : List F} (h : Placed role calls ids phase) (hst : calls[i]? = some st)
    (hnew : st' ≠ [] → ∃ r, phase' (ids' i) = .running r ∧ Based role r st')
    (hids : ∀ j, j ≠ i → ids' j = ids j)
    (hother : ∀ j st, j ≠ i → calls[j]? = some st → st ≠ [] →
      phase' (ids j) = phase (ids j) ∧ ids j ≠ ids' i) :
    Placed role (calls.set i st') ids' phase' := by
  have hset : (calls.set i st')[i]? = some st' :=
    List.getElem?_set_self (List.getElem?_eq_some_iff.1 hst).1
  have hold : ∀ j st, j ≠ i → (calls.set i st')[j]? = some st → calls[j]? = some st :=
    fun j st hj h => by rwa [List.getElem?_set_ne hj.symm] at h
  refine ⟨fun j fs hj hne => ?_, fun j k fs fs' hj hne hk hne' heq => ?_⟩
  · by_cases hji : j = i
    · subst hji
      obtain rfl := Option.some.inj (hset.symm.trans hj)
      exact hnew hne
    · have hj := hold j fs hji hj
      obtain ⟨r, hrun, hb⟩ := h.stack j fs hj hne
      exact ⟨r, by rw [hids j hji, (hother j fs hji hj hne).1, hrun], hb⟩
  · by_cases hji : j = i <;> by_cases hki : k = i
    · rw [hji, hki]
    · rw [hji, hids k hki] at heq
      exact absurd heq.symm (hother k fs' hki (hold k fs' hki hk) hne').2
    · rw [hki, hids j hji] at heq
      exact absurd heq (hother j fs hji (hold j fs hji hj) hne).2
    · rw [hids j hji, hids k hki] at heq
      exact h.distinct j k fs fs' (hold j fs hji hj) hne (hold k fs' hki hk) hne' heq

theorem Tracks.lt_count (ht : Tracks size role removes w phase) (h : phase id ≠ .unborn) :
    id < w.count := by
  by_contra hle
  exact h (ht.unborn id (Nat.le_of_not_lt hle))

/-- A call starts. -/
theorem Tracks.call (hP : Reserves P size role removes lowers) (ht : Tracks size role removes w phase)
    {i : ℕ} {a : A} {g : G} {new : List F} (hst : w.threads.calls[i]? = some [])
    (hc : P.call w.threads.shared a = some (g, new)) :
    Tracks size role removes ⟨⟨g, w.threads.calls.set i new⟩, w.count + 1,
      Function.update w.ids i w.count, w.log ++ [.call w.count a]⟩
      (Function.update phase w.count (.running (if removes a then .asks else .inserts))) := by
  obtain ⟨hsize, hbased⟩ := hP.call hc
  set r₀ : Role := if removes a then .asks else .inserts with hr₀
  have hr : r₀ = .asks ∨ r₀ = .inserts := by
    rw [hr₀]
    split <;> simp
  have hold : ∀ k, phase k ≠ .unborn → k ≠ w.count := fun k hk => (ht.lt_count hk).ne
  have htally := Program.tally_set (x := fun f => if role f = some .refused then 1 else 0) hst new
  refine ⟨ht.toPlaced.set hst (fun _ => ⟨r₀, by simp, hbased⟩) (fun j hj => by simp [hj])
    (fun j st hj h hne => ?_), fun id hid => ?_, fun id r h => ?_, fun id f h => ?_, ?_, ?_, ?_⟩
  · obtain ⟨r, hrun, -⟩ := ht.stack j st h hne
    have hj := hold (w.ids j) (by simp [hrun])
    have hi : Function.update w.ids i w.count i = w.count := Function.update_self ..
    exact ⟨Function.update_of_ne hj _ _, fun heq => hj (heq.trans hi)⟩
  · have hid : w.count < id := hid
    rw [Function.update_of_ne hid.ne']
    exact ht.unborn id hid.le
  · by_cases hid : id = w.count
    · subst hid
      rw [Function.update_self] at h
      obtain rfl : r₀ = r := by simpa using h
      refine ⟨a, by simp, ?_⟩
      rw [hr₀]
      by_cases hremoves : removes a <;> simp [hremoves]
    · rw [Function.update_of_ne hid] at h
      obtain ⟨b, hb, hiff⟩ := ht.called id r h
      exact ⟨b, List.mem_append_left _ hb, hiff⟩
  · have h : Event.ret id f ∈ w.log := by simpa using h
    obtain ⟨r, hrole, hdone⟩ := ht.returned id f h
    refine ⟨r, hrole, ?_⟩
    rw [Function.update_of_ne (hold id (by simp [hdone])), hdone]
  · rw [weigh_succ, ← ht.inserted, List.countP_append]
    simp [Event.inserted]
  · have htaken : (Phase.running r₀).taken = 0 := by rcases hr with h | h <;> rw [h] <;> rfl
    rw [weigh_succ, hsize, htaken, add_zero, ht.size]
  · have hne : r₀ ≠ .refused := by rcases hr with h | h <;> rw [h] <;> simp
    rw [tally_nil, hbased.tally .refused, if_neg hne] at htally
    have heq : refusals role (w.threads.calls.set i new).flatten =
        refusals role w.threads.frames := htally
    rw [weigh_succ, ← ht.refused, Threads.frames, heq]
    simp [hne]

/-- A statement of a running call. -/
theorem Tracks.exec (ht : Tracks size role removes w phase) {i : ℕ} {st : List F} {g : G}
    (hst : w.threads.calls[i]? = some (f :: fs)) (hrun : phase (w.ids i) = .running r)
    (hb : Based role r (f :: fs)) (hnext : Phase.Next (size w.threads.shared) r p)
    (hshows : p.Shows role st)
    (hsize : size g + p.taken = size w.threads.shared + (Phase.running r).taken)
    (hrole : p ≠ .running r → fs = [] ∧ role f = some r) :
    Tracks size role removes { w with
      threads := ⟨g, w.threads.calls.set i st⟩
      log := w.log ++ Foundations.returned (w.ids i) f st }
      (Function.update phase (w.ids i) p) := by
  have hdone : ∀ r', p = .done r' → role f = some r' := by
    rintro r' rfl
    rw [hnext.done]
    exact (hrole (by simp)).2
  obtain ⟨hinserted, hrefused, hret, hstack⟩ := hshows.log (A := A) hdone (w.ids i)
  have hlt : w.ids i < w.count := ht.lt_count (by simp [hrun])
  refine ⟨ht.toPlaced.set hst (fun h => ?_) (fun _ _ => rfl) (fun j st' hj h hne => ?_),
    fun id hid => ?_, fun id r' h => ?_, fun id f' h => ?_, ?_, ?_, ?_⟩
  · obtain ⟨r', rfl, hbased⟩ := hstack h
    exact ⟨r', Function.update_self .., hbased⟩
  · have hne : w.ids j ≠ w.ids i := fun heq =>
      hj (ht.distinct j i st' _ h hne hst (List.cons_ne_nil f fs) heq)
    exact ⟨Function.update_of_ne hne _ _, hne⟩
  · rw [Function.update_of_ne (hlt.trans_le hid).ne']
    exact ht.unborn id hid
  · by_cases hid : id = w.ids i
    · subst hid
      rw [Function.update_self] at h
      obtain ⟨b, hb, hiff⟩ := ht.called _ r (.inl hrun)
      exact ⟨b, List.mem_append_left _ hb, hiff.trans (hnext.inserts_iff h).symm⟩
    · rw [Function.update_of_ne hid] at h
      obtain ⟨b, hb, hiff⟩ := ht.called id r' h
      exact ⟨b, List.mem_append_left _ hb, hiff⟩
  · rcases List.mem_append.1 h with h | h
    · obtain ⟨r', hr', hold⟩ := ht.returned id f' h
      have hid : id ≠ w.ids i := by
        rintro rfl
        rw [hrun] at hold
        cases hold
      exact ⟨r', hr', by rw [Function.update_of_ne hid, hold]⟩
    · obtain ⟨rfl, r', hr', rfl⟩ := hret id f' h
      exact ⟨r', hr', Function.update_self ..⟩
  · have hw := weigh_update (fun p => if p = .done .inserts then 1 else 0) phase p hlt
    rw [List.countP_append, Nat.cast_add, hinserted, ht.inserted, ← hw, hrun]
    simp
  · have hw := weigh_update Phase.taken phase p hlt
    have hs := ht.size
    rw [hrun] at hw
    show size g + weigh _ w.count _ = 0
    linarith
  · have hw := weigh_update (fun p => if p = .running .refused then 1 else 0) phase p hlt
    have htally := Program.tally_set (x := fun f => if role f = some .refused then 1 else 0) hst st
    have htally : (refusals role (w.threads.calls.set i st).flatten : ℤ) +
        (if r = .refused then 1 else 0 : ℕ) = refusals role w.threads.frames + refusals role st := by
      rw [hb.tally .refused] at htally
      exact_mod_cast htally
    rw [hrun] at hw
    simp only [Phase.running.injEq] at hw
    rw [hrefused, ht.refused] at htally
    show (refusals role (w.threads.calls.set i st).flatten : ℤ) = _
    push_cast at htally
    linarith

theorem Phase.Next.won {n : ℤ} (h : Phase.Next n r p) (hwon : (Phase.running r).won = true) :
    p.won = true := by
  cases h with
  | keep => exact hwon
  | serve => rfl
  | _ => cases hwon

theorem Phase.Next.lost {n : ℤ} (h : Phase.Next n r p) (hlost : p.lost = true) :
    (Phase.running r).lost = true ∨ r = .asks ∧ p = .running .refused ∧ n ≤ 0 := by
  cases h with
  | keep => exact .inl hlost
  | fail => exact .inl rfl
  | refuse hn => exact .inr ⟨rfl, rfl, hn⟩
  | _ => cases hlost

/-- **One step.** A call that gets an element keeps it, and a call that loses has just found a
counter that is not positive. -/
theorem Tracks.step (hP : Reserves P size role removes lowers) (ht : Tracks size role removes w phase)
    (h : P.watch w l = some v) :
    ∃ phase', Tracks size role removes v phase' ∧
      (∀ k, (phase k).won = true → (phase' k).won = true) ∧
      ∀ id, (phase' id).lost = true → (phase id).lost = true ∨
        phase id = .running .asks ∧ size w.threads.shared ≤ 0 ∧
          ∃ f, w.threads.top l.1 = some f ∧ lowers f := by
  rcases Program.watch_cases h with ⟨g, new, hst, hc, rfl⟩ | ⟨f, fs, g, new, hst, he, rfl⟩
  · have hunborn := ht.unborn w.count (Nat.le_refl _)
    refine ⟨_, ht.call hP hst hc, fun k hk => ?_, fun id hid => .inl ?_⟩
    · have hne : k ≠ w.count := by
        rintro rfl
        rw [hunborn] at hk
        cases hk
      rwa [Function.update_of_ne hne]
    · by_cases heq : id = w.count
      · subst heq
        rw [Function.update_self] at hid
        split at hid <;> cases hid
      · rwa [Function.update_of_ne heq] at hid
  · obtain ⟨r, hrun, hb⟩ := ht.stack l.1 _ hst (List.cons_ne_nil f fs)
    obtain ⟨p, hnext, hshows, hsize, hlow, hrole⟩ := hP.exec he hb
    refine ⟨_, ht.exec hst hrun hb hnext hshows hsize hrole, fun k hk => ?_, fun id hid => ?_⟩
    · by_cases heq : k = w.ids l.1
      · subst heq
        rw [Function.update_self]
        exact hnext.won (hrun ▸ hk)
      · rwa [Function.update_of_ne heq]
    · by_cases heq : id = w.ids l.1
      · subst heq
        rw [Function.update_self] at hid
        rw [hrun]
        refine (hnext.lost hid).imp id fun ⟨hr, hp, hn⟩ => ⟨by rw [hr], hn, f, ?_, hlow hr hp⟩
        simp [Threads.top, hst]
      · rw [Function.update_of_ne heq] at hid
        exact .inl hid

theorem tracks_idle (g₀ : G) (hg₀ : size g₀ = 0) (n : ℕ) :
    Tracks size role removes (⟨Threads.idle g₀ n, 0, fun _ => 0, []⟩ : Watched G F A)
      fun _ => .unborn where
  stack i st h hne := by
    refine absurd (List.mem_of_getElem? h) fun hmem => hne ?_
    exact List.eq_of_mem_replicate hmem
  distinct i j st st' h hne := by
    refine absurd (List.mem_of_getElem? h) fun hmem => absurd ?_ hne
    exact List.eq_of_mem_replicate hmem
  unborn _ _ := rfl
  called _ _ h := by rcases h with h | h <;> cases h
  returned _ _ h := absurd h List.not_mem_nil
  inserted := rfl
  size := by simp [weigh, hg₀]
  refused := by simp [weigh, refusals]

/-- A call that gets an element never reports an empty container. -/
theorem Tracks.succeeds (hP : Reserves P size role removes lowers)
    (ht : Tracks size role removes w phase) {k : ℕ} (hk : (phase k).won = true) (g₀ : G) :
    Succeeds P g₀ role w k := by
  intro v hv f hret hrole
  obtain ⟨phase', ht', hwon⟩ := hv.invariant
    (I := fun v => ∃ phase', Tracks size role removes v phase' ∧ (phase' k).won = true)
    (fun s hs => by obtain rfl : s = w := hs; exact ⟨phase, ht, hk⟩)
    fun s l t ⟨phase₁, h₁, hk₁⟩ _ hst => by
      obtain ⟨phase₂, h₂, hmono, -⟩ := h₁.step hP hst
      exact ⟨phase₂, h₂, hmono k hk₁⟩
  obtain ⟨r, hr, hdone⟩ := ht'.returned k f hret
  obtain rfl : r = .refused := Option.some.inj (hr.symm.trans hrole)
  rw [hdone] at hwon
  cases hwon

variable (role removes) in
/-- The moment at which a removal was refused. -/
def Refused (w : Watched G F A) (phase : ℕ → Phase) (id : ℕ) : Prop :=
  ∃ pre post, w.log = pre ++ post ∧ (∃ a, .call id a ∈ pre) ∧ (∀ f, .ret id f ∉ pre) ∧
    ∃ others : Finset ℕ,
      (∀ k ∈ others, k ≠ id ∧ (∃ a, .call k a ∈ pre ∧ removes a = true) ∧
        (phase k).won = true) ∧
      pre.countP (Event.inserted role) ≤ others.card

theorem Refused.mono {phase' : ℕ → Phase} (h : Refused role removes w phase id)
    (hlog : w.log <+: v.log) (hwon : ∀ k, (phase k).won = true → (phase' k).won = true) :
    Refused role removes v phase' id := by
  obtain ⟨pre, post, hsplit, hcall, hret, others, hothers, hcard⟩ := h
  obtain ⟨tail, htail⟩ := hlog
  refine ⟨pre, post ++ tail, ?_, hcall, hret, others, fun k hk => ?_, hcard⟩
  · rw [← htail, hsplit, List.append_assoc]
  · obtain ⟨hne, hk', h⟩ := hothers k hk
    exact ⟨hne, hk', hwon k h⟩

/-- The insertions that have returned, by the counter. -/
theorem Tracks.count_inserted (ht : Tracks size role removes w phase) :
    (w.log.countP (Event.inserted role) : ℤ) = size w.threads.shared +
      ((Finset.range w.count).filter fun k => (phase k).won = true).card +
      refusals role w.threads.frames := by
  have htaken : ∀ p : Phase, p.taken = (if p.won = true then 1 else 0) +
      (if p = .running .refused then 1 else 0) - (if p = .done .inserts then 1 else 0) := by
    intro p
    cases p with
    | unborn => rfl
    | running r => cases r <;> rfl
    | done r => cases r <;> rfl
  have hsum : weigh Phase.taken w.count phase =
      weigh (fun p => if p.won = true then 1 else 0) w.count phase +
        weigh (fun p => if p = .running .refused then 1 else 0) w.count phase -
        weigh (fun p => if p = .done .inserts then 1 else 0) w.count phase := by
    rw [weigh, weigh, weigh, weigh, ← Finset.sum_add_distrib, ← Finset.sum_sub_distrib]
    exact Finset.sum_congr rfl fun k _ => htaken _
  have hcard : (((Finset.range w.count).filter fun k => (phase k).won = true).card : ℤ) =
      weigh (fun p => if p.won = true then 1 else 0) w.count phase :=
    Finset.natCast_card_filter _ _
  have hsize := ht.size
  rw [ht.inserted, ht.refused, hcard]
  linarith

theorem Tracks.refuse (ht : Tracks size role removes w phase) (hasks : phase id = .running .asks)
    (hsize : size w.threads.shared + refusals role w.threads.frames ≤ 0) :
    Refused role removes w phase id := by
  obtain ⟨a, ha, -⟩ := ht.called id .asks (.inl hasks)
  refine ⟨w.log, [], (List.append_nil _).symm, ⟨a, ha⟩, fun f hf => ?_,
    (Finset.range w.count).filter fun k => (phase k).won = true, fun k hk => ?_, ?_⟩
  · obtain ⟨r, -, hdone⟩ := ht.returned id f hf
    rw [hasks] at hdone
    cases hdone
  · have hwon := (Finset.mem_filter.1 hk).2
    refine ⟨?_, ?_, hwon⟩
    · rintro rfl
      rw [hasks] at hwon
      cases hwon
    · have hrole : phase k = .running .admitted ∨ phase k = .done .admitted := by
        revert hwon
        cases phase k with
        | unborn => exact fun h => by cases h
        | running r => cases r <;> simp [Phase.won]
        | done r => cases r <;> simp [Phase.won]
      obtain ⟨b, hb, hiff⟩ := ht.called k .admitted hrole
      exact ⟨b, hb, hiff.2 (by simp)⟩
  · have := ht.count_inserted
    omega

/-- **Only refused removals mislead others.** In a run in which every counter that is not positive
when it is lowered would not be positive without them either, every report of an empty container is
excused. -/
theorem Reserves.truthful (hP : Reserves P size role removes lowers) {g₀ : G} (hg₀ : size g₀ = 0)
    (h : (P.watched g₀).ReachableVia (Orderly size role lowers) w) :
    Truthful P g₀ role removes w := by
  obtain ⟨phase, ht, hrefused⟩ := h.invariant
    (I := fun w => ∃ phase, Tracks size role removes w phase ∧
      ∀ id, (phase id).lost = true → Refused role removes w phase id)
    (by
      rintro _ ⟨n, rfl⟩
      exact ⟨_, tracks_idle g₀ hg₀ n, fun id hid => by cases hid⟩)
    (by
      rintro s l t ⟨phase, ht, hrefused⟩ hok hst
      obtain ⟨phase', ht', hwon, hlost⟩ := ht.step hP hst
      refine ⟨phase', ht', fun id hid => Refused.mono ?_ (Program.watch_log hst) hwon⟩
      rcases hlost id hid with hid | ⟨hasks, hsize, f, htop, hlow⟩
      · exact hrefused id hid
      · exact ht.refuse hasks (hok f htop hlow hsize))
  intro id f hret hrole
  obtain ⟨r, hr, hdone⟩ := ht.returned id f hret
  obtain rfl : r = .refused := Option.some.inj (hr.symm.trans hrole)
  obtain ⟨pre, post, hsplit, hcall, hnot, others, hothers, hcard⟩ :=
    hrefused id (by rw [hdone]; rfl)
  refine ⟨pre, post, hsplit, hcall, hnot, others, fun k hk => ?_, hcard⟩
  obtain ⟨hne, hk', hwon⟩ := hothers k hk
  exact ⟨hne, hk', ht.succeeds hP hwon g₀⟩

end Tracks

end Foundations
