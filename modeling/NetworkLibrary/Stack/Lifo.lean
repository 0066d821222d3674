import NetworkLibrary.Foundations.Links
import NetworkLibrary.Stack.Accounts

/-!
# `LockFreeStack` is a stack

Every node is on the chain from `Top`, in the pool, built by a `Push`, or taken off by a `Pop` that
has not freed it yet; `Inv` says so, and what the running calls know about the nodes they hold. A
`Push` may link its node above any `Top` that is the word it has read. A `Pop` knows the link of the
node it has read only as long as `Top` has not been written since, and that is what the tags tell
it: a word that is written is one that no `Pop` has read (`tags`). That the loop of a `Pop` finds no
empty stack follows from the accounts of `Size`.
-/

namespace NetworkLibrary.LockFreeStack

open Foundations

variable {T : Type*}

/-- The node that a `Push` has not linked yet. -/
def Frame.newNode : Frame T → Option ℕ
  | .tagPush _ x | .setData _ x | .readTop _ x | .setNext _ x _ | .casPush _ x _ => some x.index
  | _ => none

/-- The node that a `Pop` has taken off and not freed yet. -/
def Frame.oldNode : Frame T → Option ℕ
  | .readData node _ | .free node _ _ => some node
  | _ => none

/-- One for the frames that hold a node. -/
def Frame.holds (n : ℕ) (f : Frame T) : ℕ :=
  if f.newNode = some n ∨ f.oldNode = some n then 1 else 0

/-- What a frame knows about the nodes it holds. -/
def Frame.Sound (s : Stack T) : Frame T → Prop
  | .readTop v x | .setNext v x _ => s.data x.index = v
  | .casPush v x oldTop => s.data x.index = v ∧ s.next x.index = oldTop.index
  | .readNext _ oldTop => oldTop.index ≠ 0
  | .casPop newTop oldTop =>
    oldTop.index ≠ 0 ∧ (oldTop = s.top → newTop.index = s.next oldTop.index)
  | .readData node v => s.data node = v
  | .free _ v returnData | .ret v returnData => v = returnData
  | _ => True

attribute [local simp] Frame.newNode Frame.oldNode Frame.holds Frame.Sound

variable {s s' : Stack T} {f g : Frame T} {a : Act T} {new fs pre post : List (Frame T)} {l : List ℕ}
  {n : ℕ}

/-- A frame still knows what it knew when its node and the node of `Top` are as they were. -/
theorem Frame.Sound.transfer (h : f.Sound s)
    (hnew : ∀ n, f.newNode = some n → s'.data n = s.data n ∧ s'.next n = s.next n)
    (hold : ∀ n, f.oldNode = some n → s'.data n = s.data n)
    (htop : ∀ x, f.oldTop = some x → x.index ≠ 0 → x = s'.top →
      x = s.top ∧ s'.next x.index = s.next x.index) : f.Sound s' := by
  cases f <;> simp_all [Frame.oldTop]
  grind

/-- Every node is at one place, the chain holds the values of the history, and every running call
is sound. -/
structure Inv (l : List ℕ) (s : Stack T) (fs : List (Frame T)) : Prop where
  chain : Links 0 s.next s.top.index l
  owned : ∀ n, s.pool.count n + tally (Frame.holds n) fs + l.count n =
    if 0 < n ∧ n < s.fresh then 1 else 0
  lifo : Lifo s.history (l.map s.data)
  frame : ∀ f ∈ fs, f.Sound s
  returned : ∀ r ∈ s.returned, r.1 = r.2
  fresh_pos : 0 < s.fresh
  fault : s.fault = false

/-- A node that a running call holds is nowhere else. -/
theorem Inv.held (h : Inv l s fs) (hf : f ∈ fs)
    (hn : f.newNode = some n ∨ f.oldNode = some n) : n ≠ 0 ∧ n ∉ l := by
  have hle := h.owned n
  have hb : f.holds n ≤ tally (Frame.holds n) fs := le_tally_of_mem hf
  rw [Frame.holds, if_pos hn] at hb
  split_ifs at hle with hlt
  · refine ⟨hlt.1.ne', fun hl => ?_⟩
    have := List.count_pos_iff.2 hl
    omega
  · omega

/-- Nobody else holds it. -/
theorem Inv.held_rest (h : Inv l s (pre ++ [f] ++ post))
    (hn : f.newNode = some n ∨ f.oldNode = some n) (hg : g ∈ pre ++ post) :
    ¬(g.newNode = some n ∨ g.oldNode = some n) := by
  intro hn'
  have hle := h.owned n
  have := Program.add_le_tally (w := Frame.holds n) (rfl : pre ++ [f] ++ post = _) hg
  rw [tally_cons, tally_nil, Frame.holds, Frame.holds, if_pos hn, if_pos hn'] at this
  split_ifs at hle <;> omega

/-- A node of the chain is the node of no running call. -/
theorem Inv.top_ne (h : Inv l s fs) (hne : s.top.index ≠ 0) : s.top.index ∈ l := by
  have hc := h.chain
  rcases l with _ | ⟨x, l⟩
  · exact absurd hc hne
  · rw [hc.1]
    exact List.mem_cons_self

/-! ## The kinds of steps -/

variable {old : List (Frame T)}

/-- A step that writes neither `Top` nor a node. -/
theorem Inv.keep (h : Inv l s (pre ++ old ++ post)) {size : ℤ} {tagCnt fresh : ℕ} {pool : List ℕ}
    {drawn : List ℕ} {called : List T} {returned : List (T × T)}
    (hb : ∀ n, (pool.count n + tally (Frame.holds n) new +
        if 0 < n ∧ n < s.fresh then 1 else 0) =
      s.pool.count n + tally (Frame.holds n) old + if 0 < n ∧ n < fresh then 1 else 0)
    (hsound : ∀ f' ∈ new, f'.Sound s) (hret : ∀ r ∈ returned, r.1 = r.2) (hfresh : 0 < fresh) :
    Inv l
      { s with
        size := size, tagCnt := tagCnt, fresh := fresh, pool := pool, drawn := drawn,
        called := called, returned := returned }
      (pre ++ new ++ post) := by
  have htrans : ∀ f' : Frame T, f'.Sound s → f'.Sound
      { s with
        size := size, tagCnt := tagCnt, fresh := fresh, pool := pool, drawn := drawn,
        called := called, returned := returned } := fun f' hf' =>
    hf'.transfer (fun _ _ => ⟨rfl, rfl⟩) (fun _ _ => rfl) fun _ _ _ hx => ⟨hx, rfl⟩
  refine ⟨h.chain, fun n => ?_, h.lifo, ?_, hret, hfresh, h.fault⟩
  · have h₁ := h.owned n
    have h₂ := hb n
    simp only [tally_append] at h₁ ⊢
    omega
  · exact Program.forall_frames_step rfl rfl h.frame (fun f' hf' => htrans f' (hsound f' hf'))
      fun f' _ hf' => htrans f' hf'

/-- A `Push` writes a field of its node. -/
theorem Inv.build (h : Inv l s (pre ++ [f] ++ post)) (hf : f.newNode = some n)
    (hg : ∀ m, g.holds m = f.holds m) {data : ℕ → T} {next : ℕ → ℕ}
    (heq : ∀ m, m ≠ n → data m = s.data m ∧ next m = s.next m)
    (hsound : g.Sound { s with data := data, next := next }) :
    Inv l { s with data := data, next := next } (pre ++ [g] ++ post) := by
  obtain ⟨-, hl⟩ := h.held (by simp) (.inl hf)
  have hkeep : ∀ m ∈ l, data m = s.data m ∧ next m = s.next m := fun m hm =>
    heq m fun hmn => hl (hmn ▸ hm)
  have hrest : ∀ f' ∈ pre ++ post, ∀ m, f'.newNode = some m ∨ f'.oldNode = some m →
      data m = s.data m ∧ next m = s.next m := by
    intro f' hf' m hm
    refine heq m ?_
    rintro rfl
    exact h.held_rest (.inl hf) hf' hm
  refine ⟨h.chain.congr fun m hm => (hkeep m hm).2, fun m => ?_, ?_, ?_, h.returned, h.fresh_pos,
    h.fault⟩
  · rw [← h.owned m]
    simp only [tally_append, tally_cons, hg]
  · have hmap : l.map data = l.map s.data := List.map_congr_left fun m hm => (hkeep m hm).1
    rw [hmap]
    exact h.lifo
  · refine Program.forall_frames_step rfl rfl h.frame (by simpa using hsound) fun f' hf' hs => ?_
    refine hs.transfer (fun m hm => hrest f' hf' m (.inl hm))
      (fun m hm => (hrest f' hf' m (.inr hm)).1) fun x _ hne hx => ⟨hx, ?_⟩
    subst hx
    exact (hkeep _ (h.top_ne hne)).2

/-- A `Push` links its node. -/
theorem Inv.push {v : T} {x oldTop : Tagged} (h : Inv l s (pre ++ [.casPush v x oldTop] ++ post))
    (hcas : s.top = oldTop)
    (htags : ∀ f' ∈ pre ++ post, ∀ y, f'.oldTop = some y → y.index ≠ 0 → y ≠ x) :
    Inv (x.index :: l) { s with top := x, history := s.history ++ [.push v] }
      (pre ++ [.incSize] ++ post) := by
  obtain ⟨hdata, hnext⟩ := h.frame (.casPush v x oldTop) (by simp)
  obtain ⟨hne, -⟩ := h.held (f := .casPush v x oldTop) (by simp) (.inl rfl)
  subst hcas
  refine ⟨⟨rfl, hne, hnext ▸ h.chain⟩, fun m => ?_, ?_, ?_, h.returned, h.fresh_pos,
    h.fault⟩
  · rw [← h.owned m, List.count_cons]
    simp
    omega
  · rw [List.map_cons, hdata]
    exact h.lifo.push
  · refine Program.forall_frames_step rfl rfl h.frame (by simp) fun f' hf' hs => ?_
    exact hs.transfer (fun _ _ => ⟨rfl, rfl⟩) (fun _ _ => rfl) fun y hy hy0 hyx =>
      absurd hyx (htags f' hf' y hy hy0)

/-- A `Pop` takes the first node off. -/
theorem Inv.pop {x : Tagged} (h : Inv l s (pre ++ [.casPop x s.top] ++ post))
    (htags : ∀ f' ∈ pre ++ post, ∀ y, f'.oldTop = some y → y.index ≠ 0 → y ≠ x) :
    ∃ l', Inv l' { s with top := x, history := s.history ++ [.pop (s.data s.top.index)] }
      (pre ++ [.readData s.top.index (s.data s.top.index)] ++ post) := by
  obtain ⟨hne, hnext⟩ := h.frame (.casPop x s.top) (by simp)
  have hc := h.chain
  rcases l with _ | ⟨y, l⟩
  · exact absurd hc hne
  obtain ⟨rfl, -, hc⟩ := hc
  rw [← hnext rfl] at hc
  refine ⟨l, hc, fun m => ?_, ?_, ?_, h.returned, h.fresh_pos,
    h.fault⟩
  · rw [← h.owned m, List.count_cons]
    simp
    omega
  · exact Lifo.pop (by simpa using h.lifo)
  · refine Program.forall_frames_step rfl rfl h.frame (by simp) fun f' hf' hs => ?_
    exact hs.transfer (fun _ _ => ⟨rfl, rfl⟩) (fun _ _ => rfl) fun y hy hy0 hyx =>
      absurd hyx (htags f' hf' y hy hy0)

/-! ## One step -/

/-- No running call is about to dereference `nullptr`. -/
theorem Inv.deref_ne (h : Inv l s fs) (hf : f ∈ fs) : f.deref ≠ some 0 := by
  have hs := h.frame f hf
  have hn := fun n hn => (h.held hf (n := n) hn).1
  cases f <;> simp_all [Frame.deref]

/-- While a `Pop` is in its loop, there is a node on the chain: its values are counted by `Size`,
which is not negative but for the calls that have yet to take their subtraction back. -/
theorem Inv.top_ne_zero (h : Inv l s fs)
    (hsize : ((pushes s.history).length - (pops s.history).length - s.size : ℤ) =
      (tally Frame.unsized fs + tally Frame.loops fs + tally Frame.undoes fs : ℕ))
    (hnonneg : 0 ≤ s.size + tally Frame.undoes fs) (hf : f ∈ fs) (hloops : f.loops = 1) :
    s.top.index ≠ 0 := by
  have hlen := h.lifo.length
  have hl : f.loops ≤ tally Frame.loops fs := le_tally_of_mem hf
  rw [List.length_map] at hlen
  have hc := h.chain
  rcases l with _ | ⟨x, l⟩
  · rw [List.length_nil] at hlen
    omega
  · rw [hc.1]
    exact hc.2.1

/-- **One statement keeps the invariant**, if no other `Pop` has read the word that it writes into
`Top`. -/
theorem Inv.exec (h : Inv l s (pre ++ [f] ++ post)) (htop : f.loops = 1 → s.top.index ≠ 0)
    (htags : ∀ x : Tagged, f.own = some x.tag → ∀ f' ∈ pre ++ post, ∀ y, f'.oldTop = some y →
      y.index ≠ 0 → y ≠ x)
    (he : exec s f a = some (s', new)) : ∃ l', Inv l' s' (pre ++ new ++ post) := by
  rw [LockFreeStack.exec, if_neg (h.deref_ne (by simp))] at he
  have hf := h.frame f (by simp)
  have hquiet : ∀ {new : List (Frame T)} {size : ℤ} {tagCnt : ℕ} {drawn : List ℕ},
      (∀ n, tally (Frame.holds n) new = f.holds n) → (∀ f' ∈ new, f'.Sound s) →
      ∃ l', Inv l' { s with size := size, tagCnt := tagCnt, drawn := drawn }
        (pre ++ new ++ post) := fun hb hsound =>
    ⟨l, h.keep (by simp only [hb, tally_cons, tally_nil]; omega) hsound h.returned h.fresh_pos⟩
  cases f with
  | alloc v =>
    cases a with
    | fresh flag tag =>
      cases he
      refine ⟨l, h.keep (fun m => ?_) (by simp) h.returned (Nat.succ_pos _)⟩
      have := h.fresh_pos
      simp
      grind
    | reuse n flag tag =>
      simp only [stmt, Option.ite_none_right_eq_some] at he
      obtain ⟨hn, he⟩ := he
      cases he
      refine ⟨l, h.keep (fun m => ?_) (by simp) h.returned h.fresh_pos⟩
      have := List.count_pos_iff.2 hn
      simp [List.count_erase]
      grind
    | _ => cases he
  | tagPush v x =>
    cases he
    exact hquiet (by simp [Tagged.setTag]) (by simp)
  | setData v x =>
    cases he
    exact ⟨l, h.build (g := .readTop v x) rfl (fun m => rfl)
      (fun m hm => ⟨Function.update_of_ne hm _ _, rfl⟩) (by simp)⟩
  | readTop v x =>
    cases he
    exact hquiet (by simp) (by simpa using hf)
  | setNext v x oldTop =>
    cases he
    exact ⟨l, h.build (g := .casPush v x oldTop) rfl (fun m => rfl)
      (fun m hm => ⟨rfl, Function.update_of_ne hm _ _⟩) (by simpa using hf)⟩
  | casPush v x oldTop =>
    simp only [stmt] at he
    split_ifs at he with hcas <;> cases he
    · exact ⟨_, h.push hcas (htags x rfl)⟩
    · exact hquiet (by simp) (by simpa using hf.1)
  | incSize | tagPop | undoSize =>
    cases he
    exact hquiet (by simp) (by simp)
  | decSize newTop =>
    simp only [stmt] at he
    split_ifs at he <;> cases he
    · exact hquiet (by simp) (by simp)
    · exact hquiet (by simp) (by simp)
  | readOld newTop =>
    cases he
    exact hquiet (by simp) (by simpa using htop rfl)
  | readNext newTop oldTop =>
    cases he
    refine hquiet (by simp) ?_
    simpa [Tagged.setPtr] using hf
  | casPop newTop oldTop =>
    simp only [stmt] at he
    split_ifs at he with hcas <;> cases he
    · subst hcas
      exact h.pop (htags newTop rfl)
    · exact hquiet (by simp) (by simp)
  | readData n v =>
    cases he
    refine hquiet (by simp) ?_
    simpa [eq_comm] using hf
  | free n v returnData =>
    cases he
    refine ⟨l, h.keep (fun m => ?_) (by simpa using hf) h.returned h.fresh_pos⟩
    simp [List.count_cons]
  | ret v returnData =>
    cases he
    refine ⟨l, h.keep (by simp) (by simp) ?_ h.fresh_pos⟩
    rintro r hr
    rcases List.mem_append.1 hr with hr | hr
    · exact h.returned r hr
    · obtain rfl := List.mem_singleton.1 hr
      exact hf

theorem Inv.call (h : Inv l s (pre ++ [] ++ post)) (hc : call s a = some (s', new)) :
    Inv l s' (pre ++ new ++ post) := by
  rcases call_accounts hc with ⟨rfl, rfl⟩ | ⟨v, rfl, rfl⟩
  · exact h.keep (by simp) (by simp) h.returned h.fresh_pos
  · exact h.keep (by simp) (by simp) h.returned h.fresh_pos

/-! ## Runs -/

variable {t : Threads (Stack T) (Frame T)} {data : ℕ → T} {next : ℕ → ℕ}

theorem exists_inv (h : (system data next).Reachable t) (hnodup : t.shared.drawn.Nodup) :
    ∃ l, Inv l t.shared t.frames := by
  refine h.invariant₂ (J := fun t => (system data next).Reachable t)
    (I := fun t => t.shared.drawn.Nodup → ∃ l, Inv l t.shared t.frames) id ?_ ?_ hnodup
  · rintro _ ⟨n, rfl⟩ -
    refine ⟨[], ?_⟩
    rw [Threads.frames_idle]
    refine ⟨rfl, fun m => ?_, .nil, by simp, by simp [initStack], Nat.one_pos, rfl⟩
    simp [initStack]
    omega
  · intro s lab t hs _ ih _ hst hnodup
    have hnodup' := hnodup.sublist (step_drawn hst).sublist
    obtain ⟨l, hl⟩ := ih hnodup'
    obtain ⟨pre, old, new, post, hfs, hft, hf, -⟩ := Program.step_frames hst
    rw [hfs] at hl
    rw [hft]
    cases hf with
    | call hc => exact ⟨l, hl.call hc⟩
    | exec he =>
      rename_i f
      refine hl.exec (hl.top_ne_zero ?_ ?_ (by simp)) ?_ he
      · rw [← hfs]
        exact size_eq hs
      · rw [← hfs]
        exact size_nonneg hs
      · rintro x hx f' hf' y hy hne rfl
        have hpos : 0 < tally (owns Frame.own y.tag) s.frames :=
          lt_of_lt_of_le (by simp [owns, hx]) (le_tally_of_mem (f := f) (by rw [hfs]; simp))
        refine ((tags hs hnodup').unseen _ hpos).2 f' ?_ ⟨y, hy, hne, rfl⟩
        rw [hfs]
        simp only [List.mem_append] at hf' ⊢
        tauto

/-- **`LockFreeStack` is a stack**, as long as `GetTagCnt` returns no tag twice: no `Pop` that has
passed the test of `Size` reads `Next` of a null `Top`; the successful operations, in the order of
their compare-and-swaps, are a legal history that leaves the values on the chain from `Top`; every
`Pop` returns the value of its operation, and no value is popped or returned more often than it was
pushed; and when no call is running, `Size` is the number of linked nodes, and the values pushed
are those returned and those linked. -/
theorem lifo (h : (system data next).Reachable t) (hnodup : t.shared.drawn.Nodup) :
    (∀ newTop oldTop, .readNext newTop oldTop ∈ t.frames → oldTop.index ≠ 0) ∧
      t.shared.fault = false ∧
      ∃ l, Links 0 t.shared.next t.shared.top.index l ∧
        Lifo t.shared.history (l.map t.shared.data) ∧
        (∀ r ∈ t.shared.returned, r.1 = r.2) ∧
        (pops t.shared.history).Subperm (pushes t.shared.history) ∧
        (t.shared.returned.map Prod.snd).Subperm t.shared.called ∧
        (t.Quiet → t.shared.size = l.length ∧
          t.shared.called.Perm (t.shared.returned.map Prod.snd ++ l.map t.shared.data)) := by
  classical
  obtain ⟨l, hl⟩ := exists_inv h hnodup
  have hcalled := called_count h
  have hpopped := popped_count h
  have hperm := hl.lifo.perm
  have hsnd : t.shared.returned.map Prod.snd = t.shared.returned.map Prod.fst :=
    List.map_congr_left fun r hr => (hl.returned r hr).symm
  have hpushes : ∀ v, (pushes t.shared.history).count v =
      (pops t.shared.history).count v + (l.map t.shared.data).count v := fun v => by
    rw [hperm.count_eq, List.count_append]
  refine ⟨fun newTop oldTop hf => hl.frame _ hf, hl.fault, l, hl.chain, hl.lifo, hl.returned,
    List.subperm_ext_iff.2 fun v _ => ?_, List.subperm_ext_iff.2 fun v _ => ?_,
    fun hq => ⟨?_, List.perm_iff_count.2 fun v => ?_⟩⟩
  · rw [hpushes]
    omega
  · rw [hsnd, hcalled, hpushes, hpopped]
    omega
  · have hsize := size_eq h
    have hlen := hl.lifo.length
    rw [List.length_map] at hlen
    rw [show t.frames = [] from hq, tally_nil, tally_nil, tally_nil] at hsize
    omega
  · rw [hcalled, hpushes, hpopped, hsnd, show t.frames = [] from hq, tally_nil, tally_nil,
      List.count_append]
    omega

/-- A thread calls `Push` and gets a new node. -/
def pushing (i tData : ℕ) : List (ℕ × Act ℕ) := [(i, .push tData), (i, .fresh false 0)]

/-- A thread executes a number of statements. -/
def going (i n : ℕ) : List (ℕ × Act ℕ) := List.replicate n (i, .next)

/-- A `Pop` reads the first node; before it goes on, another thread pops this node, and pushes a
value in the same node again. The compare-and-swap of the first `Pop` fails, and its next turn of
the loop takes the new value. -/
theorem lifo_recycled :
    ∃ t, (system (fun _ => 0) (fun _ => 0)).Reachable t ∧ t.Quiet ∧
      t.shared.history = [.push 10, .push 20, .pop 20, .push 30, .pop 30] ∧
      t.shared.returned = [(20, 20), (30, 30)] ∧ t.shared.size = 1 ∧
      ∃ l, Links 0 t.shared.next t.shared.top.index l ∧
        Lifo t.shared.history (l.map t.shared.data) := by
  obtain ⟨t, ht, hp⟩ := Lts.exists_reachable_of_run (M := system (fun _ => 0) (fun _ => 0))
    ⟨2, rfl⟩
    (pushing 0 10 ++ going 0 6 ++ pushing 0 20 ++ going 0 6 ++ [(1, .pop)] ++ going 1 4 ++
      [(0, .pop)] ++ going 0 8 ++ [(0, .push 30), (0, .reuse 2 true 7)] ++ going 0 6 ++ going 1 7)
    (p := fun t => decide (t.Quiet ∧
      t.shared.history = [.push 10, .push 20, .pop 20, .push 30, .pop 30] ∧
      t.shared.returned = [(20, 20), (30, 30)] ∧ t.shared.size = 1 ∧ t.shared.drawn.Nodup))
    (by decide +kernel)
  obtain ⟨hq, hhist, hret, hsize, hnodup⟩ := of_decide_eq_true hp
  obtain ⟨-, -, l, hl, hlifo, -⟩ := lifo ht hnodup
  exact ⟨t, ht, hq, hhist, hret, hsize, l, hl, hlifo⟩

end NetworkLibrary.LockFreeStack
