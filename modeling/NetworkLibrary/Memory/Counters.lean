import NetworkLibrary.Memory.Nodes
import Mathlib.Algebra.BigOperators.Group.Finset.Basic
import Mathlib.Data.Set.Card

/-!
# What the counters of the chunks count

`TotalSize` is raised by 100 before the nodes of a new chunk are made, so that it counts the nodes
that exist and those that running calls have yet to make (`counted`). `UseSize` is the rest of it
without the chunks on `ChunckStack`: the nodes that callers hold and those cached in the pools.

The destructor of a pool deletes the cached nodes and leaves the counters as they are. The counters
are right as long as a pool that is destroyed has nothing cached (`counters`).
-/

namespace NetworkLibrary.TLSNodeMemoryPool

open Foundations

variable {s : State} {place : ℕ → Place} {i : ℕ} {p : TLSNodeMemoryPool} {g' : ChunkMemory}
  {r : Option TLSNodeMemoryPool} {a : Act}

/-- A pool is destroyed only when it has no nodes cached. -/
def DestroysEmpty (s : State) (l : ℕ × Act) : Prop :=
  ∀ p, s.pools l.1 = some p → p.frame = .idle → l.2 = .destroy → p.freeNodeCnt = 0

/-! ## `TotalSize` -/

/-- The nodes that the call on a pool has yet to make, and that `TotalSize` counts already. -/
def owed : Option TLSNodeMemoryPool → ℕ
  | some ⟨head, _, .checkHead⟩ => if head = 0 then kChunkDefault else 0
  | some ⟨_, _, .newNodeList n _⟩ => n
  | _ => 0

/-- `TotalSize` counts the nodes `L` that exist, and what the calls on the pools `S` owe. -/
structure Counted (s : State) (L S : Finset ℕ) : Prop where
  live : ∀ x, x ∈ L ↔ s.shared.live x = true
  pools : ∀ i, s.pools i ≠ none → i ∈ S
  total : s.shared.totalSize = L.card + ∑ i ∈ S, owed (s.pools i)

/-- The destructor has nothing to delete. -/
def Emptied (s : State) : Prop :=
  ∀ i p, s.pools i = some p → p.frame = .destroy → p.head = 0

/-- A sum over the pools, one of which changes. -/
theorem sum_update (S : Finset ℕ) (f : Option TLSNodeMemoryPool → ℕ)
    (pools : ℕ → Option TLSNodeMemoryPool) (r : Option TLSNodeMemoryPool) (hi : i ∈ S) :
    ∑ j ∈ S, f (Function.update pools i r j) + f (pools i) = ∑ j ∈ S, f (pools j) + f r := by
  have hrest : ∑ j ∈ S.erase i, f (Function.update pools i r j) = ∑ j ∈ S.erase i, f (pools j) :=
    Finset.sum_congr rfl fun j hj => by rw [Function.update_of_ne (Finset.ne_of_mem_erase hj)]
  rw [← Finset.add_sum_erase S _ hi, ← Finset.add_sum_erase S (fun j => f (pools j)) hi, hrest,
    Function.update_self]
  omega

/-- What a statement does to `TotalSize` and to the nodes that exist. -/
theorem exec_total {g : ChunkMemory} (he : exec g p p.frame a = some (g', r))
    (hchunck : ∀ c ∈ g.chunckStack, c ≠ 0) (hempty : p.frame = .destroy → p.head = 0) :
    g'.live = g.live ∧ g'.totalSize + owed (some p) = g.totalSize + owed r ∨
      ∃ x, g.live x = false ∧ g'.live = Function.update g.live x true ∧
        g'.totalSize = g.totalSize ∧ owed (some p) = owed r + 1 := by
  obtain ⟨head, cnt, f⟩ := p
  revert he
  fun_cases exec g ⟨head, cnt, f⟩ f a <;> intro he <;> cases he <;>
    first
    | exact .inr ⟨_, And.right ‹_›, rfl, rfl, rfl⟩
    | exact .inl (by simp_all [owed])

theorem chunck_ne_zero (hs : Layout s place) {c : ℕ} (hc : c ∈ s.shared.chunckStack) : c ≠ 0 := by
  obtain ⟨l, -, hlinks, hlen⟩ := hs.chunck c hc
  rcases l with _ | ⟨x, l⟩
  · simp [kChunkDefault] at hlen
  · rw [hlinks.1]
    exact hlinks.2.1

/-- The destructor of a pool without cached nodes. -/
theorem exec_destroy {p' : TLSNodeMemoryPool} (hs : Layout s place) (hp : s.pools i = some p)
    (hempty : p.frame = .destroy → p.head = 0)
    (hok : p.frame = .idle → a = .destroy → p.freeNodeCnt = 0)
    (he : exec s.shared p p.frame a = some (g', some p')) (hf : p'.frame = .destroy) :
    p'.head = 0 := by
  obtain ⟨l, h, -, -, hlinks, hframe⟩ := hs.pooled i p hp
  generalize hpf : p.frame = f at he hempty hok hframe
  revert he
  fun_cases exec s.shared p f a <;> intro he <;> cases he <;> simp_all
  -- the destructor starts on an empty list
  obtain ⟨-, hcnt, -⟩ := hframe
  obtain rfl : l = [] := List.eq_nil_of_length_eq_zero (by omega)
  exact hlinks

/-- A pool that runs its destructor from an empty list on. -/
theorem emptied_step {t : State} {l : ℕ × Act} (hs : Layout s place) (h : Emptied s)
    (hok : DestroysEmpty s l) (hst : step s l = some t) : Emptied t := by
  obtain ⟨i, a⟩ := l
  simp only [step] at hst
  split at hst
  · split at hst
    · obtain rfl := Option.some.inj hst
      intro j p hj hf
      by_cases hji : j = i
      · subst hji
        obtain rfl : new = p := by simpa using hj
        rfl
      · exact h j p (by simpa [hji] using hj) hf
    · cases hst
  · rename_i p hp
    obtain ⟨⟨g', r⟩, he, rfl⟩ := Option.map_eq_some_iff.1 hst
    intro j p' hj hf
    by_cases hji : j = i
    · subst hji
      obtain rfl : r = some p' := by simpa using hj
      exact exec_destroy hs hp (h j p hp) (hok p hp) he hf
    · exact h j p' (by simpa [hji] using hj) hf

theorem counted (h : system.ReachableVia DestroysEmpty s) :
    Emptied s ∧ ∃ L S, Counted s L S := by
  have hlayout {s : State} (h : system.ReachableVia DestroysEmpty s) := layout h
  refine h.invariant₂ (J := fun s => ∃ place, Layout s place)
    (I := fun s => Emptied s ∧ ∃ L S, Counted s L S) layout ?_ ?_
  · rintro _ ⟨next, rfl⟩
    exact ⟨fun i p hp => (by cases hp), ∅, ∅, by simp [start], by simp [start], by simp [start]⟩
  · rintro s ⟨i, a⟩ t ⟨place, hs⟩ - ⟨hempty, L, S, hL, hS, htotal⟩ hok hst
    refine ⟨emptied_step hs hempty hok hst, ?_⟩
    simp only [system, step] at hst
    split at hst
    · rename_i hp
      split at hst
      · obtain rfl := Option.some.inj hst
        refine ⟨L, insert i S, hL, fun j hj => ?_, ?_⟩
        · by_cases hji : j = i
          · simp [hji]
          · exact Finset.mem_insert_of_mem (hS j (by simpa [hji] using hj))
        · have hsum := sum_update (insert i S) owed s.pools (some new) (Finset.mem_insert_self i S)
          have hsame : ∑ j ∈ insert i S, owed (s.pools j) = ∑ j ∈ S, owed (s.pools j) :=
            Finset.sum_insert_of_eq_zero_if_notMem fun _ => by rw [hp]; rfl
          have h₁ : owed none = 0 := rfl
          have h₂ : owed (some new) = 0 := rfl
          rw [hp, h₁, h₂, hsame] at hsum
          dsimp only
          omega
      · cases hst
    · rename_i p hp
      obtain ⟨⟨g', r⟩, he, rfl⟩ := Option.map_eq_some_iff.1 hst
      have hi : i ∈ S := hS i (by simp [hp])
      have hsum := sum_update S owed s.pools r hi
      have hS' : ∀ j, Function.update s.pools i r j ≠ none → j ∈ S := fun j hj => by
        by_cases hji : j = i
        · rwa [hji]
        · exact hS j (by simpa [hji] using hj)
      rw [hp] at hsum
      rcases exec_total he (fun c hc => chunck_ne_zero hs hc) (hempty i p hp) with
        ⟨hlive, hcnt⟩ | ⟨x, hx, hlive, hcnt, howed⟩
      · exact ⟨L, S, fun x => by rw [hL, hlive], hS', by dsimp only; omega⟩
      · have hfresh : x ∉ L := fun hmem => by simp [(hL x).1 hmem] at hx
        refine ⟨insert x L, S, fun y => ?_, hS', ?_⟩
        · rw [Finset.mem_insert, hL, hlive]
          by_cases hy : y = x
          · simp [hy]
          · simp [hy]
        · dsimp only
          rw [Finset.card_insert_of_notMem hfresh]
          omega

/-! ## Between the calls -/

/-- No call is in progress. -/
def Quiet (s : State) : Prop := ∀ i p, s.pools i = some p → p.frame = .idle

/-- The nodes cached in the pools of live threads. -/
def cached (s : State) : Set ℕ := { x | ∃ i, At s x (.list i) }

/-- The chunks on the stack have 100 nodes each. -/
theorem card_chuncks (hs : Layout s place) {C : Finset ℕ}
    (hC : ∀ x, x ∈ C ↔ ∃ c, place x = .chunck c) :
    C.card = kChunkDefault * s.shared.chunckStack.length := by
  set T := s.shared.chunckStack.toFinset.image Place.chunck with hT
  have hmaps : ∀ x ∈ C, place x ∈ T := fun x hx => by
    obtain ⟨c, hc⟩ := (hC x).1 hx
    rw [hT, hc]
    exact Finset.mem_image_of_mem _ (List.mem_toFinset.2 (hs.stacked x c hc))
  have hfiber : ∀ q ∈ T, (C.filter fun x => place x = q).card = kChunkDefault := fun q hq => by
    obtain ⟨c, hc, rfl⟩ := Finset.mem_image.1 hq
    obtain ⟨l, hl, hlinks, hlen⟩ := hs.chunck c (List.mem_toFinset.1 hc)
    have hfilter : (C.filter fun x => place x = .chunck c) = l.toFinset := by
      ext x
      rw [Finset.mem_filter, hC, List.mem_toFinset, hl x]
      exact ⟨fun h => h.2, fun h => ⟨⟨c, h⟩, h⟩⟩
    rw [hfilter, List.toFinset_card_of_nodup hlinks.nodup, hlen]
  rw [Finset.card_eq_sum_card_fiberwise hmaps, Finset.sum_const_nat hfiber, hT,
    Finset.card_image_of_injective _ fun _ _ => Place.chunck.inj,
    List.toFinset_card_of_nodup hs.nodup, mul_comm]

/-- Between the calls a node is with a caller, in a pool or in a chunk. -/
theorem place_of_quiet (hs : Layout s place) (hquiet : Quiet s) (x : ℕ) (hx : place x ≠ .nowhere) :
    place x = .held ∨ (∃ i, place x = .list i) ∨ ∃ c, place x = .chunck c := by
  cases hp : place x with
  | nowhere => exact absurd hp hx
  | held => exact .inl rfl
  | list i => exact .inr (.inl ⟨i, rfl⟩)
  | chunck c => exact .inr (.inr ⟨c, rfl⟩)
  | call i =>
    cases hpool : s.pools i with
    | none => exact absurd hp (hs.gone i hpool x).2
    | some p =>
      obtain ⟨l, h, -, hh, -, hok⟩ := hs.pooled i p hpool
      rw [hquiet i p hpool] at hok
      obtain ⟨rfl, -⟩ := hok
      exact absurd ((hh x).2 hp) List.not_mem_nil

/-- **The counters are right between the calls**, in every run that destroys pools only when they
have no nodes cached: `TotalSize` is the number of nodes that exist, `FreeSize` that of the nodes in
the chunks on `ChunckStack`, and `UseSize` that of the nodes that callers hold and of those cached
in the pools. -/
theorem counters (h : system.ReachableVia DestroysEmpty s) (hquiet : Quiet s) :
    s.shared.totalSize = s.shared.useSize + s.shared.freeSize ∧
      s.shared.freeSize = 100 * s.shared.chunckStack.length ∧
      { x | s.shared.held x = true }.Finite ∧ (cached s).Finite ∧
      s.shared.useSize = { x | s.shared.held x = true }.ncard + (cached s).ncard ∧
      { x | s.shared.live x = true }.Finite ∧
      s.shared.totalSize = { x | s.shared.live x = true }.ncard := by
  obtain ⟨place, hs⟩ := layout h
  obtain ⟨hsum, hfree⟩ := sizes h
  obtain ⟨-, L, S, hL, -, htotal⟩ := counted h
  have howed : ∑ i ∈ S, owed (s.pools i) = 0 := Finset.sum_eq_zero fun i _ => by
    cases hp : s.pools i with
    | none => rfl
    | some p =>
      obtain ⟨head, cnt, f⟩ := p
      obtain rfl : f = .idle := hquiet i _ hp
      rfl
  classical
  set H := L.filter fun x => place x = .held with hH
  set K := L.filter fun x => ∃ i, place x = .list i with hK
  set C := L.filter fun x => ∃ c, place x = .chunck c with hC
  have hmem (x : ℕ) : x ∈ L ↔ place x ≠ .nowhere := (hL x).trans (hs.live x)
  have hlive : { x | s.shared.live x = true } = L := by
    ext x
    exact (hL x).symm
  have hheld : { x | s.shared.held x = true } = H := by
    ext x
    rw [Set.mem_ofPred_eq, hs.held, hH, Finset.mem_coe, Finset.mem_filter, hmem]
    exact ⟨fun h => ⟨by simp [h], h⟩, fun h => h.2⟩
  have hcached : cached s = K := by
    ext x
    simp only [cached, Set.mem_ofPred_eq, at_iff hs, hK, Finset.coe_filter, hmem]
    exact ⟨fun ⟨i, h, _⟩ => ⟨by simp [h], i, h⟩, fun ⟨_, i, h⟩ => ⟨i, h, by simp⟩⟩
  have hchunck : C.card = kChunkDefault * s.shared.chunckStack.length := by
    refine card_chuncks hs fun x => ?_
    rw [hC, Finset.mem_filter, hmem]
    exact ⟨fun h => h.2, fun ⟨c, h⟩ => ⟨by simp [h], c, h⟩⟩
  have hunion : L.card = H.card + K.card + C.card := by
    have hsplit : L = H ∪ K ∪ C := by
      ext x
      simp only [hH, hK, hC, Finset.mem_union, Finset.mem_filter, hmem]
      have := place_of_quiet hs hquiet x
      tauto
    have hHK : Disjoint H K := Finset.disjoint_left.2 fun x h₁ h₂ => by
      obtain ⟨i, hi⟩ := (Finset.mem_filter.1 h₂).2
      cases (Finset.mem_filter.1 h₁).2.symm.trans hi
    have hHKC : Disjoint (H ∪ K) C := Finset.disjoint_left.2 fun x h₁ h₂ => by
      obtain ⟨c, hc⟩ := (Finset.mem_filter.1 h₂).2
      rcases Finset.mem_union.1 h₁ with h₁ | h₁
      · cases (Finset.mem_filter.1 h₁).2.symm.trans hc
      · obtain ⟨i, hi⟩ := (Finset.mem_filter.1 h₁).2
        cases hi.symm.trans hc
    rw [hsplit, Finset.card_union_of_disjoint hHKC, Finset.card_union_of_disjoint hHK]
  rw [hlive, hheld, hcached, Set.ncard_coe_finset, Set.ncard_coe_finset, Set.ncard_coe_finset]
  refine ⟨hsum, hfree, Finset.finite_toSet _, Finset.finite_toSet _, ?_, Finset.finite_toSet _, ?_⟩
  · omega
  · omega

/-! ## A thread that runs alone -/

/-- Thread 0 takes the step, and `new` returns an address up to 100. -/
def alone (l : ℕ × Act) : Bool :=
  l.1 == 0 && match l.2 with
    | .new node => decide (node ≤ 100)
    | _ => true

/-- Only thread 0 has a pool, and all nodes are at addresses up to 100. -/
theorem small_of_alone (h : system.ReachableVia (fun _ l => alone l = true) s) :
    (∀ i, i ≠ 0 → s.pools i = none) ∧ ∀ x, s.shared.live x = true → x ≤ 100 := by
  refine h.invariant (I := fun s : State => (∀ i, i ≠ 0 → s.pools i = none) ∧
    ∀ x, s.shared.live x = true → x ≤ 100) ?_ ?_
  · rintro _ ⟨next, rfl⟩
    exact ⟨fun _ _ => rfl, fun x hx => by cases hx⟩
  · rintro s ⟨i, a⟩ t ⟨hpools, hlive⟩ hok hst
    simp only [alone, Bool.and_eq_true, beq_iff_eq] at hok
    obtain ⟨rfl, hnew⟩ := hok
    have hrest : ∀ r j, j ≠ 0 → Function.update s.pools 0 r j = none := fun r j hj => by
      rw [Function.update_of_ne hj, hpools j hj]
    simp only [system, step] at hst
    split at hst
    · split at hst
      · obtain rfl := Option.some.inj hst
        exact ⟨hrest _, hlive⟩
      · cases hst
    · rename_i p hp
      obtain ⟨⟨g', r⟩, he, rfl⟩ := Option.map_eq_some_iff.1 hst
      refine ⟨hrest _, fun x hx => ?_⟩
      revert he
      fun_cases exec s.shared p p.frame a <;> intro he <;> cases he <;>
        first
        | exact hlive x hx
        | skip
      · rename_i node _
        by_cases hxn : x = node
        · rw [hxn]
          exact of_decide_eq_true hnew
        · exact hlive x (by simpa [hxn] using hx)
      · by_cases hxn : x = p.head
        · simp [hxn] at hx
        · exact hlive x (by simpa [hxn] using hx)

theorem quiet_of_alone (h : system.ReachableVia (fun _ l => alone l = true) s)
    (h₀ : (s.pools 0).all (fun p => p.frame = .idle) = true) : Quiet s := by
  intro i p hp
  by_cases hi : i = 0
  · subst hi
    rw [hp] at h₀
    exact of_decide_eq_true h₀
  · rw [(small_of_alone h).1 i hi] at hp
    cases hp

/-- A thread makes its pool and allocates the first node of a new chunk. -/
def firstAlloc : List (ℕ × Act) :=
  [(0, .construct), (0, .alloc), (0, .next), (0, .next), (0, .next)] ++
    (List.range 100).map (fun k => (0, .new (k + 1))) ++ List.replicate 3 (0, .next)

theorem counters_firstAlloc :
    ∃ s, system.ReachableVia DestroysEmpty s ∧ s.shared.totalSize = 100 ∧
      s.shared.useSize = { x | s.shared.held x = true }.ncard + (cached s).ncard := by
  have hc : ∀ (s : State) l, (alone l && l.2 != .destroy) = true →
      DestroysEmpty s l ∧ alone l = true := fun s l hl => by
    rw [Bool.and_eq_true] at hl
    refine ⟨fun p _ _ hd => ?_, hl.1⟩
    simp [hd] at hl
  obtain ⟨s, hs, hp⟩ := Lts.exists_reachableVia_of_run (M := system) (s := start fun _ => 0) hc
    ⟨_, rfl⟩ firstAlloc
    (p := fun s => (s.pools 0).all (fun p => p.frame = .idle) && s.shared.totalSize == 100)
    (by decide +kernel)
  rw [Bool.and_eq_true] at hp
  have halone : system.ReachableVia (fun _ l => alone l = true) s := hs.mono fun _ _ h => h.2
  have hruns : system.ReachableVia DestroysEmpty s := hs.mono fun _ _ h => h.1
  obtain ⟨-, -, -, -, huse, -⟩ := counters hruns (quiet_of_alone halone hp.1)
  exact ⟨s, hruns, by simpa using hp.2, huse⟩

/-- **The destructor forgets to lower the counters**: 99 cached nodes are deleted, and `UseSize` is
still 100 with one node left. -/
theorem exists_drift :
    ¬∀ s, system.Reachable s → Quiet s →
      s.shared.useSize = { x | s.shared.held x = true }.ncard + (cached s).ncard := by
  intro hall
  have hc : ∀ (_ : State) l, alone l = true → alone l = true := fun _ _ hl => hl
  obtain ⟨s, hs, hp⟩ := Lts.exists_reachableVia_of_run (M := system) (s := start fun _ => 0) hc
    ⟨_, rfl⟩ (firstAlloc ++ (0, .destroy) :: List.replicate 100 (0, .next))
    (p := fun s => (s.pools 0).isNone && s.shared.useSize == 100 &&
      (List.range 100).all fun x => !s.shared.held x)
    (by decide +kernel)
  simp only [Bool.and_eq_true, Option.isNone_iff_eq_none, beq_iff_eq, List.all_eq_true,
    List.mem_range, Bool.not_eq_true'] at hp
  obtain ⟨⟨hpool, huse⟩, hheld⟩ := hp
  obtain ⟨hpools, hlive⟩ := small_of_alone hs
  obtain ⟨place, hlay⟩ := layout hs
  have hnone : ∀ i, s.pools i = none := fun i => by
    by_cases hi : i = 0
    · rwa [hi]
    · exact hpools i hi
  have hquiet : Quiet s := fun i p hp => by
    rw [hnone i] at hp
    cases hp
  have hcached : cached s = ∅ := by
    ext x
    simp only [cached, At, Set.mem_ofPred_eq, Set.mem_empty_iff_false, iff_false]
    rintro ⟨i, p, hp, -⟩
    rw [hnone i] at hp
    cases hp
  have hone : { x | s.shared.held x = true }.ncard ≤ 1 := by
    refine (Set.ncard_le_ncard (t := {100}) fun x hx => ?_).trans (Set.ncard_singleton 100).le
    have hx : s.shared.held x = true := hx
    have hle : x ≤ 100 := hlive x ((hlay.live x).2 (by rw [(hlay.held x).1 hx]; simp))
    by_contra hne
    have hlt : x < 100 := lt_of_le_of_ne hle hne
    simp [hheld x hlt] at hx
  have := hall s hs.reachable hquiet
  rw [huse, hcached, Set.ncard_empty] at this
  omega

end NetworkLibrary.TLSNodeMemoryPool
