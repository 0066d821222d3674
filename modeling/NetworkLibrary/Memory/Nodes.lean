import NetworkLibrary.Memory.Layout

/-!
# Every node is in one place

`Layout` is kept by every statement (`Layout.exec`) and so holds in every reachable state. What it
says of the regions is then read off the pointers: `At` names the places where a node can be found,
and every node that exists is found in exactly one (`nodes_accounted`).
-/

namespace NetworkLibrary.TLSNodeMemoryPool

open Foundations

variable {s : State} {place : ℕ → Place} {i : ℕ} {p : TLSNodeMemoryPool} {g' : ChunkMemory}
  {r : Option TLSNodeMemoryPool} {a : Act}

/-- The end of the destructor. -/
theorem Layout.gone_of_destroy (hs : Layout s place) (hp : s.pools i = some p)
    (hf : p.frame = .destroy) (hhead : p.head = 0) :
    Layout ⟨s.shared, Function.update s.pools i none⟩ place := by
  obtain ⟨l, h, hl, hh, hlinks, hok⟩ := hs.pooled i p hp
  rw [hf] at hok
  obtain rfl := hok
  rw [hhead] at hlinks
  obtain rfl := hlinks.eq_nil
  have hgone : ∀ a, place a ≠ .list i ∧ place a ≠ .call i := fun a =>
    ⟨fun ha => absurd ((hl a).2 ha) List.not_mem_nil,
      fun ha => absurd ((hh a).2 ha) List.not_mem_nil⟩
  have := hs.update (M := []) (r := none) hp (by simp) (near_list i) (near_list i)
    (by simp) (fun _ _ _ => rfl) (by rw [relocate_nil]; exact hs.live)
    (by rw [relocate_nil]; exact hs.held) hs.nodup (by rw [relocate_nil]; exact hs.chunck)
    (by rw [relocate_nil]; exact hs.stacked) (by simp) (by rw [relocate_nil]; exact fun _ => hgone)
    hs.crashed
  rwa [relocate_nil] at this

/-- **Every statement keeps the regions in order.** -/
theorem Layout.exec (hs : Layout s place) (hp : s.pools i = some p)
    (he : exec s.shared p p.frame a = some (g', r)) :
    ∃ place', Layout ⟨g', Function.update s.pools i r⟩ place' := by
  generalize hf : p.frame = f at he
  obtain ⟨l, h, hl, hh, hlinks, hok⟩ := hs.pooled i p hp
  rw [hf] at hok
  -- most statements move no node: what is left is about the frame after it
  have hstay : ∀ {g' : ChunkMemory} {p' : TLSNodeMemoryPool}, g'.next = s.shared.next →
      g'.live = s.shared.live → g'.held = s.shared.held →
      g'.chunckStack = s.shared.chunckStack → g'.crashed = s.shared.crashed →
      Links 0 s.shared.next p'.head l → PoolFrame.Ok s.shared.next p' l h p'.frame →
      ∃ place', Layout ⟨g', Function.update s.pools i (some p')⟩ place' := by
    intro g' p' hnext hlive hheld hstack hcrash hlinks' hok'
    exact ⟨place, hs.stay hp (fun _ _ _ => by rw [hnext]) hlive hheld hstack hcrash
      ⟨l, h, hl, hh, by rwa [hnext], by rwa [hnext]⟩⟩
  revert he
  fun_cases TLSNodeMemoryPool.exec s.shared p f a <;> intro he <;> cases he
  · exact hstay rfl rfl rfl rfl rfl hlinks hok
  · exact ⟨_, hs.free hp hf ‹_›⟩
  · exact hstay rfl rfl rfl rfl rfl hlinks hok.1
  -- Alloc
  · obtain ⟨rfl, hcnt, hlen⟩ := hok
    have hl0 : l.length = 0 := by omega
    exact hstay rfl rfl rfl rfl rfl hlinks ⟨rfl, ‹_›, List.length_eq_zero_iff.1 hl0⟩
  · obtain ⟨rfl, hcnt, hlen⟩ := hok
    refine hstay rfl rfl rfl rfl rfl hlinks ⟨rfl, hcnt, ?_, hlen.le⟩
    omega
  · obtain ⟨rfl, hcnt, rfl⟩ := hok
    exact hstay rfl rfl rfl rfl rfl rfl ⟨rfl, hcnt, .inl rfl⟩
  · exact hs.popChunck hp hf ‹_› rfl rfl rfl rfl rfl
  · obtain ⟨rfl, hcnt, -⟩ := hok
    have hhead : p.head = 0 := ‹_›
    have hlinks' := hlinks
    rw [hhead] at hlinks'
    obtain rfl := hlinks'.eq_nil
    exact hstay rfl rfl rfl rfl rfl hlinks ⟨hcnt, rfl, hhead, rfl⟩
  · obtain ⟨rfl, hcnt, hlen⟩ := hok
    have hhead : ¬p.head = 0 := ‹_›
    refine hstay rfl rfl rfl rfl rfl hlinks ⟨rfl, hcnt, hlen.resolve_left ?_⟩
    rintro rfl
    exact hhead hlinks
  · rename_i hnew
    exact ⟨_, hs.newNode hp hf hnew.1 hnew.2⟩
  · obtain ⟨hcnt, rfl, hlist, hlen⟩ := hok
    have hfill := (hl : Fills place (.list i) []).relocate_to (M := h)
    rw [List.append_nil] at hfill
    refine ⟨_, hs.move hp (fun a ha => (hh a).1 ha) (.inr rfl) (.inl rfl) (fun _ _ _ => rfl) rfl rfl
      rfl rfl ⟨h, [], hfill, ?_, hlist, rfl, hcnt, hlen⟩⟩
    exact Fills.relocate_from (M := h) (by simpa using hh) (by simpa using hlist.nodup) (by simp)
  · obtain ⟨rfl, hcnt, hlen⟩ := hok
    refine hstay rfl rfl rfl rfl rfl hlinks ⟨rfl, ?_, ?_, hlen.le⟩
    · dsimp only
      rw [hcnt, hlen, zero_add]
    · rw [hlen]
      decide
  · exact absurd ‹_› (hs.take hp hf).1
  · exact ⟨_, (hs.take hp hf).2⟩
  -- Free
  · exact ⟨_, hs.link hp hf⟩
  · exact ⟨_, hs.push hp hf (by rw [if_pos ‹_›])⟩
  · exact ⟨_, hs.push hp hf (by rw [if_neg ‹_›])⟩
  · exact absurd ‹_› (hs.cut hp hf).1
  · exact ⟨_, (hs.cut hp hf).2⟩
  · obtain ⟨hcnt, hlen, hlen', hcut⟩ := hok
    obtain rfl := List.length_eq_zero_iff.1 hlen
    rw [List.append_nil] at hcut
    refine hstay rfl rfl rfl rfl rfl hlinks ⟨?_, rfl, hlen', hcut⟩
    dsimp only
    rw [hcnt, sub_self]
  · exact hs.pushChunck hp hf rfl rfl rfl rfl rfl
  -- ~TLSNodeMemoryPool
  · exact ⟨_, hs.gone_of_destroy hp hf ‹_›⟩
  · exact ⟨_, hs.delete hp hf ‹_›⟩

/-- A thread makes its pool. -/
theorem Layout.construct (hs : Layout s place) (hp : s.pools i = none) :
    Layout { s with pools := Function.update s.pools i (some new) } place := by
  refine ⟨hs.null, hs.live, hs.held, hs.nodup, hs.chunck, hs.stacked, fun j p hj => ?_,
    fun j hj => ?_, hs.crashed⟩
  · by_cases hji : j = i
    · subst hji
      obtain rfl : new = p := by simpa using hj
      have hgone := hs.gone j hp
      refine ⟨[], [], fun a => ?_, fun a => ?_, rfl, rfl, rfl, by decide⟩
      · simpa using (hgone a).1
      · simpa using (hgone a).2
    · exact hs.pooled j p (by simpa [hji] using hj)
  · by_cases hji : j = i
    · simp [hji] at hj
    · exact hs.gone j (by simpa [hji] using hj)

/-- **The regions are in order in every reachable state.** -/
theorem layout {ok : State → ℕ × Act → Prop} (h : system.ReachableVia ok s) :
    ∃ place, Layout s place := by
  refine h.invariant (I := fun s => ∃ place, Layout s place) ?_ ?_
  · rintro _ ⟨next, rfl⟩
    refine ⟨fun _ => .nowhere, rfl, ?_, ?_, List.nodup_nil, ?_, ?_, ?_, ?_, rfl⟩ <;> simp [start]
  · rintro s ⟨i, a⟩ t ⟨place, hs⟩ - hst
    simp only [system, step] at hst
    split at hst
    · rename_i hp
      split at hst
      · obtain rfl := Option.some.inj hst
        exact ⟨place, hs.construct hp⟩
      · cases hst
    · rename_i p hp
      obtain ⟨⟨g', r⟩, he, rfl⟩ := Option.map_eq_some_iff.1 hst
      exact hs.exec hp he

/-! ## Where a node is found -/

/-- The node `x` is on the null-terminated list that starts at `a`. -/
def Linked (next : ℕ → ℕ) (a x : ℕ) : Prop := ∃ l, Links 0 next a l ∧ x ∈ l

/-- The node is in the hands of the call: on the list that `NewNodeList` is building, the node that
`Free` has got, or one of those it has cut off the list. -/
def InHand (next : ℕ → ℕ) (p : TLSNodeMemoryPool) (x : ℕ) : PoolFrame → Prop
  | .newNodeList _ head => Linked next head x
  | .link node | .push node => x = node
  | .cut _ node => Linked next node x ∧ ¬Linked next p.head x
  | .freeChunck node => Linked next node x
  | _ => False

/-- Where a node is found, following the pointers. -/
def At (s : State) (x : ℕ) : Place → Prop
  | .nowhere => False
  | .held => s.shared.held x = true
  | .list i => ∃ p, s.pools i = some p ∧ Linked s.shared.next p.head x
  | .chunck c => c ∈ s.shared.chunckStack ∧ Linked s.shared.next c x
  | .call i => ∃ p, s.pools i = some p ∧ InHand s.shared.next p x p.frame

variable {next : ℕ → ℕ} {l h : List ℕ} {x b : ℕ} {q : Place}

theorem linked_iff (hl : Links 0 next b l) : Linked next b x ↔ x ∈ l := by
  constructor
  · rintro ⟨l', hl', hx⟩
    rwa [hl.unique hl']
  · exact fun hx => ⟨l, hl, hx⟩

theorem inHand_iff {f : PoolFrame} (hl : Links 0 next p.head l) (hok : PoolFrame.Ok next p l h f) :
    InHand next p x f ↔ x ∈ h := by
  cases f with
  | newNodeList n head =>
    obtain ⟨-, -, hlinks, -⟩ := hok
    exact linked_iff hlinks
  | link node =>
    obtain ⟨rfl, -, -⟩ := hok
    exact List.mem_singleton.symm
  | push node =>
    obtain ⟨rfl, -, -, -⟩ := hok
    exact List.mem_singleton.symm
  | cut n node =>
    obtain ⟨-, -, -, hcut⟩ := hok
    have hd := List.disjoint_of_nodup_append hcut.nodup
    rw [InHand, linked_iff hcut, linked_iff hl, List.mem_append]
    exact ⟨fun ⟨hx, hn⟩ => hx.resolve_right hn, fun hx => ⟨.inl hx, hd hx⟩⟩
  | freeChunck node =>
    obtain ⟨-, -, -, hlinks⟩ := hok
    exact linked_iff hlinks
  | _ =>
    obtain rfl : h = [] := by first | exact hok | exact hok.1
    simp [InHand]

/-- A node is found where its region is. -/
theorem at_iff (hs : Layout s place) : At s x q ↔ place x = q ∧ q ≠ .nowhere := by
  cases q with
  | nowhere => simp [At]
  | held => simp [At, hs.held]
  | list i =>
    constructor
    · rintro ⟨p, hp, hx⟩
      obtain ⟨l, h, hl, -, hlinks, -⟩ := hs.pooled i p hp
      exact ⟨(hl x).1 ((linked_iff hlinks).1 hx), by simp⟩
    · rintro ⟨hx, -⟩
      cases hp : s.pools i with
      | none => exact absurd hx (hs.gone i hp x).1
      | some p =>
        obtain ⟨l, h, hl, -, hlinks, -⟩ := hs.pooled i p hp
        exact ⟨p, hp, (linked_iff hlinks).2 ((hl x).2 hx)⟩
  | chunck c =>
    constructor
    · rintro ⟨hc, hx⟩
      obtain ⟨l, hl, hlinks, -⟩ := hs.chunck c hc
      exact ⟨(hl x).1 ((linked_iff hlinks).1 hx), by simp⟩
    · rintro ⟨hx, -⟩
      have hc := hs.stacked x c hx
      obtain ⟨l, hl, hlinks, -⟩ := hs.chunck c hc
      exact ⟨hc, (linked_iff hlinks).2 ((hl x).2 hx)⟩
  | call i =>
    constructor
    · rintro ⟨p, hp, hx⟩
      obtain ⟨l, h, -, hh, hlinks, hok⟩ := hs.pooled i p hp
      exact ⟨(hh x).1 ((inHand_iff hlinks hok).1 hx), by simp⟩
    · rintro ⟨hx, -⟩
      cases hp : s.pools i with
      | none => exact absurd hx (hs.gone i hp x).2
      | some p =>
        obtain ⟨l, h, -, hh, hlinks, hok⟩ := hs.pooled i p hp
        exact ⟨p, hp, (inHand_iff hlinks hok).2 ((hh x).2 hx)⟩

/-- **Every node is in exactly one place.** In every reachable state a node that exists is found in
one place only, and nothing else is found; the list of a pool between two calls is null-terminated
with `FreeNodeCnt` nodes, fewer than 100; every chunk on `ChunckStack` is there once and is a
null-terminated list of 100 nodes; and no call has dereferenced a null pointer. -/
theorem nodes_accounted (h : system.Reachable s) :
    (∀ x, s.shared.live x = true → ∃! q, At s x q) ∧
      (∀ x q, At s x q → s.shared.live x = true) ∧
      (∀ i p, s.pools i = some p → p.frame = .idle →
        ∃ l, Links 0 s.shared.next p.head l ∧ p.freeNodeCnt = l.length ∧ l.length < 100) ∧
      s.shared.chunckStack.Nodup ∧
      (∀ c ∈ s.shared.chunckStack, ∃ l, Links 0 s.shared.next c l ∧ l.length = 100) ∧
      s.shared.crashed = false := by
  obtain ⟨place, hs⟩ := layout h
  refine ⟨fun x hx => ⟨place x, (at_iff hs).2 ⟨rfl, (hs.live x).1 hx⟩, fun q hq => ?_⟩,
    fun x q hq => ?_, fun i p hp hf => ?_, hs.nodup, fun c hc => ?_, hs.crashed⟩
  · exact ((at_iff hs).1 hq).1.symm
  · obtain ⟨rfl, hne⟩ := (at_iff hs).1 hq
    exact (hs.live x).2 hne
  · obtain ⟨l, h, -, -, hlinks, hok⟩ := hs.pooled i p hp
    rw [hf] at hok
    exact ⟨l, hlinks, hok.2⟩
  · obtain ⟨l, -, hlinks, hlen⟩ := hs.chunck c hc
    exact ⟨l, hlinks, hlen⟩

/-- A thread makes its pool and allocates the first node of a new chunk. -/
theorem nodes_accounted_alloc :
    ∃ s, system.Reachable s ∧ s.pools 0 = some ⟨99, 99, .idle⟩ ∧ (∃! q, At s 100 q) ∧
      ∃ l, Links 0 s.shared.next 99 l ∧ l.length = 99 := by
  obtain ⟨s, hs, hp⟩ := Lts.exists_reachable_of_run (M := system) (s := start fun _ => 0) ⟨_, rfl⟩
    ([(0, .construct), (0, .alloc), (0, .next), (0, .next), (0, .next)] ++
      (List.range 100).map (fun k => (0, .new (k + 1))) ++ List.replicate 3 (0, .next))
    (p := fun s => s.pools 0 = some ⟨99, 99, .idle⟩ ∧ s.shared.live 100 = true)
    (by decide +kernel)
  obtain ⟨hpool, hlive⟩ := of_decide_eq_true hp
  obtain ⟨hone, -, hlist, -⟩ := nodes_accounted hs
  obtain ⟨l, hlinks, hcnt, -⟩ := hlist 0 _ hpool rfl
  have hlen : (99 : ℤ) = l.length := hcnt
  exact ⟨s, hs, hpool, hone 100 hlive, l, hlinks, by omega⟩

/-! ## The counters of the chunks -/

theorem exec_sizes {f : PoolFrame} (he : TLSNodeMemoryPool.exec s.shared p f a = some (g', r))
    (htotal : s.shared.totalSize = s.shared.useSize + s.shared.freeSize)
    (hfree : s.shared.freeSize = kChunkDefault * s.shared.chunckStack.length) :
    g'.totalSize = g'.useSize + g'.freeSize ∧
      g'.freeSize = kChunkDefault * g'.chunckStack.length := by
  revert he
  fun_cases TLSNodeMemoryPool.exec s.shared p f a <;> intro he <;> cases he <;>
    simp_all [mul_add, kChunkDefault]
  all_goals omega

/-- `FreeSize` counts the nodes of the chunks on `ChunckStack`, `UseSize` all others. -/
theorem sizes {ok : State → ℕ × Act → Prop} (h : system.ReachableVia ok s) :
    s.shared.totalSize = s.shared.useSize + s.shared.freeSize ∧
      s.shared.freeSize = kChunkDefault * s.shared.chunckStack.length := by
  refine h.invariant (I := fun s : State => s.shared.totalSize = s.shared.useSize + s.shared.freeSize ∧
    s.shared.freeSize = kChunkDefault * s.shared.chunckStack.length) ?_ ?_
  · rintro _ ⟨next, rfl⟩
    simp [start]
  · rintro s ⟨i, a⟩ t ⟨htotal, hfree⟩ - hst
    simp only [system, step] at hst
    split at hst
    · split at hst
      · obtain rfl := Option.some.inj hst
        exact ⟨htotal, hfree⟩
      · cases hst
    · obtain ⟨⟨g', r⟩, he, rfl⟩ := Option.map_eq_some_iff.1 hst
      exact exec_sizes he htotal hfree

end NetworkLibrary.TLSNodeMemoryPool
