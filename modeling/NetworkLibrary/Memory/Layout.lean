import NetworkLibrary.Foundations.Links
import NetworkLibrary.Foundations.Regions
import NetworkLibrary.Memory.TLSNodeMemoryPool
import Mathlib.Tactic.Linarith

/-!
# Where the nodes are

Every node lies in one region: with a caller, on the list of one pool, in one chunk, or in the hands
of the call that runs on one pool. `Layout` says so for a state and that the lists are null-terminated
and as long as the counters say. A chunk carries no length; that it has 100 nodes rests on the
counter of the pool that cut it, whose list had exactly 100 nodes at that moment (`PoolFrame.Ok`).
-/

namespace NetworkLibrary.TLSNodeMemoryPool

open Foundations

/-- The regions. A chunk is named by its first node. -/
inductive Place
  | nowhere
  | held
  | list (i : ℕ)
  | chunck (c : ℕ)
  | call (i : ℕ)
  deriving DecidableEq

/-- What holds of the list `l` of a pool and of the nodes `h` in the hands of its call. -/
def PoolFrame.Ok (next : ℕ → ℕ) (p : TLSNodeMemoryPool) (l h : List ℕ) : PoolFrame → Prop
  | .idle | .alloc => h = [] ∧ p.freeNodeCnt = l.length ∧ l.length < kChunkDefault
  | .allocChunck => h = [] ∧ p.freeNodeCnt = 0 ∧ l = []
  | .checkHead => h = [] ∧ p.freeNodeCnt = 0 ∧ (l = [] ∨ l.length = kChunkDefault)
  | .newNodeList n head =>
    p.freeNodeCnt = 0 ∧ l = [] ∧ Links 0 next head h ∧ h.length + n = kChunkDefault
  | .addChunck => h = [] ∧ p.freeNodeCnt = 0 ∧ l.length = kChunkDefault
  | .take => h = [] ∧ p.freeNodeCnt = l.length ∧ 0 < l.length ∧ l.length ≤ kChunkDefault
  | .link node => h = [node] ∧ p.freeNodeCnt = l.length ∧ l.length < kChunkDefault
  | .push node =>
    h = [node] ∧ next node = p.head ∧ p.freeNodeCnt = l.length ∧ l.length < kChunkDefault
  | .cut n node =>
    p.freeNodeCnt = kChunkDefault ∧ l.length = n ∧ h.length + n = kChunkDefault ∧
      Links 0 next node (h ++ l)
  | .freeChunck node =>
    p.freeNodeCnt = 0 ∧ l = [] ∧ h.length = kChunkDefault ∧ Links 0 next node h
  | .destroy => h = []

/-- The nodes of a pool. -/
def Pooled (next : ℕ → ℕ) (place : ℕ → Place) (i : ℕ) (p : TLSNodeMemoryPool) : Prop :=
  ∃ l h, Fills place (.list i) l ∧ Fills place (.call i) h ∧ Links 0 next p.head l ∧
    PoolFrame.Ok next p l h p.frame

/-- The nodes of a chunk. -/
def Chunck (next : ℕ → ℕ) (place : ℕ → Place) (c : ℕ) : Prop :=
  ∃ l, Fills place (.chunck c) l ∧ Links 0 next c l ∧ l.length = kChunkDefault

/-- The regions of a state. -/
structure Layout (s : State) (place : ℕ → Place) : Prop where
  null : place 0 = .nowhere
  live : ∀ a, s.shared.live a = true ↔ place a ≠ .nowhere
  held : ∀ a, s.shared.held a = true ↔ place a = .held
  nodup : s.shared.chunckStack.Nodup
  chunck : ∀ c ∈ s.shared.chunckStack, Chunck s.shared.next place c
  stacked : ∀ a c, place a = .chunck c → c ∈ s.shared.chunckStack
  pooled : ∀ i p, s.pools i = some p → Pooled s.shared.next place i p
  gone : ∀ i, s.pools i = none → ∀ a, place a ≠ .list i ∧ place a ≠ .call i
  crashed : s.shared.crashed = false

variable {next next' : ℕ → ℕ} {place place' : ℕ → Place} {i c : ℕ} {p p' : TLSNodeMemoryPool}
  {l h M : List ℕ} {q q' : Place}

/-! ## What a part depends on -/

theorem PoolFrame.Ok.congr {f : PoolFrame} (hok : PoolFrame.Ok next p l h f)
    (hnext : ∀ a ∈ h ++ l, next' a = next a) : PoolFrame.Ok next' p l h f := by
  have hh : ∀ a ∈ h, next' a = next a := fun a ha => hnext a (by simp [ha])
  cases f with
  | newNodeList n head =>
    obtain ⟨hcnt, hl, hlinks, hlen⟩ := hok
    exact ⟨hcnt, hl, hlinks.congr hh, hlen⟩
  | push node =>
    obtain ⟨rfl, hnode, hcnt, hlen⟩ := hok
    exact ⟨rfl, (hh node (by simp)).trans hnode, hcnt, hlen⟩
  | cut n node =>
    obtain ⟨hcnt, hlen, hlen', hlinks⟩ := hok
    exact ⟨hcnt, hlen, hlen', hlinks.congr hnext⟩
  | freeChunck node =>
    obtain ⟨hcnt, hl, hlen, hlinks⟩ := hok
    exact ⟨hcnt, hl, hlen, hlinks.congr hh⟩
  | _ => exact hok

theorem Pooled.congr (hp : Pooled next place i p)
    (hlist : ∀ a, place' a = .list i ↔ place a = .list i)
    (hcall : ∀ a, place' a = .call i ↔ place a = .call i)
    (hnext : ∀ a, place a = .list i ∨ place a = .call i → next' a = next a) :
    Pooled next' place' i p := by
  obtain ⟨l, h, hl, hh, hlinks, hok⟩ := hp
  refine ⟨l, h, fun a => (hl a).trans (hlist a).symm, fun a => (hh a).trans (hcall a).symm,
    hlinks.congr fun a ha => hnext a (.inl ((hl a).1 ha)), hok.congr fun a ha => hnext a ?_⟩
  rcases List.mem_append.1 ha with ha | ha
  · exact .inr ((hh a).1 ha)
  · exact .inl ((hl a).1 ha)

theorem Chunck.congr (hc : Chunck next place c)
    (hplace : ∀ a, place' a = .chunck c ↔ place a = .chunck c)
    (hnext : ∀ a, place a = .chunck c → next' a = next a) : Chunck next' place' c := by
  obtain ⟨l, hl, hlinks, hlen⟩ := hc
  exact ⟨l, fun a => (hl a).trans (hplace a).symm, hlinks.congr fun a ha => hnext a ((hl a).1 ha),
    hlen⟩

/-! ## The step of one pool -/

/-- A region that is not the list of another pool or in the hands of its call. -/
def Near (i : ℕ) (q : Place) : Prop := ∀ j, j ≠ i → Place.list j ≠ q ∧ Place.call j ≠ q

variable {s : State} {g' : ChunkMemory} {r : Option TLSNodeMemoryPool}

/-- **A step of one pool**: nodes move from a region near the pool to another, and links are
written in nodes that the call of the pool has in hand or that did not live. What is left to show is
about the regions concerned. -/
theorem Layout.update (hs : Layout s place) (hp : s.pools i = some p)
    (hM : ∀ a ∈ M, place a = q) (hq : Near i q) (hq' : Near i q') (h0 : 0 ∉ M)
    (hnext : ∀ a, place a ≠ .call i → place a ≠ .nowhere → g'.next a = s.shared.next a)
    (hlive : ∀ a, g'.live a = true ↔ relocate place M q' a ≠ .nowhere)
    (hheld : ∀ a, g'.held a = true ↔ relocate place M q' a = .held)
    (hnodup : g'.chunckStack.Nodup)
    (hchunck : ∀ c ∈ g'.chunckStack, Chunck g'.next (relocate place M q') c)
    (hstacked : ∀ a c, relocate place M q' a = .chunck c → c ∈ g'.chunckStack)
    (hpool : ∀ p', r = some p' → Pooled g'.next (relocate place M q') i p')
    (hgone : r = none → ∀ a, relocate place M q' a ≠ .list i ∧ relocate place M q' a ≠ .call i)
    (hcrash : g'.crashed = false) :
    Layout ⟨g', Function.update s.pools i r⟩ (relocate place M q') where
  null := (relocate_of_notMem h0).trans hs.null
  live := hlive
  held := hheld
  nodup := hnodup
  chunck := hchunck
  stacked := hstacked
  pooled j p' hp' := by
    by_cases hj : j = i
    · subst hj
      exact hpool p' (by simpa using hp')
    · have hlist : ∀ a, relocate place M q' a = .list j ↔ place a = .list j := fun a =>
        relocate_eq_iff hM (hq j hj).1 (hq' j hj).1
      have hcall : ∀ a, relocate place M q' a = .call j ↔ place a = .call j := fun a =>
        relocate_eq_iff hM (hq j hj).2 (hq' j hj).2
      refine (hs.pooled j p' (by simpa [hj] using hp')).congr hlist hcall fun a ha => ?_
      rcases ha with ha | ha
      · exact hnext a (by simp [ha]) (by simp [ha])
      · exact hnext a (by simp [ha, hj]) (by simp [ha])
  gone j hj a := by
    by_cases hji : j = i
    · subst hji
      exact hgone (by simpa using hj) a
    · have := hs.gone j (by simpa [hji] using hj) a
      rwa [ne_eq, ne_eq, relocate_eq_iff hM (hq j hji).1 (hq' j hji).1,
        relocate_eq_iff hM (hq j hji).2 (hq' j hji).2]
  crashed := hcrash

theorem near_list (i : ℕ) : Near i (.list i) := fun j hj => ⟨by simpa using hj, by simp⟩

theorem near_call (i : ℕ) : Near i (.call i) := fun j hj => ⟨by simp, by simpa using hj⟩

/-- The regions of a pool itself. -/
def Own (i : ℕ) (q : Place) : Prop := q = .list i ∨ q = .call i

theorem Own.near (hq : Own i q) : Near i q := by
  rcases hq with rfl | rfl
  · exact near_list i
  · exact near_call i

/-- A step that leaves the stack of chunks as it is. -/
theorem Layout.shift (hs : Layout s place) (hp : s.pools i = some p)
    (hM : ∀ a ∈ M, place a = q) (hq : Near i q) (hq' : Near i q') (h0 : 0 ∉ M)
    (hqc : ∀ c, Place.chunck c ≠ q) (hqc' : ∀ c, Place.chunck c ≠ q')
    (hnext : ∀ a, place a ≠ .call i → place a ≠ .nowhere → g'.next a = s.shared.next a)
    (hlive : ∀ a, g'.live a = true ↔ relocate place M q' a ≠ .nowhere)
    (hheld : ∀ a, g'.held a = true ↔ relocate place M q' a = .held)
    (hstack : g'.chunckStack = s.shared.chunckStack) (hcrash : g'.crashed = s.shared.crashed)
    (hpool : Pooled g'.next (relocate place M q') i p') :
    Layout ⟨g', Function.update s.pools i (some p')⟩ (relocate place M q') := by
  refine hs.update hp hM hq hq' h0 hnext hlive hheld (hstack ▸ hs.nodup) (fun c hc => ?_)
    (fun a c hac => ?_) (fun p'' hp'' => ?_) (by simp) (hcrash.trans hs.crashed)
  · rw [hstack] at hc
    exact (hs.chunck c hc).congr (fun _ => relocate_eq_iff hM (hqc c) (hqc' c)) fun a ha =>
      hnext a (by simp [ha]) (by simp [ha])
  · rw [relocate_eq_iff hM (hqc c) (hqc' c)] at hac
    rw [hstack]
    exact hs.stacked a c hac
  · obtain rfl := Option.some.inj hp''
    exact hpool

theorem Own.ne (hq : Own i q) {o : Place} (ho : ∀ j, o ≠ .list j ∧ o ≠ .call j) : o ≠ q := by
  rcases hq with rfl | rfl
  · exact (ho i).1
  · exact (ho i).2

/-- A step in which nodes move at most within the pool. -/
theorem Layout.move (hs : Layout s place) (hp : s.pools i = some p)
    (hM : ∀ a ∈ M, place a = q) (hq : Own i q) (hq' : Own i q')
    (hnext : ∀ a, place a ≠ .call i → place a ≠ .nowhere → g'.next a = s.shared.next a)
    (hlive : g'.live = s.shared.live) (hheld : g'.held = s.shared.held)
    (hstack : g'.chunckStack = s.shared.chunckStack) (hcrash : g'.crashed = s.shared.crashed)
    (hpool : Pooled g'.next (relocate place M q') i p') :
    Layout ⟨g', Function.update s.pools i (some p')⟩ (relocate place M q') := by
  refine hs.shift hp hM hq.near hq'.near (fun h0 => ?_) (fun c => hq.ne (by simp))
    (fun c => hq'.ne (by simp)) hnext (fun a => ?_) (fun a => ?_) hstack hcrash hpool
  · have := (hM 0 h0).symm.trans hs.null
    rcases hq with rfl | rfl <;> cases this
  · rw [hlive, hs.live, ne_eq, ne_eq, relocate_eq_iff hM (hq.ne (by simp)) (hq'.ne (by simp))]
  · rw [hheld, hs.held, relocate_eq_iff hM (hq.ne (by simp)) (hq'.ne (by simp))]

/-- A step in which no node moves. -/
theorem Layout.stay (hs : Layout s place) (hp : s.pools i = some p)
    (hnext : ∀ a, place a ≠ .call i → place a ≠ .nowhere → g'.next a = s.shared.next a)
    (hlive : g'.live = s.shared.live) (hheld : g'.held = s.shared.held)
    (hstack : g'.chunckStack = s.shared.chunckStack) (hcrash : g'.crashed = s.shared.crashed)
    (hpool : Pooled g'.next place i p') :
    Layout ⟨g', Function.update s.pools i (some p')⟩ place := by
  have := hs.move (M := []) hp (by simp) (.inl rfl) (.inl rfl) hnext hlive hheld hstack hcrash
    (by rwa [relocate_nil])
  rwa [relocate_nil] at this

/-! ## The statements -/

/-- `new` in the loop of `NewNodeList`. -/
theorem Layout.newNode {n head node : ℕ} (hs : Layout s place) (hp : s.pools i = some p)
    (hf : p.frame = .newNodeList (n + 1) head) (hne : node ≠ 0)
    (hlive : s.shared.live node = false) :
    Layout ⟨{ s.shared with live := Function.update s.shared.live node true
                            next := Function.update s.shared.next node head },
      Function.update s.pools i (some { p with frame := .newNodeList n node })⟩
      (relocate place [node] (.call i)) := by
  obtain ⟨l, h, hl, hh, hlinks, hok⟩ := hs.pooled i p hp
  rw [hf] at hok
  obtain ⟨hcnt, rfl, hlist, hlen⟩ := hok
  have hnode : place node = .nowhere := by
    by_contra hn
    have := (hs.live node).2 hn
    simp [hlive] at this
  have hM : ∀ a ∈ [node], place a = .nowhere := by simpa using hnode
  refine hs.shift hp hM (fun j _ => by simp) (near_call i) (by simpa using hne.symm) (by simp)
    (by simp) (fun a _ ha => Function.update_of_ne (by rintro rfl; exact ha hnode) _ _)
    (fun a => ?_) (fun a => ?_) rfl rfl ?_
  · by_cases ha : a = node
    · simp [ha, relocate]
    · simp [ha, relocate, hs.live]
  · rw [relocate_eq_iff hM (by simp) (by simp)]
    exact hs.held a
  · refine ⟨[], node :: h, hl.relocate hM (by simp) (by simp), hh.relocate_to, hlinks, hcnt, rfl,
      ⟨rfl, hne, ?_⟩, ?_⟩
    · change Links 0 _ (Function.update s.shared.next node head node) h
      rw [Function.update_self]
      refine hlist.congr fun a ha => Function.update_of_ne ?_ _ _
      rintro rfl
      rw [(hh a).1 ha] at hnode
      cases hnode
    · rw [List.length_cons]
      omega

/-- The first node of the list of a pool goes to the region `q'`. -/
theorem head_of_pos (hl : Fills place (.list i) l) (hlinks : Links 0 next p.head l)
    (hpos : 0 < l.length) (hq' : q' ≠ .list i) :
    p.head ≠ 0 ∧ place p.head = .list i ∧ ∃ l', l = p.head :: l' ∧
      Fills (relocate place [p.head] q') (.list i) l' ∧ Links 0 next (next p.head) l' := by
  obtain ⟨node, l', rfl⟩ := List.exists_cons_of_length_pos hpos
  have hnodup := hlinks.nodup
  obtain ⟨hhead, hne, hlinks⟩ := hlinks
  rw [hhead]
  exact ⟨hne, (hl node).1 (by simp), l', rfl,
    Fills.relocate_from (M := [node]) hl hnodup hq'.symm, hlinks⟩

/-- `Alloc` returns the first node of the list. -/
theorem Layout.take (hs : Layout s place) (hp : s.pools i = some p) (hf : p.frame = .take) :
    p.head ≠ 0 ∧
      Layout ⟨{ s.shared with held := Function.update s.shared.held p.head true },
        Function.update s.pools i (some ⟨s.shared.next p.head, p.freeNodeCnt - 1, .idle⟩)⟩
        (relocate place [p.head] .held) := by
  obtain ⟨l, h, hl, hh, hlinks, hok⟩ := hs.pooled i p hp
  rw [hf] at hok
  obtain ⟨rfl, hcnt, hpos, hle⟩ := hok
  obtain ⟨hne, hplace, l', rfl, hl', hlinks'⟩ :=
    head_of_pos hl hlinks hpos (show Place.held ≠ .list i by simp)
  have hM : ∀ a ∈ [p.head], place a = .list i := by simpa using hplace
  refine ⟨hne, hs.shift hp hM (near_list i) (fun j _ => by simp) (by simpa using hne.symm) (by simp)
    (by simp) (fun _ _ _ => rfl) (fun a => ?_) (fun a => ?_) rfl rfl ?_⟩
  · rw [ne_eq, relocate_eq_iff hM (by simp) (by simp)]
    exact hs.live a
  · by_cases ha : a = p.head
    · simp [ha, relocate]
    · simp [ha, relocate, hs.held]
  · rw [List.length_cons] at hle hcnt
    refine ⟨l', [], hl', hh.relocate hM (by simp) (by simp), hlinks', rfl, ?_, by omega⟩
    dsimp only
    omega

/-- A caller passes a node to `Free`. -/
theorem Layout.free {node : ℕ} (hs : Layout s place) (hp : s.pools i = some p)
    (hf : p.frame = .idle) (hheld : s.shared.held node = true) :
    Layout ⟨{ s.shared with held := Function.update s.shared.held node false },
      Function.update s.pools i (some { p with frame := .link node })⟩
      (relocate place [node] (.call i)) := by
  obtain ⟨l, h, hl, hh, hlinks, hok⟩ := hs.pooled i p hp
  rw [hf] at hok
  obtain ⟨rfl, hcnt, hlen⟩ := hok
  have hnode := (hs.held node).1 hheld
  have hM : ∀ a ∈ [node], place a = .held := by simpa using hnode
  have hne : node ≠ 0 := by
    rintro rfl
    rw [hs.null] at hnode
    cases hnode
  refine hs.shift hp hM (fun j _ => by simp) (near_call i) (by simpa using hne.symm) (by simp)
    (by simp) (fun _ _ _ => rfl) (fun a => ?_) (fun a => ?_) rfl rfl
    ⟨l, [node], hl.relocate hM (by simp) (by simp), hh.relocate_to, hlinks, rfl, hcnt, hlen⟩
  · rw [ne_eq, relocate_eq_iff hM (by simp) (by simp)]
    exact hs.live a
  · by_cases ha : a = node
    · simp [ha, relocate]
    · simp [ha, relocate, hs.held]

/-- The destructor deletes the first node of the list. -/
theorem Layout.delete (hs : Layout s place) (hp : s.pools i = some p) (hf : p.frame = .destroy)
    (hne : p.head ≠ 0) :
    Layout ⟨{ s.shared with live := Function.update s.shared.live p.head false },
      Function.update s.pools i (some { p with head := s.shared.next p.head })⟩
      (relocate place [p.head] .nowhere) := by
  obtain ⟨l, h, hl, hh, hlinks, hok⟩ := hs.pooled i p hp
  rw [hf] at hok
  obtain rfl := hok
  have hpos : 0 < l.length := by
    rcases l with _ | ⟨node, l⟩
    · exact absurd hlinks hne
    · simp
  obtain ⟨-, hplace, l', rfl, hl', hlinks'⟩ :=
    head_of_pos hl hlinks hpos (show Place.nowhere ≠ .list i by simp)
  have hM : ∀ a ∈ [p.head], place a = .list i := by simpa using hplace
  refine hs.shift hp hM (near_list i) (fun j _ => by simp) (by simpa using hne.symm) (by simp)
    (by simp) (fun _ _ _ => rfl) (fun a => ?_) (fun a => ?_) rfl rfl
    ⟨l', [], hl', hh.relocate hM (by simp) (by simp), hlinks', by rw [hf]; rfl⟩
  · by_cases ha : a = p.head
    · simp [ha, relocate]
    · simp [ha, relocate, hs.live]
  · rw [relocate_eq_iff hM (by simp) (by simp)]
    exact hs.held a

/-- `AllocChunck` gets a chunk from the stack: its nodes are on the list of the pool. -/
theorem Layout.popChunck {chunck : ℕ} {stack : List ℕ} (hs : Layout s place)
    (hp : s.pools i = some p) (hf : p.frame = .allocChunck)
    (hstack : s.shared.chunckStack = chunck :: stack) (hcrash : g'.crashed = s.shared.crashed)
    (hnext : g'.next = s.shared.next) (hlive : g'.live = s.shared.live)
    (hheld : g'.held = s.shared.held) (hstack' : g'.chunckStack = stack) :
    ∃ place', Layout
      ⟨g', Function.update s.pools i (some { p with head := chunck, frame := .checkHead })⟩ place' := by
  obtain ⟨l, h, hl, hh, -, hok⟩ := hs.pooled i p hp
  rw [hf] at hok
  obtain ⟨rfl, hcnt, rfl⟩ := hok
  have hnodup := hs.nodup
  rw [hstack, List.nodup_cons] at hnodup
  obtain ⟨lc, hlc, hlinks, hlen⟩ := hs.chunck chunck (by simp [hstack])
  have hM : ∀ a ∈ lc, place a = .chunck chunck := fun a ha => (hlc a).1 ha
  have hM0 : 0 ∉ lc := fun h0 => by
    have := (hM 0 h0).symm.trans hs.null
    cases this
  refine ⟨relocate place lc (.list i), hs.update hp hM (fun j _ => by simp) (near_list i) hM0
    (fun _ _ _ => by rw [hnext]) (fun a => ?_) (fun a => ?_) (hstack' ▸ hnodup.2) (fun c hc => ?_)
    (fun a c ha => ?_) (fun p' hp' => ?_) (by simp) (hcrash.trans hs.crashed)⟩
  · rw [hlive, ne_eq, relocate_eq_iff hM (by simp) (by simp)]
    exact hs.live a
  · rw [hheld, relocate_eq_iff hM (by simp) (by simp)]
    exact hs.held a
  · rw [hstack'] at hc
    have hne : Place.chunck c ≠ .chunck chunck := fun h => by
      rw [Place.chunck.inj h] at hc
      exact hnodup.1 hc
    exact (hs.chunck c (by simp [hstack, hc])).congr (fun _ => relocate_eq_iff hM hne (by simp))
      fun _ _ => by rw [hnext]
  · by_cases hmem : a ∈ lc
    · rw [relocate_of_mem hmem] at ha
      cases ha
    · rw [relocate_of_notMem hmem] at ha
      have hc := hs.stacked a c ha
      rw [hstack, List.mem_cons] at hc
      rw [hstack']
      refine hc.resolve_left fun hcc => hmem ((hlc a).2 ?_)
      rw [ha, hcc]
  · obtain rfl := Option.some.inj hp'
    have hfill := (hl : Fills place (.list i) []).relocate_to (M := lc)
    rw [List.append_nil] at hfill
    refine ⟨lc, [], hfill, hh.relocate hM (by simp) (by simp), ?_, rfl, hcnt, .inr hlen⟩
    rwa [hnext]

/-- `FreeChunck`: the nodes that were cut off the list are a chunk. -/
theorem Layout.pushChunck {node : ℕ} (hs : Layout s place) (hp : s.pools i = some p)
    (hf : p.frame = .freeChunck node) (hcrash : g'.crashed = s.shared.crashed)
    (hnext : g'.next = s.shared.next) (hlive : g'.live = s.shared.live)
    (hheld : g'.held = s.shared.held) (hstack : g'.chunckStack = node :: s.shared.chunckStack) :
    ∃ place', Layout ⟨g', Function.update s.pools i (some { p with frame := .idle })⟩ place' := by
  obtain ⟨l, h, hl, hh, hlinks, hok⟩ := hs.pooled i p hp
  rw [hf] at hok
  obtain ⟨hcnt, rfl, hlen, hcut⟩ := hok
  have hM : ∀ a ∈ h, place a = .call i := fun a ha => (hh a).1 ha
  have hM0 : 0 ∉ h := fun h0 => hcut.ne_nil 0 h0 rfl
  have hnode : place node = .call i := by
    rcases h with _ | ⟨x, h⟩
    · simp [kChunkDefault] at hlen
    · rw [hcut.1]
      exact hM x (by simp)
  have hfresh : node ∉ s.shared.chunckStack := fun hmem => by
    obtain ⟨lc, hlc, hlinks', hlen'⟩ := hs.chunck node hmem
    rcases lc with _ | ⟨x, lc⟩
    · simp [kChunkDefault] at hlen'
    · have := (hlc x).1 (by simp)
      rw [← hlinks'.1, hnode] at this
      cases this
  have hne : ∀ c ∈ s.shared.chunckStack, Place.chunck c ≠ .chunck node := fun c hc h => by
    rw [Place.chunck.inj h] at hc
    exact hfresh hc
  have hnone : Fills place (.chunck node) [] := fun a => by
    refine ⟨fun ha => absurd ha List.not_mem_nil, fun ha => absurd (hs.stacked a node ha) hfresh⟩
  refine ⟨relocate place h (.chunck node), hs.update hp hM (near_call i) (fun j _ => by simp) hM0
    (fun _ _ _ => by rw [hnext]) (fun a => ?_) (fun a => ?_)
    (hstack ▸ List.nodup_cons.2 ⟨hfresh, hs.nodup⟩) (fun c hc => ?_) (fun a c ha => ?_)
    (fun p' hp' => ?_) (by simp) (hcrash.trans hs.crashed)⟩
  · rw [hlive, ne_eq, relocate_eq_iff hM (by simp) (by simp)]
    exact hs.live a
  · rw [hheld, relocate_eq_iff hM (by simp) (by simp)]
    exact hs.held a
  · rw [hstack, List.mem_cons] at hc
    rcases hc with rfl | hc
    · have hfill := hnone.relocate_to (M := h)
      rw [List.append_nil] at hfill
      exact ⟨h, hfill, by rwa [hnext], hlen⟩
    · exact (hs.chunck c hc).congr (fun _ => relocate_eq_iff hM (by simp) (hne c hc))
        fun _ _ => by rw [hnext]
  · rw [hstack, List.mem_cons]
    by_cases hmem : a ∈ h
    · rw [relocate_of_mem hmem] at ha
      exact .inl (Place.chunck.inj ha).symm
    · rw [relocate_of_notMem hmem] at ha
      exact .inr (hs.stacked a c ha)
  · obtain rfl := Option.some.inj hp'
    have hnodup := hcut.nodup
    refine ⟨[], [], hl.relocate hM (by simp) (by simp), ?_, by rwa [hnext], rfl, hcnt,
      by simp [kChunkDefault]⟩
    exact Fills.relocate_from (M := h) (by simpa using hh) (by simpa using hnodup) (by simp)

/-- `node->Next = Head`. -/
theorem Layout.link {node : ℕ} (hs : Layout s place) (hp : s.pools i = some p)
    (hf : p.frame = .link node) :
    Layout ⟨{ s.shared with next := Function.update s.shared.next node p.head },
      Function.update s.pools i (some { p with frame := .push node })⟩ place := by
  obtain ⟨l, h, hl, hh, hlinks, hok⟩ := hs.pooled i p hp
  rw [hf] at hok
  obtain ⟨rfl, hcnt, hlen⟩ := hok
  have hnode : place node = .call i := (hh node).1 (by simp)
  refine hs.stay hp (fun a ha _ => Function.update_of_ne (by rintro rfl; exact ha hnode) _ _) rfl rfl
    rfl rfl ⟨l, [node], hl, hh, hlinks.congr fun a ha => Function.update_of_ne ?_ _ _, rfl,
      Function.update_self .., hcnt, hlen⟩
  rintro rfl
  rw [(hl a).1 ha] at hnode
  cases hnode

/-- `Head = node`: the node is on the list, and the list is cut if it has 100 nodes now. -/
theorem Layout.push {node : ℕ} {f : PoolFrame} (hs : Layout s place) (hp : s.pools i = some p)
    (hf : p.frame = .push node)
    (hnew : f = if p.freeNodeCnt + 1 ≥ kChunkDefault then .cut kChunkDefault node else .idle) :
    Layout ⟨s.shared, Function.update s.pools i (some ⟨node, p.freeNodeCnt + 1, f⟩)⟩
      (relocate place [node] (.list i)) := by
  obtain ⟨l, h, hl, hh, hlinks, hok⟩ := hs.pooled i p hp
  rw [hf] at hok
  obtain ⟨rfl, hnode, hcnt, hlen⟩ := hok
  have hplace : place node = .call i := (hh node).1 (by simp)
  have hM : ∀ a ∈ [node], place a = .call i := by simpa using hplace
  have hne : node ≠ 0 := by
    rintro rfl
    rw [hs.null] at hplace
    cases hplace
  have hlist : Links 0 s.shared.next node (node :: l) := ⟨rfl, hne, by rwa [hnode]⟩
  refine hs.move hp hM (.inr rfl) (.inl rfl) (fun _ _ _ => rfl) rfl rfl rfl rfl
    ⟨node :: l, [], hl.relocate_to, ?_, hlist, ?_⟩
  · exact Fills.relocate_from (M := [node]) hh (by simp) (by simp)
  · subst hnew
    dsimp only
    split_ifs with hfull
    · refine ⟨?_, ?_, by simp, hlist⟩
      · dsimp only
        omega
      · rw [List.length_cons]
        omega
    · refine ⟨rfl, ?_, ?_⟩
      · dsimp only
        rw [hcnt]
        simp
      · rw [List.length_cons]
        omega

/-- One iteration of the loop that cuts a chunk off the list. -/
theorem Layout.cut {n node : ℕ} (hs : Layout s place) (hp : s.pools i = some p)
    (hf : p.frame = .cut (n + 1) node) :
    p.head ≠ 0 ∧
      Layout ⟨s.shared,
        Function.update s.pools i (some { p with head := s.shared.next p.head, frame := .cut n node })⟩
        (relocate place [p.head] (.call i)) := by
  obtain ⟨l, h, hl, hh, hlinks, hok⟩ := hs.pooled i p hp
  rw [hf] at hok
  obtain ⟨hcnt, hlen, hlen', hcut⟩ := hok
  obtain ⟨hne, hplace, l', rfl, hl', hlinks'⟩ :=
    head_of_pos hl hlinks (by omega) (show Place.call i ≠ .list i by simp)
  have hM : ∀ a ∈ [p.head], place a = .list i := by simpa using hplace
  refine ⟨hne, hs.move hp hM (.inl rfl) (.inr rfl) (fun _ _ _ => rfl) rfl rfl rfl rfl
    ⟨l', h ++ [p.head], hl', hh.relocate_to.congr fun a => by simp [or_comm], hlinks', hcnt, ?_, ?_,
      by simpa using hcut⟩⟩
  · simpa using hlen
  · simp only [List.length_append, List.length_singleton]
    omega

end NetworkLibrary.TLSNodeMemoryPool
