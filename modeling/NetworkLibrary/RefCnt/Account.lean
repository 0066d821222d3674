import Mathlib.Tactic.Common

/-!
# The account of a packet

What a step does to one packet, whatever the sessions are that it goes through: `RefCnt`, the
references on the packet, the handles of the application, and how often the packet is in the pool
(`Entry`). The books are balanced after every step that the application may take (`Balanced.entry`).
-/

namespace NetworkLibrary.RefCnt

/-- The account of a packet. -/
structure Account where
  refCnt : UInt32
  references : ℕ
  handles : ℕ
  /-- The running `SendPacket`s that have not called `IncrementRef` yet. -/
  lent : ℕ
  pool : ℕ
  /-- The running `AllocPacket`s and `FreePacket`s between the pool and `RefCnt`. -/
  underway : ℕ
  allocs : ℕ
  frees : ℕ

namespace Account

/-- The books are balanced. -/
structure Balanced (a : Account) : Prop where
  count : a.refCnt.toNat = a.references
  /-- The packet is in the pool, or on its way, or there are references on it. -/
  place : a.pool + a.underway + (if a.references = 0 then 0 else 1) = 1
  balance : a.allocs + a.pool = a.frees + 1
  handles_le : a.handles ≤ a.references
  /-- A packet is passed to `SendPacket` by somebody who has a handle on it, and keeps it. -/
  lent : 0 < a.lent → 0 < a.handles

/-- What a step does to a packet. -/
inductive Entry (a : Account) : Account → Prop
  | keep {l : ℕ} : l ≤ a.lent → Entry a { a with lent := l }
  /-- `SendPacket` is called. -/
  | lend : 0 < a.handles → Entry a { a with lent := a.lent + 1 }
  /-- The pool hands the packet out. -/
  | handOut : 0 < a.pool → Entry a { a with
      pool := a.pool - 1, underway := a.underway + 1, allocs := a.allocs + 1 }
  /-- `IncrementRef` in `AllocPacket`. -/
  | allocRef : 0 < a.underway → Entry a { a with
      refCnt := a.refCnt + 1, references := a.references + 1, handles := a.handles + 1
      underway := a.underway - 1 }
  /-- `IncrementRef` of the application. -/
  | incRef : a.refCnt + 1 ≠ 0 → 0 < a.handles → Entry a { a with
      refCnt := a.refCnt + 1, references := a.references + 1, handles := a.handles + 1 }
  /-- `IncrementRef` in `SendPacket`. -/
  | sendRef {l : ℕ} : a.refCnt + 1 ≠ 0 → l + 1 ≤ a.lent → Entry a { a with
      refCnt := a.refCnt + 1, references := a.references + 1, lent := l }
  /-- The application calls `FreePacket`: the reference of the handle is that of the call now. -/
  | giveUp : 0 < a.handles → (a.handles = 1 → a.lent = 0) →
      Entry a { a with handles := a.handles - 1 }
  /-- `DecrementRef` in `FreePacket`. -/
  | decRef : a.handles < a.references → Entry a { a with
      refCnt := a.refCnt - 1, references := a.references - 1
      underway := a.underway + if a.refCnt - 1 = 0 then 1 else 0 }
  /-- The packet goes back to the pool. -/
  | toPool : 0 < a.underway → Entry a { a with
      pool := a.pool + 1, underway := a.underway - 1, frees := a.frees + 1 }

theorem toNat_add_one {n : UInt32} (h : n + 1 ≠ 0) : (n + 1).toNat = n.toNat + 1 := by
  have hlt := n.toNat_lt
  have hne : (n + 1).toNat ≠ 0 := fun h0 => h (UInt32.toNat_inj.1 h0)
  rw [UInt32.toNat_add] at hne ⊢
  simp only [UInt32.toNat_one] at hne ⊢
  omega

theorem toNat_sub_one {n : UInt32} (h : 0 < n.toNat) : (n - 1).toNat = n.toNat - 1 :=
  UInt32.toNat_sub_of_le n 1 (UInt32.le_iff_toNat_le.2 h)

/-- **Every step balances the books.** -/
theorem Balanced.entry {a b : Account} (h : a.Balanced) (hab : a.Entry b) : b.Balanced := by
  obtain ⟨hcount, hplace, hbalance, hle, hlent⟩ := h
  cases hab with
  | keep hl => exact ⟨hcount, hplace, hbalance, hle, fun hpos => hlent (Nat.lt_of_lt_of_le hpos hl)⟩
  | lend hpos => exact ⟨hcount, hplace, hbalance, hle, fun _ => hpos⟩
  | handOut hpos =>
    refine ⟨hcount, ?_, ?_, hle, hlent⟩
    · show a.pool - 1 + (a.underway + 1) + (if a.references = 0 then 0 else 1) = 1
      omega
    · show a.allocs + 1 + (a.pool - 1) = a.frees + 1
      omega
  | allocRef hpos =>
    -- a packet on its way from the pool has no references, so that `RefCnt` is 0
    have hzero : a.references = 0 := by
      by_contra hne
      rw [if_neg hne] at hplace
      omega
    have hcnt : a.refCnt = 0 := UInt32.toNat_inj.1 (hcount.trans hzero)
    rw [if_pos hzero] at hplace
    refine ⟨?_, ?_, hbalance, Nat.succ_le_succ hle, fun _ => Nat.succ_pos _⟩
    · simp [hcnt, hzero]
    · show a.pool + (a.underway - 1) + (if a.references + 1 = 0 then 0 else 1) = 1
      rw [if_neg (Nat.succ_ne_zero _)]
      omega
  | incRef hfits hpos =>
    rw [if_neg (by omega)] at hplace
    refine ⟨?_, ?_, hbalance, Nat.succ_le_succ hle, fun _ => Nat.succ_pos _⟩
    · rw [toNat_add_one hfits, hcount]
    · show a.pool + a.underway + (if a.references + 1 = 0 then 0 else 1) = 1
      rw [if_neg (Nat.succ_ne_zero _)]
      exact hplace
  | sendRef hfits hl =>
    have hpos := hlent (by omega)
    rw [if_neg (by omega)] at hplace
    refine ⟨?_, ?_, hbalance, Nat.le_succ_of_le hle, fun _ => hpos⟩
    · rw [toNat_add_one hfits, hcount]
    · show a.pool + a.underway + (if a.references + 1 = 0 then 0 else 1) = 1
      rw [if_neg (Nat.succ_ne_zero _)]
      exact hplace
  | giveUp hpos hone =>
    refine ⟨hcount, hplace, hbalance, Nat.le_trans (Nat.sub_le _ _) hle, fun hl => ?_⟩
    show 0 < a.handles - 1
    have : a.handles ≠ 1 := fun h1 => Nat.ne_of_gt hl (hone h1)
    omega
  | decRef hlt =>
    have hsub := toNat_sub_one (n := a.refCnt) (by omega)
    have hzero : a.refCnt - 1 = 0 ↔ a.references - 1 = 0 := by
      rw [← UInt32.toNat_inj, hsub, hcount]
      rfl
    rw [if_neg (by omega)] at hplace
    refine ⟨?_, ?_, hbalance, Nat.le_sub_one_of_lt hlt, hlent⟩
    · rw [hsub, hcount]
    · show a.pool + (a.underway + if a.refCnt - 1 = 0 then 1 else 0) +
        (if a.references - 1 = 0 then 0 else 1) = 1
      simp only [hzero]
      split_ifs <;> omega
  | toPool hpos =>
    refine ⟨hcount, ?_, ?_, hle, hlent⟩
    · show a.pool + 1 + (a.underway - 1) + (if a.references = 0 then 0 else 1) = 1
      omega
    · show a.allocs + (a.pool + 1) = a.frees + 1 + 1
      omega

end Account

end NetworkLibrary.RefCnt
