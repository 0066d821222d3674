import NetworkLibrary.Foundations.Flips
import NetworkLibrary.Packet.Roundtrip
import Mathlib.Algebra.BigOperators.Group.Finset.Basic
import Mathlib.Algebra.BigOperators.Intervals
import Mathlib.Data.List.GetD
import Mathlib.Tactic.Abel

/-!
# What the checksum notices

One byte of a frame is replaced, at offset `k` from the checksum. The chained streams carry the
change into at most three deciphered bytes, those at `k`, `k + 1` and `k + 2`
(`getD_deframe_set`), and `Decode` notices it exactly if these three count together differently:
the checksum with a minus, a byte of the payload with a plus.

At the lowest bit at which the replaced byte changes, the first and the third of the three bytes
change and the second does not (`flips_deframe`). So a change of one of the last two bytes of the
frame is always noticed, and a change of the highest bit of any other byte never is.
-/

namespace NetworkLibrary

open Foundations

/-- The packet after the byte at offset `k` from the checksum is replaced. -/
def Packet.tamper (packet : Packet) (k : ℕ) (v : UInt8) : Packet :=
  { packet with buffer := Function.update packet.buffer (packet.front + 4 + k) v }

namespace XorPacketEncoder

variable (enc : XorPacketEncoder) (rKey : UInt8) {v : UInt8} {body d d' : List UInt8} {j k n : ℕ}

/-! ## Which bytes change -/

theorem getD_set_ne {l : List UInt8} (h : j ≠ k) : (l.set k v).getD j 0 = l.getD j 0 := by
  rw [List.getD_eq_getElem?_getD, List.getElem?_set_ne h.symm, ← List.getD_eq_getElem?_getD]

theorem getD_set_self {l : List UInt8} (h : k < l.length) : (l.set k v).getD k 0 = v := by
  rw [List.getD_eq_getElem?_getD, List.getElem?_set_self h]
  rfl

/-- One pass over a list that another list differs from in the byte at `k` or `k + 1` only. -/
theorem getD_decipher_congr (key : UInt8) (hlen : d'.length = d.length) (hj : j < d.length)
    (h : d'.getD j 0 = d.getD j 0) (hprev : ∀ i, j = i + 1 → d'.getD i 0 = d.getD i 0) :
    (decipher (xorWith key) 0 1 d').getD j 0 = (decipher (xorWith key) 0 1 d).getD j 0 := by
  rw [getD_decipher 0 1 d' j (by omega), getD_decipher 0 1 d j hj, h]
  cases j with
  | zero => rfl
  | succ i => rw [List.getD_cons_succ, List.getD_cons_succ, hprev i rfl]

theorem getD_deframe (hj : j < body.length) :
    (enc.deframe rKey body).getD j 0 =
      xorWith rKey ((0 :: decipher (xorWith enc.encryptKey) 0 1 body).getD j 0) (1 + j)
        ((decipher (xorWith enc.encryptKey) 0 1 body).getD j 0) := by
  rw [deframe, getD_decipher 0 1 (decipher (xorWith enc.encryptKey) 0 1 body) j (by simpa using hj)]

/-- **A change reaches three bytes.** -/
theorem getD_deframe_set (hout : j < k ∨ k + 2 < j) :
    (enc.deframe rKey (body.set k v)).getD j 0 = (enc.deframe rKey body).getD j 0 := by
  by_cases hj : j < body.length
  · have hfirst : ∀ i < body.length, i ≠ k → i ≠ k + 1 →
        (decipher (xorWith enc.encryptKey) 0 1 (body.set k v)).getD i 0 =
          (decipher (xorWith enc.encryptKey) 0 1 body).getD i 0 := fun i hi hne hne' =>
      getD_decipher_congr _ List.length_set hi (getD_set_ne hne) fun i' hi' =>
        getD_set_ne (by omega)
    apply getD_decipher_congr _ (by simp) (by simpa using hj)
    · exact hfirst j hj (by omega) (by omega)
    · exact fun i hi => hfirst i (by omega) (by omega) (by omega)
  · rw [List.getD_eq_default _ _ (by simpa using hj), List.getD_eq_default _ _ (by simpa using hj)]

/-! ## The lowest bit that changes -/

theorem toBitVec_xorWith (key prev : UInt8) (i : ℕ) (b : UInt8) :
    (xorWith key prev i b).toBitVec =
      b.toBitVec ^^^ (prev.toBitVec + (key.toBitVec + (UInt8.ofNat i).toBitVec)) := by
  rw [xorWith, UInt8.toBitVec_xor, UInt8.toBitVec_add, UInt8.toBitVec_add, BitVec.add_assoc]

section
variable {key prev prev' b b' : UInt8} {i bit : ℕ}

theorem flips_xorWith (h : Flips bit b.toBitVec b'.toBitVec) :
    Flips bit (xorWith key prev i b).toBitVec (xorWith key prev i b').toBitVec := by
  rw [toBitVec_xorWith, toBitVec_xorWith]
  exact h.xor_agrees (Agrees.refl _ _)

theorem flips_xorWith_prev (hbit : bit < 8) (h : Flips bit prev.toBitVec prev'.toBitVec) :
    Flips bit (xorWith key prev i b).toBitVec (xorWith key prev' i b).toBitVec := by
  rw [toBitVec_xorWith, toBitVec_xorWith]
  exact (Agrees.refl _ _).xor_flips (h.add_agrees hbit (Agrees.refl _ _))

theorem agrees_xorWith (hbit : bit < 8) (hprev : Flips bit prev.toBitVec prev'.toBitVec)
    (h : Flips bit b.toBitVec b'.toBitVec) :
    Agrees bit (xorWith key prev i b).toBitVec (xorWith key prev' i b').toBitVec := by
  rw [toBitVec_xorWith, toBitVec_xorWith]
  exact h.xor_flips (hprev.add_agrees hbit (Agrees.refl _ _))

theorem flips_decipher_set (hk : k < body.length)
    (h : Flips bit (body.getD k 0).toBitVec v.toBitVec) :
    Flips bit ((decipher (xorWith key) 0 1 body).getD k 0).toBitVec
      ((decipher (xorWith key) 0 1 (body.set k v)).getD k 0).toBitVec := by
  have hprev : (0 :: body.set k v).getD k 0 = (0 :: body).getD k 0 := by
    cases k with
    | zero => rfl
    | succ k => exact getD_set_ne (by omega)
  rw [getD_decipher 0 1 body k hk, getD_decipher 0 1 (body.set k v) k (by rwa [List.length_set]),
    hprev, getD_set_self hk]
  exact flips_xorWith h

theorem flips_decipher_set_succ (hbit : bit < 8) (hk : k + 1 < body.length)
    (h : Flips bit (body.getD k 0).toBitVec v.toBitVec) :
    Flips bit ((decipher (xorWith key) 0 1 body).getD (k + 1) 0).toBitVec
      ((decipher (xorWith key) 0 1 (body.set k v)).getD (k + 1) 0).toBitVec := by
  rw [getD_decipher 0 1 body (k + 1) hk,
    getD_decipher 0 1 (body.set k v) (k + 1) (by rwa [List.length_set]), List.getD_cons_succ,
    List.getD_cons_succ, getD_set_self (by omega), getD_set_ne (by omega)]
  exact flips_xorWith_prev hbit h

end

section
variable {bit : ℕ}

theorem flips_deframe (hk : k < body.length)
    (h : Flips bit (body.getD k 0).toBitVec v.toBitVec) :
    Flips bit ((enc.deframe rKey body).getD k 0).toBitVec
      ((enc.deframe rKey (body.set k v)).getD k 0).toBitVec := by
  have hprev : (0 :: decipher (xorWith enc.encryptKey) 0 1 (body.set k v)).getD k 0 =
      (0 :: decipher (xorWith enc.encryptKey) 0 1 body).getD k 0 := by
    cases k with
    | zero => rfl
    | succ k =>
      apply getD_decipher_congr _ List.length_set (by omega) (getD_set_ne (by omega))
      exact fun i hi => getD_set_ne (by omega)
  rw [enc.getD_deframe rKey hk, enc.getD_deframe rKey (by rwa [List.length_set]), hprev]
  exact flips_xorWith (flips_decipher_set hk h)

theorem agrees_deframe (hbit : bit < 8) (hk : k + 1 < body.length)
    (h : Flips bit (body.getD k 0).toBitVec v.toBitVec) :
    Agrees bit ((enc.deframe rKey body).getD (k + 1) 0).toBitVec
      ((enc.deframe rKey (body.set k v)).getD (k + 1) 0).toBitVec := by
  rw [enc.getD_deframe rKey hk, enc.getD_deframe rKey (by rwa [List.length_set]), List.getD_cons_succ,
    List.getD_cons_succ]
  exact agrees_xorWith hbit (flips_decipher_set (by omega) h) (flips_decipher_set_succ hbit hk h)

theorem flips_deframe_succ (hbit : bit < 8) (hk : k + 2 < body.length)
    (h : Flips bit (body.getD k 0).toBitVec v.toBitVec) :
    Flips bit ((enc.deframe rKey body).getD (k + 2) 0).toBitVec
      ((enc.deframe rKey (body.set k v)).getD (k + 2) 0).toBitVec := by
  have hbyte : (decipher (xorWith enc.encryptKey) 0 1 (body.set k v)).getD (k + 2) 0 =
      (decipher (xorWith enc.encryptKey) 0 1 body).getD (k + 2) 0 := by
    apply getD_decipher_congr _ List.length_set hk (getD_set_ne (by omega))
    exact fun i hi => getD_set_ne (by omega)
  rw [enc.getD_deframe rKey hk, enc.getD_deframe rKey (by rwa [List.length_set]), List.getD_cons_succ,
    List.getD_cons_succ, hbyte]
  exact flips_xorWith_prev hbit (flips_decipher_set_succ hbit (by omega) h)

end

/-! ## What the bytes count -/

/-- What a deciphered byte counts in the sum of the payload less the checksum. -/
def counted (d : List UInt8) (j : ℕ) : UInt8 := if j = 0 then -d.getD 0 0 else d.getD j 0

/-- What the bytes at `k`, `k + 1` and `k + 2` count together. -/
def window (d : List UInt8) (k : ℕ) : UInt8 := counted d k + counted d (k + 1) + counted d (k + 2)

theorem sum_getD (l : List UInt8) (n : ℕ) (hn : l.length ≤ n) :
    ∑ j ∈ Finset.range n, l.getD j 0 = l.sum := by
  induction l generalizing n with
  | nil => simp
  | cons b l ih =>
    cases n with
    | zero => simp at hn
    | succ n =>
      rw [Finset.sum_range_succ', List.sum_cons, add_comm b]
      congr 1
      exact ih n (Nat.le_of_succ_le_succ hn)

/-- A checksum and the payload it is the sum of count zero. -/
theorem sum_counted (d : List UInt8) (hd : d.length ≤ n + 1) :
    ∑ j ∈ Finset.range (n + 1), counted d j = d.tail.sum - d.getD 0 0 := by
  rw [Finset.sum_range_succ', sub_eq_add_neg, ← sum_getD d.tail n (by simpa using hd)]
  congr 1
  refine Finset.sum_congr rfl fun j _ => ?_
  cases d <;> simp [counted]

theorem eq_sum_cons_iff (d : List UInt8) (hne : d ≠ []) (hd : d.length ≤ n + 1) :
    (∃ payload : List UInt8, d = payload.sum :: payload) ↔
      ∑ j ∈ Finset.range (n + 1), counted d j = 0 := by
  rw [sum_counted d hd, sub_eq_zero]
  cases d with
  | nil => exact absurd rfl hne
  | cons b payload =>
    constructor
    · rintro ⟨payload', h⟩
      obtain ⟨hb, rfl⟩ := List.cons.inj h
      exact hb.symm
    · intro h
      have hb : payload.sum = b := h
      exact ⟨payload, by rw [hb]⟩

/-- Lists that differ at `k`, `k + 1` and `k + 2` only count alike if these bytes do. -/
theorem sum_counted_sub (hkn : k + 2 < n)
    (h : ∀ j, j < k ∨ k + 2 < j → d'.getD j 0 = d.getD j 0) :
    ∑ j ∈ Finset.range n, counted d' j - ∑ j ∈ Finset.range n, counted d j =
      window d' k - window d k := by
  have hsub : ({k, k + 1, k + 2} : Finset ℕ) ⊆ Finset.range n := by
    intro j hj
    simp only [Finset.mem_insert, Finset.mem_singleton] at hj
    exact Finset.mem_range.2 (by omega)
  rw [← Finset.sum_sub_distrib, ← Finset.sum_subset hsub]
  · rw [Finset.sum_insert (by simp), Finset.sum_insert (by simp), Finset.sum_singleton, window,
      window]
    abel
  · intro j _ hj
    simp only [Finset.mem_insert, Finset.mem_singleton, not_or] at hj
    have hout : j < k ∨ k + 2 < j := by omega
    rw [counted, counted, h j hout, sub_eq_zero]
    rcases Nat.eq_zero_or_pos j with rfl | hpos
    · rw [h 0 hout]
    · rw [if_neg hpos.ne', if_neg hpos.ne']

section
variable {bit : ℕ}

theorem flips_counted (hbit : bit < 8) (h : Flips bit (d.getD k 0).toBitVec (d'.getD k 0).toBitVec) :
    Flips bit (counted d k).toBitVec (counted d' k).toBitVec := by
  unfold counted
  split_ifs with hk
  · subst hk
    rw [UInt8.toBitVec_neg, UInt8.toBitVec_neg]
    exact h.neg hbit
  · exact h

/-- A change of one of the last two bytes flips a bit of the window. -/
theorem flips_window (hbit : bit < 8) (hk : k < body.length) (hlast : body.length ≤ k + 2)
    (h : Flips bit (body.getD k 0).toBitVec v.toBitVec) :
    Flips bit (window (enc.deframe rKey body) k).toBitVec
      (window (enc.deframe rKey (body.set k v)) k).toBitVec := by
  have hfirst := flips_counted hbit (enc.flips_deframe rKey hk h)
  have hsecond : Agrees bit (counted (enc.deframe rKey body) (k + 1)).toBitVec
      (counted (enc.deframe rKey (body.set k v)) (k + 1)).toBitVec := by
    by_cases hk' : k + 1 < body.length
    · exact enc.agrees_deframe rKey hbit hk' h
    · rw [counted, counted, if_neg k.succ_ne_zero, List.getD_eq_default _ _ (by simpa using hk'),
        if_neg k.succ_ne_zero, List.getD_eq_default _ _ (by simpa using hk')]
      exact Agrees.refl _ _
  have hthird : Agrees bit (counted (enc.deframe rKey body) (k + 2)).toBitVec
      (counted (enc.deframe rKey (body.set k v)) (k + 2)).toBitVec := by
    rw [counted, counted, if_neg (k + 1).succ_ne_zero, List.getD_eq_default _ _ (by simpa using hlast),
      if_neg (k + 1).succ_ne_zero, List.getD_eq_default _ _ (by simpa using hlast)]
    exact Agrees.refl _ _
  rw [window, window, UInt8.toBitVec_add, UInt8.toBitVec_add, UInt8.toBitVec_add,
    UInt8.toBitVec_add]
  exact (hfirst.add_agrees hbit hsecond).add_agrees hbit hthird

/-- Elsewhere the two flips cancel. -/
theorem agrees_window (hbit : bit < 8) (hk : k + 2 < body.length)
    (h : Flips bit (body.getD k 0).toBitVec v.toBitVec) :
    Agrees bit (window (enc.deframe rKey body) k).toBitVec
      (window (enc.deframe rKey (body.set k v)) k).toBitVec := by
  have hfirst := flips_counted hbit (enc.flips_deframe rKey (by omega) h)
  have hsecond := enc.agrees_deframe rKey hbit (by omega) h
  have hthird := enc.flips_deframe_succ rKey hbit hk h
  rw [window, window, UInt8.toBitVec_add, UInt8.toBitVec_add, UInt8.toBitVec_add,
    UInt8.toBitVec_add]
  exact (hfirst.add_agrees hbit hsecond).add_flips hbit hthird

end

/-! ## `Decode` on a changed frame -/

section
variable {p q : Packet} {payload : List UInt8}

theorem headerLen_tamper : headerLen (p.tamper k v).buffer p.front = headerLen p.buffer p.front := by
  have hout : ∀ x < p.front + 4, (p.tamper k v).buffer x = p.buffer x := fun x hx =>
    Function.update_of_ne (by omega) _ _
  rw [headerLen, headerLen, hout _ (by omega), hout _ (by omega)]

theorem rKey_tamper : (p.tamper k v).buffer (p.front + 3) = p.buffer (p.front + 3) :=
  Function.update_of_ne (by omega) _ _

/-- **`Decode` accepts a changed frame exactly if the three bytes count as before.** -/
theorem decode_tamper_iff (hn : headerLen p.buffer p.front = n)
    (hrear : p.front + headerSize ≤ p.rear) (hk : k ≤ n)
    (haccept : enc.deframe (p.buffer (p.front + 3)) (load p.buffer (p.front + 4) (n + 1)) =
      payload.sum :: payload) :
    (enc.decode (p.tamper k v)).1 = true ↔
      window (enc.deframe (p.buffer (p.front + 3))
        ((load p.buffer (p.front + 4) (n + 1)).set k v)) k = window (payload.sum :: payload) k := by
  set body := load p.buffer (p.front + 4) (n + 1) with hbody
  set rKey := p.buffer (p.front + 3) with hrKey
  have hlen : body.length = n + 1 := length_load _ _ _
  have hload : load (p.tamper k v).buffer (p.front + 4) (n + 1) = body.set k v :=
    load_update_add p.buffer (p.front + 4) (n + 1) k v
  have hfound : (enc.decode (p.tamper k v)).1 = true ↔ ∃ payload' : List UInt8,
      enc.deframe rKey (body.set k v) = payload'.sum :: payload' := by
    rw [hrKey, ← hload, ← rKey_tamper (v := v) (k := k)]
    exact enc.decode_eq_true_iff (headerLen_tamper.trans hn) hrear
  have hzero : ∑ j ∈ Finset.range (n + 3), counted (enc.deframe rKey body) j = 0 :=
    (eq_sum_cons_iff _ (by simp [haccept]) (by simp [hlen])).1 ⟨payload, haccept⟩
  have hsub : ∑ j ∈ Finset.range (n + 3), counted (enc.deframe rKey (body.set k v)) j -
      ∑ j ∈ Finset.range (n + 3), counted (enc.deframe rKey body) j =
        window (enc.deframe rKey (body.set k v)) k - window (enc.deframe rKey body) k :=
    sum_counted_sub (by omega) fun j hj => enc.getD_deframe_set rKey hj
  have hne : enc.deframe rKey (body.set k v) ≠ [] := by
    rw [ne_eq, ← List.length_eq_zero_iff, length_deframe, List.length_set]
    omega
  rw [hfound, eq_sum_cons_iff (n := n + 2) _ hne (by simp [hlen]), ← haccept]
  rw [hzero, sub_zero] at hsub
  rw [hsub, sub_eq_zero]

/-- A packet after `Encode`, at the offset from which `Decode` deciphers. -/
theorem encode_body (hq : Ready payload q) (hlen : payload.length < 2 ^ 16) :
    headerLen (enc.encode rKey q).buffer (enc.encode rKey q).front = payload.length ∧
      (enc.encode rKey q).front + headerSize ≤ (enc.encode rKey q).rear ∧
      (enc.encode rKey q).buffer ((enc.encode rKey q).front + 3) = rKey ∧
      enc.deframe rKey (load (enc.encode rKey q).buffer ((enc.encode rKey q).front + 4)
        (payload.length + 1)) = payload.sum :: payload := by
  obtain ⟨hfront, hrear, hload⟩ := enc.encode_frame rKey hq hlen
  obtain ⟨-, hn, hkey, hbody⟩ := enc.frame_header hlen hload
  rw [← hfront] at hn hkey hbody
  refine ⟨hn, ?_, hkey, ?_⟩
  · rw [hfront, hrear, sub_add_cancel]
    exact hq.inBounds.rear
  · rw [hbody, deframe_body]

/-- **What `Decode` makes of a frame with one byte replaced.** At most three of the deciphered
bytes change, and `Decode` refuses exactly if these count differently together; it always refuses
if the byte is one of the last two. -/
theorem decode_tampered (hq : Ready payload q) (hlen : payload.length < 2 ^ 16)
    (hk : k ≤ payload.length)
    (hv : v ≠ (enc.encode rKey q).buffer ((enc.encode rKey q).front + 4 + k)) :
    (∀ j, j < k ∨ k + 2 < j →
      (load (enc.decode ((enc.encode rKey q).tamper k v)).2.buffer ((enc.encode rKey q).front + 4)
        (payload.length + 1)).getD j 0 = (payload.sum :: payload).getD j 0) ∧
    ((enc.decode ((enc.encode rKey q).tamper k v)).1 = false ↔
      window (load (enc.decode ((enc.encode rKey q).tamper k v)).2.buffer
        ((enc.encode rKey q).front + 4) (payload.length + 1)) k ≠
          window (payload.sum :: payload) k) ∧
    (payload.length ≤ k + 1 → (enc.decode ((enc.encode rKey q).tamper k v)).1 = false) := by
  obtain ⟨hn, hrear, hkey, hdeframe⟩ := enc.encode_body rKey hq hlen
  set e := enc.encode rKey q with he
  set body := load e.buffer (e.front + 4) (payload.length + 1) with hbody
  have hbodylen : body.length = payload.length + 1 := length_load _ _ _
  have hload : load (enc.decode (e.tamper k v)).2.buffer (e.front + 4) (payload.length + 1) =
      enc.deframe rKey (body.set k v) := by
    have := enc.load_decode (p := e.tamper k v) (headerLen_tamper.trans hn) hrear
    rw [← hkey, ← rKey_tamper (v := v) (k := k), hbody, ← load_update_add]
    exact this
  have hiff := enc.decode_tamper_iff (v := v) hn hrear hk (by rw [hkey]; exact hdeframe)
  rw [hkey] at hiff
  rw [hload, ← Bool.not_eq_true, hiff]
  refine ⟨fun j hj => ?_, Iff.rfl, fun hlast hsame => ?_⟩
  · rw [← hdeframe]
    exact enc.getD_deframe_set rKey hj
  · have hchanged : (body.getD k 0).toBitVec ≠ v.toBitVec := by
      rw [hbody, getD_load _ _ (by omega)]
      exact fun h => hv (UInt8.toBitVec_inj.1 h).symm
    obtain ⟨bit, hbit, hflips⟩ := exists_flips hchanged
    have hw := enc.flips_window rKey hbit (by omega) (by omega) hflips
    rw [hdeframe] at hw
    exact hw.ne (congrArg UInt8.toBitVec hsame.symm)

/-- **A change of the highest bit is not noticed**, unless the byte is one of the last two. -/
theorem decode_highest_bit (hq : Ready payload q) (hlen : payload.length < 2 ^ 16)
    (hk : k + 2 ≤ payload.length)
    (hv : v = (enc.encode rKey q).buffer ((enc.encode rKey q).front + 4 + k) ^^^ 0x80) :
    (enc.decode ((enc.encode rKey q).tamper k v)).1 = true := by
  obtain ⟨hn, hrear, hkey, hdeframe⟩ := enc.encode_body rKey hq hlen
  set e := enc.encode rKey q with he
  set body := load e.buffer (e.front + 4) (payload.length + 1) with hbody
  have hbodylen : body.length = payload.length + 1 := length_load _ _ _
  rw [enc.decode_tamper_iff hn hrear (by omega) (by rw [hkey]; exact hdeframe), hkey, ← hdeframe]
  have hflips : Flips 7 (body.getD k 0).toBitVec v.toBitVec := by
    rw [hv, hbody, getD_load _ _ (by omega), UInt8.toBitVec_xor]
    rfl
  have hw := enc.agrees_window rKey (by omega) (by omega) hflips
  exact (UInt8.toBitVec_inj.1 (hw.eq le_rfl)).symm

end

/-! ## A frame of two zeros -/

/-- Two zeros behind the space reserved for the header. -/
def zeros : Packet := { Packet.new 32 fun _ => 0 with front := 20, rear := 22 }

theorem ready_zeros : Ready [0, 0] zeros where
  inBounds := ⟨by decide, by decide, by decide⟩
  room := by decide
  plain := rfl
  data := rfl

theorem decode_tampered_zeros :
    (({} : XorPacketEncoder).decode ((({} : XorPacketEncoder).encode 9 zeros).tamper 2 0)).1 =
      false :=
  (decode_tampered {} 9 ready_zeros (by decide) (by decide) (by decide)).2.2 (by decide)

/-- The highest bit of the checksum of two zeros is changed: `Decode` does not notice. -/
theorem exists_unnoticed :
    ¬∀ (enc : XorPacketEncoder) (rKey : UInt8) (q : Packet) (payload : List UInt8) (k : ℕ)
      (v : UInt8), Ready payload q → payload ≠ [] → payload.length < 2 ^ 16 →
      k ≤ payload.length → v ≠ (enc.encode rKey q).buffer ((enc.encode rKey q).front + 4 + k) →
      (enc.decode ((enc.encode rKey q).tamper k v)).1 = false := by
  intro h
  have hfalse := h {} 9 zeros [0, 0] 0 0xb9 ready_zeros (by decide) (by decide) (by decide)
    (by decide)
  have htrue := decode_highest_bit {} 9 (k := 0) (v := 0xb9) ready_zeros (by decide) (by decide)
    (by decide)
  rw [htrue] at hfalse
  cases hfalse

end XorPacketEncoder

end NetworkLibrary
