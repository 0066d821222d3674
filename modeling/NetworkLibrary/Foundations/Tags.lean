import NetworkLibrary.Foundations.Threads

/-!
# Tags that are used once

A shared word carries a tag, so that a compare-and-swap notices that the word was written in
between. A function draws a tag that was never drawn before, and writes it into the word at most
once. `OneTime` is what this gives: a tag that its owner may still write is in nobody's hands but
the owner's (`unique`), it is not in the word, and nobody has seen it there (`unseen`). So a word
that is written with such a tag is none that a running function compares with.

What counts as having a tag in the word, or as having seen it, is left to the instance (`shown`,
`seen`).
-/

namespace Foundations

variable {F : Type*}

/-- One for the frames that may still write the tag. -/
def owns (own : F → Option ℕ) (tag : ℕ) (f : F) : ℕ := if own f = some tag then 1 else 0

/-- The tag is not in the word, and no frame has seen it there. -/
def Unseen (seen : F → ℕ → Prop) (shown : ℕ → Prop) (tag : ℕ) (frames : List F) : Prop :=
  ¬shown tag ∧ ∀ f ∈ frames, ¬seen f tag

/-- Only its owner may write a tag that was drawn, and nobody has seen it in the word. -/
structure OneTime (own : F → Option ℕ) (seen : F → ℕ → Prop) (shown : ℕ → Prop) (drawn : List ℕ)
    (frames : List F) : Prop where
  undrawn : ∀ tag, tag ∉ drawn →
    Unseen seen shown tag frames ∧ tally (owns own tag) frames = 0
  unique : ∀ tag, tally (owns own tag) frames ≤ 1
  unseen : ∀ tag, 0 < tally (owns own tag) frames → Unseen seen shown tag frames

variable {own : F → Option ℕ} {seen : F → ℕ → Prop} {shown shown' : ℕ → Prop} {drawn : List ℕ}
  {pre old new post : List F} {tag : ℕ}

/-- No frame has seen the tag after a step, if the word does not carry it now. -/
theorem Unseen.step (h : Unseen seen shown tag (pre ++ old ++ post)) (hshown : ¬shown' tag)
    (hseen : ∀ f ∈ new, ∀ tag, seen f tag → (∃ f ∈ old, seen f tag) ∨ shown tag) :
    Unseen seen shown' tag (pre ++ new ++ post) := by
  refine ⟨hshown, Program.forall_frames_step rfl rfl h.2 (fun f hf hs => ?_) fun _ _ hf => hf⟩
  rcases hseen f hf tag hs with ⟨g, hg, hs⟩ | hs
  · exact h.2 g (by simp [hg]) hs
  · exact h.1 hs

/-- A step that draws no tag and does not write the word. -/
theorem OneTime.keep (h : OneTime own seen shown drawn (pre ++ old ++ post))
    (hshown : ∀ tag, shown' tag → shown tag)
    (hseen : ∀ f ∈ new, ∀ tag, seen f tag → (∃ f ∈ old, seen f tag) ∨ shown tag)
    (hown : ∀ tag, tally (owns own tag) new ≤ tally (owns own tag) old) :
    OneTime own seen shown' drawn (pre ++ new ++ post) := by
  have hle : ∀ tag, tally (owns own tag) (pre ++ new ++ post) ≤
      tally (owns own tag) (pre ++ old ++ post) := by
    intro tag
    have := hown tag
    simp only [tally_append]
    omega
  refine ⟨fun tag htag => ?_, fun tag => Nat.le_trans (hle tag) (h.unique tag), fun tag hpos => ?_⟩
  · obtain ⟨hu, h0⟩ := h.undrawn tag htag
    have := hle tag
    exact ⟨hu.step (fun hs => hu.1 (hshown tag hs)) hseen, by omega⟩
  · have hu := h.unseen tag (Nat.lt_of_lt_of_le hpos (hle tag))
    exact hu.step (fun hs => hu.1 (hshown tag hs)) hseen

/-- A frame draws a tag. -/
theorem OneTime.draw {d : ℕ} (h : OneTime own seen shown drawn (pre ++ old ++ post))
    (hd : d ∉ drawn)
    (hseen : ∀ f ∈ new, ∀ tag, seen f tag → (∃ f ∈ old, seen f tag) ∨ shown tag)
    (hown : ∀ tag, tally (owns own tag) new ≤
      tally (owns own tag) old + if d = tag then 1 else 0) :
    OneTime own seen shown (drawn ++ [d]) (pre ++ new ++ post) := by
  have hle : ∀ tag, tally (owns own tag) (pre ++ new ++ post) ≤
      tally (owns own tag) (pre ++ old ++ post) + if d = tag then 1 else 0 := by
    intro tag
    have := hown tag
    simp only [tally_append]
    omega
  refine ⟨fun tag htag => ?_, fun tag => ?_, fun tag hpos => ?_⟩
  · simp only [List.mem_append, List.mem_singleton, not_or] at htag
    obtain ⟨hu, h0⟩ := h.undrawn tag htag.1
    have := hle tag
    rw [if_neg (Ne.symm htag.2)] at this
    exact ⟨hu.step hu.1 hseen, by omega⟩
  · have := hle tag
    split_ifs at this with hdt
    · obtain ⟨-, h0⟩ := h.undrawn tag (hdt ▸ hd)
      omega
    · exact Nat.le_trans this (h.unique tag)
  · have := hle tag
    split_ifs at this with hdt
    · obtain ⟨hu, -⟩ := h.undrawn tag (hdt ▸ hd)
      exact hu.step hu.1 hseen
    · have hu := h.unseen tag (Nat.lt_of_lt_of_le hpos this)
      exact hu.step hu.1 hseen

/-- A frame writes its tag into the word, and gives it up. -/
theorem OneTime.write {d : ℕ} (h : OneTime own seen shown drawn (pre ++ old ++ post))
    (hshown : ∀ tag, shown' tag → tag = d) (hd : tally (owns own d) old = 1)
    (hseen : ∀ f ∈ new, ∀ tag, seen f tag → (∃ f ∈ old, seen f tag) ∨ shown tag)
    (hown : ∀ tag, tally (owns own tag) new = 0) :
    OneTime own seen shown' drawn (pre ++ new ++ post) := by
  have hle : ∀ tag, tally (owns own tag) (pre ++ new ++ post) + tally (owns own tag) old =
      tally (owns own tag) (pre ++ old ++ post) := by
    intro tag
    have := hown tag
    simp only [tally_append]
    omega
  have hdu := h.unique d
  have hdl := hle d
  refine ⟨fun tag htag => ?_, fun tag => ?_, fun tag hpos => ?_⟩
  · obtain ⟨hu, h0⟩ := h.undrawn tag htag
    have := hle tag
    refine ⟨hu.step (fun hs => ?_) hseen, by omega⟩
    obtain rfl := hshown tag hs
    omega
  · have := hle tag
    have := h.unique tag
    omega
  · have := hle tag
    refine (h.unseen tag (by omega)).step (fun hs => ?_) hseen
    obtain rfl := hshown tag hs
    omega

end Foundations
