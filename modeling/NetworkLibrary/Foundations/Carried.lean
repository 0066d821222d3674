import NetworkLibrary.Foundations.Framing

/-!
# Items carried by a stream

A sender frames items and writes them into a stream of bytes; the receiver holds what has arrived
and not been parsed, and parses whenever something arrives. `Carried` relates the two ends: the
items are those that the receiver has passed on, followed by the pending ones, and the frames of the
pending ones are what the receiver holds, followed by what is still in the stream. Sending and
arriving keep it (`Carried.send`, `Carried.arrive`), and nothing is pending once the stream is empty
(`Carried.eq_nil`).
-/

namespace Foundations

variable {α β γ : Type*}

/-- The parser takes the frames of acceptable items off a stream, and waits for a part of one. -/
structure Frames (next : List α → Next α γ) (frame : β → List α) (view : β → γ) (ok : β → Prop) :
    Prop where
  empty : next [] = .more
  whole : ∀ b, ok b → ∀ rest, next (frame b ++ rest) = .item (view b) rest
  part : ∀ b, ok b → ∀ s t, s ++ t = frame b → t ≠ [] → next s = .more

/-- The items on their way: `sent` into the stream, `passed` on by the receiver, and `pending`. -/
structure Carried (next : List α → Next α γ) (frame : β → List α) (sent passed pending : List β)
    (held stream : List α) : Prop where
  sent : sent = passed ++ pending
  frames : held ++ stream = (pending.map frame).flatten
  more : next held = .more

variable {next : List α → Next α γ} {frame : β → List α} {view : β → γ} {ok : β → Prop}
  {sent passed pending xs : List β} {held stream s rest : List α}

namespace Frames

theorem ne_nil (h : Frames next frame view ok) {b : β} (hb : ok b) : frame b ≠ [] := by
  intro hnil
  have hitem := h.whole b hb []
  rw [hnil, List.append_nil, h.empty] at hitem
  cases hitem

/-- Whole frames are parsed as their items, and the rest is looked at next. -/
theorem parses_append (h : Frames next frame view ok) (hxs : ∀ b ∈ xs, ok b)
    (hrest : next rest = .more) :
    Parses next ((xs.map frame).flatten ++ rest) (xs.map view) (.waiting rest) := by
  induction xs with
  | nil => exact .more hrest
  | cons b xs ih =>
    rw [List.map_cons, List.map_cons, List.flatten_cons, List.append_assoc]
    exact .item (h.whole b (hxs b (by simp)) _) (ih fun c hc => hxs c (by simp [hc]))

/-- **What has arrived of a stream of frames** is parsed as the items whose frames have arrived. -/
theorem parses_prefix (h : Frames next frame view ok) (hxs : ∀ b ∈ xs, ok b)
    (hs : s <+: (xs.map frame).flatten) :
    ∃ k rest, s = ((xs.take k).map frame).flatten ++ rest ∧
      Parses next s ((xs.take k).map view) (.waiting rest) := by
  obtain ⟨k, rest, hflat, hk⟩ := exists_split_of_prefix_flatten (fun w hw => by
    obtain ⟨b, hb, rfl⟩ := List.mem_map.1 hw
    exact h.ne_nil (hxs b hb)) hs
  rw [← List.map_take] at hflat
  have hmore : next rest = .more := by
    rcases hk with ⟨-, rfl⟩ | ⟨w, t, hw, hrest, ht⟩
    · exact h.empty
    · rw [List.getElem?_map, Option.map_eq_some_iff] at hw
      obtain ⟨b, hb, rfl⟩ := hw
      exact h.part b (hxs b (List.mem_of_getElem? hb)) rest t hrest ht
  refine ⟨k, rest, hflat, ?_⟩
  rw [hflat]
  exact h.parses_append (fun b hb => hxs b (List.mem_of_mem_take hb)) hmore

end Frames

namespace Carried

theorem start (h : Frames next frame view ok) : Carried next frame [] [] [] [] [] :=
  ⟨rfl, rfl, h.empty⟩

/-- Items are framed and written into the stream. -/
theorem send (h : Carried next frame sent passed pending held stream) (xs : List β) :
    Carried next frame (sent ++ xs) passed (pending ++ xs) held
      (stream ++ (xs.map frame).flatten) where
  sent := by rw [h.sent, List.append_assoc]
  frames := by rw [← List.append_assoc, h.frames, List.map_append, List.flatten_append]
  more := h.more

/-- **Something arrives**: the receiver passes on the items whose frames are complete by now, and
holds the rest. -/
theorem arrive (hf : Frames next frame view ok) {bytes : List α}
    (h : Carried next frame sent passed pending held (bytes ++ stream))
    (hok : ∀ b ∈ pending, ok b) :
    ∃ k rest, Parses next (held ++ bytes) ((pending.take k).map view) (.waiting rest) ∧
      Carried next frame sent (passed ++ pending.take k) (pending.drop k) rest stream := by
  have hframes := h.frames
  rw [← List.append_assoc] at hframes
  obtain ⟨k, rest, hflat, hparse⟩ := hf.parses_prefix hok (s := held ++ bytes) ⟨stream, hframes⟩
  refine ⟨k, rest, hparse, ?_, ?_, hparse.next_waiting⟩
  · rw [h.sent, List.append_assoc, List.take_append_drop]
  · have hsplit : (pending.map frame).flatten =
        ((pending.take k).map frame).flatten ++ ((pending.drop k).map frame).flatten := by
      rw [← List.flatten_append, ← List.map_append, List.take_append_drop]
    rw [hsplit, hflat, List.append_assoc] at hframes
    exact List.append_cancel_left hframes

/-- Nothing is pending when the stream is empty. -/
theorem eq_nil (hf : Frames next frame view ok)
    (h : Carried next frame sent passed pending held []) (hok : ∀ b ∈ pending, ok b) :
    pending = [] := by
  cases pending with
  | nil => rfl
  | cons b pending =>
    -- the receiver would hold the whole frame of `b`
    have hframes := h.frames
    rw [List.append_nil, List.map_cons, List.flatten_cons] at hframes
    have hmore := h.more
    rw [hframes, hf.whole b (hok b (by simp))] at hmore
    cases hmore

/-- What the receiver holds is a proper part of the frame of the first item that is pending. -/
theorem length_held (hf : Frames next frame view ok)
    (h : Carried next frame sent passed pending held stream) (hok : ∀ b ∈ pending, ok b) :
    held = [] ∨ ∃ b ∈ pending, held.length < (frame b).length := by
  cases pending with
  | nil => exact .inl (List.append_eq_nil_iff.1 h.frames).1
  | cons b pending =>
    refine .inr ⟨b, by simp, ?_⟩
    by_contra hge
    have hframes := h.frames
    rw [List.map_cons, List.flatten_cons] at hframes
    obtain ⟨u, hu⟩ := List.prefix_of_prefix_length_le
      (hframes ▸ List.prefix_append (frame b) _) (List.prefix_append held stream) (Nat.not_lt.1 hge)
    have hmore := h.more
    rw [← hu, hf.whole b (hok b (by simp))] at hmore
    cases hmore

end Carried

end Foundations
