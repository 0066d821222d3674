import Mathlib.Data.List.DropRight

/-!
# Lines and words

A text is read line by line (`splitLines`), and a line is stripped of what pads it (`strip`). The
lemmas undo the layout: a text made of lines is split into these lines, a padded word is stripped
to the word, and what is stripped at the end of a line never reaches beyond an unpadded character.
-/

namespace Foundations

variable {α : Type*}

/-! ## Words -/

/-- The list without its longest prefix and suffix in `p`. -/
def strip (p : α → Bool) (l : List α) : List α := (l.dropWhile p).rdropWhile p

variable {p : α → Bool} {a b w l r : List α} {c : α}

/-- What is dropped at the end stops at the last element that is not in `p`. -/
theorem rdropWhile_append_cons (hc : p c = false) :
    (l ++ c :: r).rdropWhile p = l ++ c :: r.rdropWhile p := by
  induction r using List.reverseRecOn with
  | nil => rw [List.rdropWhile_concat_neg _ _ _ (by simp [hc]), List.rdropWhile_nil]
  | append_singleton r x ih =>
    rw [← List.cons_append, ← List.append_assoc]
    by_cases hx : p x
    · rw [List.rdropWhile_concat_pos _ _ _ hx, List.rdropWhile_concat_pos _ _ _ hx, ih]
    · rw [List.rdropWhile_concat_neg _ _ _ hx, List.rdropWhile_concat_neg _ _ _ hx]
      simp

theorem rdropWhile_append_of_all (hb : ∀ x ∈ b, p x = true) :
    (l ++ b).rdropWhile p = l.rdropWhile p := by
  induction b using List.reverseRecOn with
  | nil => rw [List.append_nil]
  | append_singleton b x ih =>
    rw [← List.append_assoc, List.rdropWhile_concat_pos _ _ _ (hb x (by simp))]
    exact ih fun y hy => hb y (by simp [hy])

/-- A list with an element that is not padding is dropped on the two sides of it. -/
theorem strip_append (hc : p c = false) :
    strip p (l ++ c :: r) = l.dropWhile p ++ c :: r.rdropWhile p := by
  have hdrop : (l ++ c :: r).dropWhile p = l.dropWhile p ++ c :: r := by
    rw [List.dropWhile_append, List.dropWhile_cons_of_neg (by simp [hc])]
    split_ifs with h
    · rw [List.isEmpty_iff.1 h, List.nil_append]
    · rfl
  rw [strip, hdrop, rdropWhile_append_cons hc]

/-- A padded list whose first character is not padding keeps it, and is dropped at its end only. -/
theorem strip_append_cons (ha : ∀ x ∈ a, p x = true) (hc : p c = false) :
    strip p (a ++ c :: r) = c :: r.rdropWhile p := by
  rw [strip_append hc, List.dropWhile_eq_nil_iff.2 ha, List.nil_append]

theorem strip_eq_nil (ha : ∀ x ∈ a, p x = true) : strip p a = [] := by
  rw [strip, List.dropWhile_eq_nil_iff.2 ha, List.rdropWhile_nil]

/-- A word: not empty, and not padded. -/
structure Word (p : α → Bool) (w : List α) : Prop where
  ne_nil : w ≠ []
  head : ∀ x ∈ w.head?, p x = false
  last : ∀ x ∈ w.getLast?, p x = false

/-- **A padded word is stripped to the word.** -/
theorem Word.strip (hw : Word p w) (ha : ∀ x ∈ a, p x = true) (hb : ∀ x ∈ b, p x = true) :
    Foundations.strip p (a ++ w ++ b) = w := by
  obtain ⟨u, x, rfl⟩ := List.eq_nil_or_concat' w |>.resolve_left hw.ne_nil
  have hx : p x = false := hw.last x (by simp)
  have hdrop : (u ++ [x]).dropWhile p = u ++ [x] := by
    cases u with
    | nil => exact List.dropWhile_cons_of_neg (by simp [hx])
    | cons y u => exact List.dropWhile_cons_of_neg (by simp [hw.head y (by simp)])
  rw [Foundations.strip, List.append_assoc, List.dropWhile_append_of_pos ha, List.dropWhile_append,
    hdrop, if_neg (by simp), rdropWhile_append_of_all hb,
    rdropWhile_append_cons (l := u) (r := []) hx, List.rdropWhile_nil]

/-- What follows a word on its line, when the line is stripped. -/
theorem Word.rdropWhile (hw : Word p w) : (l ++ w ++ r).rdropWhile p = l ++ w ++ r.rdropWhile p := by
  obtain ⟨u, x, rfl⟩ := List.eq_nil_or_concat' w |>.resolve_left hw.ne_nil
  have hx : p x = false := hw.last x (by simp)
  have := rdropWhile_append_cons (l := l ++ u) (r := r) hx
  simpa using this

/-! ## Lines -/

variable [DecidableEq α] {nl : α}

/-- The lines of a text, as they are read up to each `nl`; what follows the last one is a line if
it is not empty. -/
def splitLines (nl : α) : List α → List (List α)
  | [] => []
  | c :: cs =>
    if c = nl then [] :: splitLines nl cs
    else match splitLines nl cs with
      | [] => [[c]]
      | l :: ls => (c :: l) :: ls

/-- A line is made of characters of the text. -/
theorem mem_of_mem_splitLines (hl : l ∈ splitLines nl r) (hc : c ∈ l) : c ∈ r := by
  induction r generalizing l with
  | nil => exact absurd hl List.not_mem_nil
  | cons d r ih =>
    rw [splitLines] at hl
    split at hl
    · rcases List.mem_cons.1 hl with rfl | hl
      · exact absurd hc List.not_mem_nil
      · exact List.mem_cons_of_mem _ (ih hl hc)
    · split at hl
      · obtain rfl := List.mem_singleton.1 hl
        exact List.mem_cons.2 (.inl (List.mem_singleton.1 hc))
      · rename_i l' ls hsplit
        rcases List.mem_cons.1 hl with rfl | hl
        · rcases List.mem_cons.1 hc with rfl | hc
          · exact List.mem_cons_self
          · exact List.mem_cons_of_mem _ (ih (by rw [hsplit]; exact List.mem_cons_self) hc)
        · refine List.mem_cons_of_mem _ (ih (l := l) ?_ hc)
          rw [hsplit]
          exact List.mem_cons_of_mem _ hl

/-- The first line of a text is read. -/
theorem splitLines_append (hl : nl ∉ l) : splitLines nl (l ++ nl :: r) = l :: splitLines nl r := by
  induction l with
  | nil => rw [List.nil_append, splitLines, if_pos rfl]
  | cons c l ih =>
    obtain ⟨hc, hl⟩ := not_or.1 (fun h => hl (List.mem_cons.2 h))
    rw [List.cons_append, splitLines, if_neg (Ne.symm hc), ih hl]

/-- A line that no `nl` ends is read as well, unless it is empty. -/
theorem splitLines_last (hl : nl ∉ l) (hne : l ≠ []) : splitLines nl l = [l] := by
  induction l with
  | nil => exact absurd rfl hne
  | cons c l ih =>
    obtain ⟨hc, hl⟩ := not_or.1 (fun h => hl (List.mem_cons.2 h))
    rw [splitLines, if_neg (Ne.symm hc)]
    cases l with
    | nil => rfl
    | cons d l => rw [ih hl (by simp)]

/-- **A text made of lines is split into these lines.** -/
theorem splitLines_flatMap {ls : List (List α)} (hls : ∀ l ∈ ls, nl ∉ l) :
    splitLines nl (ls.flatMap (fun l => l ++ [nl]) ++ r) = ls ++ splitLines nl r := by
  induction ls with
  | nil => rfl
  | cons l ls ih =>
    rw [List.flatMap_cons, List.append_assoc, List.append_assoc, List.singleton_append,
      splitLines_append (hls l (by simp)), ih fun l' hl' => hls l' (by simp [hl']),
      List.cons_append]

/-- A text that goes on at the end of its last line: the lines before that one are the same. -/
theorem splitLines_append_cons (hc : c ≠ nl) (a b : List α) :
    ∃ ls l r rs, splitLines nl a = ls ++ (if l = [] then [] else [l]) ∧
      splitLines nl (a ++ c :: b) = ls ++ (l ++ c :: r) :: rs := by
  induction a with
  | nil =>
    cases hb : splitLines nl b with
    | nil => exact ⟨[], [], [], [], rfl, by rw [List.nil_append, splitLines, if_neg hc, hb]; rfl⟩
    | cons r rs => exact ⟨[], [], r, rs, rfl, by rw [List.nil_append, splitLines, if_neg hc, hb]; rfl⟩
  | cons d a ih =>
    obtain ⟨ls, l, r, rs, ha, hab⟩ := ih
    by_cases hd : d = nl
    · refine ⟨[] :: ls, l, r, rs, ?_, ?_⟩
      · rw [splitLines, if_pos hd, ha, List.cons_append]
      · rw [List.cons_append, splitLines, if_pos hd, hab, List.cons_append]
    · rw [List.cons_append, splitLines, splitLines, if_neg hd, if_neg hd, ha, hab]
      cases ls with
      | nil =>
        refine ⟨[], d :: l, r, rs, ?_, rfl⟩
        by_cases hl : l = []
        · simp [hl]
        · simp [hl]
      | cons l' ls => exact ⟨(d :: l') :: ls, l, r, rs, rfl, rfl⟩

end Foundations
