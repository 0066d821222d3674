import NetworkLibrary.Config.Layout

/-!
# What `LoadFromString` makes of a layout

Every kind of line has its lemma (`loadLine_blank`, `loadLine_comment`, `loadLine_header`,
`loadLine_entry`): what the `\r`, `Trim` and `StripInlineComment` take away is never more than the
padding and the comment. The loop then loads the entries of a text one after the other
(`loadLines_lines`), and the table is the configuration (`loadFromString_text`).
-/

namespace NetworkLibrary.Config

open Foundations

variable {l r w a : Str} {c : UInt8} {s : Loading} {crlf : Bool}

/-! ## One line -/

theorem popCr_append_cons (hc : c ≠ chr '\r') : popCr (l ++ c :: r) = l ++ c :: popCr r := by
  rcases List.eq_nil_or_concat' r with rfl | ⟨r, x, rfl⟩
  · simp [popCr, hc]
  · have h : l ++ c :: (r ++ [x]) = (l ++ c :: r) ++ [x] := by simp
    rw [h, popCr, popCr, List.getLast?_concat, List.getLast?_concat, List.dropLast_concat,
      List.dropLast_concat]
    split_ifs
    · rfl
    · exact h.symm

theorem popCr_append_word (hw : IsWord w) : popCr (l ++ w ++ r) = l ++ w ++ popCr r := by
  obtain ⟨u, x, rfl⟩ := List.eq_nil_or_concat' w |>.resolve_left hw.ne_nil
  have := popCr_append_cons (l := l ++ u) (r := r) (hw.plain x (by simp)).2.1
  simpa using this

/-- The end of a line is no part of its padding. -/
theorem popCr_pad (pad : Pad) : popCr (pad.1 ++ cr crlf) = pad.1 := by
  cases crlf with
  | false =>
    rw [cr, if_neg (by simp), List.append_nil, popCr, if_neg]
    exact fun h => pad.ne (List.mem_of_getLast? h) (by decide) rfl
  | true => simp [popCr, cr]

theorem findIdx?_append_cons (hl : c ∉ l) : (l ++ c :: r).findIdx? (· = c) = some l.length := by
  have hnone : l.findIdx? (· = c) = none :=
    List.findIdx?_eq_none_iff.2 fun x hx => decide_eq_false (ne_of_mem_of_not_mem hx hl)
  rw [List.findIdx?_append, hnone, List.findIdx?_cons, if_pos (decide_eq_true rfl)]
  simp

/-- What may follow a value on its line. -/
def IsTail (l : Str) : Prop :=
  (∀ c ∈ l, isBlank c = true) ∨
    ∃ (pad : Pad) (c : UInt8) (r : Str), (c = chr ';' ∨ c = chr '#') ∧ l = pad.1 ++ c :: r

theorem Comment.eq_cons (note : Comment) :
    ∃ c r, (c = chr ';' ∨ c = chr '#') ∧ note.1 = c :: r := by
  obtain ⟨_ | ⟨c, r⟩, hhead, -⟩ := note
  · simp at hhead
  · refine ⟨c, r, ?_, rfl⟩
    simp only [List.head?_cons, Option.some.injEq] at hhead
    exact hhead.symm

/-- After the `\r` and the blanks at the end of the line are gone, there is still at most a comment
after the value. -/
theorem isTail_tail (after : Pad) (note : Option Comment) (crlf : Bool) :
    IsTail ((popCr (tail after note ++ cr crlf)).rdropWhile isBlank) := by
  cases note with
  | none =>
    rw [tail, Option.elim_none, List.append_nil, popCr_pad,
      List.rdropWhile_eq_nil_iff.2 after.2]
    exact .inl (by simp)
  | some note =>
    obtain ⟨c, r, hc, hnote⟩ := note.eq_cons
    have hcr : c ≠ chr '\r' := by rcases hc with rfl | rfl <;> decide
    have hb : isBlank c = false := by rcases hc with rfl | rfl <;> decide
    rw [tail, Option.elim_some, hnote, List.append_assoc, List.cons_append, popCr_append_cons hcr,
      rdropWhile_append_cons hb]
    exact .inr ⟨after, c, _, hc, rfl⟩

/-- **A value is read without its padding and the comment after it.** -/
theorem trim_stripInlineComment (right : Pad) (value : Value) (hr : IsTail r) :
    trim (stripInlineComment (right.1 ++ value.1 ++ r)) = value.1 := by
  have hplain : ∀ d ∈ right.1 ++ value.1, decide (d ≠ chr ';' ∧ d ≠ chr '#') = true := by
    intro d hd
    rw [decide_eq_true_iff]
    rcases List.mem_append.1 hd with hd | hd
    · exact ⟨right.ne hd (by decide), right.ne hd (by decide)⟩
    · exact ⟨ne_of_mem_of_not_mem hd value.2.2.1, ne_of_mem_of_not_mem hd value.2.2.2⟩
  rw [stripInlineComment, List.takeWhile_append_of_pos hplain]
  rcases hr with hr | ⟨pad, d, u, hd, rfl⟩
  · refine value.2.1.strip right.2 fun x hx => hr x ?_
    exact (List.takeWhile_prefix _).mem hx
  · have hpad : ∀ x ∈ pad.1, decide (x ≠ chr ';' ∧ x ≠ chr '#') = true := fun x hx =>
      decide_eq_true ⟨pad.ne hx (by decide), pad.ne hx (by decide)⟩
    rw [List.takeWhile_append_of_pos hpad, List.takeWhile_cons_of_neg (by grind), List.append_nil]
    exact value.2.1.strip right.2 pad.2

/-- The next line of the loop. -/
def Loading.next (s : Loading) : Loading := { s with lineNo := s.lineNo + 1 }

theorem loadLine_nil (h : trim (popCr l) = []) : loadLine s l = .ok s.next := by
  rw [loadLine, h]
  rfl

theorem loadLine_cons (h : trim (popCr l) = c :: r) :
    loadLine s l =
      if c = chr '#' ∨ c = chr ';' then .ok s.next
      else if c = chr '[' then loadHeader s.next (c :: r)
      else loadEntry s.next (c :: r) := by
  rw [loadLine, h]
  rfl

theorem loadLine_blank (pad : Pad) :
    loadLine s ((Line.blank pad).text ++ cr crlf) = .ok s.next := by
  refine loadLine_nil ?_
  rw [Line.text, popCr_pad]
  exact strip_eq_nil pad.2

theorem loadLine_comment (pad : Pad) (text : Comment) :
    loadLine s ((Line.comment pad text).text ++ cr crlf) = .ok s.next := by
  obtain ⟨c, r, hc, htext⟩ := text.eq_cons
  have hcr : c ≠ chr '\r' := by rcases hc with rfl | rfl <;> decide
  have hb : isBlank c = false := by rcases hc with rfl | rfl <;> decide
  have h : trim (popCr ((Line.comment pad text).text ++ cr crlf)) =
      c :: (popCr (r ++ cr crlf)).rdropWhile isBlank := by
    rw [Line.text, htext, List.append_assoc, List.cons_append, popCr_append_cons hcr]
    exact strip_append_cons pad.2 hb
  rw [loadLine_cons h, if_pos hc.symm]

/-- The name of a header is what stands between the brackets. -/
theorem loadHeader_append (hl : chr ']' ∉ l) (hname : trim l ≠ []) :
    loadHeader s (chr '[' :: (l ++ chr ']' :: r)) =
      .ok { s with current := trim l, hasSection := true } := by
  have hmem : chr ']' ∉ chr '[' :: l := List.not_mem_cons_of_ne_of_not_mem (by decide) hl
  have htake : ((chr '[' :: l ++ chr ']' :: r).drop 1).take ((chr '[' :: l).length - 1) = l := by
    rw [List.cons_append, List.drop_one, List.tail_cons, List.length_cons, Nat.add_sub_cancel,
      List.take_left]
  rw [← List.cons_append, loadHeader, findIdx?_append_cons hmem]
  simp only [htake]
  rw [if_neg hname]

/-- The key and the value stand on the two sides of the first `=`. -/
theorem loadEntry_append (hl : chr '=' ∉ l) (hs : s.hasSection = true) (hkey : trim l ≠ [])
    (hvalue : trim (stripInlineComment r) ≠ []) (hnew : trim l ∉ s.config.table s.current) :
    loadEntry s (l ++ chr '=' :: r) =
      .ok { s with
        config := s.config.put s.current (trim l)
          ⟨trim (stripInlineComment r), s.lineNo, false⟩ } := by
  have hdrop : (l ++ chr '=' :: r).drop (l.length + 1) = r := by
    rw [← List.drop_drop, List.drop_left, List.drop_one, List.tail_cons]
  rw [loadEntry, findIdx?_append_cons hl]
  simp only [hdrop, List.take_left]
  rw [if_neg (by simp [hs]), if_neg hkey, if_neg hvalue, if_neg hnew]

theorem loadLine_header (before left : Pad) (name : Name) (right after : Pad)
    (note : Option Comment) :
    loadLine s ((Line.header before left name right after note).text ++ cr crlf) =
      .ok { s.next with current := name.1, hasSection := true } := by
  have h : trim (popCr ((Line.header before left name right after note).text ++ cr crlf)) =
      chr '[' :: (left.1 ++ name.1 ++ right.1 ++ chr ']' ::
        (popCr (tail after note ++ cr crlf)).rdropWhile isBlank) := by
    rw [Line.text, List.append_assoc, List.cons_append, popCr_append_cons (by decide), trim,
      strip_append_cons before.2 (by decide), List.append_assoc, List.cons_append,
      popCr_append_cons (by decide), rdropWhile_append_cons (by decide)]
  have hmem : chr ']' ∉ left.1 ++ name.1 ++ right.1 := by
    simp only [List.mem_append, not_or]
    exact ⟨⟨fun h => left.ne h (by decide) rfl, name.2.2⟩, fun h => right.ne h (by decide) rfl⟩
  have hname : trim (left.1 ++ name.1 ++ right.1) = name.1 := name.2.1.strip left.2 right.2
  rw [loadLine_cons h, if_neg (by decide), if_pos rfl, loadHeader_append hmem, hname]
  rw [hname]
  exact name.2.1.ne_nil

theorem loadLine_entry (before : Pad) (key : Key) (left right : Pad) (value : Value) (after : Pad)
    (note : Option Comment) (hs : s.hasSection = true)
    (hnew : key.1 ∉ s.config.table s.current) :
    loadLine s ((Line.entry before key left right value after note).text ++ cr crlf) =
      .ok { s.next with
        config := s.config.put s.current key.1 ⟨value.1, s.lineNo + 1, false⟩ } := by
  obtain ⟨k, ks, hk⟩ := List.exists_cons_of_ne_nil key.2.1.ne_nil
  have hblank : isBlank k = false := key.2.1.head k (by simp [hk])
  have hfirst := key.2.2.2 k (by simp [hk])
  have hpop : popCr ((Line.entry before key left right value after note).text ++ cr crlf) =
      before.1 ++ k :: (ks ++ left.1 ++ chr '=' :: (right.1 ++ value.1 ++
        popCr (tail after note ++ cr crlf))) := by
    have := popCr_append_word (r := tail after note ++ cr crlf)
      (l := before.1 ++ key.1 ++ left.1 ++ chr '=' :: right.1) value.2.1
    rw [hk] at this
    simpa [Line.text, hk] using this
  have h : trim (popCr ((Line.entry before key left right value after note).text ++ cr crlf)) =
      k :: (ks ++ left.1 ++ chr '=' :: (right.1 ++ value.1 ++
        (popCr (tail after note ++ cr crlf)).rdropWhile isBlank)) := by
    rw [hpop, trim, strip_append_cons before.2 hblank]
    have := value.2.1.rdropWhile (r := popCr (tail after note ++ cr crlf))
      (l := ks ++ left.1 ++ chr '=' :: right.1)
    simpa using this
  have hmem : chr '=' ∉ key.1 ++ left.1 := by
    rw [List.mem_append, not_or]
    exact ⟨key.2.2.1, fun h => left.ne h (by decide) rfl⟩
  have hkey : trim (key.1 ++ left.1) = key.1 := key.2.1.strip (a := []) (by simp) left.2
  have hvalue := trim_stripInlineComment right value (isTail_tail after note crlf)
  have hline : k :: (ks ++ left.1 ++ chr '=' :: (right.1 ++ value.1 ++
      (popCr (tail after note ++ cr crlf)).rdropWhile isBlank)) =
      key.1 ++ left.1 ++ chr '=' :: (right.1 ++ value.1 ++
        (popCr (tail after note ++ cr crlf)).rdropWhile isBlank) := by
    rw [hk]
    rfl
  rw [loadLine_cons h, if_neg (by tauto), if_neg hfirst.1, hline, loadEntry_append hmem, hkey,
    hvalue]
  · rfl
  · exact hs
  · rw [hkey]
    exact key.2.1.ne_nil
  · rw [hvalue]
    exact value.2.1.ne_nil
  · rw [hkey]
    exact hnew

/-! ## The loop -/

/-- The entry that is loaded for a place. -/
def Place.entry (p : Place) : Entry := ⟨p.value.1, Int32.ofNat p.line, false⟩

/-- The loop is at line `n`, in the section `current`, and the table holds the entries `ps`. -/
structure Loaded (s : Loading) (current : Option Name) (n : ℕ) (ps : List Place) : Prop where
  lineNo : s.lineNo + 1 = Int32.ofNat n
  hasSection : s.hasSection = current.isSome
  current : ∀ name, current = some name → s.current = name.1
  lastError : s.config.lastError = []
  entry : ∀ name key e, s.config.entry name key = some e ↔
    ∃ p ∈ ps, p.name.1 = name ∧ p.key.1 = key ∧ e = p.entry

variable {current : Option Name} {n : ℕ} {ps done : List Place}

theorem Loaded.start : Loaded ⟨reset, [], false, 0⟩ none 1 [] := by
  refine ⟨rfl, rfl, by simp, rfl, fun name key e => ?_⟩
  simp [Config.entry, table, reset]

theorem entry_put (config : Config) (name key name' key' : Str) (e : Entry) :
    (config.put name key e).entry name' key' =
      if name' = name ∧ key' = key then some e else config.entry name' key' := by
  by_cases hname : name' = name
  · subst hname
    by_cases hkey : key' = key
    · subst hkey
      simp [put, Config.entry, table]
    · simp [put, Config.entry, table, hkey, AList.lookup_insert_ne hkey]
  · simp [put, Config.entry, table, hname, AList.lookup_insert_ne hname]

/-- A line that loads no entry. -/
theorem Loaded.next (h : Loaded s current n ps) : Loaded s.next current (n + 1) ps := by
  refine ⟨?_, h.hasSection, h.current, h.lastError, h.entry⟩
  rw [Loading.next, h.lineNo, Int32.ofNat_add]
  rfl

/-- A header. -/
theorem Loaded.header (h : Loaded s current n ps) (name : Name) :
    Loaded { s.next with current := name.1, hasSection := true } (some name) (n + 1) ps := by
  refine ⟨h.next.lineNo, rfl, fun name' hname => ?_, h.lastError, h.entry⟩
  obtain rfl := Option.some.inj hname
  rfl

/-- A key is in the table of the current section only if it was loaded for it. -/
theorem Loaded.exists_of_mem {name : Name} {key : Key} (h : Loaded s (some name) n ps)
    (hmem : key.1 ∈ s.config.table s.current) : ∃ p ∈ ps, (p.name, p.key) = (name, key) := by
  obtain ⟨e, he⟩ := Option.isSome_iff_exists.1 (AList.lookup_isSome.2 hmem)
  obtain ⟨p, hp, hname, hkey, -⟩ := (h.entry s.current key.1 e).1 he
  rw [h.current name rfl] at hname
  exact ⟨p, hp, Prod.ext (Subtype.ext hname) (Subtype.ext hkey)⟩

/-- A line with an entry. -/
theorem Loaded.put {name : Name} {key : Key} (h : Loaded s (some name) n ps) (value : Value)
    (hnew : ∀ p ∈ ps, (p.name, p.key) ≠ (name, key)) :
    Loaded { s.next with config := s.config.put s.current key.1 ⟨value.1, s.lineNo + 1, false⟩ }
      (some name) (n + 1) (ps ++ [⟨name, key, value, n⟩]) := by
  refine ⟨h.next.lineNo, h.hasSection, h.current, h.lastError, fun name' key' e => ?_⟩
  rw [entry_put, h.lineNo, h.current name rfl]
  simp only [List.mem_append, List.mem_singleton]
  split_ifs with heq
  · obtain ⟨rfl, rfl⟩ := heq
    constructor
    · intro he
      obtain rfl := Option.some.inj he
      exact ⟨_, .inr rfl, rfl, rfl, rfl⟩
    · rintro ⟨p, hp | rfl, hname, hkey, rfl⟩
      · exact absurd (Prod.ext (Subtype.ext hname) (Subtype.ext hkey)) (hnew p hp)
      · rfl
  · rw [h.entry]
    constructor
    · rintro ⟨p, hp, he⟩
      exact ⟨p, .inl hp, he⟩
    · rintro ⟨p, hp | rfl, hname, hkey, he⟩
      · exact ⟨p, hp, hname, hkey, he⟩
      · exact absurd ⟨hname.symm, hkey.symm⟩ heq

/-- **The loop loads the entries of the lines**, in whatever layout they come. -/
theorem loadLines_lines {ls : List (Line × Bool)} (h : Loaded s current n done)
    (hps : places current n (ls.map Prod.fst) = some ps)
    (hnodup : ((done ++ ps).map fun p => (p.name, p.key)).Nodup) :
    ∃ s' current' n', loadLines s (ls.map fun l => l.1.text ++ cr l.2) = .ok s' ∧
      Loaded s' current' n' (done ++ ps) := by
  induction ls generalizing s current n done ps with
  | nil =>
    obtain rfl := Option.some.inj hps
    exact ⟨s, current, n, rfl, by simpa using h⟩
  | cons l ls ih =>
    obtain ⟨l, crlf⟩ := l
    rw [List.map_cons, loadLines]
    cases l with
    | blank pad =>
      rw [loadLine_blank]
      exact ih h.next (by simpa [places] using hps) hnodup
    | comment pad text =>
      rw [loadLine_comment]
      exact ih h.next (by simpa [places] using hps) hnodup
    | header before left name right after note =>
      rw [loadLine_header]
      exact ih (h.header name) (by simpa [places] using hps) hnodup
    | entry before key left right value after note =>
      rcases current with _ | name
      · cases hps
      obtain ⟨ps', hps', rfl⟩ := Option.map_eq_some_iff.1 hps
      have hnew : ∀ p ∈ done, (p.name, p.key) ≠ (name, key) := by
        intro p hp heq
        rw [List.map_append, List.nodup_append] at hnodup
        exact hnodup.2.2 _ (List.mem_map_of_mem hp) _ (List.mem_cons_self) heq
      have hmem : key.1 ∉ s.config.table s.current := fun hmem => by
        obtain ⟨p, hp, heq⟩ := h.exists_of_mem hmem
        exact hnew p hp heq
      rw [loadLine_entry _ _ _ _ _ _ _ h.hasSection hmem]
      have hsplit : done ++ ⟨name, key, value, n⟩ :: ps' =
          done ++ [⟨name, key, value, n⟩] ++ ps' := by
        simp
      rw [hsplit] at hnodup ⊢
      exact ih (h.put value hnew) hps' hnodup

/-! ## The text -/

theorem places_append_blank (pad : Pad) (ls : List Line) :
    places current n (ls ++ [.blank pad]) = places current n ls := by
  induction ls generalizing current n with
  | nil => cases current <;> rfl
  | cons l ls ih => cases current <;> cases l <;> simp [places, ih]

/-- The lines of a text, as `std::getline` reads them, and which lines of the layout they are: a
last line that is empty and has no line end is not read. -/
theorem splitLines_text (L : Layout) :
    ∃ ls : List (Line × Bool),
      splitLines (chr '\n') ((L.lines.flatMap fun l => l.1.text ++ cr l.2 ++ [chr '\n']) ++
        L.last.elim [] Line.text) = ls.map (fun l => l.1.text ++ cr l.2) ∧
      L.places = places none 1 (ls.map Prod.fst) := by
  have hflat : (L.lines.flatMap fun l => l.1.text ++ cr l.2 ++ [chr '\n']) =
      (L.lines.map fun l => l.1.text ++ cr l.2).flatMap fun l => l ++ [chr '\n'] := by
    rw [List.flatMap_map]
  have hsplit : ∀ r, splitLines (chr '\n')
      ((L.lines.flatMap fun l => l.1.text ++ cr l.2 ++ [chr '\n']) ++ r) =
        (L.lines.map fun l => l.1.text ++ cr l.2) ++ splitLines (chr '\n') r := by
    intro r
    rw [hflat, splitLines_flatMap]
    intro l hl
    obtain ⟨l, -, rfl⟩ := List.mem_map.1 hl
    exact not_mem_raw l.1 l.2
  rw [hsplit, Layout.places]
  rcases L.last with _ | l
  · exact ⟨L.lines, by simp [splitLines], by simp⟩
  · by_cases hl : l.text = []
    · refine ⟨L.lines, by simp [hl, splitLines], ?_⟩
      cases l with
      | blank pad => exact places_append_blank pad _
      | comment pad text =>
        obtain ⟨c, r, -, htext⟩ := text.eq_cons
        simp [Line.text, htext] at hl
      | header => simp [Line.text] at hl
      | entry => simp [Line.text] at hl
    · refine ⟨L.lines ++ [(l, false)], ?_, by simp⟩
      rw [Option.elim_some, splitLines_last (fun h => (Line.mem_text h).2 rfl) hl]
      simp [cr]

/-- **`LoadFromString` reads back every layout of a configuration**: it returns `true`, and the
table holds the entries of the configuration, each with the number of its line. -/
theorem loadFromString_text {L : Layout} {m : Sections} (h : L.LaysOut ps m) :
    ∃ config, loadFromString (some L.text) = (true, config) ∧ config.lastError = [] ∧
      (∀ name key e, config.entry name key = some e ↔
        ∃ p ∈ ps, p.name.1 = name ∧ p.key.1 = key ∧ e = ⟨p.value.1, Int32.ofNat p.line, false⟩) ∧
      ∀ name key value, (∃ e, config.entry name key = some e ∧ e.value = value) ↔
        ∃ (name' : Name) (key' : Key) (value' : Value), name'.1 = name ∧ key'.1 = key ∧
          value'.1 = value ∧ m.get name' key' = some value' := by
  obtain ⟨ls, hsplit, hplaces⟩ := splitLines_text L
  set body := (L.lines.flatMap fun l => l.1.text ++ cr l.2 ++ [chr '\n']) ++
    L.last.elim [] Line.text with hbody
  have htext : L.text = (if L.hasBom then bom else []) ++ body := List.append_assoc ..
  have hcursor : (if L.text.take 3 = bom then L.text.drop 3 else L.text) = body := by
    cases hb : L.hasBom with
    | true =>
      rw [hb, if_pos rfl] at htext
      have htake : (bom ++ body).take 3 = bom := rfl
      rw [htext, if_pos htake]
      rfl
    | false =>
      rw [if_neg (L.take_text_ne h.places hb), htext, hb, if_neg (by simp), List.nil_append]
  have hstream : body.takeWhile (· ≠ 0) = body := by
    refine List.takeWhile_eq_self_iff.2 fun c hc => ?_
    simpa using L.mem_text (c := c) (by rw [htext]; exact List.mem_append_right _ hc)
  obtain ⟨s, current, n, hload, hs⟩ := loadLines_lines Loaded.start (hplaces ▸ h.places)
    (by simpa using h.nodup)
  rw [List.nil_append] at hs
  refine ⟨s.config, ?_, hs.lastError, hs.entry, fun name key value => ?_⟩
  · simp only [loadFromString, hcursor, hstream, hsplit, hload]
  · constructor
    · rintro ⟨e, he, rfl⟩
      obtain ⟨p, hp, hname, hkey, rfl⟩ := (hs.entry name key e).1 he
      exact ⟨p.name, p.key, p.value, hname, hkey, rfl, (h.mem _ _ _).2 ⟨p, hp, rfl, rfl, rfl⟩⟩
    · rintro ⟨name', key', value', rfl, rfl, rfl, hm⟩
      obtain ⟨p, hp, rfl, rfl, rfl⟩ := (h.mem _ _ _).1 hm
      exact ⟨p.entry, (hs.entry _ _ _).2 ⟨p, hp, rfl, rfl, rfl⟩, rfl⟩

section Sample

/-- The characters of a text are looked at, and not all bytes. -/
local instance decidableAll (l : Str) (p : UInt8 → Prop) [DecidablePred p] :
    Decidable (∀ c ∈ l, p c) :=
  List.decidableBAll p l

local instance decidableHead (l : Option UInt8) (p : UInt8 → Prop) [DecidablePred p] :
    Decidable (∀ c ∈ l, p c) :=
  Option.decidableForallMem l

/-- Two headers of one section, a comment, a blank line, both line ends, and no last newline. -/
def sample : Layout where
  hasBom := true
  lines := [(.comment empty ⟨str "# run", by decide⟩, true),
    (.header empty space server empty tab none, true),
    (.entry space port space tab value space (some ⟨str "; = [1]", by decide⟩), false),
    (.blank tab, true),
    (.header empty empty server empty empty none, false)]
  last := some (.entry empty label empty empty value empty none)
where
  empty : Pad := ⟨[], by decide⟩
  space : Pad := ⟨str " ", by decide⟩
  tab : Pad := ⟨str "\t ", by decide⟩
  server : Name := ⟨str "Server", ⟨⟨by decide, by decide, by decide⟩, by decide⟩, by decide⟩
  port : Key := ⟨str "Port", ⟨⟨by decide, by decide, by decide⟩, by decide⟩, by decide, by decide⟩
  label : Key := ⟨str "La bel", ⟨⟨by decide, by decide, by decide⟩, by decide⟩, by decide, by decide⟩
  value : Value :=
    ⟨str "a = [b]", ⟨⟨by decide, by decide, by decide⟩, by decide⟩, by decide, by decide⟩

end Sample

theorem loadFromString_sample :
    ∃ config, loadFromString (some sample.text) = (true, config) ∧
      config.entry (str "Server") (str "Port") = some ⟨str "a = [b]", 3, false⟩ ∧
      config.entry (str "Server") (str "La bel") = some ⟨str "a = [b]", 6, false⟩ := by
  have hplaces : sample.places = some [⟨sample.server, sample.port, sample.value, 3⟩,
      ⟨sample.server, sample.label, sample.value, 6⟩] := rfl
  obtain ⟨config, hload, -, hentry, -⟩ :=
    loadFromString_text (Layout.laysOut hplaces (by decide +kernel))
  exact ⟨config, hload, (hentry _ _ _).2 ⟨_, List.mem_cons_self, rfl, rfl, rfl⟩,
    (hentry _ _ _).2 ⟨_, List.mem_cons_of_mem _ List.mem_cons_self, rfl, rfl, rfl⟩⟩

end NetworkLibrary.Config
