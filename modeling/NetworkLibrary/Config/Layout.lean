import NetworkLibrary.Config.LoadFromString
import Mathlib.Data.Finmap

/-!
# The layouts of a configuration

A configuration is a finite map from section names to maps from keys to values (`Sections`). A
`Layout` is a text that may stand for one, line by line, with every freedom the format leaves;
`Layout.places` reads off its entries with their sections and the numbers of their lines, and
`Layout.LaysOut` says that these are the entries of a configuration, each on one line.
-/

namespace NetworkLibrary.Config

open Foundations

/-! ## Words -/

/-- Spaces and tabs. -/
abbrev Pad := {l : Str // ∀ c ∈ l, isBlank c = true}

/-- The names, keys and values: not empty, without NUL, CR or LF, and not padded. -/
structure IsWord (l : Str) : Prop extends Word isBlank l where
  plain : ∀ c ∈ l, c ≠ 0 ∧ c ≠ chr '\r' ∧ c ≠ chr '\n'

/-- The names of sections. -/
abbrev Name := {l : Str // IsWord l ∧ chr ']' ∉ l}

/-- The keys. -/
abbrev Key := {l : Str // IsWord l ∧ chr '=' ∉ l ∧
  ∀ c ∈ l.head?, c ≠ chr '[' ∧ c ≠ chr '#' ∧ c ≠ chr ';'}

/-- The values. -/
abbrev Value := {l : Str // IsWord l ∧ chr ';' ∉ l ∧ chr '#' ∉ l}

/-- The comments, with the character that starts them. -/
abbrev Comment := {l : Str // (l.head? = some (chr '#') ∨ l.head? = some (chr ';')) ∧
  ∀ c ∈ l, c ≠ 0 ∧ c ≠ chr '\n'}

/-- The configurations. -/
abbrev Sections := Finmap fun _ : Name => Finmap fun _ : Key => Value

/-- The value of a key of a section. -/
def Sections.get (m : Sections) (name : Name) (key : Key) : Option Value :=
  (m.lookup name).bind fun keys => keys.lookup key

/-! ## Lines -/

/-- The lines, without their ends. -/
inductive Line
  | blank (pad : Pad)
  | comment (pad : Pad) (text : Comment)
  /-- A section header, maybe with a comment after it. -/
  | header (before left : Pad) (name : Name) (right after : Pad) (note : Option Comment)
  /-- An entry, maybe with a comment after the value. -/
  | entry (before : Pad) (key : Key) (left right : Pad) (value : Value) (after : Pad)
    (note : Option Comment)

/-- What follows a header or a value. -/
def tail (after : Pad) (note : Option Comment) : Str := after.1 ++ note.elim [] Subtype.val

/-- The text of a line. -/
def Line.text : Line → Str
  | .blank pad => pad.1
  | .comment pad text => pad.1 ++ text.1
  | .header before left name right after note =>
    before.1 ++ chr '[' :: (left.1 ++ name.1 ++ right.1 ++ chr ']' :: tail after note)
  | .entry before key left right value after note =>
    before.1 ++ key.1 ++ left.1 ++ chr '=' :: (right.1 ++ value.1 ++ tail after note)

/-- The `\r` of a line end, or none. -/
def cr (crlf : Bool) : Str := if crlf then [chr '\r'] else []

/-- A text: maybe a BOM, the lines that a line end of either kind ends, and maybe a last line
without one. -/
structure Layout where
  hasBom : Bool
  lines : List (Line × Bool)
  last : Option Line

/-- The bytes of a text. -/
def Layout.text (L : Layout) : Str :=
  (if L.hasBom then bom else []) ++
    (L.lines.flatMap fun l => l.1.text ++ cr l.2 ++ [chr '\n']) ++ L.last.elim [] Line.text

/-- An entry, with its section and the number of its line. -/
structure Place where
  name : Name
  key : Key
  value : Value
  line : ℕ

/-- The entries of the lines from number `n` on, where `current` is the section before them; none
where an entry comes before the first header. -/
def places : Option Name → ℕ → List Line → Option (List Place)
  | _, _, [] => some []
  | current, n, .blank _ :: ls | current, n, .comment _ _ :: ls => places current (n + 1) ls
  | _, n, .header _ _ name _ _ _ :: ls => places (some name) (n + 1) ls
  | none, _, .entry .. :: _ => none
  | some name, n, .entry _ key _ _ value _ _ :: ls =>
    (places (some name) (n + 1) ls).map fun ps => ⟨name, key, value, n⟩ :: ps

/-- The entries of a text. -/
def Layout.places (L : Layout) : Option (List Place) :=
  Config.places none 1 (L.lines.map Prod.fst ++ L.last.toList)

/-- The text lays a configuration out, with the entries at the given places: no section and key
come twice, and the entries are those of the configuration. -/
structure Layout.LaysOut (L : Layout) (ps : List Place) (m : Sections) : Prop where
  places : L.places = some ps
  nodup : (ps.map fun p => (p.name, p.key)).Nodup
  mem : ∀ name key value, m.get name key = some value ↔
    ∃ p ∈ ps, p.name = name ∧ p.key = key ∧ p.value = value

/-- The configuration with one more entry. -/
def Sections.put (m : Sections) (name : Name) (key : Key) (value : Value) : Sections :=
  m.insert name (((m.lookup name).getD ∅).insert key value)

theorem Sections.get_put (m : Sections) (name name' : Name) (key key' : Key) (value : Value) :
    (m.put name key value).get name' key' =
      if name' = name ∧ key' = key then some value else m.get name' key' := by
  rw [put, get, get]
  by_cases hname : name' = name
  · subst hname
    rw [Finmap.lookup_insert, Option.bind_some]
    by_cases hkey : key' = key
    · subst hkey
      simp
    · rw [Finmap.lookup_insert_of_ne _ hkey, if_neg (by tauto)]
      cases m.lookup name' <;> rfl
  · rw [Finmap.lookup_insert_of_ne _ hname, if_neg (by tauto)]

/-- Every text in which no section and key come twice lays out a configuration. -/
theorem Layout.laysOut {L : Layout} {ps : List Place} (h : L.places = some ps)
    (hnodup : (ps.map fun p => (p.name, p.key)).Nodup) :
    L.LaysOut ps (ps.foldr (fun p m => Sections.put m p.name p.key p.value) ∅) := by
  refine ⟨h, hnodup, fun name key value => ?_⟩
  clear h
  induction ps with
  | nil => simp [Sections.get]
  | cons p ps ih =>
    rw [List.map_cons, List.nodup_cons] at hnodup
    have hnew : ∀ q ∈ ps, ¬(q.name = p.name ∧ q.key = p.key) := fun q hq heq =>
      hnodup.1 (List.mem_map.2 ⟨q, hq, Prod.ext heq.1 heq.2⟩)
    rw [List.foldr_cons, Sections.get_put]
    split_ifs with heq
    · obtain ⟨rfl, rfl⟩ := heq
      constructor
      · intro hv
        obtain rfl := Option.some.inj hv
        exact ⟨p, List.mem_cons_self, rfl, rfl, rfl⟩
      · rintro ⟨q, hq, hname, hkey, rfl⟩
        rcases List.mem_cons.1 hq with rfl | hq
        · rfl
        · exact absurd ⟨hname, hkey⟩ (hnew q hq)
    · rw [ih hnodup.2]
      constructor
      · rintro ⟨q, hq, he⟩
        exact ⟨q, List.mem_cons_of_mem _ hq, he⟩
      · rintro ⟨q, hq, hname, hkey, hv⟩
        rcases List.mem_cons.1 hq with rfl | hq
        · exact absurd ⟨hname.symm, hkey.symm⟩ heq
        · exact ⟨q, hq, hname, hkey, hv⟩

/-! ## The characters of a line -/

theorem isBlank_eq {c : UInt8} (h : isBlank c = true) : c = chr ' ' ∨ c = chr '\t' := by
  simpa [isBlank] using h

theorem IsWord.ne {l : Str} (h : IsWord l) {c : UInt8} (hc : c ∈ l) : c ≠ 0 ∧ c ≠ chr '\n' :=
  ⟨(h.plain c hc).1, (h.plain c hc).2.2⟩

theorem Pad.ne (pad : Pad) {c d : UInt8} (hc : c ∈ pad.1) (hd : isBlank d = false) : c ≠ d := by
  rintro rfl
  exact absurd (pad.2 c hc) (by simp [hd])

theorem mem_tail {after : Pad} {note : Option Comment} {c : UInt8} (h : c ∈ tail after note) :
    c ≠ 0 ∧ c ≠ chr '\n' := by
  rcases List.mem_append.1 h with h | h
  · exact ⟨after.ne h (by decide), after.ne h (by decide)⟩
  · cases note with
    | none => exact absurd h List.not_mem_nil
    | some note => exact note.2.2 c h

/-- No line holds a NUL or ends another line. -/
theorem Line.mem_text {l : Line} {c : UInt8} (h : c ∈ l.text) : c ≠ 0 ∧ c ≠ chr '\n' := by
  have hpad : ∀ pad : Pad, c ∈ pad.1 → c ≠ 0 ∧ c ≠ chr '\n' := fun pad h =>
    ⟨pad.ne h (by decide), pad.ne h (by decide)⟩
  cases l with
  | blank pad => exact hpad pad h
  | comment pad text =>
    rcases List.mem_append.1 h with h | h
    · exact hpad pad h
    · exact text.2.2 c h
  | header before left name right after note =>
    simp only [text, List.mem_append, List.mem_cons] at h
    rcases h with h | rfl | ((h | h) | h) | rfl | h
    · exact hpad before h
    · decide
    · exact hpad left h
    · exact name.2.1.ne h
    · exact hpad right h
    · decide
    · exact mem_tail h
  | entry before key left right value after note =>
    simp only [text, List.mem_append, List.mem_cons] at h
    rcases h with ((h | h) | h) | rfl | (h | h) | h
    · exact hpad before h
    · exact key.2.1.ne h
    · exact hpad left h
    · decide
    · exact hpad right h
    · exact value.2.1.ne h
    · exact mem_tail h

theorem not_mem_raw (l : Line) (crlf : Bool) : chr '\n' ∉ l.text ++ cr crlf := by
  intro h
  rcases List.mem_append.1 h with h | h
  · exact (Line.mem_text h).2 rfl
  · cases crlf
    · exact absurd h List.not_mem_nil
    · exact absurd (List.mem_singleton.1 h) (by decide)

/-- A text holds no NUL. -/
theorem Layout.mem_text {L : Layout} {c : UInt8} (h : c ∈ L.text) : c ≠ 0 := by
  simp only [text, List.mem_append, List.mem_flatMap] at h
  rcases h with (h | ⟨l, -, (h | h) | h⟩) | h
  · split at h
    · simp only [bom, List.mem_cons, List.not_mem_nil, or_false] at h
      rcases h with rfl | rfl | rfl <;> decide
    · exact absurd h List.not_mem_nil
  · exact (Line.mem_text h).1
  · rw [cr] at h
    split at h
    · obtain rfl := List.mem_singleton.1 h
      decide
    · exact absurd h List.not_mem_nil
  · obtain rfl := List.mem_singleton.1 h
    decide
  · cases hl : L.last with
    | none => simp [hl] at h
    | some l =>
      rw [hl] at h
      exact (Line.mem_text h).1

/-! ## The first character of a text -/

/-- A line that is no entry does not begin like the BOM. -/
theorem head_text_ne {l : Line} {ls : List Line} {n : ℕ} {ps : List Place}
    (h : Config.places none n (l :: ls) = some ps) {r : Str} (hr : r.head? ≠ some 0xEF) :
    (l.text ++ r).head? ≠ some 0xEF := by
  have hpad : ∀ (pad : Pad) (r : Str), r.head? ≠ some 0xEF → (pad.1 ++ r).head? ≠ some 0xEF := by
    rintro ⟨_ | ⟨c, pad⟩, hp⟩ r hr
    · exact hr
    · rw [List.cons_append, List.head?_cons]
      rcases isBlank_eq (hp c (by simp)) with rfl | rfl <;> decide
  cases l with
  | blank pad => exact hpad pad r hr
  | comment pad text =>
    rw [Line.text, List.append_assoc]
    refine hpad pad _ ?_
    rw [List.head?_append]
    rcases text.2.1 with h | h <;> rw [h, Option.some_or] <;> decide
  | header before left name right after note =>
    rw [Line.text, List.append_assoc]
    refine hpad before _ ?_
    rw [List.cons_append, List.head?_cons]
    decide
  | entry => cases h

/-- Without a BOM, a text does not begin with one. -/
theorem Layout.take_text_ne {L : Layout} {ps : List Place} (h : L.places = some ps)
    (hb : L.hasBom = false) : L.text.take 3 ≠ bom := by
  have hne : L.text.head? ≠ some 0xEF := by
    rw [text, if_neg (by simp [hb]), List.nil_append]
    rw [Layout.places] at h
    rcases hl : L.lines with _ | ⟨⟨l, crlf⟩, ls⟩
    · rw [hl] at h
      rcases hlast : L.last with _ | l
      · simp
      · rw [hlast] at h
        have := head_text_ne h (r := []) (by simp)
        simpa using this
    · rw [hl] at h
      simp only [List.flatMap_cons, List.append_assoc]
      refine head_text_ne h ?_
      cases crlf
      · rw [cr, if_neg (by simp), List.nil_append, List.singleton_append, List.head?_cons]
        decide
      · rw [cr, if_pos rfl, List.singleton_append, List.head?_cons]
        decide
  intro htake
  have hhead : (L.text.take 3).head? = L.text.head? := by rw [List.head?_take, if_neg (by decide)]
  rw [htake] at hhead
  exact hne hhead.symm

end NetworkLibrary.Config
