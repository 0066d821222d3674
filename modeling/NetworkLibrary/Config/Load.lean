import NetworkLibrary.Config.Accepted

/-!
# `Config::Load`, and what it leaves out

`Load` hands the content of the file over as a C string. A file that it accepts may still say more
than the table holds: what follows the `]` of a header is not looked at, and what follows a NUL is
not there any more. Nothing else is left out (`nothingIgnored_iff`).
-/

namespace NetworkLibrary.Config

open Foundations

/-- `Load`: what it returns, and the object after it. `files` are the files that can be opened. -/
def load (files : Str → Option Str) (path : Option Str) : Bool × Config :=
  match path with
  | none => (false, reset.fail 0 "null config path" [])
  | some path =>
    match files path with
    | none => (false, reset.fail 0 "cannot open config file" path)
    | some text => loadFromString (some (text ++ [0]))

/-- The lines of a file, after an optional BOM. -/
def fileLines (text : Str) : List Str :=
  splitLines (chr '\n') (if text.take 3 = bom then text.drop 3 else text)

/-- Nothing but blanks, or a comment. -/
def IsRemark (rest : Str) : Prop := ∀ c ∈ (trim rest).head?, c = chr '#' ∨ c = chr ';'

/-- All that the lines say is in the configuration; `current` is the section that they are in, and
`seen` are the sections and keys of the entries before them. -/
def Accounted (config : Config) : Option Str → List (Str × Str) → List Str → Prop
  | _, _, [] => True
  | current, seen, line :: lines =>
    match kind line with
    | .skipped => Accounted config current seen lines
    | .header name rest => (name ≠ [] ∧ IsRemark rest) ∧ Accounted config (some name) seen lines
    | .entry key value => ∃ section_, current = some section_ ∧
      (∃ e, config.entry section_ key = some e ∧ e.value = value) ∧ (section_, key) ∉ seen ∧
        Accounted config current ((section_, key) :: seen) lines
    | .malformed _ => False

/-- **Nothing in the file is silently ignored.** -/
def NothingIgnored (text : Str) (config : Config) : Prop := Accounted config none [] (fileLines text)

/-- A header has a name, and nothing stands behind its `]`. -/
def Kind.IsClean : Kind → Prop
  | .header name rest => name ≠ [] ∧ IsRemark rest
  | _ => True

/-- Every header has a name and nothing behind it, and what is neither blank nor a comment nor a
header has no NUL in it or before it. -/
structure Plain (lines : List Str) : Prop where
  header : ∀ line ∈ lines, (kind line).IsClean
  nul : ∀ before line after text, lines = before ++ line :: after →
    (kind line).content = some text → 0 ∉ before.flatten ∧ 0 ∉ text

variable {s s' : Loading} {l r w u line text : Str} {lines ls rs : List Str} {c : UInt8}
  {config : Config} {current : Option Str} {seen : List (Str × Str)}

/-! ## Accepted lines are accounted for -/

/-- The loop is in the section `current`, and the table holds entries for `seen`. -/
structure Tracks (s : Loading) (current : Option Str) (seen : List (Str × Str)) : Prop where
  hasSection : s.hasSection = current.isSome
  current : ∀ name, current = some name → s.current = name
  entry : ∀ name key, (∃ e, s.config.entry name key = some e) ↔ (name, key) ∈ seen

theorem Tracks.start : Tracks ⟨reset, [], false, 0⟩ none [] := by
  refine ⟨rfl, fun name h => absurd h.symm (Option.some_ne_none name), fun name key => ?_⟩
  simp [Config.entry, table, reset]

/-- The entries stay. -/
def Extends (config config' : Config) : Prop :=
  ∀ name key e, config.entry name key = some e → config'.entry name key = some e

theorem Accepts.extends (h : Accepts s line s') : Extends s.config s'.config := by
  cases h with
  | skipped | header => exact fun _ _ _ he => he
  | entry hkind hs hkey hvalue hnew =>
    intro name key' e he
    rw [entry_put, if_neg]
    · exact he
    · rintro ⟨rfl, rfl⟩
      exact hnew (AList.lookup_isSome.1 (by rw [← Config.entry, he]; rfl))

theorem loadLines_extends (h : loadLines s lines = .ok s') : Extends s.config s'.config :=
  loadLines_induction (P := fun t => Extends s.config t.config) h
    (fun _ _ _ _ hs ht name key e he => ht.extends name key e (hs name key e he)) fun _ _ _ he => he

/-- The loop after an entry. -/
def Loading.entered (s : Loading) (key value : Str) : Loading :=
  { s.next with config := s.config.put s.current key ⟨value, s.lineNo + 1, false⟩ }

/-- An entry that is loaded is a new one, in the section that the loop is in. -/
theorem Tracks.entered (ht : Tracks s current seen) (hs : s.hasSection = true) {key : Str}
    (hnew : key ∉ s.config.table s.current) (value : Str) :
    current = some s.current ∧ (s.current, key) ∉ seen ∧
      (s.entered key value).config.entry s.current key = some ⟨value, s.lineNo + 1, false⟩ ∧
        Tracks (s.entered key value) current ((s.current, key) :: seen) := by
  obtain ⟨section_, rfl⟩ := Option.isSome_iff_exists.1 (ht.hasSection.symm.trans hs)
  obtain rfl := ht.current section_ rfl
  have hput := entry_put s.config s.current key s.current key ⟨value, s.lineNo + 1, false⟩
  rw [if_pos ⟨rfl, rfl⟩] at hput
  have hseen : (s.current, key) ∉ seen := fun hmem => by
    obtain ⟨e, he⟩ := (ht.entry _ _).2 hmem
    exact hnew (AList.lookup_isSome.1 (by rw [← Config.entry, he]; rfl))
  refine ⟨rfl, hseen, hput, ht.hasSection, ht.current, fun name key' => ?_⟩
  simp only [Loading.entered, entry_put, List.mem_cons, Prod.mk.injEq]
  split_ifs with heq
  · simp [heq]
  · simp [heq, ht.entry]

/-- **An accepted line is accounted for if nothing stands behind a header.** -/
theorem Accepts.accounted (h : Accepts s line s') (ht : Tracks s current seen) :
    ∃ current' seen', Tracks s' current' seen' ∧ ∀ config lines, Extends s'.config config →
      (Accounted config current seen (line :: lines) ↔
        (kind line).IsClean ∧ Accounted config current' seen' lines) := by
  cases h with
  | skipped hkind =>
    refine ⟨current, seen, ⟨ht.hasSection, ht.current, ht.entry⟩, fun config lines _ => ?_⟩
    rw [Accounted, hkind]
    exact (and_iff_right trivial).symm
  | @header name rest hkind hname =>
    refine ⟨some name, seen, ⟨rfl, fun _ h => Option.some.inj h, ht.entry⟩, fun config lines _ => ?_⟩
    rw [Accounted, hkind]
    rfl
  | @entry key value hkind hs hkey hvalue hnew =>
    obtain ⟨rfl, hseen, hput, ht'⟩ := ht.entered hs hnew value
    refine ⟨_, _, ht', fun config lines hconfig => ?_⟩
    rw [Accounted, hkind]
    constructor
    · rintro ⟨section_, hsection, -, -, hrest⟩
      obtain rfl := Option.some.inj hsection
      exact ⟨trivial, hrest⟩
    · rintro ⟨-, hrest⟩
      exact ⟨_, rfl, ⟨_, hconfig _ _ _ hput, rfl⟩, hseen, hrest⟩

theorem loadLines_accounted (h : loadLines s ls = .ok s') (ht : Tracks s current seen) :
    ∃ current' seen', Tracks s' current' seen' ∧ ∀ config lines, Extends s'.config config →
      (Accounted config current seen (ls ++ lines) ↔
        (∀ line ∈ ls, (kind line).IsClean) ∧ Accounted config current' seen' lines) := by
  induction ls generalizing s current seen with
  | nil =>
    obtain rfl := Except.ok.inj h
    exact ⟨current, seen, ht, fun config lines _ => by simp⟩
  | cons line ls ih =>
    rw [loadLines] at h
    cases hline : loadLine s line with
    | error config =>
      rw [hline] at h
      cases h
    | ok s₁ =>
      rw [hline] at h
      obtain ⟨current₁, seen₁, ht₁, hone⟩ := (accepts_of_ok hline).accounted ht
      obtain ⟨current', seen', ht', hrest⟩ := ih h ht₁
      refine ⟨current', seen', ht', fun config lines hconfig => ?_⟩
      have hconfig₁ : Extends s₁.config config := fun name key e he =>
        hconfig name key e (loadLines_extends h name key e he)
      rw [List.cons_append, hone config _ hconfig₁, hrest config lines hconfig,
        List.forall_mem_cons, and_assoc]

/-- Lines that were not loaded are accounted for only if there is nothing in them. -/
theorem Tracks.accounted_iff (ht : Tracks s current seen) (current' : Option Str)
    (lines : List Str) :
    Accounted s.config current' seen lines ↔
      ∀ line ∈ lines, (kind line).IsClean ∧ (kind line).content = none := by
  induction lines generalizing current' with
  | nil => simp [Accounted]
  | cons line lines ih =>
    rw [Accounted, List.forall_mem_cons]
    cases hkind : kind line with
    | skipped => simp [Kind.IsClean, Kind.content, ih]
    | header name rest => simp [Kind.IsClean, Kind.content, ih]
    | malformed line => simp [Kind.content]
    | entry key value =>
      refine iff_of_false ?_ fun h => Option.some_ne_none _ h.1.2
      rintro ⟨section_, -, ⟨e, he, -⟩, hnew, -⟩
      exact hnew ((ht.entry _ _).1 ⟨e, he⟩)

/-! ## The line with the NUL -/

theorem mem_trim (hc : isBlank c = false) (h : c ∈ l) : c ∈ trim l := by
  obtain ⟨a, b, rfl⟩ := List.append_of_mem h
  rw [trim, strip_append hc]
  simp

/-- `Trim` and the `\r` take nothing but blanks and this from a line, unless a NUL comes after it. -/
theorem exists_trim_popCr (l r : Str) : ∃ t r', (∀ c ∈ t, isBlank c = true ∨ c = chr '\r') ∧
    trim (popCr (l ++ 0 :: r)) = trim (popCr l) ++ t ++ 0 :: r' := by
  obtain ⟨e, he, hl⟩ : ∃ e : Str, (e = [] ∨ e = [chr '\r']) ∧ l = popCr l ++ e := by
    rw [popCr]
    split
    · rename_i hlast
      exact ⟨[chr '\r'], .inr rfl, (List.dropLast_append_getLast? _ hlast).symm⟩
    · exact ⟨[], .inl rfl, (List.append_nil l).symm⟩
  have hdrop : l.dropWhile isBlank = (popCr l).dropWhile isBlank ++ e := by
    conv_lhs => rw [hl, List.dropWhile_append]
    split_ifs with hnil
    · rw [List.isEmpty_iff.1 hnil, List.nil_append]
      rcases he with rfl | rfl <;> rfl
    · rfl
  refine ⟨((popCr l).dropWhile isBlank).rtakeWhile isBlank ++ e, (popCr r).rdropWhile isBlank, ?_, ?_⟩
  · intro c hc
    rcases List.mem_append.1 hc with hc | hc
    · exact .inl (List.mem_rtakeWhile_imp hc)
    · rcases he with rfl | rfl
      · exact absurd hc List.not_mem_nil
      · exact .inr (List.mem_singleton.1 hc)
  · rw [popCr_append_cons (by decide), trim, strip_append (by decide), hdrop, trim, strip,
      ← List.append_assoc, List.rdropWhile_append_rtakeWhile]

/-- A character is found where it was, if the text goes on. -/
theorem findIdx?_append_of_some {k : ℕ} (h : l.findIdx? (· = c) = some k) (u : Str) :
    (l ++ u).findIdx? (· = c) = some k ∧ k < l.length := by
  rw [List.findIdx?_append, h]
  exact ⟨rfl, (List.findIdx?_eq_some_iff_getElem.1 h).1⟩

/-- A line that says something goes on. -/
theorem kindOf_append (hw : w ≠ []) (u : Str) :
    (kindOf w = .skipped → kindOf (w ++ u) = .skipped) ∧
    (∀ name rest, kindOf w = .header name rest → kindOf (w ++ u) = .header name (rest ++ u)) ∧
    ∀ key value, kindOf w = .entry key value → ∃ v, (∀ c ∈ v, c ∈ w) ∧
      value = trim (stripInlineComment v) ∧
        kindOf (w ++ u) = .entry key (trim (stripInlineComment (v ++ u))) := by
  obtain ⟨c, r, rfl⟩ := List.exists_cons_of_ne_nil hw
  rw [List.cons_append, kindOf_cons, kindOf_cons, ← List.cons_append]
  split_ifs with hcomment hbracket
  · refine ⟨fun _ => rfl, fun _ _ h => ?_, fun _ _ h => ?_⟩ <;> cases h
  · cases hclose : (c :: r).findIdx? (· = chr ']') with
    | none => refine ⟨fun h => ?_, fun _ _ h => ?_, fun _ _ h => ?_⟩ <;> cases h
    | some close =>
      obtain ⟨hu, hlt⟩ := findIdx?_append_of_some hclose u
      rw [List.length_cons] at hlt
      rw [hu]
      refine ⟨fun h => ?_, fun name rest h => ?_, fun _ _ h => ?_⟩
      · cases h
      swap
      · cases h
      obtain ⟨rfl, rfl⟩ := Kind.header.inj h
      have htake : ((c :: r ++ u).drop 1).take (close - 1) = ((c :: r).drop 1).take (close - 1) := by
        rw [List.drop_append_of_le_length (by simp), List.take_append_of_le_length (by simp; omega)]
      simp only [htake]
      rw [List.drop_append_of_le_length (by simp; omega)]
  · cases heq : (c :: r).findIdx? (· = chr '=') with
    | none => refine ⟨fun h => ?_, fun _ _ h => ?_, fun _ _ h => ?_⟩ <;> cases h
    | some eq =>
      obtain ⟨hu, hlt⟩ := findIdx?_append_of_some heq u
      rw [hu]
      refine ⟨fun h => ?_, fun _ _ h => ?_, fun key value h => ?_⟩
      · cases h
      · cases h
      obtain ⟨rfl, rfl⟩ := Kind.entry.inj h
      refine ⟨(c :: r).drop (eq + 1), fun d hd => List.mem_of_mem_drop hd, rfl, ?_⟩
      simp only
      rw [List.take_append_of_le_length hlt.le, List.drop_append_of_le_length hlt]

/-- What stands before the first `=` of a line whose first characters are none. -/
theorem length_le_of_findIdx? {k : ℕ} (h : (l ++ r).findIdx? (· = c) = some k) (hl : c ∉ l) :
    l.length ≤ k := by
  by_contra hlt
  obtain ⟨hk, hc, -⟩ := List.findIdx?_eq_some_iff_getElem.1 h
  rw [List.getElem_append_left (not_le.1 hlt)] at hc
  exact hl (of_decide_eq_true hc ▸ List.getElem_mem _)

/-- **A line that says nothing still says nothing, or something with the NUL in it.** -/
theorem zero_mem_of_content (h : (kind l).content = none)
    (htext : (kind (l ++ 0 :: r)).content = some text) : 0 ∈ text := by
  obtain ⟨t, r', ht, htrim⟩ := exists_trim_popCr l r
  rw [kind] at h htext
  rw [htrim, List.append_assoc] at htext
  by_cases hw : trim (popCr l) = []
  · rw [hw, List.nil_append] at htext
    have hfirst : ∀ c ∈ t ++ [0], c ≠ chr '#' ∧ c ≠ chr ';' ∧ c ≠ chr '[' ∧ c ≠ chr '=' := by
      intro c hc
      rcases List.mem_append.1 hc with hc | hc
      · rcases ht c hc with hc | rfl
        · rcases isBlank_eq hc with rfl | rfl <;> decide
        · decide
      · obtain rfl := List.mem_singleton.1 hc
        decide
    have heq : chr '=' ∉ t ++ [0] := fun hmem => (hfirst _ hmem).2.2.2 rfl
    have hline : t ++ 0 :: r' = (t ++ [0]) ++ r' := by simp
    rw [hline] at htext
    obtain ⟨d, a, hd⟩ := List.exists_cons_of_ne_nil (l := t ++ [0]) (by simp)
    obtain ⟨h₁, h₂, h₃, -⟩ := hfirst d (by rw [hd]; exact List.mem_cons_self)
    have hzero : (0 : UInt8) ∈ t ++ [0] := by simp
    rw [hd, List.cons_append, kindOf_cons, if_neg (by tauto), if_neg h₃, ← List.cons_append,
      ← hd] at htext
    split at htext
    · obtain rfl := Option.some.inj htext
      exact List.mem_append_left _ hzero
    · rename_i eq hfind
      obtain rfl := Option.some.inj htext
      refine List.mem_append_left _ (mem_trim (by decide) ?_)
      rw [List.take_append, List.take_of_length_le (length_le_of_findIdx? hfind heq)]
      exact List.mem_append_left _ hzero
  · obtain ⟨hskipped, hheader, -⟩ := kindOf_append hw (t ++ 0 :: r')
    cases hkind : kindOf (trim (popCr l)) with
    | skipped =>
      rw [hskipped hkind] at htext
      cases htext
    | header name rest =>
      rw [hheader name rest hkind] at htext
      cases htext
    | entry key value =>
      rw [hkind] at h
      cases h
    | malformed line =>
      rw [hkind] at h
      cases h

/-- **An entry with a NUL behind it** has the same key, and the same value if the NUL is in the
comment. -/
theorem kind_append_of_entry {key value : Str} (h : kind l = .entry key value) (hl : 0 ∉ l)
    (r : Str) : ∃ value', kind (l ++ 0 :: r) = .entry key value' ∧ (value = value' ↔ 0 ∉ value') := by
  obtain ⟨t, r', ht, htrim⟩ := exists_trim_popCr l r
  have hw : trim (popCr l) ≠ [] := fun hw => by
    rw [kind, hw] at h
    cases h
  obtain ⟨v, hv, rfl, hkind⟩ := (kindOf_append hw (t ++ 0 :: r')).2.2 key value h
  have hv0 : 0 ∉ v := fun h0 => hl (mem_of_mem_popCr (mem_of_mem_trim (hv 0 h0)))
  have hvalue : 0 ∉ trim (stripInlineComment v) := fun h0 =>
    hv0 ((List.takeWhile_prefix _).mem (mem_of_mem_trim h0))
  refine ⟨_, by rw [kind, htrim, List.append_assoc, hkind], ?_⟩
  by_cases hcomment : ∀ c ∈ v, c ≠ chr ';' ∧ c ≠ chr '#'
  · -- the value goes on to the NUL
    have hzero : 0 ∈ trim (stripInlineComment (v ++ (t ++ 0 :: r'))) := by
      refine mem_trim (by decide) ?_
      have hplain : ∀ c ∈ v ++ t ++ [0], decide (c ≠ chr ';' ∧ c ≠ chr '#') = true := by
        intro c hc
        simp only [List.mem_append, List.mem_singleton] at hc
        rcases hc with (hc | hc) | rfl
        · exact decide_eq_true (hcomment c hc)
        · rcases ht c hc with hc | rfl
          · rcases isBlank_eq hc with rfl | rfl <;> decide
          · decide
        · decide
      have hline : v ++ (t ++ 0 :: r') = (v ++ t ++ [0]) ++ r' := by simp
      rw [stripInlineComment, hline, List.takeWhile_append_of_pos hplain]
      simp
    refine iff_of_false (fun heq => hvalue ?_) (not_not.2 hzero)
    rw [heq]
    exact hzero
  · have hsame : stripInlineComment (v ++ (t ++ 0 :: r')) = stripInlineComment v := by
      rw [stripInlineComment, List.takeWhile_append, if_neg]
      · rfl
      · intro hlen
        have hall := List.takeWhile_eq_self_iff.1 ((List.takeWhile_prefix _).eq_of_length hlen)
        exact hcomment fun c hc => of_decide_eq_true (hall c hc)
    rw [hsame]
    exact iff_of_true rfl hvalue

/-! ## The file -/

theorem plain_iff (h : 0 ∉ lines.flatten) :
    Plain lines ↔ ∀ line ∈ lines, (kind line).IsClean := by
  refine ⟨Plain.header, fun hclean => ⟨hclean, fun before line after text hlines htext => ?_⟩⟩
  subst hlines
  rw [List.flatten_append, List.flatten_cons, List.mem_append, List.mem_append, not_or, not_or] at h
  exact ⟨h.1, fun h0 => h.2.1 (mem_of_mem_content htext h0)⟩

theorem plain_append_cons (hls : 0 ∉ ls.flatten) (hl : 0 ∈ l) : Plain (ls ++ l :: rs) ↔
    (∀ line ∈ ls ++ l :: rs, (kind line).IsClean) ∧
      (∀ text, (kind l).content = some text → 0 ∉ text) ∧
        ∀ line ∈ rs, (kind line).content = none := by
  constructor
  · intro h
    refine ⟨h.header, fun text htext => (h.nul ls l rs text rfl htext).2, fun line hline => ?_⟩
    obtain ⟨a, b, rfl⟩ := List.append_of_mem hline
    cases hcontent : (kind line).content with
    | none => rfl
    | some text =>
      refine absurd ?_ (h.nul (ls ++ l :: a) line b text (by simp) hcontent).1
      rw [List.flatten_append, List.flatten_cons]
      exact List.mem_append_right _ (List.mem_append_left _ hl)
  · rintro ⟨hclean, htext, hrs⟩
    refine ⟨hclean, fun before line after text hlines hcontent => ?_⟩
    -- the line is before the one with the NUL, it is that one, or it comes after it
    have hbefore (d : Str) (hd : d ∈ ls) (hcontent : (kind d).content = some text) : 0 ∉ text :=
      fun h0 => hls (List.mem_flatten_of_mem hd (mem_of_mem_content hcontent h0))
    rcases List.append_eq_append_iff.1 hlines with ⟨a, rfl, ha⟩ | ⟨a, rfl, ha⟩
    · cases a with
      | nil =>
        obtain ⟨rfl, -⟩ := List.cons.inj ha
        exact ⟨by simpa using hls, htext text hcontent⟩
      | cons d a =>
        obtain ⟨rfl, rfl⟩ := List.cons.inj ha
        exact absurd hcontent (by rw [hrs line (by simp)]; exact (Option.some_ne_none _).symm)
    · cases a with
      | nil =>
        obtain ⟨rfl, -⟩ := List.cons.inj ha
        exact ⟨by simpa using hls, htext text hcontent⟩
      | cons d a =>
        obtain ⟨rfl, rfl⟩ := List.cons.inj ha
        refine ⟨fun h0 => hls ?_, hbefore line (by simp) hcontent⟩
        rw [List.flatten_append]
        exact List.mem_append_left _ h0

theorem takeWhile_append_zero (l : Str) : (l ++ [0]).takeWhile (· ≠ 0) = l.takeWhile (· ≠ 0) := by
  rw [List.takeWhile_append]
  split_ifs with h
  · rw [(List.takeWhile_prefix _).eq_of_length h]
    simp
  · rfl

/-- The BOM is found in front of the NUL. -/
theorem stream_eq (text : Str) :
    (if (text ++ [0]).take 3 = bom then (text ++ [0]).drop 3 else text ++ [0]).takeWhile (· ≠ 0) =
      (if text.take 3 = bom then text.drop 3 else text).takeWhile (· ≠ 0) := by
  have hbom : (text ++ [0]).take 3 = bom ↔ text.take 3 = bom := by
    constructor
    · intro h
      have hprefix : bom <+: text ++ [0] := h ▸ List.take_prefix 3 _
      rcases List.prefix_concat_iff.1 hprefix with heq | hprefix
      · exact absurd (heq ▸ (by simp) : (0 : UInt8) ∈ bom) (by decide)
      · exact (List.prefix_iff_eq_take.1 hprefix).symm
    · intro h
      have hprefix : bom <+: text ++ [0] := (h ▸ List.take_prefix 3 text).trans (List.prefix_append ..)
      exact (List.prefix_iff_eq_take.1 hprefix).symm
  by_cases h : text.take 3 = bom
  · have hlen : 3 ≤ text.length := by
      have := congrArg List.length h
      rw [List.length_take] at this
      exact min_eq_left_iff.1 this
    rw [if_pos (hbom.2 h), if_pos h, List.drop_append_of_le_length hlen, takeWhile_append_zero]
  · rw [if_neg fun h' => h (hbom.1 h'), if_neg h, takeWhile_append_zero]

theorem loadLines_append (h : loadLines s (ls ++ lines) = .ok s') :
    ∃ s₁, loadLines s ls = .ok s₁ ∧ loadLines s₁ lines = .ok s' := by
  induction ls generalizing s with
  | nil => exact ⟨s, rfl, h⟩
  | cons line ls ih =>
    rw [List.cons_append, loadLines] at h
    rw [loadLines]
    cases hline : loadLine s line with
    | error config =>
      rw [hline] at h
      cases h
    | ok s₁ =>
      rw [hline] at h
      exact ih h

/-- The line with the NUL, where the loop has seen nothing of it that counts. -/
theorem Tracks.accounted_of_quiet (ht : Tracks s current seen) (hl : (kind l).content = none) :
    Accounted s.config current seen ((l ++ 0 :: r) :: rs) ↔
      (∀ line ∈ (l ++ 0 :: r) :: rs, (kind line).IsClean) ∧
        (∀ text, (kind (l ++ 0 :: r)).content = some text → 0 ∉ text) ∧
          ∀ line ∈ rs, (kind line).content = none := by
  have hcontent : (kind (l ++ 0 :: r)).content = none ↔
      ∀ text, (kind (l ++ 0 :: r)).content = some text → 0 ∉ text := by
    constructor
    · intro h text htext
      exact absurd (h.symm.trans htext) (Option.some_ne_none text).symm
    · intro h
      cases htext : (kind (l ++ 0 :: r)).content with
      | none => rfl
      | some text => exact absurd (zero_mem_of_content hl htext) (h text htext)
  rw [ht.accounted_iff, ← hcontent]
  simp only [List.forall_mem_cons, forall_and]

/-- The line with the NUL, where the loop has taken an entry from it. -/
theorem Tracks.accounted_of_entry (ht : Tracks s current seen) (hl : 0 ∉ l) {key value : Str}
    (hkind : kind l = .entry key value) (hs : s.hasSection = true)
    (hnew : key ∉ s.config.table s.current) :
    Accounted (s.entered key value).config current seen ((l ++ 0 :: r) :: rs) ↔
      (∀ line ∈ (l ++ 0 :: r) :: rs, (kind line).IsClean) ∧
        (∀ text, (kind (l ++ 0 :: r)).content = some text → 0 ∉ text) ∧
          ∀ line ∈ rs, (kind line).content = none := by
  obtain ⟨value', hkind', hiff⟩ := kind_append_of_entry hkind hl r
  obtain ⟨rfl, hseen, hput, ht'⟩ := ht.entered hs hnew value
  have hkey : 0 ∉ key := fun h0 =>
    hl (mem_of_mem_content (by rw [hkind]; rfl) (List.mem_append_left value h0))
  have hrest := ht'.accounted_iff (some s.current) rs
  rw [Accounted, List.forall_mem_cons, hkind']
  constructor
  · rintro ⟨section_, hsection, ⟨e, he, hvalue⟩, -, hacc⟩
    obtain rfl := Option.some.inj hsection
    obtain rfl := Option.some.inj (hput.symm.trans he)
    have hrest := hrest.1 hacc
    refine ⟨⟨trivial, fun line hline => (hrest line hline).1⟩, fun text htext => ?_,
      fun line hline => (hrest line hline).2⟩
    obtain rfl := Option.some.inj htext
    rw [List.mem_append, not_or]
    exact ⟨hkey, hiff.1 hvalue⟩
  · rintro ⟨⟨-, hclean⟩, htext, hcontent⟩
    have hvalue : value = value' := hiff.2 fun h0 => htext _ rfl (List.mem_append_right key h0)
    exact ⟨_, rfl, ⟨_, hput, hvalue⟩, hseen,
      hrest.2 fun line hline => ⟨hclean line hline, hcontent line hline⟩⟩

/-- **The loop on a text that a NUL follows**: what the rest of the file says is accounted for exactly
if it is plain. -/
theorem loadLines_nul {a b : Str} (ha : 0 ∉ a)
    (hload : loadLines ⟨reset, [], false, 0⟩ (splitLines (chr '\n') a) = .ok s) :
    Accounted s.config none [] (splitLines (chr '\n') (a ++ 0 :: b)) ↔
      Plain (splitLines (chr '\n') (a ++ 0 :: b)) := by
  obtain ⟨ls, l, r, rs, hsplit, hlines⟩ := splitLines_append_cons (by decide : 0 ≠ chr '\n') a b
  have hline : ∀ line ∈ ls ++ (if l = [] then [] else [l]), 0 ∉ line := fun line hmem h0 =>
    ha (mem_of_mem_splitLines (by rwa [hsplit]) h0)
  have hls : 0 ∉ ls.flatten := fun h0 => by
    obtain ⟨line, hmem, hc⟩ := List.mem_flatten.1 h0
    exact hline line (List.mem_append_left _ hmem) hc
  rw [hsplit] at hload
  obtain ⟨s₁, hload₁, hlast⟩ := loadLines_append hload
  obtain ⟨current, seen, ht, hall⟩ := loadLines_accounted hload₁ .start
  rw [hlines, plain_append_cons hls (by simp), hall s.config _ (loadLines_extends hlast),
    List.forall_mem_append, and_assoc]
  refine and_congr_right fun _ => ?_
  by_cases hl : l = []
  · rw [if_pos hl] at hlast
    obtain rfl := Except.ok.inj hlast
    exact ht.accounted_of_quiet (by rw [hl]; rfl)
  · rw [if_neg hl, loadLines] at hlast
    cases hstep : loadLine s₁ l with
    | error config =>
      rw [hstep] at hlast
      cases hlast
    | ok s₂ =>
      rw [hstep] at hlast
      obtain rfl := Except.ok.inj hlast
      cases accepts_of_ok hstep with
      | skipped hkind => exact ht.accounted_of_quiet (by rw [hkind]; rfl)
      | header hkind => exact ht.accounted_of_quiet (by rw [hkind]; rfl)
      | entry hkind hs hkey hvalue hnew =>
        exact ht.accounted_of_entry (hline l (by simp [hl])) hkind hs hnew

/-- **Nothing in an accepted file is ignored exactly when it is plain.** -/
theorem nothingIgnored_iff {files : Str → Option Str} {path text : Str} {config : Config}
    (hfile : files path = some text) (hload : load files (some path) = (true, config)) :
    NothingIgnored text config ↔ Plain (fileLines text) := by
  rw [load, hfile] at hload
  simp only [loadFromString, stream_eq] at hload
  rw [NothingIgnored, fileLines]
  set body := if text.take 3 = bom then text.drop 3 else text with hbody
  split at hload
  · cases hload
  rename_i s hlines
  obtain rfl := (Prod.ext_iff.1 hload).2
  by_cases h0 : 0 ∈ body
  · obtain ⟨a, b, hab, ha⟩ := List.eq_append_cons_of_mem h0
    have hplain : ∀ c ∈ a, decide (c ≠ 0) = true := fun c hc =>
      decide_eq_true (ne_of_mem_of_not_mem hc ha)
    rw [hab, List.takeWhile_append_of_pos hplain, List.takeWhile_cons_of_neg (by simp),
      List.append_nil] at hlines
    rw [hab]
    exact loadLines_nul ha hlines
  · have hplain : ∀ c ∈ body, decide (c ≠ 0) = true := fun c hc =>
      decide_eq_true (ne_of_mem_of_not_mem hc h0)
    rw [List.takeWhile_eq_self_iff.2 hplain] at hlines
    obtain ⟨current, seen, -, hall⟩ := loadLines_accounted hlines .start
    have hone := hall s.config [] fun _ _ _ he => he
    rw [List.append_nil, Accounted, and_true] at hone
    rw [hone, plain_iff]
    intro hmem
    obtain ⟨line, hline, hc⟩ := List.mem_flatten.1 hmem
    exact h0 (mem_of_mem_splitLines hline hc)

theorem nothingIgnored_iff_sample :
    let text := str "[A] # x\nk = 1\n"
    NothingIgnored text (load (fun _ => some text) (some [])).2 ↔ Plain (fileLines text) :=
  nothingIgnored_iff rfl (Prod.ext (by decide) rfl)

/-- **`[A]x` is loaded**, and the `x` is ignored. -/
theorem exists_ignored :
    ¬∀ (files : Str → Option Str) (path text : Str) (config : Config), files path = some text →
      load files (some path) = (true, config) → NothingIgnored text config := by
  intro hall
  have h := hall (fun _ => some (str "[A]x")) [] _ _ rfl (Prod.ext (by decide) rfl)
  have hlines : fileLines (str "[A]x") = [str "[A]x"] := by decide
  have hkind : kind (str "[A]x") = .header (str "A") (str "x") := by decide
  rw [NothingIgnored, hlines, Accounted, hkind] at h
  rcases h.1.2 (chr 'x') rfl with hx | hx
  · exact absurd hx (by decide)
  · exact absurd hx (by decide)

end NetworkLibrary.Config
