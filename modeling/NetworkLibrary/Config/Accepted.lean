import NetworkLibrary.Config.Roundtrip

/-!
# The lines that `LoadFromString` accepts

A line is of one of five kinds, which its text alone decides (`kind`), and the body of the loop does
one thing for each of them (`Accepts`). What holds of the table after the lines of a text so follows
from one lemma about each kind (`Fresh.step`).
-/

namespace NetworkLibrary.Config

open Foundations

/-! ## The kinds of lines -/

/-- What a line is, once the `\r` and the blanks around it are gone. -/
inductive Kind
  /-- Blank, or a comment. -/
  | skipped
  /-- A header, with what follows the first `]`. -/
  | header (name rest : Str)
  /-- `key = value`, without the comment after the value. -/
  | entry (key value : Str)
  | malformed (line : Str)
  deriving DecidableEq

/-- What a stripped line is. -/
def kindOf (line : Str) : Kind :=
  match line.head? with
  | none => .skipped
  | some c =>
    if c = chr '#' ∨ c = chr ';' then .skipped
    else if c = chr '[' then
      match line.findIdx? (· = chr ']') with
      | none => .malformed line
      | some close => .header (trim ((line.drop 1).take (close - 1))) (line.drop (close + 1))
    else
      match line.findIdx? (· = chr '=') with
      | none => .malformed line
      | some eq => .entry (trim (line.take eq)) (trim (stripInlineComment (line.drop (eq + 1))))

/-- What a line is. -/
def kind (line : Str) : Kind := kindOf (trim (popCr line))

/-- The text of a line that is neither blank nor a comment nor a header. -/
def Kind.content : Kind → Option Str
  | .skipped | .header .. => none
  | .entry key value => some (key ++ value)
  | .malformed line => some line

/-- What the body of the loop does for a line that it does not refuse. -/
inductive Accepts (s : Loading) (line : Str) : Loading → Prop
  | skipped (h : kind line = .skipped) : Accepts s line s.next
  | header {name rest : Str} (h : kind line = .header name rest) (hname : name ≠ []) :
    Accepts s line { s.next with current := name, hasSection := true }
  | entry {key value : Str} (h : kind line = .entry key value) (hs : s.hasSection = true)
    (hkey : key ≠ []) (hvalue : value ≠ []) (hnew : key ∉ s.config.table s.current) :
    Accepts s line { s.next with config := s.config.put s.current key ⟨value, s.lineNo + 1, false⟩ }

variable {s s' : Loading} {line text : Str} {lines : List Str} {c : UInt8}

theorem kindOf_cons (c : UInt8) (r : Str) : kindOf (c :: r) =
    if c = chr '#' ∨ c = chr ';' then .skipped
    else if c = chr '[' then
      match (c :: r).findIdx? (· = chr ']') with
      | none => .malformed (c :: r)
      | some close => .header (trim (((c :: r).drop 1).take (close - 1))) ((c :: r).drop (close + 1))
    else
      match (c :: r).findIdx? (· = chr '=') with
      | none => .malformed (c :: r)
      | some eq =>
        .entry (trim ((c :: r).take eq)) (trim (stripInlineComment ((c :: r).drop (eq + 1)))) := rfl

/-- **The body of the loop accepts a line, or returns with an error.** -/
theorem accepts_of_ok (h : loadLine s line = .ok s') : Accepts s line s' := by
  rcases hline : trim (popCr line) with _ | ⟨c, r⟩
  · rw [loadLine_nil hline] at h
    obtain rfl := Except.ok.inj h
    exact .skipped (by rw [kind, hline]; rfl)
  have hkind : kind line = kindOf (c :: r) := by rw [kind, hline]
  rw [kindOf_cons] at hkind
  rw [loadLine_cons hline] at h
  split_ifs at h hkind with hcomment hbracket
  · obtain rfl := Except.ok.inj h
    exact .skipped hkind
  · rw [loadHeader] at h
    cases hclose : (c :: r).findIdx? (· = chr ']') with
    | none =>
      rw [hclose] at h
      cases h
    | some close =>
      rw [hclose] at h hkind
      simp only at h
      split_ifs at h with hname
      obtain rfl := Except.ok.inj h
      exact .header hkind hname
  · rw [loadEntry] at h
    cases heq : (c :: r).findIdx? (· = chr '=') with
    | none =>
      rw [heq] at h
      cases h
    | some eq =>
      rw [heq] at h hkind
      simp only at h
      split_ifs at h with hs hkey hvalue hnew
      obtain rfl := Except.ok.inj h
      exact .entry hkind (eq_true_of_ne_false hs) hkey hvalue hnew

/-- What the lines preserve, one after the other, holds after them. -/
theorem loadLines_induction {P : Loading → Prop} (h : loadLines s lines = .ok s')
    (hstep : ∀ s line s', line ∈ lines → P s → Accepts s line s' → P s') (hs : P s) : P s' := by
  induction lines generalizing s with
  | nil =>
    obtain rfl := Except.ok.inj h
    exact hs
  | cons line lines ih =>
    rw [loadLines] at h
    cases hline : loadLine s line with
    | error config =>
      rw [hline] at h
      cases h
    | ok s₁ =>
      rw [hline] at h
      refine ih h (fun s line s' hmem => hstep s line s' (List.mem_cons_of_mem _ hmem)) ?_
      exact hstep s line s₁ List.mem_cons_self hs (accepts_of_ok hline)

/-! ## The characters of an entry -/

theorem mem_of_mem_trim (h : c ∈ trim text) : c ∈ text :=
  (List.dropWhile_suffix _).mem ((List.rdropWhile_prefix isBlank _).mem h)

theorem mem_of_mem_popCr (h : c ∈ popCr line) : c ∈ line := by
  rw [popCr] at h
  split at h
  · exact List.mem_of_mem_dropLast h
  · exact h

theorem mem_of_mem_content (h : (kind line).content = some text) (hc : c ∈ text) : c ∈ line := by
  refine mem_of_mem_popCr (mem_of_mem_trim ?_)
  rw [kind] at h
  generalize trim (popCr line) = l at h ⊢
  rcases l with _ | ⟨d, r⟩
  · cases h
  rw [kindOf_cons] at h
  split_ifs at h
  · cases h
  · split at h
    · obtain rfl := Option.some.inj h
      exact hc
    · cases h
  · split at h
    · obtain rfl := Option.some.inj h
      exact hc
    · obtain rfl := Option.some.inj h
      rcases List.mem_append.1 hc with hc | hc
      · exact List.mem_of_mem_take (mem_of_mem_trim hc)
      · exact List.mem_of_mem_drop ((List.takeWhile_prefix _).mem (mem_of_mem_trim hc))

/-! ## The configuration -/

/-- The value of an entry is neither empty nor cut short by a NUL. -/
structure IsValue (value : Str) : Prop where
  ne_nil : value ≠ []
  noNul : 0 ∉ value

/-- A configuration that nobody has asked for a value yet. -/
structure Fresh (config : Config) : Prop where
  lastError : config.lastError = []
  defaultedKeys : config.defaultedKeys = []
  entry : ∀ section_ key e, config.entry section_ key = some e → e.used = false ∧ IsValue e.value

theorem Fresh.reset : Fresh reset where
  lastError := rfl
  defaultedKeys := rfl
  entry section_ key e h := by simp [Config.entry, table, Config.reset] at h

theorem Fresh.step (h : Fresh s.config) (hline : 0 ∉ line) (hs : Accepts s line s') :
    Fresh s'.config := by
  cases hs with
  | skipped => exact h
  | header => exact h
  | @entry key value hkind hsection hkey hvalue hnew =>
    refine ⟨h.lastError, h.defaultedKeys, fun section_ key' e he => ?_⟩
    rw [entry_put] at he
    split_ifs at he
    · obtain rfl := Option.some.inj he
      refine ⟨rfl, hvalue, fun h0 => hline ?_⟩
      exact mem_of_mem_content (by rw [hkind]; rfl) (List.mem_append_right key h0)
    · exact h.entry section_ key' e he

/-- **What a text is loaded into**: no error, nothing defaulted, no entry used, and no value empty. -/
theorem fresh_of_load {text : Option Str} {config : Config}
    (h : loadFromString text = (true, config)) : Fresh config := by
  rcases text with _ | text
  · cases h
  rw [loadFromString] at h
  split at h
  · cases h
  rename_i s hload
  obtain rfl := (Prod.ext_iff.1 h).2
  refine loadLines_induction (P := fun s => Fresh s.config) hload ?_ .reset
  refine fun s line s' hmem hs => hs.step fun h0 => ?_
  have hstream := mem_of_mem_splitLines hmem h0
  simpa using List.mem_takeWhile_imp hstream

end NetworkLibrary.Config
