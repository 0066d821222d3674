import NetworkLibrary.Config.Roundtrip
import Mathlib.Data.List.Lex

/-!
# The values of a configuration

The getters of `Config`. The three required ones and the three with a default differ in how they
read the text of an entry, and in what they leave behind where there is none (`get`). `ParseBool`
takes four words, in any case (`parseBool_eq_some_iff`).
-/

namespace NetworkLibrary.Config

open Foundations

/-! ## Numbers and booleans -/

/-- The white space of `isspace`. -/
def isspace (c : UInt8) : Bool := c = chr ' ' ∨ (9 ≤ c ∧ c ≤ 13)

def isdigit (c : UInt8) : Bool := chr '0' ≤ c ∧ c ≤ chr '9'

/-- The number that decimal digits denote. -/
def ofDigits (digits : Str) : ℕ := digits.foldl (fun n c => 10 * n + (c - chr '0').toNat) 0

/-- A `long` of 32 bits, which `strtol` returns for a number outside its range as well. -/
def clampLong (n : ℤ) : ℤ := max (-2 ^ 31) (min n (2 ^ 31 - 1))

/-- The sign that `strtol` takes, and the text after it. -/
def takeSign : Str → Bool × Str
  | [] => (false, [])
  | c :: text =>
    if c = chr '-' then (true, text) else if c = chr '+' then (false, text) else (false, c :: text)

/-- `strtol(nptr, &end, 10)`: the `long`, and the text from `end` on. -/
def strtol (nptr : Str) : ℤ × Str :=
  let (neg, text) := takeSign (nptr.dropWhile isspace)
  let digits := text.takeWhile isdigit
  if digits = [] then (0, nptr)
  else (clampLong (if neg then -ofDigits digits else ofDigits digits), text.dropWhile isdigit)

/-- `text.c_str()`, up to its NUL. -/
def cStr (text : Str) : Str := text.takeWhile (· ≠ 0)

/-- `ParseInt`, which leaves `out` alone where it fails. -/
def parseInt (text : Str) : Option Int32 :=
  if text.isEmpty then none
  else
    let (parsed, last) := strtol (cStr text)
    if last.length = (cStr text).length ∨ last ≠ [] then none else some (Int32.ofInt parsed)

/-- `lower[i]` of `ParseBool`. -/
def toLower (c : UInt8) : UInt8 := if chr 'A' ≤ c ∧ c ≤ chr 'Z' then c - chr 'A' + chr 'a' else c

/-- `ParseBool`, which leaves `out` alone where it fails. -/
def parseBool (text : Str) : Option Bool :=
  let lower := text.map toLower
  if lower = str "true" ∨ lower = str "1" then some true
  else if lower = str "false" ∨ lower = str "0" then some false
  else none

/-! ## The getters -/

/-- How the records of both kinds name a key. -/
def keyName (section_ key : Str) : Str := str "[" ++ section_ ++ str "] " ++ key

/-- `RecordMissing`. -/
def recordMissing (config : Config) (section_ key : Str) : Config :=
  { config with
    lastError := config.lastError ++ (if config.lastError ≠ [] then str " | " else []) ++
      str "missing required key: " ++ keyName section_ key }

/-- `RecordDefaulted`. -/
def recordDefaulted (config : Config) (section_ key : Str) : Config :=
  { config with
    defaultedKeys := config.defaultedKeys ++
      (if config.defaultedKeys ≠ [] then str ", " else []) ++ keyName section_ key }

/-- `Find`, which marks the entry as used. -/
def find (config : Config) (section_ key : Str) : Option Entry × Config :=
  match config.entry section_ key with
  | none => (none, config)
  | some entry =>
    let entry := { entry with used := true }
    (some entry, config.put section_ key entry)

/-- What all getters do: `record` is called where there is no entry, and `message` is the error
where `parse` fails; both return `other`. -/
def get {α : Type} (record : Config → Str → Str → Config) (parse : Str → Option α)
    (message : String) (other : α) (config : Config) (section_ key : Str) : α × Config :=
  match config.find section_ key with
  | (none, config) => (other, record config section_ key)
  | (some entry, config) =>
    match parse entry.value with
    | none => (other, config.fail entry.lineNo message entry.value)
    | some value => (value, config)

def getIntRequired : Config → Str → Str → Int32 × Config :=
  get recordMissing parseInt "not an integer" 0

def getBoolRequired : Config → Str → Str → Bool × Config :=
  get recordMissing parseBool "not a boolean (true/false/1/0)" false

/-- `GetStringRequired`: every text is a string. -/
def getStringRequired : Config → Str → Str → Str × Config := get recordMissing some "" []

def getInt (config : Config) (section_ key : Str) (defaultValue : Int32) : Int32 × Config :=
  get recordDefaulted parseInt "not an integer" defaultValue config section_ key

def getBool (config : Config) (section_ key : Str) (defaultValue : Bool) : Bool × Config :=
  get recordDefaulted parseBool "not a boolean (true/false/1/0)" defaultValue config section_ key

/-- `GetString`: every text is a string. -/
def getString (config : Config) (section_ key defaultValue : Str) : Str × Config :=
  get recordDefaulted some "" defaultValue config section_ key

def hasError (config : Config) : Bool := config.lastError ≠ []

def getDefaultedKeys (config : Config) : Str := config.defaultedKeys

/-! ## The keys that nobody asked for -/

/-- The entries of a `std::map`, in the order of the keys. -/
def inOrder {β : Type} (l : AList fun _ : Str => β) : List (Str × β) :=
  (l.entries.map fun x => (x.1, x.2)).mergeSort fun x y => x.1 ≤ y.1

/-- What `GetUnusedKeys` says about an entry. -/
def unusedText (section_ key : Str) (entry : Entry) : Str :=
  keyName section_ key ++ str " (line " ++ str (toString entry.lineNo.toInt) ++ str ")"

/-- `GetUnusedKeys`. -/
def getUnusedKeys (config : Config) : Str :=
  (inOrder config.sections).foldl (fun result (section_, table) =>
    (inOrder table).foldl (fun result (key, entry) =>
      if entry.used then result
      else result ++ (if result ≠ [] then str ", " else []) ++ unusedText section_ key entry) result)
    []

/-! ## What `ParseBool` takes -/

/-- `text` is `word`, with any of its small letters as capitals. -/
def InAnyCase (word text : Str) : Prop :=
  List.Forall₂ (fun d c => c = d ∨ (chr 'a' ≤ d ∧ d ≤ chr 'z') ∧ c = d - 32) word text

theorem toLower_eq_iff {c d : UInt8} (hd : ¬(chr 'A' ≤ d ∧ d ≤ chr 'Z')) :
    toLower c = d ↔ c = d ∨ (chr 'a' ≤ d ∧ d ≤ chr 'z') ∧ c = d - 32 := by
  have h₁ : chr 'A' = 65 := by decide
  have h₂ : chr 'Z' = 90 := by decide
  have h₃ : chr 'a' = 97 := by decide
  have h₄ : chr 'z' = 122 := by decide
  rw [toLower]
  simp only [h₁, h₂, h₃, h₄] at hd ⊢
  split_ifs with h
  · grind
  · grind

theorem map_toLower_eq_iff {word : Str}
    (hword : word.all (fun d => ¬(chr 'A' ≤ d ∧ d ≤ chr 'Z')) = true) (text : Str) :
    text.map toLower = word ↔ InAnyCase word text := by
  induction word generalizing text with
  | nil => simp [InAnyCase]
  | cons d word ih =>
    rw [List.all_cons, Bool.and_eq_true, decide_eq_true_eq] at hword
    obtain ⟨hd, hword⟩ := hword
    cases text with
    | nil => simp [InAnyCase]
    | cons c text =>
      rw [List.map_cons, List.cons.injEq, toLower_eq_iff hd, ih hword, InAnyCase, InAnyCase,
        List.forall₂_cons]

/-- **`ParseBool` takes `true`, `1`, `false` and `0`**, in any case, and nothing else. -/
theorem parseBool_eq_some_iff (text : Str) (value : Bool) : parseBool text = some value ↔
    if value then InAnyCase (str "true") text ∨ InAnyCase (str "1") text
    else InAnyCase (str "false") text ∨ InAnyCase (str "0") text := by
  rw [← map_toLower_eq_iff (by decide), ← map_toLower_eq_iff (by decide),
    ← map_toLower_eq_iff (by decide), ← map_toLower_eq_iff (by decide), parseBool]
  generalize text.map toLower = lower
  by_cases htrue : lower = str "true" ∨ lower = str "1"
  · rw [if_pos htrue]
    cases value with
    | true => exact iff_of_true rfl htrue
    | false =>
      refine iff_of_false (fun h => Bool.noConfusion (Option.some.inj h)) ?_
      rcases htrue with rfl | rfl <;> decide
  · rw [if_neg htrue]
    by_cases hfalse : lower = str "false" ∨ lower = str "0"
    · rw [if_pos hfalse]
      cases value with
      | true => exact iff_of_false (fun h => Bool.noConfusion (Option.some.inj h)) htrue
      | false => exact iff_of_true rfl hfalse
    · rw [if_neg hfalse]
      refine iff_of_false (Option.some_ne_none value).symm ?_
      cases value with
      | true => exact htrue
      | false => exact hfalse

end NetworkLibrary.Config
