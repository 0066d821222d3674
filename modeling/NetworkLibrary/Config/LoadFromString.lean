import NetworkLibrary.Foundations.Lines
import Mathlib.Data.List.AList

/-!
# `Config::LoadFromString`

A `std::string` is its bytes. The text is given as the bytes from the pointer on; the stream is made
of those before the first NUL. A `std::map` is an association list without duplicate keys. The
functions that return `false` leave the error behind: `loadLine` returns the object as it is then.
-/

namespace NetworkLibrary

open Foundations

/-- `std::string`. -/
abbrev Str := List UInt8

/-- A character literal. -/
def chr (c : Char) : UInt8 := UInt8.ofNat c.toNat

/-- A string literal. -/
def str (s : String) : Str := s.toList.map chr

/-- `Config::Entry`. -/
structure Entry where
  value : Str
  lineNo : Int32
  used : Bool
  deriving DecidableEq

/-- `Config`. -/
structure Config where
  sections : AList fun _ : Str => AList fun _ : Str => Entry
  lastError : Str
  defaultedKeys : Str

namespace Config

/-- The characters that `Trim` takes away. -/
def isBlank (c : UInt8) : Bool := c = chr ' ' ∨ c = chr '\t'

/-- `Trim`. -/
def trim (text : Str) : Str := strip isBlank text

/-- `StripInlineComment`: the text up to the first `;` or `#`. -/
def stripInlineComment (text : Str) : Str := text.takeWhile fun c => c ≠ chr ';' ∧ c ≠ chr '#'

/-- `Reset`. -/
def reset : Config := ⟨∅, [], []⟩

/-- `Fail`, which returns `false`. -/
def fail (config : Config) (lineNo : Int32) (message : String) (detail : Str) : Config :=
  { config with
    lastError := config.lastError ++ (if config.lastError ≠ [] then str " | " else []) ++
      (if 0 < lineNo then str "line " ++ str (toString lineNo.toInt) ++ str ": " else []) ++
      str message ++ if detail ≠ [] then str " (" ++ detail ++ str ")" else [] }

/-- The table `Sections[section]`, empty where there is none. -/
def table (config : Config) (section_ : Str) : AList fun _ : Str => Entry :=
  (config.sections.lookup section_).getD ∅

/-- The entry that `Find` returns. -/
def entry (config : Config) (section_ key : Str) : Option Entry := (config.table section_).lookup key

/-- `Sections[section][key] = entry`. -/
def put (config : Config) (section_ key : Str) (entry : Entry) : Config :=
  { config with
    sections := config.sections.insert section_ ((config.table section_).insert key entry) }

/-- The variables of the loop of `LoadFromString`. -/
structure Loading where
  config : Config
  current : Str
  hasSection : Bool
  lineNo : Int32

/-- A `\r` at the end of a line is dropped. -/
def popCr (line : Str) : Str := if line.getLast? = some (chr '\r') then line.dropLast else line

/-- The body of the loop, for a line that is a section header. -/
def loadHeader (s : Loading) (line : Str) : Except Config Loading :=
  match line.findIdx? (· = chr ']') with
  | none => .error (s.config.fail s.lineNo "section not closed" line)
  | some close =>
    let name := trim ((line.drop 1).take (close - 1))
    if name = [] then .error (s.config.fail s.lineNo "empty section name" line)
    else .ok { s with current := name, hasSection := true }

/-- The body of the loop, for any other line that is neither blank nor a comment. -/
def loadEntry (s : Loading) (line : Str) : Except Config Loading :=
  match line.findIdx? (· = chr '=') with
  | none => .error (s.config.fail s.lineNo "missing '='" line)
  | some eq =>
    if s.hasSection = false then .error (s.config.fail s.lineNo "key outside section" line)
    else
      let key := trim (line.take eq)
      let value := trim (stripInlineComment (line.drop (eq + 1)))
      if key = [] then .error (s.config.fail s.lineNo "empty key" line)
      else if value = [] then .error (s.config.fail s.lineNo "empty value" line)
      else if key ∈ s.config.table s.current then
        .error (s.config.fail s.lineNo "duplicate key" key)
      else
        .ok { s with config := s.config.put s.current key ⟨value, s.lineNo, false⟩ }

/-- The body of the loop. -/
def loadLine (s : Loading) (line : Str) : Except Config Loading :=
  let s := { s with lineNo := s.lineNo + 1 }
  let line := trim (popCr line)
  match line.head? with
  | none => .ok s
  | some c =>
    if c = chr '#' ∨ c = chr ';' then .ok s
    else if c = chr '[' then loadHeader s line
    else loadEntry s line

/-- The loop, over the lines that `std::getline` reads. -/
def loadLines : Loading → List Str → Except Config Loading
  | s, [] => .ok s
  | s, line :: lines =>
    match loadLine s line with
    | .error config => .error config
    | .ok s => loadLines s lines

/-- The UTF-8 BOM. -/
def bom : Str := [0xEF, 0xBB, 0xBF]

/-- `LoadFromString`: what it returns, and the object after it. -/
def loadFromString (text : Option Str) : Bool × Config :=
  match text with
  | none => (false, reset.fail 0 "null config text" [])
  | some text =>
    let cursor := if text.take 3 = bom then text.drop 3 else text
    let stream := cursor.takeWhile (· ≠ 0)
    match loadLines ⟨reset, [], false, 0⟩ (splitLines (chr '\n') stream) with
    | .error config => (false, config)
    | .ok s => (true, s.config)

end Config

end NetworkLibrary
