import NetworkLibrary.Config.Get
import NetworkLibrary.Config.Accepted

/-!
# Sequences of getters

A call of a getter does one of four things (`Call.apply_cases`). Along a sequence of them the values
stay as they were loaded, and the marks, the error and the defaulted keys say which calls there have
been (`After`), so that one look at them after the last call is enough (`run_spec`).
-/

namespace NetworkLibrary.Config

open Foundations

/-! ## Calls -/

/-- A call of a getter. -/
inductive Call
  | getIntRequired (section_ key : Str)
  | getBoolRequired (section_ key : Str)
  | getStringRequired (section_ key : Str)
  | getInt (section_ key : Str) (defaultValue : Int32)
  | getBool (section_ key : Str) (defaultValue : Bool)
  | getString (section_ key defaultValue : Str)

/-- What a getter returns. -/
inductive Result
  | int (value : Int32)
  | bool (value : Bool)
  | string (value : Str)
  deriving DecidableEq

/-- The call, and the object after it. -/
def Call.apply : Call → Config → Result × Config
  | .getIntRequired section_ key, config => (config.getIntRequired section_ key).map .int id
  | .getBoolRequired section_ key, config => (config.getBoolRequired section_ key).map .bool id
  | .getStringRequired section_ key, config => (config.getStringRequired section_ key).map .string id
  | .getInt section_ key value, config => (config.getInt section_ key value).map .int id
  | .getBool section_ key value, config => (config.getBool section_ key value).map .bool id
  | .getString section_ key value, config => (config.getString section_ key value).map .string id

/-- A sequence of calls. -/
def run : List Call → Config → List Result × Config
  | [], config => ([], config)
  | call :: calls, config =>
    let (result, config) := call.apply config
    let (results, config) := run calls config
    (result :: results, config)

/-- The section and the key that a call asks for. -/
def Call.place : Call → Str × Str
  | .getIntRequired section_ key | .getBoolRequired section_ key
  | .getStringRequired section_ key | .getInt section_ key _ | .getBool section_ key _
  | .getString section_ key _ => (section_, key)

/-- What a call makes of the text of an entry, if it can. -/
def Call.parse : Call → Str → Option Result
  | .getIntRequired .., text | .getInt .., text => (parseInt text).map .int
  | .getBoolRequired .., text | .getBool .., text => (parseBool text).map .bool
  | .getStringRequired .., text | .getString .., text => some (.string text)

/-- The default of a call; the required keys have none. -/
def Call.defaultValue : Call → Option Result
  | .getIntRequired .. | .getBoolRequired .. | .getStringRequired .. => none
  | .getInt _ _ value => some (.int value)
  | .getBool _ _ value => some (.bool value)
  | .getString _ _ value => some (.string value)

/-- The entry that a call asks for. -/
def Call.entry (call : Call) (config : Config) : Option Entry :=
  config.entry call.place.1 call.place.2

/-- A required key is missing, or the value of the key is no integer or boolean, as asked for. -/
def Call.Wrong (config : Config) (call : Call) : Prop :=
  (call.entry config = none ∧ call.defaultValue = none) ∨
    ∃ e, call.entry config = some e ∧ call.parse e.value = none

/-- The default stands in for a missing key. -/
def Call.Defaulted (config : Config) (call : Call) : Prop :=
  call.entry config = none ∧ call.defaultValue ≠ none

instance (config : Config) (call : Call) : Decidable (call.Defaulted config) :=
  inferInstanceAs (Decidable (_ ∧ _))

/-- The names of keys, with commas between them. -/
def listKeys : List (Str × Str) → Str
  | [] => []
  | p :: ps => ps.foldl (fun text p => text ++ str ", " ++ keyName p.1 p.2) (keyName p.1 p.2)

variable {config config₀ : Config} {call : Call} {calls done : List Call} {results : List Result}

/-! ## One call -/

/-- The object after the entry has been marked. -/
def use (config : Config) (section_ key : Str) (e : Entry) : Config :=
  config.put section_ key { e with used := true }

/-- **What a call does.** -/
inductive Applies (config : Config) (call : Call) : Result × Config → Prop
  | read {e result} (he : call.entry config = some e) (hv : call.parse e.value = some result) :
    Applies config call (result, config.use call.place.1 call.place.2 e)
  | unreadable {e result message} (he : call.entry config = some e)
    (hv : call.parse e.value = none) (hmessage : str message ≠ []) :
    Applies config call
      (result, (config.use call.place.1 call.place.2 e).fail e.lineNo message e.value)
  | defaulted {result} (he : call.entry config = none) (hd : call.defaultValue = some result) :
    Applies config call (result, config.recordDefaulted call.place.1 call.place.2)
  | missing {result} (he : call.entry config = none) (hd : call.defaultValue = none) :
    Applies config call (result, config.recordMissing call.place.1 call.place.2)

variable {α : Type} {record : Config → Str → Str → Config} {parse : Str → Option α}
  {message : String} {other : α}

theorem get_of_some {section_ key : Str} {e : Entry} (he : config.entry section_ key = some e) :
    get record parse message other config section_ key =
      match parse e.value with
      | none => (other, (config.use section_ key e).fail e.lineNo message e.value)
      | some value => (value, config.use section_ key e) := by
  rw [get, find, he]
  rfl

/-- What all getters do, where it is known how the call reads a text and what stands in for a missing
key. -/
theorem applies_get (make : α → Result) (hparse : ∀ text, call.parse text = (parse text).map make)
    (hmessage : ∀ text, parse text = none → str message ≠ [])
    (hrecord : call.defaultValue = some (make other) ∧ record = recordDefaulted ∨
      call.defaultValue = none ∧ record = recordMissing) :
    Applies config call
      ((get record parse message other config call.place.1 call.place.2).map make id) := by
  cases he : config.entry call.place.1 call.place.2 with
  | none =>
    rw [get, find, he]
    rcases hrecord with ⟨hd, rfl⟩ | ⟨hd, rfl⟩
    · exact .defaulted he hd
    · exact .missing he hd
  | some e =>
    rw [get_of_some he]
    cases hv : parse e.value with
    | none => exact .unreadable he (by rw [hparse, hv]; rfl) (hmessage _ hv)
    | some value => exact .read he (by rw [hparse, hv]; rfl)

theorem Call.applies (config : Config) (call : Call) : Applies config call (call.apply config) := by
  cases call with
  | getIntRequired section_ key =>
    exact applies_get .int (fun _ => rfl) (fun _ _ => by decide) (.inr ⟨rfl, rfl⟩)
  | getBoolRequired section_ key =>
    exact applies_get .bool (fun _ => rfl) (fun _ _ => by decide) (.inr ⟨rfl, rfl⟩)
  | getStringRequired section_ key =>
    have hstring : ∀ text : Str, some text = none → str "" ≠ [] := fun _ h =>
      absurd h (Option.some_ne_none _)
    show Applies config _ ((get recordMissing some "" [] config section_ key).map .string id)
    exact applies_get .string (fun _ => rfl) hstring (.inr ⟨rfl, rfl⟩)
  | getInt section_ key value =>
    exact applies_get .int (fun _ => rfl) (fun _ _ => by decide) (.inl ⟨rfl, rfl⟩)
  | getBool section_ key value =>
    exact applies_get .bool (fun _ => rfl) (fun _ _ => by decide) (.inl ⟨rfl, rfl⟩)
  | getString section_ key value =>
    have hstring : ∀ text : Str, some text = none → str "" ≠ [] := fun _ h =>
      absurd h (Option.some_ne_none _)
    show Applies config _ ((get recordDefaulted some "" value config section_ key).map .string id)
    exact applies_get .string (fun _ => rfl) hstring (.inl ⟨rfl, rfl⟩)

/-! ## The marks, the error and the defaulted keys -/

theorem keyName_ne_nil (section_ key : Str) : keyName section_ key ≠ [] := by
  simp [keyName, str]

theorem fail_ne_nil (config : Config) (lineNo : Int32) (detail : Str) (h : str message ≠ []) :
    (config.fail lineNo message detail).lastError ≠ [] := by
  simp [fail, h]

theorem recordMissing_ne_nil (config : Config) (section_ key : Str) :
    (config.recordMissing section_ key).lastError ≠ [] := by
  simp [recordMissing, keyName_ne_nil]

theorem listKeys_concat (ps : List (Str × Str)) (p : Str × Str) :
    listKeys (ps ++ [p]) =
      listKeys ps ++ (if listKeys ps ≠ [] then str ", " else []) ++ keyName p.1 p.2 := by
  cases ps with
  | nil => simp [listKeys]
  | cons q ps =>
    have hne : listKeys (q :: ps) ≠ [] := by
      induction ps using List.reverseRecOn with
      | nil => exact keyName_ne_nil q.1 q.2
      | append_singleton ps r => simp [listKeys, List.foldl_append, keyName_ne_nil]
    rw [if_pos hne, List.cons_append, listKeys, List.foldl_append]
    rfl

/-- What a call returns, unless it leaves an error. -/
def Call.Answers (config : Config) (call : Call) (result : Result) : Prop :=
  call.Wrong config ∨ (∃ e, call.entry config = some e ∧ call.parse e.value = some result) ∨
    call.entry config = none ∧ call.defaultValue = some result

section Applies

variable {result : Result} {config' : Config}

/-- The entry that a call asks for is marked, and no other. -/
theorem Applies.entry (h : Applies config call (result, config')) (section_ key : Str) :
    config'.entry section_ key = (config.entry section_ key).map fun e =>
      { e with used := e.used || call.place = (section_, key) } := by
  have huse : ∀ e, call.entry config = some e →
      (config.use call.place.1 call.place.2 e).entry section_ key =
        (config.entry section_ key).map fun e =>
          { e with used := e.used || call.place = (section_, key) } := by
    intro e he
    rw [use, entry_put]
    split_ifs with hplace
    · obtain ⟨rfl, rfl⟩ := hplace
      rw [Call.entry] at he
      simp [he]
    · have hne : call.place ≠ (section_, key) := fun h => hplace (by rw [h]; exact ⟨rfl, rfl⟩)
      simp [hne]
  have hnone : call.entry config = none → config.entry section_ key =
      (config.entry section_ key).map fun e =>
        { e with used := e.used || call.place = (section_, key) } := by
    intro he
    by_cases hplace : call.place = (section_, key)
    · rw [Call.entry, hplace] at he
      rw [he]
      rfl
    · simp [hplace]
  cases h with
  | read he | unreadable he => exact huse _ he
  | defaulted he | missing he => exact hnone he

/-- **An error is left exactly by a call that is wrong.** -/
theorem Applies.lastError (h : Applies config call (result, config')) :
    config'.lastError = [] ↔ config.lastError = [] ∧ ¬call.Wrong config := by
  cases h with
  | read he hv =>
    refine (and_iff_left ?_).symm
    rintro (⟨he', -⟩ | ⟨e, he', hv'⟩)
    · exact absurd (he.symm.trans he') (Option.some_ne_none _)
    · obtain rfl := Option.some.inj (he.symm.trans he')
      exact absurd (hv.symm.trans hv') (Option.some_ne_none _)
  | unreadable he hv hmessage =>
    exact iff_of_false (fail_ne_nil _ _ _ hmessage) fun h => h.2 (.inr ⟨_, he, hv⟩)
  | defaulted he hd =>
    refine (and_iff_left ?_).symm
    rintro (⟨-, hd'⟩ | ⟨e, he', -⟩)
    · exact absurd (hd.symm.trans hd') (Option.some_ne_none _)
    · exact absurd (he'.symm.trans he) (Option.some_ne_none _)
  | missing he hd =>
    exact iff_of_false (recordMissing_ne_nil config _ _) fun h => h.2 (.inl ⟨he, hd⟩)

theorem Applies.defaultedKeys (h : Applies config call (result, config')) :
    config'.defaultedKeys =
      if call.Defaulted config then (config.recordDefaulted call.place.1 call.place.2).defaultedKeys
      else config.defaultedKeys := by
  cases h with
  | read he | unreadable he =>
    exact (if_neg fun h => absurd (he.symm.trans h.1) (Option.some_ne_none _)).symm
  | defaulted he hd => exact (if_pos ⟨he, by rw [hd]; exact Option.some_ne_none _⟩).symm
  | missing he hd => exact (if_neg fun h => h.2 hd).symm

theorem Applies.answers (h : Applies config call (result, config')) :
    call.Answers config result := by
  cases h with
  | read he hv => exact .inr (.inl ⟨_, he, hv⟩)
  | unreadable he hv => exact .inl (.inr ⟨_, he, hv⟩)
  | defaulted he hd => exact .inr (.inr ⟨he, hd⟩)
  | missing he hd => exact .inl (.inl ⟨he, hd⟩)

end Applies

/-! ## The keys that nobody asked for -/

theorem mem_inOrder {β : Type} {l : AList fun _ : Str => β} {key : Str} {value : β} :
    (key, value) ∈ inOrder l ↔ l.lookup key = some value := by
  rw [inOrder, List.mem_mergeSort, List.mem_map, ← Option.mem_def, AList.mem_lookup_iff]
  constructor
  · rintro ⟨x, hx, heq⟩
    obtain ⟨rfl, rfl⟩ := Prod.mk.inj heq
    exact hx
  · exact fun h => ⟨_, h, rfl⟩

/-- Texts are appended, and the result stays empty as long as nothing was. -/
theorem foldl_eq_nil {β : Type} {f : Str → β → Str} {P : β → Prop} {l : List β} {result : Str}
    (hf : ∀ result x, x ∈ l → (f result x = [] ↔ result = [] ∧ P x)) :
    l.foldl f result = [] ↔ result = [] ∧ ∀ x ∈ l, P x := by
  induction l generalizing result with
  | nil => simp
  | cons x l ih =>
    rw [List.foldl_cons, ih fun result y hy => hf result y (List.mem_cons_of_mem _ hy),
      hf result x List.mem_cons_self, List.forall_mem_cons, and_assoc]

/-- **No key is reported exactly when every entry is marked.** -/
theorem getUnusedKeys_eq_nil (config : Config) : config.getUnusedKeys = [] ↔
    ∀ section_ key e, config.entry section_ key = some e → e.used = true := by
  have htable : ∀ (section_ : Str) (table : AList fun _ : Str => Entry) (result : Str),
      (inOrder table).foldl (fun result x =>
        if x.2.used then result
        else result ++ (if result ≠ [] then str ", " else []) ++ unusedText section_ x.1 x.2)
        result = [] ↔ result = [] ∧ ∀ x ∈ inOrder table, x.2.used = true := by
    intro section_ table result
    refine foldl_eq_nil fun result x _ => ?_
    rcases x with ⟨key, entry⟩
    cases entry.used
    · simp [unusedText, keyName_ne_nil]
    · simp
  rw [getUnusedKeys, foldl_eq_nil fun result x _ => htable x.1 x.2 result, and_iff_right rfl]
  constructor
  · intro h section_ key e he
    obtain ⟨t, ht⟩ : ∃ t, config.sections.lookup section_ = some t := by
      rw [Config.entry, table] at he
      cases hl : config.sections.lookup section_ with
      | none => simp [hl] at he
      | some t => exact ⟨t, rfl⟩
    rw [Config.entry, table, ht] at he
    exact h _ (mem_inOrder.2 ht) _ (mem_inOrder.2 he)
  · rintro h ⟨section_, t⟩ ht ⟨key, e⟩ he
    refine h section_ key e ?_
    rw [Config.entry, table, mem_inOrder.1 ht]
    exact mem_inOrder.1 he

/-! ## All calls -/

/-- What the calls `done` have left of `config₀`. -/
structure After (config₀ : Config) (done : List Call) (results : List Result) (config : Config) :
    Prop where
  entry : ∀ section_ key, config.entry section_ key =
    (config₀.entry section_ key).map fun e =>
      { e with used := e.used || done.any fun call => call.place = (section_, key) }
  lastError : config.lastError = [] ↔ ∀ call ∈ done, ¬call.Wrong config₀
  defaultedKeys : config.defaultedKeys =
    listKeys ((done.filter fun call => call.Defaulted config₀).map Call.place)
  results : List.Forall₂ (Call.Answers config₀) done results

/-- Nobody has asked yet. -/
theorem After.nil (h : Fresh config₀) : After config₀ [] [] config₀ where
  entry section_ key := by simp
  lastError := by simp [h.lastError]
  defaultedKeys := h.defaultedKeys
  results := .nil

/-- The text of an entry is what was loaded. -/
theorem After.value (h : After config₀ done results config) (call : Call) :
    (call.entry config).map Entry.value = (call.entry config₀).map Entry.value := by
  rw [Call.entry, h.entry, Option.map_map]
  rfl

theorem After.isNone (h : After config₀ done results config) (call : Call) :
    call.entry config = none ↔ call.entry config₀ = none := by
  rw [← Option.map_eq_none_iff (f := Entry.value), h.value, Option.map_eq_none_iff]

theorem After.exists_value (h : After config₀ done results config) (call : Call)
    (P : Option Result → Prop) :
    (∃ e, call.entry config = some e ∧ P (call.parse e.value)) ↔
      ∃ e, call.entry config₀ = some e ∧ P (call.parse e.value) := by
  have hmap (c : Config) : (∃ e, call.entry c = some e ∧ P (call.parse e.value)) ↔
      ∃ v, (call.entry c).map Entry.value = some v ∧ P (call.parse v) := by
    simp only [Option.map_eq_some_iff]
    constructor
    · rintro ⟨e, he, hP⟩
      exact ⟨_, ⟨e, he, rfl⟩, hP⟩
    · rintro ⟨_, ⟨e, he, rfl⟩, hP⟩
      exact ⟨e, he, hP⟩
  rw [hmap, hmap, h.value]

theorem After.wrong (h : After config₀ done results config) (call : Call) :
    call.Wrong config ↔ call.Wrong config₀ := by
  rw [Call.Wrong, Call.Wrong, h.isNone, h.exists_value call (· = none)]

theorem After.answers (h : After config₀ done results config) (call : Call) (result : Result) :
    call.Answers config result ↔ call.Answers config₀ result := by
  rw [Call.Answers, Call.Answers, h.wrong, h.isNone, h.exists_value call (· = some result)]

/-- **One more call.** -/
theorem After.step (h : After config₀ done results config) {result : Result} {config' : Config}
    (hcall : Applies config call (result, config')) :
    After config₀ (done ++ [call]) (results ++ [result]) config' where
  entry section_ key := by
    rw [hcall.entry, h.entry, Option.map_map]
    congr 1
    funext e
    simp [Bool.or_assoc]
  lastError := by
    rw [hcall.lastError, h.lastError, h.wrong, List.forall_mem_append, List.forall_mem_singleton]
  defaultedKeys := by
    have hdef : call.Defaulted config ↔ call.Defaulted config₀ := and_congr_left' (h.isNone call)
    rw [hcall.defaultedKeys, List.filter_append, List.map_append]
    by_cases hd : call.Defaulted config₀
    · rw [if_pos (hdef.2 hd), List.filter_cons_of_pos (by simpa using hd), List.filter_nil,
        List.map_singleton, listKeys_concat, ← h.defaultedKeys]
      rfl
    · rw [if_neg fun hd' => hd (hdef.1 hd'), List.filter_cons_of_neg (by simpa using hd),
        List.filter_nil, List.map_nil, List.append_nil, h.defaultedKeys]
  results := by
    refine List.rel_append h.results ?_
    exact .cons ((h.answers call result).1 hcall.answers) .nil

theorem After.run (h : After config₀ done results config) (calls : List Call) :
    After config₀ (done ++ calls) (results ++ (run calls config).1) (run calls config).2 := by
  induction calls generalizing done results config with
  | nil => simpa [Config.run] using h
  | cons call calls ih =>
    have := ih (h.step (call.applies config))
    rwa [List.append_assoc, List.append_assoc, List.singleton_append, List.singleton_append] at this

/-- **One look at the end is enough.** There is an error exactly when a call was wrong, no unused key
exactly when every entry was asked for, and without an error every call has returned what it reads,
or the default for a key that is missing and among the defaulted ones. -/
theorem run_spec {text : Option Str} (hload : loadFromString text = (true, config))
    (calls : List Call) :
    ((run calls config).2.hasError = true ↔ ∃ call ∈ calls, call.Wrong config) ∧
      ((run calls config).2.getUnusedKeys = [] ↔ ∀ section_ key e,
        config.entry section_ key = some e → ∃ call ∈ calls, call.place = (section_, key)) ∧
      ∃ ps, (run calls config).2.getDefaultedKeys = listKeys ps ∧
        (∀ p ∈ ps, config.entry p.1 p.2 = none) ∧
        ((run calls config).2.hasError = false → List.Forall₂ (fun call result =>
          (∃ e, call.entry config = some e ∧ call.parse e.value = some result) ∨
            call.entry config = none ∧ call.defaultValue = some result ∧ call.place ∈ ps)
          calls (run calls config).1) := by
  have hfresh := fresh_of_load hload
  have h := (After.nil hfresh).run calls
  rw [List.nil_append, List.nil_append] at h
  have herror : (run calls config).2.hasError = true ↔ ∃ call ∈ calls, call.Wrong config := by
    rw [hasError, decide_eq_true_eq, Ne, h.lastError]
    push Not
    rfl
  refine ⟨herror, ?_, _, h.defaultedKeys, fun p hp => ?_, fun hno => ?_⟩
  · rw [getUnusedKeys_eq_nil]
    constructor
    · intro hused section_ key e he
      have := hused section_ key _ (by rw [h.entry, he]; rfl)
      simp only [(hfresh.entry section_ key e he).1, Bool.false_or, List.any_eq_true] at this
      obtain ⟨call, hcall, hplace⟩ := this
      exact ⟨call, hcall, of_decide_eq_true hplace⟩
    · intro hall section_ key e' he'
      rw [h.entry, Option.map_eq_some_iff] at he'
      obtain ⟨e, he, rfl⟩ := he'
      obtain ⟨call, hcall, hplace⟩ := hall section_ key e he
      rw [Bool.or_eq_true, List.any_eq_true]
      exact .inr ⟨call, hcall, decide_eq_true hplace⟩
  · obtain ⟨call, hcall, rfl⟩ := List.mem_map.1 hp
    exact (of_decide_eq_true (List.mem_filter.1 hcall).2).1
  · have hright : ∀ call ∈ calls, ¬call.Wrong config := by
      intro call hcall hwrong
      rw [herror.2 ⟨call, hcall, hwrong⟩] at hno
      exact Bool.noConfusion hno
    have hall := (List.forall₂_and_left _ _).2
      ⟨fun call hcall => And.intro hcall (hright call hcall), h.results⟩
    refine hall.imp fun call result hcall => ?_
    obtain ⟨⟨hcall, hright⟩, hwrong | hread | ⟨he, hd⟩⟩ := hcall
    · exact absurd hwrong hright
    · exact .inl hread
    · refine .inr ⟨he, hd, List.mem_map_of_mem (List.mem_filter.2 ⟨hcall, decide_eq_true ?_⟩)⟩
      exact ⟨he, by rw [hd]; exact Option.some_ne_none _⟩

/-- A file with two entries. -/
def sampleText : Str := str "[A]\nk = 1\nb = TRUE\n" ++ [0]

/-- Calls for both entries, and for a key that is missing. -/
def sampleCalls : List Call :=
  [.getBool (str "A") (str "b") false, .getInt (str "A") (str "n") 4,
    .getIntRequired (str "A") (str "k")]

/-- No call is wrong, and all say what they read, or the default. -/
theorem run_spec_sample :
    let config := (loadFromString (some sampleText)).2
    (run sampleCalls config).1 = [.bool true, .int 4, .int 1] ∧
      (run sampleCalls config).2.hasError = false ∧ (¬∃ call ∈ sampleCalls, call.Wrong config) ∧
      (run sampleCalls config).2.getDefaultedKeys = str "[A] n" ∧
      ∃ ps, listKeys ps = str "[A] n" ∧ (∀ p ∈ ps, config.entry p.1 p.2 = none) ∧
        List.Forall₂ (fun call result =>
          (∃ e, call.entry config = some e ∧ call.parse e.value = some result) ∨
            call.entry config = none ∧ call.defaultValue = some result ∧ call.place ∈ ps)
          sampleCalls [.bool true, .int 4, .int 1] := by
  intro config
  have hresults : (run sampleCalls config).1 = [.bool true, .int 4, .int 1] := by decide +kernel
  have hno : (run sampleCalls config).2.hasError = false := by decide +kernel
  have hkeys : (run sampleCalls config).2.getDefaultedKeys = str "[A] n" := by decide +kernel
  have hload : loadFromString (some sampleText) = (true, config) := Prod.ext (by decide) rfl
  obtain ⟨herror, -, ps, hps, hnone, hread⟩ := run_spec hload sampleCalls
  refine ⟨hresults, hno, fun hwrong => ?_, hkeys, ps, hps.symm.trans hkeys, hnone, ?_⟩
  · rw [herror.2 hwrong] at hno
    exact Bool.noConfusion hno
  · rw [← hresults]
    exact hread hno

end NetworkLibrary.Config
