import NetworkLibrary.Config.Calls

/-!
# Integers in a configuration

`ParseInt` takes a text that `strtol` reads to its end. `strtol` skips white space first, more than
`Trim` has taken away, and returns a number out of its range as the nearest one in it. What is read
is the integer that the text denotes exactly where neither of the two plays a part
(`readsInt_iff`).
-/

namespace NetworkLibrary.Config

open Foundations

/-- The text is an optional sign and decimal digits, and denotes the number. -/
inductive Decimal : Str → ℤ → Prop
  | plain {digits : Str} (hne : digits ≠ []) (hd : ∀ c ∈ digits, isdigit c = true) :
    Decimal digits (ofDigits digits)
  | plus {digits : Str} (hne : digits ≠ []) (hd : ∀ c ∈ digits, isdigit c = true) :
    Decimal (chr '+' :: digits) (ofDigits digits)
  | minus {digits : Str} (hne : digits ≠ []) (hd : ∀ c ∈ digits, isdigit c = true) :
    Decimal (chr '-' :: digits) (-ofDigits digits)

/-- The text denotes an `int`. -/
def Denotes (text : Str) (n : ℤ) : Prop := Decimal text n ∧ -2 ^ 31 ≤ n ∧ n < 2 ^ 31

/-- The entry is read as the integer that its text denotes; where the text denotes none, an error is
recorded, and `GetInt` returns its default. -/
structure ReadsInt (config : Config) (section_ key text : Str) : Prop where
  required : ∀ n : ℤ, ((config.getIntRequired section_ key).1.toInt = n ∧
    (config.getIntRequired section_ key).2.lastError = config.lastError) ↔ Denotes text n
  error : (¬∃ n, Denotes text n) →
    (config.getIntRequired section_ key).2.lastError ≠ config.lastError ∧
      ∀ value, (config.getInt section_ key value).1 = value ∧
        (config.getInt section_ key value).2.lastError ≠ config.lastError

/-- What `strtol` finds behind white space is not behind any, and in its range. -/
def PlainNumber (text : Str) : Prop :=
  ∀ n, Decimal (text.dropWhile isspace) n →
    text.dropWhile isspace = text ∧ -2 ^ 31 ≤ n ∧ n < 2 ^ 31

variable {text : Str} {n : ℤ} {c : UInt8} {config : Config} {section_ key : Str}

/-! ## `strtol` -/

@[simp] theorem takeSign_minus (text : Str) : takeSign (chr '-' :: text) = (true, text) := rfl

@[simp] theorem takeSign_plus (text : Str) : takeSign (chr '+' :: text) = (false, text) := rfl

theorem takeSign_of_ne (hminus : c ≠ chr '-') (hplus : c ≠ chr '+') :
    takeSign (c :: text) = (false, c :: text) := by
  rw [takeSign, if_neg hminus, if_neg hplus]

/-- The text with its sign taken. -/
theorem decimal_iff : Decimal text n ↔ (takeSign text).2 ≠ [] ∧
    (∀ c ∈ (takeSign text).2, isdigit c = true) ∧
      n = if (takeSign text).1 then -(ofDigits (takeSign text).2 : ℤ)
        else ofDigits (takeSign text).2 := by
  constructor
  · intro h
    cases h with
    | plain hne hd =>
      obtain ⟨c, digits, rfl⟩ := List.exists_cons_of_ne_nil hne
      have hc := hd c List.mem_cons_self
      have hminus : c ≠ chr '-' := by rintro rfl; exact absurd hc (by decide)
      have hplus : c ≠ chr '+' := by rintro rfl; exact absurd hc (by decide)
      rw [takeSign_of_ne hminus hplus]
      exact ⟨hne, hd, rfl⟩
    | plus hne hd =>
      rw [takeSign_plus]
      exact ⟨hne, hd, rfl⟩
    | minus hne hd =>
      rw [takeSign_minus]
      exact ⟨hne, hd, rfl⟩
  · rintro ⟨hne, hd, rfl⟩
    cases text with
    | nil => exact absurd rfl hne
    | cons c text =>
      by_cases hminus : c = chr '-'
      · subst hminus
        rw [takeSign_minus] at hne hd ⊢
        exact .minus hne hd
      by_cases hplus : c = chr '+'
      · subst hplus
        rw [takeSign_plus] at hne hd ⊢
        exact .plus hne hd
      rw [takeSign_of_ne hminus hplus] at hne hd ⊢
      exact .plain hne hd

theorem Decimal.ne_nil (h : Decimal text n) : text ≠ [] := by
  cases h with
  | plain hne => exact hne
  | plus | minus => exact List.cons_ne_nil _ _

/-- A number begins with no white space. -/
theorem Decimal.dropWhile (h : Decimal text n) : text.dropWhile isspace = text := by
  have hspace : ∀ c, isdigit c = true → isspace c = false := by
    intro c hc
    obtain ⟨h48, -⟩ := of_decide_eq_true hc
    refine decide_eq_false ?_
    rintro (rfl | ⟨-, h13⟩)
    · exact absurd h48 (by decide)
    · exact absurd (UInt8.le_trans h48 h13) (by decide)
  cases h with
  | @plain digits hne hd =>
    obtain ⟨c, digits, rfl⟩ := List.exists_cons_of_ne_nil hne
    exact List.dropWhile_cons_of_neg (by simp [hspace c (hd c List.mem_cons_self)])
  | plus | minus => exact List.dropWhile_cons_of_neg (by decide)

theorem Decimal.unique {m : ℤ} (hn : Decimal text n) (hm : Decimal text m) : n = m :=
  (decimal_iff.1 hn).2.2.trans (decimal_iff.1 hm).2.2.symm

theorem clampLong_eq_self (h : -2 ^ 31 ≤ n ∧ n < 2 ^ 31) : clampLong n = n := by
  rw [clampLong]
  omega

/-- **What `ParseInt` accepts** is a number behind white space, which it clamps. -/
theorem parseInt_eq_some_iff (hnul : 0 ∉ text) (value : Int32) : parseInt text = some value ↔
    ∃ n, Decimal (text.dropWhile isspace) n ∧ value = Int32.ofInt (clampLong n) := by
  have hc : cStr text = text := List.takeWhile_eq_self_iff.2 fun c hc => by
    simpa using ne_of_mem_of_not_mem hc hnul
  by_cases hnil : text = []
  · subst hnil
    refine iff_of_false (by simp [parseInt]) ?_
    rintro ⟨n, hn, -⟩
    exact hn.ne_nil rfl
  have hempty : text.isEmpty = false := by rwa [List.isEmpty_eq_false_iff]
  set w := text.dropWhile isspace with hw
  have hlong : strtol text =
      if (takeSign w).2.takeWhile isdigit = [] then (0, text)
      else (clampLong (if (takeSign w).1 then -ofDigits ((takeSign w).2.takeWhile isdigit)
        else ofDigits ((takeSign w).2.takeWhile isdigit)), (takeSign w).2.dropWhile isdigit) := rfl
  have hparse : parseInt text =
      if (strtol text).2.length = text.length ∨ (strtol text).2 ≠ [] then none
      else some (Int32.ofInt (strtol text).1) := by
    rw [parseInt, hempty, hc]
    rfl
  by_cases hd : (takeSign w).2 ≠ [] ∧ ∀ c ∈ (takeSign w).2, isdigit c = true
  · -- the end pointer is at the NUL
    rw [hparse, hlong, List.takeWhile_eq_self_iff.2 hd.2, List.dropWhile_eq_nil_iff.2 hd.2,
      if_neg hd.1, if_neg (by simpa [eq_comm] using hnil), Option.some_inj]
    constructor
    · rintro rfl
      exact ⟨_, decimal_iff.2 ⟨hd.1, hd.2, rfl⟩, rfl⟩
    · rintro ⟨n, hn, rfl⟩
      rw [(decimal_iff.1 hn).2.2]
  · refine iff_of_false ?_ ?_
    · have hnone : (strtol text).2.length = text.length ∨ (strtol text).2 ≠ [] := by
        by_cases hdigits : (takeSign w).2.takeWhile isdigit = []
        · rw [hlong, if_pos hdigits]
          exact .inl rfl
        · rw [hlong, if_neg hdigits]
          refine .inr fun hlast => hd ⟨fun hrest => hdigits ?_, List.dropWhile_eq_nil_iff.1 hlast⟩
          rw [hrest, List.takeWhile_nil]
      rw [hparse, if_pos hnone]
      exact (Option.some_ne_none _).symm
    · rintro ⟨n, hn, -⟩
      exact hd ⟨(decimal_iff.1 hn).1, (decimal_iff.1 hn).2.1⟩

/-! ## `GetIntRequired` and `GetInt` -/

section

variable {record : Config → Str → Str → Config} {other : Int32} {e : Entry}

/-- What a getter for integers does with an entry that it can read. -/
theorem get_of_parseInt_eq_some (he : config.entry section_ key = some e) {value : Int32}
    (hv : parseInt e.value = some value) :
    (get record parseInt "not an integer" other config section_ key).1 = value ∧
      (get record parseInt "not an integer" other config section_ key).2.lastError =
        config.lastError := by
  rw [get_of_some he, hv]
  exact ⟨rfl, rfl⟩

/-- What it does with an entry that it cannot read. -/
theorem get_of_parseInt_eq_none (he : config.entry section_ key = some e)
    (hv : parseInt e.value = none) :
    (get record parseInt "not an integer" other config section_ key).1 = other ∧
      (get record parseInt "not an integer" other config section_ key).2.lastError ≠
        config.lastError := by
  rw [get_of_some he, hv]
  refine ⟨rfl, fun h => ?_⟩
  have hlen := congrArg List.length h
  simp [fail, use, put, str] at hlen

end

/-- **An entry is read as the integer that its text denotes, and nothing else as one, exactly when
what `strtol` finds behind white space is not behind any, and in its range**: in every configuration
that was loaded, after whatever calls. -/
theorem readsInt_iff {text : Option Str} {config : Config}
    (hload : loadFromString text = (true, config)) (calls : List Call) {e : Entry}
    (he : (run calls config).2.entry section_ key = some e) :
    ReadsInt (run calls config).2 section_ key e.value ↔ PlainNumber e.value := by
  have hnul : 0 ∉ e.value := by
    have hfresh := fresh_of_load hload
    have h := ((After.nil hfresh).run calls).entry section_ key
    rw [he] at h
    obtain ⟨e₀, he₀, rfl⟩ := Option.map_eq_some_iff.1 h.symm
    exact (hfresh.entry section_ key e₀ he₀).2.noNul
  have hclamp : ∀ n, (Int32.ofInt (clampLong n)).toInt = clampLong n := fun n =>
    Int32.toInt_ofInt_of_le (by rw [clampLong]; omega) (by rw [clampLong]; omega)
  have hvalue := parseInt_eq_some_iff hnul
  generalize (run calls config).2 = after at he ⊢
  constructor
  · intro h n hn
    -- the getter returns the nearest `long`, so the text denotes it, and nothing else
    have hdenotes : Denotes e.value (clampLong n) := by
      rw [← h.required]
      obtain ⟨hret, herror⟩ := get_of_parseInt_eq_some he ((hvalue _).2 ⟨n, hn, rfl⟩)
      exact ⟨by rw [getIntRequired, hret, hclamp], herror⟩
    have hspace := hdenotes.1.dropWhile
    rw [hspace] at hn
    have hn' : n = clampLong n := hn.unique hdenotes.1
    exact ⟨hspace, hn' ▸ hdenotes.2⟩
  · intro h
    refine ⟨fun n => ⟨?_, ?_⟩, fun hno => ?_⟩
    · rintro ⟨hret, herror⟩
      cases hv : parseInt e.value with
      | none => exact absurd herror (get_of_parseInt_eq_none he hv).2
      | some value =>
        obtain ⟨m, hm, rfl⟩ := (hvalue _).1 hv
        obtain ⟨hspace, hrange⟩ := h m hm
        rw [getIntRequired, (get_of_parseInt_eq_some he hv).1, hclamp, clampLong_eq_self hrange] at hret
        rw [hspace] at hm
        exact hret ▸ ⟨hm, hrange⟩
    · rintro ⟨hn, hrange⟩
      have hv := (hvalue _).2 ⟨n, by rwa [hn.dropWhile], rfl⟩
      obtain ⟨hret, herror⟩ := get_of_parseInt_eq_some he hv
      exact ⟨by rw [getIntRequired, hret, hclamp, clampLong_eq_self hrange], herror⟩
    · have hv : parseInt e.value = none := by
        by_contra hne
        obtain ⟨value, hv⟩ := Option.ne_none_iff_exists'.1 hne
        obtain ⟨m, hm, -⟩ := (hvalue _).1 hv
        obtain ⟨hspace, hrange⟩ := h m hm
        exact hno ⟨m, by rwa [hspace] at hm, hrange⟩
      exact ⟨(get_of_parseInt_eq_none he hv).2, fun value => get_of_parseInt_eq_none he hv⟩

/-- A file with one entry. -/
def single (value : String) : Str := str "[A]\nk=" ++ str value ++ [0]

theorem readsInt_iff_port :
    ReadsInt (loadFromString (some (single "12001"))).2 (str "A") (str "k") (str "12001") ↔
      PlainNumber (str "12001") := by
  have hload : loadFromString (some (single "12001")) =
      (true, (loadFromString (some (single "12001"))).2) := Prod.ext (by decide) rfl
  have he : (run [] (loadFromString (some (single "12001"))).2).2.entry (str "A") (str "k") =
      some ⟨str "12001", 2, false⟩ := by decide
  exact readsInt_iff hload [] he

/-- **`k=99999999999` is read as 2147483647**, and no error is recorded. -/
theorem exists_not_readsInt :
    ¬∀ (text : Option Str) (config : Config) (calls : List Call) (section_ key : Str) (e : Entry),
      loadFromString text = (true, config) → (run calls config).2.entry section_ key = some e →
      ReadsInt (run calls config).2 section_ key e.value := by
  intro hall
  have h := hall (some (single "99999999999")) _ [] (str "A") (str "k")
    ⟨str "99999999999", 2, false⟩ (Prod.ext (by decide) rfl) (by decide)
  have hdenotes := (h.required 2147483647).1 (by decide)
  exact absurd (decimal_iff.1 hdenotes.1).2.2 (by decide)

end NetworkLibrary.Config
