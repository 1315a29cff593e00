import Mathlib.Tactic.SplitIfs
import PolicyBundle.Proofs.Json.Values
import PolicyBundle.Proofs.Log.Attempts

/-! What a reader makes of a document: integers that fit, objects with their fields in order, and no
more containers inside each other than the reader may open. -/

namespace PolicyBundle.Json

open Log

mutual

/-- How many containers of a value are inside each other. -/
def depth : Json → Nat
  | .array items => depthOfItems items + 1
  | .object fields => depthOfFields fields + 1
  | _ => 0

/-- The greatest depth of some items. -/
def depthOfItems : List Json → Nat
  | [] => 0
  | item :: rest => max (depth item) (depthOfItems rest)

/-- The greatest depth of some fields. -/
def depthOfFields : Fields → Nat
  | [] => 0
  | (_, value) :: rest => max (depth value) (depthOfFields rest)

end

mutual

/-- The numbers of double precision in a value. -/
def floats : Json → List Binary64
  | .number (.float x) => [x]
  | .array items => floatsOfItems items
  | .object fields => floatsOfFields fields
  | _ => []

/-- The numbers of double precision in some items. -/
def floatsOfItems : List Json → List Binary64
  | [] => []
  | item :: rest => floats item ++ floatsOfItems rest

/-- The numbers of double precision in some fields. -/
def floatsOfFields : Fields → List Binary64
  | [] => []
  | (_, value) :: rest => floats value ++ floatsOfFields rest

end

theorem depthOfItems_le_iff (items : List Json) (limit : Nat) :
    depthOfItems items ≤ limit ↔ ∀ item ∈ items, item.depth ≤ limit := by
  induction items with
  | nil => simp [depthOfItems]
  | cons item items ih => rw [depthOfItems, Nat.max_le, ih, List.forall_mem_cons]

theorem depthOfFields_le_iff (fields : Fields) (limit : Nat) :
    depthOfFields fields ≤ limit ↔ ∀ f ∈ fields, f.2.depth ≤ limit := by
  induction fields with
  | nil => simp [depthOfFields]
  | cons f fields ih => rw [depthOfFields, Nat.max_le, ih, List.forall_mem_cons]

theorem mem_floatsOfItems {items : List Json} {x : Binary64} :
    x ∈ floatsOfItems items ↔ ∃ item ∈ items, x ∈ item.floats := by
  induction items with
  | nil => simp [floatsOfItems]
  | cons item items ih => simp [floatsOfItems, ih]

theorem mem_floatsOfFields {fields : Fields} {x : Binary64} :
    x ∈ floatsOfFields fields ↔ ∃ f ∈ fields, x ∈ f.2.floats := by
  induction fields with
  | nil => simp [floatsOfFields]
  | cons f fields ih => simp [floatsOfFields, ih]

/-- A value as readers make it. -/
inductive Formed : Json → Prop where
  | null : Formed .null
  | bool (value : Bool) : Formed (.bool value)
  | integer {n : Int} (fits : IntegerFits n) : Formed (.number (.integer n))
  | float (x : Binary64) : Formed (.number (.float x))
  | string (text : String) : Formed (.string text)
  | array {items : List Json} (all : ∀ item ∈ items, Formed item) : Formed (.array items)
  | object {fields : Fields} (sorted : Sorted fields) (all : ∀ f ∈ fields, Formed f.2) :
      Formed (.object fields)

/-- A value that a reader has made reads back at its depth, if the numbers in it do. -/
theorem Formed.readable {value : Json} (h : Formed value) {limit : Nat}
    (hDepth : value.depth ≤ limit) (hFloats : ∀ x ∈ value.floats, x.ReadsBack) :
    Readable limit value := by
  induction h generalizing limit with
  | null => exact .null
  | bool value => exact .bool value
  | integer fits => exact .integer fits
  | float x => exact .float (hFloats x (by simp [floats]))
  | string text => exact .string text
  | @array items all ih =>
      obtain ⟨limit, rfl⟩ : ∃ less, limit = less + 1 := by
        rw [depth] at hDepth
        exact ⟨limit - 1, by omega⟩
      rw [depth, Nat.add_le_add_iff_right, depthOfItems_le_iff] at hDepth
      exact .array fun item hItem => ih item hItem (hDepth item hItem) fun x hx =>
        hFloats x (by rw [floats]; exact mem_floatsOfItems.mpr ⟨item, hItem, hx⟩)
  | @object fields sorted all ih =>
      obtain ⟨limit, rfl⟩ : ∃ less, limit = less + 1 := by
        rw [depth] at hDepth
        exact ⟨limit - 1, by omega⟩
      rw [depth, Nat.add_le_add_iff_right, depthOfFields_le_iff] at hDepth
      exact .object sorted fun f hf => ih f hf (hDepth f hf) fun x hx =>
        hFloats x (by rw [floats]; exact mem_floatsOfFields.mpr ⟨f, hf, hx⟩)

/-- A number as readers make it. -/
def Number.Fits : Number → Prop
  | .integer n => IntegerFits n
  | .float _ => True

theorem significand_lt {start : Nat} (hStart : start < Nat.pow 2 64) (digits : Bytes) :
    (significand start digits).1 < Nat.pow 2 64 := by
  induction digits generalizing start with
  | nil => exact hStart
  | cons d digits ih =>
      simp only [significand]
      split
      · rename_i hNext
        exact ih hNext
      · exact hStart

section Numbers

variable {isNegative : Bool} {digits : Nat} {exponent : Int} {input rest : Bytes} {n : Number}

theorem floating_fits (h : floating isNegative digits exponent input = .ok (n, rest)) : n.Fits := by
  simp only [floating] at h
  split at h
  · cases h
    trivial
  · cases h

theorem exponentDigits_fits {below : Bool}
    (h : exponentDigits isNegative digits exponent below input = .ok (n, rest)) : n.Fits := by
  cases input with
  | nil => cases h
  | cons d input =>
      simp only [exponentDigits] at h
      split at h
      · split at h
        · exact floating_fits h
        · split at h
          · cases h
          · cases h
            trivial
      · cases h

theorem exponentPart_fits (h : exponentPart isNegative digits exponent input = .ok (n, rest)) :
    n.Fits := by
  cases input with
  | nil => cases h
  | cons b input =>
      rw [exponentPart_cons] at h
      split at h
      · exact exponentDigits_fits h
      · split at h
        · exact exponentDigits_fits h
        · exact exponentDigits_fits h

theorem afterDigits_fits (h : afterDigits isNegative digits exponent input = .ok (n, rest)) :
    n.Fits := by
  cases input with
  | nil => exact floating_fits h
  | cons b input =>
      simp only [afterDigits] at h
      split at h
      · exact exponentPart_fits h
      · exact floating_fits h

theorem fractionPart_fits (h : fractionPart isNegative digits exponent input = .ok (n, rest)) :
    n.Fits := by
  simp only [fractionPart] at h
  split at h
  · cases h
  · exact afterDigits_fits h

theorem wholeNumber_fits (hDigits : digits < Nat.pow 2 64)
    (h : wholeNumber isNegative digits input = .ok (n, rest)) : n.Fits := by
  have hPower : Nat.pow 2 64 = 18446744073709551616 := by decide
  have hHalf : Nat.pow 2 63 = 9223372036854775808 := by decide
  simp only [wholeNumber] at h
  split at h
  · cases h
    simp only [Number.Fits, IntegerFits]
    omega
  · split at h
    · rename_i hSmall
      simp only [Bool.and_eq_true, decide_eq_true_eq] at hSmall
      cases h
      simp only [Number.Fits, IntegerFits]
      omega
    · exact floating_fits h

theorem shortNumber_fits (hDigits : digits < Nat.pow 2 64)
    (h : shortNumber isNegative digits input = .ok (n, rest)) : n.Fits := by
  cases input with
  | nil => exact wholeNumber_fits hDigits h
  | cons b input =>
      rw [shortNumber_cons] at h
      split at h
      · exact fractionPart_fits h
      · split at h
        · exact exponentPart_fits h
        · exact wholeNumber_fits hDigits h

theorem longNumber_fits {excess : Nat}
    (h : longNumber isNegative digits excess input = .ok (n, rest)) : n.Fits := by
  cases input with
  | nil => exact floating_fits h
  | cons b input =>
      rw [longNumber_cons] at h
      split at h
      · exact fractionPart_fits h
      · exact afterDigits_fits h

theorem readNumber_fits (h : readNumber isNegative input = .ok (n, rest)) : n.Fits := by
  have hZero : 0 < Nat.pow 2 64 := by decide
  cases input with
  | nil => cases h
  | cons d input =>
      simp only [readNumber] at h
      split at h
      · split at h
        · split at h
          · cases h
          · exact shortNumber_fits hZero h
        · exact shortNumber_fits hZero h
      · split at h
        · split at h
          · exact shortNumber_fits (significand_lt hZero _) h
          · exact longNumber_fits h
        · cases h

end Numbers

/-- A list ends, or its next item is read behind the blanks, and behind a comma unless it is the
first. -/
theorem nextItem_cases {α : Type} {item : Reader α} {first : Bool} {input rest : Bytes} {x : Option α}
    (h : nextItem item first input = .ok (x, rest)) :
    (x = none ∧ afterSpaces input = rest) ∨ ∃ y start, x = some y ∧ item start = .ok (y, rest) ∧
      (afterSpaces input = start ∨
        ∃ behind, afterSpaces input = byte ',' :: behind ∧ afterSpaces behind = start) := by
  have hEnd {start : Bytes}
      (h : ((item start).bind fun found => .ok (some found.1, found.2)) = .ok (x, rest)) :
      ∃ y, x = some y ∧ item start = .ok (y, rest) := by
    obtain ⟨⟨y, last⟩, hRead, h⟩ := bind_eq_ok h
    cases h
    exact ⟨y, rfl, hRead⟩
  simp only [nextItem] at h
  split at h
  · cases h
  · rename_i b behind hToken
    split_ifs at h with hClosing hFirst hComma
    · cases h
      exact .inl ⟨rfl, hToken⟩
    · obtain ⟨y, hSome, hRead⟩ := hEnd h
      exact .inr ⟨y, _, hSome, hRead, .inl hToken⟩
    · split at h
      · cases h
      · rename_i next after hNext
        split_ifs at h with hTrailing
        · cases h
        · obtain ⟨y, hSome, hRead⟩ := hEnd h
          exact .inr ⟨y, _, hSome, hRead, .inr ⟨behind, hComma ▸ hToken, hNext⟩⟩
    · cases h

theorem nextItem_eq_some {α : Type} {item : Reader α} {first : Bool} {input rest : Bytes} {x : α}
    (h : nextItem item first input = .ok (some x, rest)) :
    ∃ start, item start = .ok (x, rest) := by
  rcases nextItem_cases h with ⟨hNone, -⟩ | ⟨y, start, hSome, hRead, -⟩
  · cases hNone
  · cases hSome
    exact ⟨start, hRead⟩

/-- What holds of every item that is read holds of all items of a list. -/
theorem readItems_all {α : Type} {item : Reader α} {P : α → Prop}
    (hItem : ∀ input x rest, item input = .ok (x, rest) → P x) {rounds : Nat} {first : Bool}
    {input rest : Bytes} {items : List α}
    (h : readItems item rounds first input = .ok (items, rest)) : ∀ x ∈ items, P x := by
  induction rounds generalizing first input items with
  | zero => cases h
  | succ rounds ih =>
      obtain ⟨⟨next, behind⟩, hNext, h⟩ := bind_eq_ok h
      cases next with
      | none =>
          cases h
          exact fun x hx => absurd hx List.not_mem_nil
      | some x =>
          obtain ⟨⟨more, last⟩, hMore, h⟩ := bind_eq_ok h
          cases h
          obtain ⟨start, hStart⟩ := nextItem_eq_some hNext
          rw [List.forall_mem_cons]
          exact ⟨hItem start x behind hStart, ih hMore⟩

/-- What every field keeps of a state is kept by a whole object. -/
theorem foldFields_invariant {σ : Type} {field : σ → String → Reader σ} {I : σ → Prop}
    (hField : ∀ s name input next rest, I s → field s name input = .ok (next, rest) → I next)
    {rounds : Nat} {first : Bool} {s last : σ} {input rest : Bytes} (hStart : I s)
    (h : foldFields field rounds first s input = .ok (last, rest)) : I last := by
  induction rounds generalizing first s input with
  | zero => cases h
  | succ rounds ih =>
      obtain ⟨⟨start, behind⟩, -, h⟩ := bind_eq_ok h
      cases start with
      | none =>
          cases h
          exact hStart
      | some start =>
          obtain ⟨⟨name, behindName⟩, -, h⟩ := bind_eq_ok h
          obtain ⟨⟨next, behindField⟩, hNext, h⟩ := bind_eq_ok h
          exact ih (hField _ _ _ _ _ hStart hNext) h

/-- Fields that were read into an object: in order, and each of them as it was read. -/
def AllFields (P : Json → Prop) (fields : Fields) : Prop :=
  Sorted fields ∧ ∀ f ∈ fields, P f.2

theorem AllFields.setField {P : Json → Prop} {fields : Fields} (hFields : AllFields P fields)
    {value : Json} (hValue : P value) (name : String) :
    AllFields P (setField name value fields) := by
  refine ⟨hFields.1.setField name value, fun f hf => ?_⟩
  rcases mem_setField hf with rfl | hf
  · exact hValue
  · exact hFields.2 f hf

theorem anyField_eq_ok {value : Reader Json} {fields next : Fields} {name : String}
    {input rest : Bytes} (h : anyField value fields name input = .ok (next, rest)) :
    ∃ v, (∃ start, value start = .ok (v, rest)) ∧ next = setField name v fields := by
  simp only [anyField, bind, Except.bind] at h
  split at h
  · cases h
  · split at h
    · cases h
    · rename_i found hFound
      cases h
      exact ⟨_, ⟨_, hFound⟩, rfl⟩

theorem allFields_anyField {P : Json → Prop} {value : Reader Json}
    (hValue : ∀ input v rest, value input = .ok (v, rest) → P v) (fields : Fields) (name : String)
    (input : Bytes) (next : Fields) (rest : Bytes) (hFields : AllFields P fields)
    (h : anyField value fields name input = .ok (next, rest)) : AllFields P next := by
  obtain ⟨v, ⟨start, hRead⟩, rfl⟩ := anyField_eq_ok h
  exact hFields.setField (hValue start v rest hRead) name

theorem allFields_nil (P : Json → Prop) : AllFields P [] :=
  ⟨List.Pairwise.nil, by simp⟩

/-- A value with at most so many containers inside each other. -/
def FormedWithin (limit : Nat) (value : Json) : Prop :=
  Formed value ∧ value.depth ≤ limit

theorem formedWithin_array {limit : Nat} {items : List Json}
    (h : ∀ item ∈ items, FormedWithin limit item) : FormedWithin (limit + 1) (.array items) := by
  refine ⟨.array fun item hItem => (h item hItem).1, ?_⟩
  rw [depth, Nat.add_le_add_iff_right, depthOfItems_le_iff]
  exact fun item hItem => (h item hItem).2

theorem formedWithin_object {limit : Nat} {fields : Fields}
    (h : AllFields (FormedWithin limit) fields) : FormedWithin (limit + 1) (.object fields) := by
  refine ⟨.object h.1 fun f hf => (h.2 f hf).1, ?_⟩
  rw [depth, Nat.add_le_add_iff_right, depthOfFields_le_iff]
  exact fun f hf => (h.2 f hf).2

theorem formedWithin_number {limit : Nat} {n : Number} (h : n.Fits) :
    FormedWithin limit (.number n) := by
  cases n with
  | integer n => exact ⟨.integer h, by simp [depth]⟩
  | float x => exact ⟨.float x, by simp [depth]⟩

/-- All that a reader can take for a value, where `inner` reads the values in its containers. -/
inductive TakesValue (inner : Option (Reader Json)) (input : Bytes) : Json → Bytes → Prop where
  | null {behind rest : Bytes} (hStart : afterSpaces input = byte 'n' :: behind)
      (hKeyword : keyword ['u', 'l', 'l'] behind = .ok rest) : TakesValue inner input .null rest
  | yes {behind rest : Bytes} (hStart : afterSpaces input = byte 't' :: behind)
      (hKeyword : keyword ['r', 'u', 'e'] behind = .ok rest) :
      TakesValue inner input (.bool true) rest
  | no {behind rest : Bytes} (hStart : afterSpaces input = byte 'f' :: behind)
      (hKeyword : keyword ['a', 'l', 's', 'e'] behind = .ok rest) :
      TakesValue inner input (.bool false) rest
  | negative {behind rest : Bytes} {n : Number} (hStart : afterSpaces input = byte '-' :: behind)
      (hNumber : readNumber true behind = .ok (n, rest)) : TakesValue inner input (.number n) rest
  | positive {b : UInt8} {behind rest : Bytes} {n : Number} (hStart : afterSpaces input = b :: behind)
      (hNumber : readNumber false (b :: behind) = .ok (n, rest)) :
      TakesValue inner input (.number n) rest
  | string {behind rest : Bytes} {text : String} (hStart : afterSpaces input = byte '"' :: behind)
      (hString : readString behind = .ok (text, rest)) : TakesValue inner input (.string text) rest
  | array {value : Reader Json} {behind middle rest : Bytes} {items : List Json}
      (hInner : inner = some value) (hStart : afterSpaces input = byte '[' :: behind)
      (hItems : readItems value (behind.length + 1) true behind = .ok (items, middle))
      (hClose : closeList middle = .ok rest) : TakesValue inner input (.array items) rest
  | object {value : Reader Json} {behind middle rest : Bytes} {fields : Fields}
      (hInner : inner = some value) (hStart : afterSpaces input = byte '\x7b' :: behind)
      (hFields : foldFields (anyField value) (behind.length + 1) true [] behind =
        .ok (fields, middle))
      (hClose : closeObject middle = .ok rest) : TakesValue inner input (.object fields) rest

theorem takesValue_of_valueWith {inner : Option (Reader Json)} {input rest : Bytes} {value : Json}
    (h : valueWith inner input = .ok (value, rest)) : TakesValue inner input value rest := by
  simp only [valueWith] at h
  split at h
  · cases h
  · rename_i b behind hStart
    split_ifs at h with hNull hTrue hFalse hMinus hDigit hQuote hArray hObject
    · obtain ⟨last, hKeyword, h⟩ := bind_eq_ok h
      cases h
      exact .null (hNull ▸ hStart) hKeyword
    · obtain ⟨last, hKeyword, h⟩ := bind_eq_ok h
      cases h
      exact .yes (hTrue ▸ hStart) hKeyword
    · obtain ⟨last, hKeyword, h⟩ := bind_eq_ok h
      cases h
      exact .no (hFalse ▸ hStart) hKeyword
    · obtain ⟨⟨n, last⟩, hNumber, h⟩ := bind_eq_ok h
      cases h
      exact .negative (hMinus ▸ hStart) hNumber
    · obtain ⟨⟨n, last⟩, hNumber, h⟩ := bind_eq_ok h
      cases h
      exact .positive hStart hNumber
    · obtain ⟨⟨text, last⟩, hString, h⟩ := bind_eq_ok h
      cases h
      exact .string (hQuote ▸ hStart) hString
    · split at h
      · cases h
      · obtain ⟨⟨items, middle⟩, hItems, h⟩ := bind_eq_ok h
        obtain ⟨last, hClose, h⟩ := bind_eq_ok h
        cases h
        exact .array rfl (hArray ▸ hStart) hItems hClose
    · split at h
      · cases h
      · obtain ⟨⟨fields, middle⟩, hFields, h⟩ := bind_eq_ok h
        obtain ⟨last, hClose, h⟩ := bind_eq_ok h
        cases h
        exact .object rfl (hObject ▸ hStart) hFields hClose

/-- What a value is made of, where `inner` reads the values in its containers. -/
theorem valueWith_formed {inner : Option (Reader Json)} {limit : Nat}
    (hInner : ∀ value, inner = some value → ∃ less, limit = less + 1 ∧
      ∀ input v rest, value input = .ok (v, rest) → FormedWithin less v)
    {input rest : Bytes} {value : Json} (h : valueWith inner input = .ok (value, rest)) :
    FormedWithin limit value := by
  cases takesValue_of_valueWith h with
  | null => exact ⟨.null, by simp [depth]⟩
  | yes => exact ⟨.bool true, by simp [depth]⟩
  | no => exact ⟨.bool false, by simp [depth]⟩
  | negative hStart hNumber => exact formedWithin_number (readNumber_fits hNumber)
  | positive hStart hNumber => exact formedWithin_number (readNumber_fits hNumber)
  | string hStart hString => exact ⟨.string _, by simp [depth]⟩
  | array hSome hStart hItems hClose =>
      obtain ⟨less, rfl, hValue⟩ := hInner _ hSome
      exact formedWithin_array (readItems_all hValue hItems)
  | object hSome hStart hFields hClose =>
      obtain ⟨less, rfl, hValue⟩ := hInner _ hSome
      exact formedWithin_object
        (foldFields_invariant (allFields_anyField hValue) (allFields_nil _) hFields)

/-- A value that was read is formed, and has at most as many containers inside each other as the
reader may open. -/
theorem readValue_formed {limit : Nat} {input rest : Bytes} {value : Json}
    (h : readValue limit input = .ok (value, rest)) : FormedWithin limit value := by
  induction limit generalizing input rest value with
  | zero => exact valueWith_formed (fun _ hNone => by cases hNone) h
  | succ limit ih =>
      refine valueWith_formed (fun inner hInner => ?_) h
      cases hInner
      exact ⟨limit, rfl, fun input v rest hRead => ih hRead⟩

/-- The value of a document. -/
theorem parse_formed {input : Bytes} {value : Json} (h : parse input = .ok value) :
    FormedWithin maxDepth value := by
  obtain ⟨rest, hRead, -⟩ := runReader_eq_ok h
  exact readValue_formed hRead

end PolicyBundle.Json
