import PolicyBundle.Proofs.Json.Fields
import PolicyBundle.Proofs.Json.Numbers
import PolicyBundle.Proofs.Json.Strings
import PolicyBundle.Proofs.Text.Pieces

/-! Values read back from what is written of them, whatever delimiter follows. The lists of items and
of fields are treated for every kind of item and field, so the readers of typed documents share
them. -/

namespace PolicyBundle.Json

/-- Text whose first byte begins a token and ends no list. -/
def Begins (chars : List Char) : Prop :=
  ∃ b rest, Text.encode chars = b :: rest ∧ isSpace b = false ∧ b ≠ byte ']'

/-- A reader that reads something back from its text, before every delimiter. -/
def Rereads {α : Type} (read : Reader α) (chars : List Char) (x : α) : Prop :=
  ∀ tail, Delimited tail → read (Text.encode chars ++ tail) = .ok (x, tail)

/-- A byte that ends a number. -/
theorem delimited_cons {b : UInt8} (rest : Bytes)
    (h : isDigit b = false ∧ b ≠ byte '.' ∧ b ≠ byte 'e' ∧ b ≠ byte 'E') : Delimited (b :: rest) := by
  intro c hc
  cases hc
  exact h

theorem encode_enclosed {opening closing : Char} (hOpening : opening.toNat < 0x80)
    (hClosing : closing.toNat < 0x80) (chars : List Char) (tail : Bytes) :
    Text.encode (opening :: chars ++ [closing]) ++ tail =
      byte opening :: (Text.encode chars ++ byte closing :: tail) := by
  rw [List.cons_append, Text.encode_cons_of_lt _ hOpening, Text.encode_append,
    Text.encode_cons_of_lt [] hClosing, Text.encode_nil, List.cons_append, List.append_assoc,
    List.singleton_append, byte_eq, byte_eq]

section Lists

variable {α : Type} {item : Reader α} {text : α → List Char}

theorem nextItem_first {chars : List Char} (hBegins : Begins chars) (tail : Bytes) :
    nextItem item true (Text.encode chars ++ tail) =
      (item (Text.encode chars ++ tail)).map fun found => (some found.1, found.2) := by
  obtain ⟨b, rest, hChars, hSpace, hClosing⟩ := hBegins
  rw [hChars, List.cons_append, nextItem, afterSpaces_cons _ hSpace]
  simp only [if_neg hClosing, if_true, bind, Except.bind]
  cases item (b :: (rest ++ tail)) <;> rfl

theorem nextItem_comma {chars : List Char} (hBegins : Begins chars) (tail : Bytes) :
    nextItem item false (byte ',' :: (Text.encode chars ++ tail)) =
      (item (Text.encode chars ++ tail)).map fun found => (some found.1, found.2) := by
  obtain ⟨b, rest, hChars, hSpace, hClosing⟩ := hBegins
  rw [hChars, List.cons_append, nextItem, afterSpaces_cons _ (by decide)]
  simp only [afterSpaces_cons _ hSpace, bind, Except.bind]
  rw [if_neg (by decide), if_neg (by decide)]
  simp only [if_neg hClosing, if_true]
  cases item (b :: (rest ++ tail)) <;> rfl

theorem nextItem_closing (first : Bool) (tail : Bytes) :
    nextItem item first (byte ']' :: tail) = .ok (none, byte ']' :: tail) := by
  rw [nextItem, afterSpaces_cons _ (by decide)]
  simp

/-- What is behind a part of a container: a comma and more parts, or its closing. -/
theorem delimited_parts (parts : List (List Char)) {closing : UInt8}
    (hClosing : closing = byte ']' ∨ closing = byte '\x7d') (tail : Bytes) :
    Delimited (Text.encode (parts.flatMap (',' :: ·)) ++ closing :: tail) := by
  cases parts with
  | nil =>
      apply delimited_cons
      rcases hClosing with rfl | rfl <;> decide
  | cons part parts =>
      rw [List.flatMap_cons, List.cons_append, Text.encode_cons_of_lt _ (by decide),
        List.cons_append]
      exact delimited_cons _ (by decide)

theorem encode_parts (part : List Char) (parts : List (List Char)) (tail : Bytes) :
    Text.encode ((part :: parts).flatMap (',' :: ·)) ++ tail =
      byte ',' :: (Text.encode part ++ (Text.encode (parts.flatMap (',' :: ·)) ++ tail)) := by
  rw [List.flatMap_cons, List.cons_append, Text.encode_cons_of_lt _ (by decide),
    Text.encode_append, List.cons_append, List.append_assoc, byte_eq]

/-- The items of a list behind the first one, each behind a comma. -/
theorem readItems_commas {items : List α} (hBegins : ∀ x ∈ items, Begins (text x))
    (hItems : ∀ x ∈ items, Rereads item (text x) x) {rounds : Nat}
    (hRounds : items.length < rounds) (tail : Bytes) :
    readItems item rounds false
        (Text.encode ((items.map text).flatMap (',' :: ·)) ++ byte ']' :: tail) =
      .ok (items, byte ']' :: tail) := by
  induction items generalizing rounds with
  | nil =>
      obtain ⟨rounds, rfl⟩ : ∃ less, rounds = less + 1 := ⟨rounds - 1, by omega⟩
      rw [List.map_nil, List.flatMap_nil, Text.encode_nil, List.nil_append, readItems,
        nextItem_closing]
      rfl
  | cons x items ih =>
      obtain ⟨rounds, rfl⟩ : ∃ less, rounds = less + 1 := ⟨rounds - 1, by omega⟩
      have hRest := ih (fun y hy => hBegins y (List.mem_cons_of_mem _ hy))
        (fun y hy => hItems y (List.mem_cons_of_mem _ hy)) (Nat.lt_of_succ_lt_succ hRounds)
      have hFirst := hItems x List.mem_cons_self _
        (delimited_parts (items.map text) (Or.inl rfl) tail)
      rw [List.map_cons, encode_parts, readItems, nextItem_comma (hBegins x List.mem_cons_self),
        hFirst]
      simp only [Except.map, bind, Except.bind, hRest]

theorem length_le_parts (parts : List (List Char)) :
    parts.length ≤ (Text.encode (parts.flatMap (',' :: ·))).length := by
  induction parts with
  | nil => exact Nat.le_refl _
  | cons part parts ih =>
      have hParts := congrArg List.length (encode_parts part parts [])
      simp only [List.append_nil, List.length_cons, List.length_append] at hParts ⊢
      omega

/-- The items of a list read back up to its closing. -/
theorem readItems_written {items : List α} (hBegins : ∀ x ∈ items, Begins (text x))
    (hItems : ∀ x ∈ items, Rereads item (text x) x) {rounds : Nat} (tail : Bytes)
    (hRounds : (Text.encode ([','].intercalate (items.map text))).length + 1 < rounds) :
    readItems item rounds true
        (Text.encode ([','].intercalate (items.map text)) ++ byte ']' :: tail) =
      .ok (items, byte ']' :: tail) := by
  obtain ⟨rounds, rfl⟩ : ∃ less, rounds = less + 1 := ⟨rounds - 1, by omega⟩
  cases items with
  | nil =>
      rw [List.map_nil, List.intercalate_nil, Text.encode_nil, List.nil_append, readItems,
        nextItem_closing]
      rfl
  | cons x items =>
      have hLength := length_le_parts (items.map text)
      rw [List.map_cons, Text.intercalate_cons, Text.encode_append, List.length_append] at hRounds
      rw [List.length_map] at hLength
      have hLess : items.length < rounds := by omega
      have hRest := readItems_commas (fun y hy => hBegins y (List.mem_cons_of_mem _ hy))
        (fun y hy => hItems y (List.mem_cons_of_mem _ hy)) hLess tail
      have hFirst := hItems x List.mem_cons_self _
        (delimited_parts (items.map text) (Or.inl rfl) tail)
      rw [List.map_cons, Text.intercalate_cons, Text.encode_append, List.append_assoc, readItems,
        nextItem_first (hBegins x List.mem_cons_self), hFirst]
      simp only [Except.map, bind, Except.bind, hRest]

theorem closeList_closing (tail : Bytes) : closeList (byte ']' :: tail) = .ok tail := by
  rw [closeList, afterSpaces_cons _ (by decide)]
  rfl

end Lists

section Objects

variable {σ : Type} {field : σ → String → Reader σ}

/-- The text of a field. -/
def fieldText (f : String × Json) : List Char :=
  writeString f.1 ++ ':' :: write f.2

theorem writeFields_eq_map (fields : Fields) : writeFields fields = fields.map fieldText := by
  induction fields with
  | nil => rfl
  | cons f fields ih =>
      obtain ⟨name, value⟩ := f
      rw [writeFields, ih]
      rfl

/-- A run of a reader of fields: each field, read behind its name, takes one state to the next. -/
inductive Folds (field : σ → String → Reader σ) : σ → Fields → σ → Prop where
  | nil (s : σ) : Folds field s [] s
  | cons {s next last : σ} {f : String × Json} {fields : Fields}
      (first : Rereads (field s f.1) (':' :: write f.2) next) (rest : Folds field next fields last) :
      Folds field s (f :: fields) last

theorem encode_fieldText (f : String × Json) (tail : Bytes) :
    Text.encode (fieldText f) ++ tail =
      byte '"' :: (Text.encode (f.1.toList.flatMap escape) ++
        byte '"' :: (Text.encode (':' :: write f.2) ++ tail)) := by
  rw [fieldText, writeString, Text.encode_append, List.append_assoc,
    encode_enclosed (by decide) (by decide)]

theorem nextName_first (rest : Bytes) :
    nextName true (byte '"' :: rest) = .ok (some rest, rest) := by
  rw [nextName, afterSpaces_cons _ (by decide)]
  rfl

theorem nextName_comma (rest : Bytes) :
    nextName false (byte ',' :: byte '"' :: rest) = .ok (some rest, rest) := by
  rw [nextName, afterSpaces_cons _ (by decide)]
  simp only [afterSpaces_cons rest (show isSpace (byte '"') = false by decide)]
  rfl

theorem nextName_closing (first : Bool) (tail : Bytes) :
    nextName first (byte '\x7d' :: tail) = .ok (none, byte '\x7d' :: tail) := by
  rw [nextName, afterSpaces_cons _ (by decide)]
  simp

/-- The fields of an object behind the first one, each behind a comma. -/
theorem foldFields_commas {s last : σ} {fields : Fields} (hFolds : Folds field s fields last)
    {rounds : Nat} (hRounds : fields.length < rounds) (tail : Bytes) :
    foldFields field rounds false s
        (Text.encode ((fields.map fieldText).flatMap (',' :: ·)) ++ byte '\x7d' :: tail) =
      .ok (last, byte '\x7d' :: tail) := by
  induction hFolds generalizing rounds with
  | nil s =>
      obtain ⟨rounds, rfl⟩ : ∃ less, rounds = less + 1 := ⟨rounds - 1, by omega⟩
      rw [List.map_nil, List.flatMap_nil, Text.encode_nil, List.nil_append, foldFields,
        nextName_closing]
      rfl
  | @cons s next last f fields first rest ih =>
      obtain ⟨rounds, rfl⟩ : ∃ less, rounds = less + 1 := ⟨rounds - 1, by omega⟩
      have hRest := ih (Nat.lt_of_succ_lt_succ hRounds)
      have hFirst := first _ (delimited_parts (fields.map fieldText) (Or.inr rfl) tail)
      rw [List.map_cons, encode_parts, encode_fieldText, foldFields, nextName_comma]
      simp only [bind, Except.bind, readString_written, hFirst, hRest]

/-- The fields of an object read back up to its closing. -/
theorem foldFields_written {s last : σ} {fields : Fields} (hFolds : Folds field s fields last)
    {rounds : Nat} (tail : Bytes)
    (hRounds : (Text.encode ([','].intercalate (writeFields fields))).length + 1 < rounds) :
    foldFields field rounds true s
        (Text.encode ([','].intercalate (writeFields fields)) ++ byte '\x7d' :: tail) =
      .ok (last, byte '\x7d' :: tail) := by
  rw [writeFields_eq_map] at hRounds ⊢
  obtain ⟨rounds, rfl⟩ : ∃ less, rounds = less + 1 := ⟨rounds - 1, by omega⟩
  cases hFolds with
  | nil =>
      rw [List.map_nil, List.intercalate_nil, Text.encode_nil, List.nil_append, foldFields,
        nextName_closing]
      rfl
  | @cons _ next _ f fields first rest =>
      have hLength := length_le_parts (fields.map fieldText)
      rw [List.map_cons, Text.intercalate_cons, Text.encode_append, List.length_append] at hRounds
      rw [List.length_map] at hLength
      have hLess : fields.length < rounds := by omega
      have hRest := foldFields_commas rest hLess tail
      have hFirst := first _ (delimited_parts (fields.map fieldText) (Or.inr rfl) tail)
      rw [List.map_cons, Text.intercalate_cons, Text.encode_append, List.append_assoc,
        encode_fieldText, foldFields, nextName_first]
      simp only [bind, Except.bind, readString_written, hFirst, hRest]

theorem closeObject_closing (tail : Bytes) : closeObject (byte '\x7d' :: tail) = .ok tail := by
  rw [closeObject, afterSpaces_cons _ (by decide)]
  rfl

theorem colon_written (chars : List Char) (tail : Bytes) :
    colon (Text.encode (':' :: chars) ++ tail) = .ok (Text.encode chars ++ tail) := by
  rw [Text.encode_cons_of_lt _ (by decide), List.cons_append, colon,
    afterSpaces_cons _ (by decide)]
  rfl

end Objects

/-- A value that a reader which may open `depth` containers inside each other reads back: its integers
fit, its numbers of double precision read back, and its fields are in order. -/
inductive Readable : (depth : Nat) → Json → Prop where
  | null {depth : Nat} : Readable depth .null
  | bool {depth : Nat} (value : Bool) : Readable depth (.bool value)
  | integer {depth : Nat} {n : Int} (fits : IntegerFits n) : Readable depth (.number (.integer n))
  | float {depth : Nat} {x : Binary64} (back : x.ReadsBack) : Readable depth (.number (.float x))
  | string {depth : Nat} (text : String) : Readable depth (.string text)
  | array {depth : Nat} {items : List Json} (all : ∀ item ∈ items, Readable depth item) :
      Readable (depth + 1) (.array items)
  | object {depth : Nat} {fields : Fields} (sorted : Sorted fields)
      (all : ∀ f ∈ fields, Readable depth f.2) : Readable (depth + 1) (.object fields)

theorem writeItems_eq_map (items : List Json) : writeItems items = items.map write := by
  induction items with
  | nil => rfl
  | cons item items ih => rw [writeItems, ih, List.map_cons]

theorem begins_cons {c : Char} (chars : List Char) (hLow : c.toNat < 0x80)
    (hSpace : isSpace c.toUInt8 = false) (hClosing : c.toUInt8 ≠ byte ']') : Begins (c :: chars) :=
  ⟨_, _, Text.encode_cons_of_lt chars hLow, hSpace, hClosing⟩

theorem begins_number {isNegative : Bool} {c : Char} (chars : List Char)
    (hDigit : c.isDigit = true) : Begins ((if isNegative then ['-'] else []) ++ c :: chars) := by
  cases isNegative with
  | true => exact begins_cons _ (by decide) (by decide) (by decide)
  | false =>
      have hRange := toNat_of_isDigit hDigit
      have hByte := isDigit_byte hDigit
      exact begins_cons _ (by omega) (isSpace_of_isDigit hByte) (ne_of_isDigit hByte (by decide))

theorem begins_write (value : Json) : Begins (write value) := by
  cases value with
  | null => exact begins_cons _ (by decide) (by decide) (by decide)
  | bool b => cases b <;> exact begins_cons _ (by decide) (by decide) (by decide)
  | number n =>
      cases n with
      | integer n =>
          obtain ⟨c, chars, -, hText, hDigit⟩ := writeInteger_cons n
          rw [write, hText]
          exact begins_number chars hDigit
      | float x =>
          obtain ⟨c, chars, hText, hDigit, -⟩ := writeFloat_cons x
          rw [write, writeNumber, hText]
          exact begins_number chars hDigit
  | string text => exact begins_cons _ (by decide) (by decide) (by decide)
  | array items => exact begins_cons _ (by decide) (by decide) (by decide)
  | object fields => exact begins_cons _ (by decide) (by decide) (by decide)

theorem valueWith_string (inner : Option (Reader Json)) (rest : Bytes) :
    valueWith inner (byte '"' :: rest) =
      (readString rest).map fun found => (.string found.1, found.2) := by
  rw [valueWith, afterSpaces_cons rest (by decide)]
  simp only [bind, Except.bind]
  rw [if_neg (by decide), if_neg (by decide), if_neg (by decide), if_neg (by decide),
    if_neg (by decide), if_pos trivial]
  cases readString rest <;> rfl

theorem valueWith_array (value : Reader Json) (rest : Bytes) :
    valueWith (some value) (byte '[' :: rest) = (do
      let (items, rest) ← readItems value (rest.length + 1) true rest
      let rest ← closeList rest
      .ok (.array items, rest)) := by
  rw [valueWith, afterSpaces_cons rest (by decide)]
  simp only []
  rw [if_neg (by decide), if_neg (by decide), if_neg (by decide), if_neg (by decide),
    if_neg (by decide), if_neg (by decide), if_pos trivial]

theorem valueWith_object (value : Reader Json) (rest : Bytes) :
    valueWith (some value) (byte '\x7b' :: rest) = (do
      let (fields, rest) ← foldFields (anyField value) (rest.length + 1) true [] rest
      let rest ← closeObject rest
      .ok (.object fields, rest)) := by
  rw [valueWith, afterSpaces_cons rest (by decide)]
  simp only []
  rw [if_neg (by decide), if_neg (by decide), if_neg (by decide), if_neg (by decide),
    if_neg (by decide), if_neg (by decide), if_neg (by decide), if_pos trivial]

/-- Fields of any values, set one after the other. -/
theorem folds_anyField {value : Reader Json} (start : Fields) {fields : Fields}
    (hFields : ∀ f ∈ fields, Rereads value (write f.2) f.2) :
    Folds (anyField value) start fields (setAll start fields) := by
  induction fields generalizing start with
  | nil => exact .nil start
  | cons f fields ih =>
      have hRest := ih (setField f.1 f.2 start) fun g hg => hFields g (List.mem_cons_of_mem _ hg)
      refine .cons (fun tail hTail => ?_) hRest
      have hFirst := hFields f List.mem_cons_self tail hTail
      simp only [anyField, bind, Except.bind, colon_written, hFirst]

/-- A value reads back, whatever delimiter follows. -/
theorem Readable.rereads {depth : Nat} {value : Json} (h : Readable depth value) :
    Rereads (readValue depth) (write value) value := by
  induction h with
  | @null depth =>
      intro tail _
      cases depth <;> rfl
  | @bool depth b =>
      intro tail _
      cases depth <;> cases b <;> rfl
  | integer fits => exact fun tail hTail => readValue_integer fits _ hTail
  | float back => exact fun tail hTail => back.readValue _ hTail
  | @string depth text =>
      intro tail _
      obtain ⟨inner, hInner⟩ := readValue_eq_valueWith depth
      rw [hInner, write, writeString, encode_enclosed (by decide) (by decide), valueWith_string,
        readString_written]
      rfl
  | @array depth items all ih =>
      intro tail _
      rw [readValue, write, writeItems_eq_map, encode_enclosed (by decide) (by decide),
        valueWith_array]
      have hRounds : (Text.encode ([','].intercalate (items.map write))).length + 1 <
          (Text.encode ([','].intercalate (items.map write)) ++ byte ']' :: tail).length + 1 := by
        simp
      have hRead := readItems_written (fun x _ => begins_write x) ih tail hRounds
      simp only [hRead, bind, Except.bind, closeList_closing]
  | @object depth fields sorted all ih =>
      intro tail _
      rw [readValue, write, encode_enclosed (by decide) (by decide), valueWith_object]
      have hRounds : (Text.encode ([','].intercalate (writeFields fields))).length + 1 <
          (Text.encode ([','].intercalate (writeFields fields)) ++
            byte '\x7d' :: tail).length + 1 := by
        simp
      have hRead := foldFields_written (folds_anyField [] ih) tail hRounds
      simp only [hRead, bind, Except.bind, closeObject_closing, setAll_nil sorted]

/-- A document reads back from its text. -/
theorem Readable.parse_compact {value : Json} (h : Readable maxDepth value) :
    parseText value.compact = .ok value := by
  have hRead := h.rereads [] (by simp [Delimited])
  rw [List.append_nil] at hRead
  rw [parseText, compact, Text.utf8_ofList, parse, runReader, hRead]
  rfl

end PolicyBundle.Json
