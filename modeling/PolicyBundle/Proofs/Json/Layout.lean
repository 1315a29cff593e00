import PolicyBundle.Json.Printer
import PolicyBundle.Proofs.Archive.Names
import PolicyBundle.Proofs.Json.Strings

/-! The text of a value over several lines tells the value, if that is made of strings alone. What is
written of it shows by itself where it ends, whatever stands behind it. -/

namespace PolicyBundle.Json

section Parts

variable {α : Type} {text : α → List Char}

/-- Two things that are the same where texts begin with both. -/
def Separated (text : α → List Char) (x y : α) : Prop :=
  ∀ rest others, text x ++ rest = text y ++ others → x = y ∧ rest = others

/-- Parts behind a mark each, and an ending that begins with another mark. -/
theorem marked_injective {mark last : Char} (hMarks : mark ≠ last) {blank ending : List Char}
    {items others : List α} (h : ∀ x ∈ items, ∀ y ∈ others, Separated text x y)
    {rest behind : List Char}
    (hEq : items.flatMap (fun x => mark :: blank ++ text x) ++ (last :: ending ++ rest) =
      others.flatMap (fun x => mark :: blank ++ text x) ++ (last :: ending ++ behind)) :
    items = others ∧ rest = behind := by
  induction items generalizing others with
  | nil =>
      cases others with
      | nil => simpa using hEq
      | cons y others =>
          simp only [List.flatMap_nil, List.nil_append, List.flatMap_cons, List.cons_append,
            List.cons.injEq] at hEq
          exact absurd hEq.1.symm hMarks
  | cons x items ih =>
      cases others with
      | nil =>
          simp only [List.flatMap_nil, List.nil_append, List.flatMap_cons, List.cons_append,
            List.cons.injEq] at hEq
          exact absurd hEq.1 hMarks
      | cons y others =>
          simp only [List.flatMap_cons, List.cons_append, List.append_assoc, List.cons.injEq,
            true_and, List.append_cancel_left_eq] at hEq
          obtain ⟨rfl, hRest⟩ := h x List.mem_cons_self y List.mem_cons_self _ _ hEq
          obtain ⟨rfl, rfl⟩ := ih (fun x hx y hy =>
            h x (List.mem_cons_of_mem _ hx) y (List.mem_cons_of_mem _ hy))
            (by simpa only [List.cons_append, List.append_assoc] using hRest)
          exact ⟨rfl, rfl⟩

theorem intercalate_cons_flatMap (separator first : List Char) (parts : List (List Char)) :
    separator.intercalate (first :: parts) = first ++ parts.flatMap (separator ++ ·) := by
  induction parts generalizing first with
  | nil => simp
  | cons second parts ih =>
      rw [List.intercalate_cons_cons, ih, List.flatMap_cons, List.append_assoc, List.append_assoc]

/-- A container tells its parts, if each part tells where it ends. -/
theorem separated_writeBlock {indent : Nat} {opening closing : Char} (hClosing : closing ≠ '\n')
    {items others : List α} (h : ∀ x ∈ items, ∀ y ∈ others, Separated text x y)
    {rest behind : List Char}
    (hEq : writeBlock indent opening closing (items.map text) ++ rest =
      writeBlock indent opening closing (others.map text) ++ behind) :
    items = others ∧ rest = behind := by
  cases items with
  | nil =>
      cases others with
      | nil => simpa [writeBlock] using hEq
      | cons y others =>
          simp only [writeBlock, List.map_nil, List.isEmpty_nil, if_true, List.map_cons,
            List.isEmpty_cons, Bool.false_eq_true, if_false, List.cons_append, List.cons.injEq] at hEq
          exact absurd hEq.2.1 hClosing
  | cons x items =>
      cases others with
      | nil =>
          simp only [writeBlock, List.map_nil, List.isEmpty_nil, if_true, List.map_cons,
            List.isEmpty_cons, Bool.false_eq_true, if_false, List.cons_append, List.cons.injEq] at hEq
          exact absurd hEq.2.1.symm hClosing
      | cons y others =>
          simp only [writeBlock, List.map_cons, List.isEmpty_cons, Bool.false_eq_true, if_false,
            intercalate_cons_flatMap, List.flatMap_map, List.cons_append, List.append_assoc,
            List.cons.injEq, true_and, List.append_cancel_left_eq] at hEq
          obtain ⟨rfl, hRest⟩ := h x List.mem_cons_self y List.mem_cons_self _ _ hEq
          have hTail := @marked_injective α text ',' '\n' (by decide)
            ('\n' :: List.replicate (2 * (indent + 1)) ' ')
            (List.replicate (2 * indent) ' ' ++ [closing]) items others
            (fun x hx y hy => h x (List.mem_cons_of_mem _ hx) y (List.mem_cons_of_mem _ hy))
            rest behind (by simpa only [List.cons_append, List.append_assoc] using hRest)
          exact ⟨congrArg (x :: ·) hTail.1, hTail.2⟩

end Parts

theorem encode_injective {left right : List Char} (h : Text.encode left = Text.encode right) :
    left = right := by
  rw [← Text.utf8_ofList, ← Text.utf8_ofList] at h
  exact String.ofList_injective (Text.utf8_injective h)

/-- A string tells where it ends. -/
theorem separated_writeString (text other : String) : Separated writeString text other := by
  intro rest behind hEq
  have hQuote (chars : List Char) : Text.encode ('"' :: chars) = byte '"' :: Text.encode chars :=
    Text.encode_cons_of_lt chars (by decide)
  have hRead (text : String) (rest : List Char) : readString ((Text.encode
      (writeString text ++ rest)).drop 1) = .ok (text, Text.encode rest) := by
    rw [writeString, List.cons_append, List.cons_append, hQuote, List.drop_one, List.tail_cons,
      List.append_assoc, Text.encode_append, List.singleton_append, hQuote]
    exact readString_written text (Text.encode rest)
  have hSame := hRead text rest
  rw [hEq, hRead other behind] at hSame
  obtain ⟨rfl, hRest⟩ := Prod.ext_iff.mp (Except.ok.inj hSame)
  exact ⟨rfl, (encode_injective hRest).symm⟩

/-- A value of strings alone. -/
inductive Worded : Json → Prop where
  | string (text : String) : Worded (.string text)
  | array {items : List Json} (all : ∀ x ∈ items, Worded x) : Worded (.array items)
  | object {fields : Fields} (all : ∀ f ∈ fields, Worded f.2) : Worded (.object fields)

theorem prettyItems_eq_map (indent : Nat) (items : List Json) :
    prettyItems indent items = items.map (writePretty indent) := by
  induction items with
  | nil => rfl
  | cons item items ih => rw [prettyItems, ih, List.map_cons]

/-- A field over several lines. -/
def prettyField (indent : Nat) (f : String × Json) : List Char :=
  writeString f.1 ++ ':' :: ' ' :: writePretty indent f.2

theorem prettyFields_eq_map (indent : Nat) (fields : Fields) :
    prettyFields indent fields = fields.map (prettyField indent) := by
  induction fields with
  | nil => rfl
  | cons f fields ih => rw [prettyFields, ih, List.map_cons, prettyField]

theorem separated_prettyField {indent : Nat} {f g : String × Json}
    (h : Separated (writePretty indent) f.2 g.2) : Separated (prettyField indent) f g := by
  intro rest behind hEq
  simp only [prettyField, List.append_assoc, List.cons_append] at hEq
  obtain ⟨hName, hValue⟩ := separated_writeString _ _ _ _ hEq
  simp only [List.cons.injEq, true_and] at hValue
  obtain ⟨hSame, hRest⟩ := h _ _ hValue
  exact ⟨Prod.ext hName hSame, hRest⟩

theorem head?_writeBlock (indent : Nat) (opening closing : Char) (parts : List (List Char))
    (rest : List Char) : (writeBlock indent opening closing parts ++ rest).head? = some opening := by
  rw [writeBlock]
  split <;> rfl

/-- The first character of a value of strings. -/
def opening : Json → Char
  | .array _ => '['
  | .object _ => '\x7b'
  | _ => '"'

theorem head?_writePretty {value : Json} (h : Worded value) (indent : Nat) (rest : List Char) :
    (writePretty indent value ++ rest).head? = some (opening value) := by
  cases h with
  | string text => rfl
  | array all => exact head?_writeBlock _ _ _ _ _
  | object all => exact head?_writeBlock _ _ _ _ _

/-- A value of strings tells where it ends. -/
theorem separated_writePretty {value other : Json} (hValue : Worded value) (hOther : Worded other)
    (indent : Nat) : Separated (writePretty indent) value other := by
  induction hValue generalizing other indent with
  | string text =>
      intro rest behind hEq
      have hOpening := congrArg List.head? hEq
      rw [head?_writePretty (.string text), head?_writePretty hOther] at hOpening
      cases hOther with
      | string more =>
          obtain ⟨rfl, hRest⟩ := separated_writeString text more rest behind hEq
          exact ⟨rfl, hRest⟩
      | _ => simp [opening] at hOpening
  | array all ih =>
      intro rest behind hEq
      have hOpening := congrArg List.head? hEq
      rw [head?_writePretty (.array all), head?_writePretty hOther] at hOpening
      cases hOther with
      | array more =>
          rw [writePretty, writePretty, prettyItems_eq_map, prettyItems_eq_map] at hEq
          obtain ⟨rfl, hRest⟩ := separated_writeBlock (by decide)
            (fun x hx y hy => ih x hx (more y hy) (indent + 1)) hEq
          exact ⟨rfl, hRest⟩
      | _ => simp [opening] at hOpening
  | object all ih =>
      intro rest behind hEq
      have hOpening := congrArg List.head? hEq
      rw [head?_writePretty (.object all), head?_writePretty hOther] at hOpening
      cases hOther with
      | object more =>
          rw [writePretty, writePretty, prettyFields_eq_map, prettyFields_eq_map] at hEq
          obtain ⟨rfl, hRest⟩ := separated_writeBlock (by decide)
            (fun f hf g hg => separated_prettyField (ih f hf (more g hg) (indent + 1))) hEq
          exact ⟨rfl, hRest⟩
      | _ => simp [opening] at hOpening

/-- Values of strings with one text are one value. -/
theorem pretty_injective {value other : Json} (hValue : Worded value) (hOther : Worded other)
    (h : value.pretty = other.pretty) : value = other := by
  have hSeparated := separated_writePretty hValue hOther 0 [] []
  rw [List.append_nil, List.append_nil] at hSeparated
  exact (hSeparated (String.ofList_injective h)).1

end PolicyBundle.Json
