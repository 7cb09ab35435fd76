import Mathlib
import Catalyrst.Lib.JsonWriter
import Catalyrst.Lib.Utf8

/-!
# JSON values

A value read from JSON: its numbers are 64-bit integers or floats, its objects lists
of fields. It can be looked into and put out in compact form, which gives it back. Of a
float only the text it is put out as matters here.
-/

namespace Catalyrst.Lib

open JsonText

/-- The characters of numbers. -/
def isNumeral (c : Char) : Bool := c.isDigit ∨ c ∈ ['-', '+', '.', 'e']

/-- A float is put out with a fraction or an exponent, which tells it from an integer. -/
structure FloatText (text : List Char) : Prop where
  numeral : ∀ c ∈ text, isNumeral c = true
  marked : '.' ∈ text ∨ 'e' ∈ text

/-- A number. -/
inductive JsonNumber where
  | int (n : ℤ) (range : -2 ^ 63 ≤ n ∧ n < 2 ^ 64)
  | float (text : List Char) (form : FloatText text)

def JsonNumber.render : JsonNumber → List Char
  | .int n _ => JsonWriter.integer n
  | .float text _ => text

inductive JsonValue where
  | null
  | bool (b : Bool)
  | number (n : JsonNumber)
  | string (s : List Char)
  | array (items : List JsonValue)
  | object (fields : List (List Char × JsonValue))

namespace JsonValue

/-! ### Looking into a value -/

def get (key : List Char) : JsonValue → Option JsonValue
  | .object fields => fields.lookup key
  | _ => none

def asStr : JsonValue → Option (List Char)
  | .string s => some s
  | _ => none

def asI64 : JsonValue → Option ℤ
  | .number (.int n _) => if n < 2 ^ 63 then some n else none
  | _ => none

def asU64 : JsonValue → Option ℕ
  | .number (.int n _) => if 0 ≤ n then some n.toNat else none
  | _ => none

/-! ### Putting it out -/

mutual

def render : JsonValue → List Char
  | .null => ['n', 'u', 'l', 'l']
  | .bool true => ['t', 'r', 'u', 'e']
  | .bool false => ['f', 'a', 'l', 's', 'e']
  | .number n => n.render
  | .string s => JsonWriter.string s
  | .array [] => ['[', ']']
  | .array (v :: vs) => '[' :: (render v ++ renderItems vs)
  | .object [] => [openBrace, closeBrace]
  | .object (f :: fs) => openBrace :: (renderField f ++ renderFields fs)

def renderField : List Char × JsonValue → List Char
  | (key, v) => JsonWriter.string key ++ ':' :: render v

/-- What follows the first item of an array. -/
def renderItems : List JsonValue → List Char
  | [] => [']']
  | v :: vs => ',' :: (render v ++ renderItems vs)

/-- What follows the first field of an object. -/
def renderFields : List (List Char × JsonValue) → List Char
  | [] => [closeBrace]
  | f :: fs => ',' :: (renderField f ++ renderFields fs)

end

/-! ### Values of single bytes -/

mutual

/-- The strings and keys of the value are texts of single bytes. -/
def Ascii : JsonValue → Prop
  | .string s => Utf8.Ascii s
  | .array items => ItemsAscii items
  | .object fields => FieldsAscii fields
  | _ => True

def ItemsAscii : List JsonValue → Prop
  | [] => True
  | v :: vs => v.Ascii ∧ ItemsAscii vs

def FieldAscii : List Char × JsonValue → Prop
  | (key, v) => Utf8.Ascii key ∧ v.Ascii

def FieldsAscii : List (List Char × JsonValue) → Prop
  | [] => True
  | f :: fs => FieldAscii f ∧ FieldsAscii fs

end

theorem escapeChar_ascii {c : Char} (h : c.utf8Size = 1) : Utf8.Ascii (JsonWriter.escapeChar c) := by
  have hdigit : ∀ n < 16, (Nat.digitChar n).utf8Size = 1 := by decide
  rcases JsonWriter.escapeChar_cases c with ⟨e, he, hc⟩ | ⟨hlt, hc⟩ | ⟨-, -, hc⟩ <;> rw [hc]
  · have hescapes : ∀ p ∈ JsonWriter.shortEscapes, p.2.utf8Size = 1 := by decide
    intro d hd
    rcases List.mem_pair.mp hd with rfl | rfl
    · rfl
    · exact hescapes _ (JsonWriter.mem_of_lookup he)
  · intro d hd
    simp only [List.mem_cons, List.not_mem_nil, or_false] at hd
    rcases hd with rfl | rfl | rfl | rfl | rfl | rfl
    · rfl
    · rfl
    · rfl
    · rfl
    · exact hdigit _ (by omega)
    · exact hdigit _ (by omega)
  · intro d hd
    rw [List.mem_singleton.mp hd]
    exact h

theorem string_ascii {s : List Char} (h : Utf8.Ascii s) : Utf8.Ascii (JsonWriter.string s) := by
  have hbody : Utf8.Ascii (s.flatMap JsonWriter.escapeChar) := by
    intro c hc
    obtain ⟨d, hd, hcd⟩ := List.mem_flatMap.mp hc
    exact escapeChar_ascii (h d hd) c hcd
  exact Utf8.Ascii.cons rfl (hbody.append (by decide))

theorem isNumeral_of_mem_integer {n : ℤ} {c : Char} (h : c ∈ JsonWriter.integer n) :
    c = '-' ∨ c.isDigit = true := by
  unfold JsonWriter.integer at h
  split at h
  · rcases List.mem_cons.mp h with rfl | h
    · exact .inl rfl
    · exact .inr (JsonWriter.toDigits_isDigit h)
  · exact .inr (JsonWriter.toDigits_isDigit h)

theorem number_numeral (n : JsonNumber) : ∀ c ∈ n.render, isNumeral c = true := by
  intro c hc
  cases n with
  | float text form => exact form.numeral c hc
  | int n range =>
    rw [isNumeral, decide_eq_true_iff]
    rcases isNumeral_of_mem_integer hc with rfl | hdigit
    · exact .inr List.mem_cons_self
    · exact .inl hdigit

theorem number_ascii (n : JsonNumber) : Utf8.Ascii n.render := by
  intro c hc
  have hmarks : ∀ d ∈ ['-', '+', '.', 'e'], d.toNat < 128 := by simp
  have hnumeral := number_numeral n c hc
  rw [isNumeral, decide_eq_true_iff] at hnumeral
  rcases hnumeral with hdigit | hmark
  · exact Utf8.utf8Size_of_isDigit hdigit
  · exact Utf8.utf8Size_of_lt (hmarks c hmark)

mutual

/-- Such a value is put out in single bytes. -/
theorem render_ascii : ∀ v : JsonValue, v.Ascii → Utf8.Ascii v.render
  | .null, _ => by unfold render; decide
  | .bool true, _ => by unfold render; decide
  | .bool false, _ => by unfold render; decide
  | .number n, _ => by unfold render; exact number_ascii n
  | .string _, h => by unfold render; unfold Ascii at h; exact string_ascii h
  | .array [], _ => by unfold render; decide
  | .array (v :: vs), h => by
    unfold Ascii ItemsAscii at h
    unfold render
    exact Utf8.Ascii.cons rfl ((render_ascii v h.1).append (renderItems_ascii vs h.2))
  | .object [], _ => by unfold render; decide
  | .object (f :: fs), h => by
    unfold Ascii FieldsAscii at h
    unfold render
    exact Utf8.Ascii.cons rfl ((renderField_ascii f h.1).append (renderFields_ascii fs h.2))

theorem renderField_ascii : ∀ f : List Char × JsonValue, FieldAscii f →
    Utf8.Ascii (renderField f)
  | (_, v), h => by
    unfold FieldAscii at h
    unfold renderField
    exact (string_ascii h.1).append (Utf8.Ascii.cons rfl (render_ascii v h.2))

theorem renderItems_ascii : ∀ vs : List JsonValue, ItemsAscii vs → Utf8.Ascii (renderItems vs)
  | [], _ => by unfold renderItems; decide
  | v :: vs, h => by
    unfold ItemsAscii at h
    unfold renderItems
    exact Utf8.Ascii.cons rfl ((render_ascii v h.1).append (renderItems_ascii vs h.2))

theorem renderFields_ascii : ∀ fs : List (List Char × JsonValue), FieldsAscii fs →
    Utf8.Ascii (renderFields fs)
  | [], _ => by unfold renderFields; decide
  | f :: fs, h => by
    unfold FieldsAscii at h
    unfold renderFields
    exact Utf8.Ascii.cons rfl ((renderField_ascii f h.1).append (renderFields_ascii fs h.2))

end

/-! ### Back from a text -/

/-- The text does not go on with a number. -/
def Stops (x : List Char) : Prop := ∀ c ∈ x.head?, isNumeral c = false

theorem stops_nil : Stops [] := fun _ hc => nomatch hc

theorem stops_cons {c : Char} {x : List Char} (h : isNumeral c = false) : Stops (c :: x) := by
  intro d hd
  rwa [← Option.some.inj hd]

theorem takeWhile_numeral {s x : List Char} (hs : ∀ c ∈ s, isNumeral c = true) (hx : Stops x) :
    (s ++ x).takeWhile isNumeral = s := by
  rw [List.takeWhile_append_of_pos hs]
  cases x with
  | nil => rw [List.takeWhile_nil, List.append_nil]
  | cons c x => rw [List.takeWhile_cons_of_neg (by simp [hx c rfl]), List.append_nil]

theorem mark_notMem_integer {n : ℤ} {text : List Char} (form : FloatText text) :
    JsonWriter.integer n ≠ text := by
  rintro rfl
  rcases form.marked with hmark | hmark
  · rcases isNumeral_of_mem_integer hmark with h | h
    · exact absurd h (by decide)
    · exact absurd h (by decide)
  · rcases isNumeral_of_mem_integer hmark with h | h
    · exact absurd h (by decide)
    · exact absurd h (by decide)

theorem number_inj {m n : JsonNumber} (h : m.render = n.render) : m = n := by
  cases m with
  | int m range =>
    cases n with
    | int n range' =>
      obtain rfl := JsonWriter.integer_inj h
      rfl
    | float text form => exact absurd h (mark_notMem_integer form)
  | float text form =>
    cases n with
    | int n range => exact absurd h.symm (mark_notMem_integer form)
    | float text' form' =>
      obtain rfl : text = text' := h
      rfl

theorem number_selfDelimiting {m n : JsonNumber} {x y : List Char} (hx : Stops x) (hy : Stops y)
    (h : m.render ++ x = n.render ++ y) : m = n ∧ x = y := by
  have hrender : m.render = n.render := by
    rw [← takeWhile_numeral (number_numeral m) hx, h, takeWhile_numeral (number_numeral n) hy]
  rw [hrender] at h
  exact ⟨number_inj hrender, List.append_cancel_left h⟩

def kind : JsonValue → Kind
  | .null => .null
  | .bool _ => .boolean
  | .number _ => .number
  | .string _ => .string
  | .array _ => .array
  | .object _ => .object

/-- The kind of value that begins with the character. -/
def kindAt (c : Char) : Option Kind :=
  if isNumeral c then some .number
  else [('n', Kind.null), ('t', .boolean), ('f', .boolean), (quote, .string), ('[', .array),
    (openBrace, .object)].lookup c

theorem number_head (n : JsonNumber) : ∃ c rest, n.render = c :: rest := by
  refine List.exists_cons_of_ne_nil ?_
  cases n with
  | int n range =>
    show JsonWriter.integer n ≠ []
    unfold JsonWriter.integer
    split
    · exact List.cons_ne_nil _ _
    · exact Nat.toDigits_ne_nil
  | float text form =>
    rintro rfl
    exact form.marked.elim List.not_mem_nil List.not_mem_nil

theorem render_head (v : JsonValue) : ∃ c rest, v.render = c :: rest ∧ kindAt c = some v.kind := by
  cases v with
  | null => exact ⟨_, _, by rw [render], rfl⟩
  | bool b =>
    cases b with
    | true => exact ⟨_, _, by rw [render], rfl⟩
    | false => exact ⟨_, _, by rw [render], rfl⟩
  | number n =>
    obtain ⟨c, rest, hn⟩ := number_head n
    refine ⟨c, rest, by rw [render, hn], if_pos (number_numeral n c ?_)⟩
    rw [hn]
    exact List.mem_cons_self
  | string s => exact ⟨_, _, by rw [render, JsonWriter.string], rfl⟩
  | array items =>
    cases items with
    | nil => exact ⟨_, _, by rw [render], rfl⟩
    | cons v vs => exact ⟨_, _, by rw [render], rfl⟩
  | object fields =>
    cases fields with
    | nil => exact ⟨_, _, by rw [render], rfl⟩
    | cons f fs => exact ⟨_, _, by rw [render], rfl⟩

theorem kind_eq {v w : JsonValue} {x y : List Char} (h : v.render ++ x = w.render ++ y) :
    v.kind = w.kind := by
  obtain ⟨c, rest, hv, hc⟩ := render_head v
  obtain ⟨d, rest', hw, hd⟩ := render_head w
  rw [hv, hw] at h
  obtain rfl : c = d := (List.cons.inj h).1
  exact Option.some.inj (hc.symm.trans hd)

/-- No value begins with a closing bracket. -/
theorem render_ne_bracket {v : JsonValue} {x y : List Char} : v.render ++ x ≠ ']' :: y := by
  intro h
  obtain ⟨c, rest, hv, hc⟩ := render_head v
  rw [hv] at h
  obtain rfl : c = ']' := (List.cons.inj h).1
  cases hc

theorem stops_renderItems (vs : List JsonValue) (x : List Char) : Stops (renderItems vs ++ x) := by
  cases vs with
  | nil => exact stops_cons (by decide)
  | cons v vs => exact stops_cons (by decide)

theorem stops_renderFields (fs : List (List Char × JsonValue)) (x : List Char) :
    Stops (renderFields fs ++ x) := by
  cases fs with
  | nil => exact stops_cons (by decide)
  | cons f fs => exact stops_cons (by decide)

mutual

/-- A value can be told from what follows it, unless a number runs on. -/
theorem render_selfDelimiting : ∀ (v w : JsonValue) {x y : List Char}, Stops x → Stops y →
    v.render ++ x = w.render ++ y → v = w ∧ x = y
  | .null, w, x, y, hx, hy, h => by
    have hkind := kind_eq h
    cases w <;> simp only [kind, reduceCtorEq] at hkind
    exact ⟨rfl, List.append_cancel_left h⟩
  | .bool b, w, x, y, hx, hy, h => by
    have hkind := kind_eq h
    cases w <;> simp only [kind, reduceCtorEq] at hkind
    rename_i b'
    cases b <;> cases b' <;> simp [render] at h
    · exact ⟨rfl, h⟩
    · exact ⟨rfl, h⟩
  | .number n, w, x, y, hx, hy, h => by
    have hkind := kind_eq h
    cases w <;> simp only [kind, reduceCtorEq] at hkind
    rename_i n'
    rw [render, render] at h
    obtain ⟨rfl, hrest⟩ := number_selfDelimiting hx hy h
    exact ⟨rfl, hrest⟩
  | .string s, w, x, y, hx, hy, h => by
    have hkind := kind_eq h
    cases w <;> simp only [kind, reduceCtorEq] at hkind
    rename_i s'
    rw [render, render] at h
    obtain ⟨rfl, hrest⟩ := JsonWriter.string_selfDelimiting s s' x y h
    exact ⟨rfl, hrest⟩
  | .array [], w, x, y, hx, hy, h => by
    have hkind := kind_eq h
    cases w <;> simp only [kind, reduceCtorEq] at hkind
    rename_i ws
    cases ws with
    | nil => exact ⟨rfl, List.append_cancel_left h⟩
    | cons w ws =>
      have hrest : ']' :: x = w.render ++ (renderItems ws ++ y) := by simpa [render] using h
      exact absurd hrest.symm render_ne_bracket
  | .array (v :: vs), w, x, y, hx, hy, h => by
    have hkind := kind_eq h
    cases w <;> simp only [kind, reduceCtorEq] at hkind
    rename_i ws
    cases ws with
    | nil =>
      have hrest : v.render ++ (renderItems vs ++ x) = ']' :: y := by simpa [render] using h
      exact absurd hrest render_ne_bracket
    | cons w ws =>
      rw [render, render, List.cons_append, List.cons_append, List.append_assoc,
        List.append_assoc] at h
      obtain ⟨rfl, hitems⟩ := render_selfDelimiting v w (stops_renderItems vs x)
        (stops_renderItems ws y) (List.cons.inj h).2
      obtain ⟨rfl, hrest⟩ := renderItems_selfDelimiting vs ws hitems
      exact ⟨rfl, hrest⟩
  | .object [], w, x, y, hx, hy, h => by
    have hkind := kind_eq h
    cases w <;> simp only [kind, reduceCtorEq] at hkind
    rename_i fs
    cases fs with
    | nil => exact ⟨rfl, List.append_cancel_left h⟩
    | cons f fs =>
      obtain ⟨key, v⟩ := f
      rw [render, render, renderField, JsonWriter.string] at h
      exact absurd (List.cons.inj (List.cons.inj h).2).1 (by decide)
  | .object (f :: fs), w, x, y, hx, hy, h => by
    have hkind := kind_eq h
    cases w <;> simp only [kind, reduceCtorEq] at hkind
    rename_i gs
    cases gs with
    | nil =>
      obtain ⟨key, v⟩ := f
      rw [render, render, renderField, JsonWriter.string] at h
      exact absurd (List.cons.inj (List.cons.inj h).2).1 (by decide)
    | cons g gs =>
      rw [render, render, List.cons_append, List.cons_append, List.append_assoc,
        List.append_assoc] at h
      obtain ⟨rfl, hfields⟩ := renderField_selfDelimiting f g (stops_renderFields fs x)
        (stops_renderFields gs y) (List.cons.inj h).2
      obtain ⟨rfl, hrest⟩ := renderFields_selfDelimiting fs gs hfields
      exact ⟨rfl, hrest⟩
termination_by structural v => v

theorem renderField_selfDelimiting : ∀ (f g : List Char × JsonValue) {x y : List Char}, Stops x →
    Stops y → renderField f ++ x = renderField g ++ y → f = g ∧ x = y
  | (key, v), (key', w), x, y, hx, hy, h => by
    rw [renderField, renderField, List.append_assoc, List.append_assoc] at h
    obtain ⟨rfl, hvalue⟩ := JsonWriter.string_selfDelimiting key key' _ _ h
    obtain ⟨rfl, hrest⟩ := render_selfDelimiting v w hx hy (List.cons.inj hvalue).2
    exact ⟨rfl, hrest⟩
termination_by structural f => f

theorem renderItems_selfDelimiting : ∀ (vs ws : List JsonValue) {x y : List Char},
    renderItems vs ++ x = renderItems ws ++ y → vs = ws ∧ x = y
  | [], ws, x, y, h => by
    cases ws with
    | nil => exact ⟨rfl, List.append_cancel_left h⟩
    | cons w ws =>
      rw [renderItems, renderItems] at h
      exact absurd (List.cons.inj h).1 (by decide)
  | v :: vs, ws, x, y, h => by
    cases ws with
    | nil =>
      rw [renderItems, renderItems] at h
      exact absurd (List.cons.inj h).1 (by decide)
    | cons w ws =>
      rw [renderItems, renderItems, List.cons_append, List.cons_append, List.append_assoc,
        List.append_assoc] at h
      obtain ⟨rfl, hitems⟩ := render_selfDelimiting v w (stops_renderItems vs x)
        (stops_renderItems ws y) (List.cons.inj h).2
      obtain ⟨rfl, hrest⟩ := renderItems_selfDelimiting vs ws hitems
      exact ⟨rfl, hrest⟩
termination_by structural vs => vs

theorem renderFields_selfDelimiting : ∀ (fs gs : List (List Char × JsonValue)) {x y : List Char},
    renderFields fs ++ x = renderFields gs ++ y → fs = gs ∧ x = y
  | [], gs, x, y, h => by
    cases gs with
    | nil => exact ⟨rfl, List.append_cancel_left h⟩
    | cons g gs =>
      rw [renderFields, renderFields] at h
      exact absurd (List.cons.inj h).1 (by decide)
  | f :: fs, gs, x, y, h => by
    cases gs with
    | nil =>
      rw [renderFields, renderFields] at h
      exact absurd (List.cons.inj h).1 (by decide)
    | cons g gs =>
      rw [renderFields, renderFields, List.cons_append, List.cons_append, List.append_assoc,
        List.append_assoc] at h
      obtain ⟨rfl, hfields⟩ := renderField_selfDelimiting f g (stops_renderFields fs x)
        (stops_renderFields gs y) (List.cons.inj h).2
      obtain ⟨rfl, hrest⟩ := renderFields_selfDelimiting fs gs hfields
      exact ⟨rfl, hrest⟩
termination_by structural fs => fs

end

theorem render_injective {v w : JsonValue} (h : v.render = w.render) : v = w := by
  refine (render_selfDelimiting v w stops_nil stops_nil ?_).1
  rw [h]

end JsonValue

end Catalyrst.Lib
