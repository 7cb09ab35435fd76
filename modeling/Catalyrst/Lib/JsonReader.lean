import Mathlib
import Catalyrst.Lib.JsonValue

/-!
# Reading JSON texts up to letter case

A reader takes a JSON text to a value, which a builder makes out of literals, strings, items and
fields; beside these texts it lets some through that are none. Characters are lowered one by one,
each to one or more. Two texts that are equal when lowered, and that both can be read, have values
of one shape: whatever the builder respects holds between them.
-/

namespace Catalyrst.Lib.JsonReader

open JsonText JsonValue JsonWriter

/-! ### Letter case -/

/-- Equal up to the case of ASCII letters. -/
def CaseEq (s t : List Char) : Prop := s.map Char.toLower = t.map Char.toLower

theorem caseEq_cons {c d : Char} {s t : List Char} :
    CaseEq (c :: s) (d :: t) ↔ c.toLower = d.toLower ∧ CaseEq s t := List.cons_eq_cons

theorem CaseEq.cons {c d : Char} {s t : List Char} (hc : c.toLower = d.toLower) (h : CaseEq s t) :
    CaseEq (c :: s) (d :: t) := caseEq_cons.mpr ⟨hc, h⟩

theorem eq_of_isAlpha_eq_false {c d : Char} (hc : c.isAlpha = false) (h : c.toLower = d.toLower) :
    c = d := by
  have hd : d.isAlpha = false := by
    rw [← Char.isAlpha_toLower_eq_isAlpha, ← h, Char.isAlpha_toLower_eq_isAlpha, hc]
  have hupper : ∀ e : Char, e.isAlpha = false → ¬e.isUpper = true := by
    intro e he hu
    rw [Char.isAlpha, hu, Bool.true_or] at he
    cases he
  rw [← Char.toLower_eq_of_not_isUpper (hupper c hc), h, Char.toLower_eq_of_not_isUpper (hupper d hd)]

/-- What is no letter is told apart from everything else. -/
theorem eq_iff_of_toLower_eq {c d q : Char} (hq : q.isAlpha = false) (h : c.toLower = d.toLower) :
    c = q ↔ d = q := by
  constructor
  · rintro rfl
    exact (eq_of_isAlpha_eq_false hq h).symm
  · rintro rfl
    exact (eq_of_isAlpha_eq_false hq h.symm).symm

/-- How characters are lowered: of the characters from beyond ASCII only some give an `i` or a
`k`, and none gives another ASCII one. -/
structure Lowering (fold : Char → List Char) : Prop where
  nonempty : ∀ c, fold c ≠ []
  ascii : ∀ c : Char, c.toNat < 128 → fold c = [c.toLower]
  beyond : ∀ c : Char, ¬c.toNat < 128 → ∀ d ∈ fold c, d.toNat < 128 → d = 'i' ∨ d = 'k'

/-- Equal when lowered. -/
def FoldEq (fold : Char → List Char) (s t : List Char) : Prop := s.flatMap fold = t.flatMap fold

/-- ASCII characters that come from ASCII ones only. -/
def Plain (c : Char) : Prop := c.toNat < 128 ∧ c.toLower ≠ 'i' ∧ c.toLower ≠ 'k'

instance : DecidablePred Plain := fun c =>
  inferInstanceAs (Decidable (c.toNat < 128 ∧ c.toLower ≠ 'i' ∧ c.toLower ≠ 'k'))

/-- The first characters of two texts that are equal when lowered. -/
def Alike (c d : Char) : Prop := (Plain c ↔ Plain d) ∧ (Plain c → c.toLower = d.toLower)

section Lowering

variable {fold : Char → List Char}

theorem toNat_toLower_lt (c : Char) : c.toLower.toNat < 128 ↔ c.toNat < 128 := by
  by_cases h : c.isUpper = true
  · have hrange := h
    simp only [Char.isUpper, decide_eq_true_eq] at hrange
    have hle : c.toNat ≤ 90 := UInt32.le_iff_toNat_le.mp hrange.2
    have hvalid : (c.toNat + 32).isValidChar := .inl (by omega)
    rw [Char.toLower_eq_of_isUpper h, Char.toNat_ofNat, if_pos hvalid]
    omega
  · rw [Char.toLower_eq_of_not_isUpper h]

theorem FoldEq.symm {s t : List Char} (h : FoldEq fold s t) : FoldEq fold t s := Eq.symm h

theorem FoldEq.append {s t x y : List Char} (h : FoldEq fold s t) (h' : FoldEq fold x y) :
    FoldEq fold (s ++ x) (t ++ y) := by
  unfold FoldEq at h h' ⊢
  rw [List.flatMap_append, List.flatMap_append, h, h']

theorem FoldEq.of_append {w s t : List Char} (h : FoldEq fold (w ++ s) (w ++ t)) :
    FoldEq fold s t := by
  unfold FoldEq at h
  rw [List.flatMap_append, List.flatMap_append] at h
  exact List.append_cancel_left h

theorem Lowering.nil (hfold : Lowering fold) {t : List Char} (h : FoldEq fold [] t) : t = [] := by
  cases t with
  | nil => rfl
  | cons d t => exact absurd (List.append_eq_nil_iff.mp h.symm).1 (hfold.nonempty d)

/-- A plain character at the head of one text stands at the head of the other. -/
theorem Lowering.head (hfold : Lowering fold) {c d : Char} {s t : List Char} (hc : Plain c)
    (h : FoldEq fold (c :: s) (d :: t)) : Plain d ∧ c.toLower = d.toLower ∧ FoldEq fold s t := by
  unfold FoldEq at h
  rw [List.flatMap_cons, List.flatMap_cons, hfold.ascii c hc.1, List.singleton_append] at h
  by_cases hd : d.toNat < 128
  · rw [hfold.ascii d hd, List.singleton_append] at h
    obtain ⟨hlower, htail⟩ := List.cons.inj h
    exact ⟨⟨hd, hlower ▸ hc.2⟩, hlower, htail⟩
  · obtain ⟨e, es, he⟩ := List.exists_cons_of_ne_nil (hfold.nonempty d)
    rw [he, List.cons_append] at h
    obtain ⟨rfl, -⟩ := List.cons.inj h
    have hmem : c.toLower ∈ fold d := by
      rw [he]
      exact List.mem_cons_self
    rcases hfold.beyond d hd _ hmem ((toNat_toLower_lt c).mpr hc.1) with hi | hk
    · exact absurd hi hc.2.1
    · exact absurd hk hc.2.2

theorem Lowering.alike (hfold : Lowering fold) {c d : Char} {s t : List Char}
    (h : FoldEq fold (c :: s) (d :: t)) : Alike c d :=
  ⟨⟨fun hc => (hfold.head hc h).1, fun hd => (hfold.head hd h.symm).1⟩,
    fun hc => (hfold.head hc h).2.1⟩

/-- A predicate that sees no letter case and takes plain characters only cuts at one place. -/
theorem Lowering.span (hfold : Lowering fold) {p : Char → Bool} (hplain : ∀ c, p c = true → Plain c)
    (hp : ∀ c d, c.toLower = d.toLower → p c = p d) {s t : List Char} (h : FoldEq fold s t) :
    CaseEq (s.takeWhile p) (t.takeWhile p) ∧ FoldEq fold (s.dropWhile p) (t.dropWhile p) := by
  induction s generalizing t with
  | nil =>
    obtain rfl := hfold.nil h
    exact ⟨rfl, rfl⟩
  | cons c s ih =>
    cases t with
    | nil => cases hfold.nil h.symm
    | cons d t =>
      rw [List.takeWhile_cons, List.takeWhile_cons, List.dropWhile_cons, List.dropWhile_cons]
      cases hc : p c with
      | true =>
        obtain ⟨-, hlower, htail⟩ := hfold.head (hplain c hc) h
        rw [← hp c d hlower, hc]
        exact ⟨(ih htail).1.cons hlower, (ih htail).2⟩
      | false =>
        cases hd : p d with
        | true =>
          have hlower := (hfold.head (hplain d hd) h.symm).2.1
          rw [← hp d c hlower, hd] at hc
          cases hc
        | false => exact ⟨rfl, h⟩

/-- Lowering does not move the first character at which a run ends. -/
theorem span_flatMap {p : Char → Bool} (hin : ∀ c, p c = true → ∀ d ∈ fold c, p d = true)
    (hout : ∀ c, p c = false → fold c = [c]) (s : List Char) :
    (s.flatMap fold).takeWhile p = (s.takeWhile p).flatMap fold ∧
      (s.flatMap fold).dropWhile p = (s.dropWhile p).flatMap fold := by
  induction s with
  | nil => exact ⟨rfl, rfl⟩
  | cons c s ih =>
    rw [List.flatMap_cons, List.takeWhile_cons, List.dropWhile_cons]
    cases hc : p c with
    | true =>
      rw [List.takeWhile_append_of_pos (hin c hc), List.dropWhile_append_of_pos (hin c hc), ih.1, ih.2]
      exact ⟨List.flatMap_cons.symm, rfl⟩
    | false =>
      rw [hout c hc, List.singleton_append, List.takeWhile_cons, List.dropWhile_cons, hc]
      refine ⟨rfl, ?_⟩
      rw [if_neg Bool.false_ne_true, if_neg Bool.false_ne_true, List.flatMap_cons, hout c hc,
        List.singleton_append]

end Lowering

/-! ### Readers -/

abbrev Reader (α : Type) := StateT (List Char) Option α

def next : Reader Char
  | [] => none
  | c :: s => some (c, s)

def peek : Reader Char
  | [] => none
  | c :: s => some (c, c :: s)

/-- The longest piece of such characters. -/
def run (p : Char → Bool) : Reader (List Char) := fun s => some (s.takeWhile p, s.dropWhile p)

def word (w : List Char) : Reader Unit :=
  fun s => if w.isPrefixOf s then some ((), s.drop w.length) else none

/-- On texts equal when lowered, two readers that both succeed give related results. -/
def Keeps {α β : Type} (fold : Char → List Char) (R : α → β → Prop) (f : Reader α)
    (g : Reader β) : Prop :=
  ∀ s t, FoldEq fold s t → ∀ a x b y, f s = some (a, x) → g t = some (b, y) →
    R a b ∧ FoldEq fold x y

section Keeps

variable {fold : Char → List Char} {α β γ δ : Type} {R : α → β → Prop} {S : γ → δ → Prop}

theorem Keeps.pure {a : α} {b : β} (h : R a b) : Keeps fold R (Pure.pure a) (Pure.pure b) := by
  intro s t hst a' x b' y hf hg
  cases hf
  cases hg
  exact ⟨h, hst⟩

theorem Keeps.bind {f : Reader α} {g : Reader β} {k : α → Reader γ} {l : β → Reader δ}
    (h : Keeps fold R f g) (hk : ∀ a b, R a b → Keeps fold S (k a) (l b)) :
    Keeps fold S (f >>= k) (g >>= l) := by
  intro s t hst c x d y hf hg
  obtain ⟨⟨a, s'⟩, ha, hc⟩ := Option.bind_eq_some_iff.mp hf
  obtain ⟨⟨b, t'⟩, hb, hd⟩ := Option.bind_eq_some_iff.mp hg
  obtain ⟨hab, hst'⟩ := h s t hst a s' b t' ha hb
  exact hk a b hab s' t' hst' c x d y hc hd

theorem Keeps.failure_left {g : Reader β} : Keeps fold R (failure : Reader α) g := by
  intro s t _ a x b y hf
  cases hf

theorem Keeps.failure_right {f : Reader α} : Keeps fold R f (failure : Reader β) := by
  intro s t _ a x b y _ hg
  cases hg

theorem Keeps.ite {p q : Prop} [Decidable p] [Decidable q] {f f' : Reader α} {g g' : Reader β}
    (hpq : p ↔ q) (h : Keeps fold R f g) (h' : Keeps fold R f' g') :
    Keeps fold R (if p then f else f') (if q then g else g') := by
  by_cases hp : p
  · rw [if_pos hp, if_pos (hpq.mp hp)]
    exact h
  · rw [if_neg hp, if_neg fun hq => hp (hpq.mpr hq)]
    exact h'

/-- A reader that goes on after plain characters only. -/
theorem Lowering.keeps_next (hfold : Lowering fold) {k : Char → Reader γ} {l : Char → Reader δ}
    (hfail : ∀ c, ¬Plain c → k c = failure)
    (h : ∀ c d, c.toLower = d.toLower → Keeps fold S (k c) (l d)) :
    Keeps fold S (next >>= k) (next >>= l) := by
  intro s t hst a x b y hf hg
  obtain ⟨⟨c, s'⟩, hc, ha⟩ := Option.bind_eq_some_iff.mp hf
  obtain ⟨⟨d, t'⟩, hd, hb⟩ := Option.bind_eq_some_iff.mp hg
  cases s with
  | nil => cases hc
  | cons e s =>
    cases t with
    | nil => cases hd
    | cons e' t =>
      cases hc
      cases hd
      by_cases hplain : Plain c
      · obtain ⟨-, hlower, htail⟩ := hfold.head hplain hst
        exact h c d hlower s' t' htail a x b y ha hb
      · replace ha : k c s' = some (a, x) := ha
        rw [hfail c hplain] at ha
        cases ha

theorem Lowering.keeps_peek (hfold : Lowering fold) : Keeps fold Alike peek peek := by
  intro s t hst c x d y hf hg
  cases s with
  | nil => cases hf
  | cons e s =>
    cases t with
    | nil => cases hg
    | cons e' t =>
      cases hf
      cases hg
      exact ⟨hfold.alike hst, hst⟩

theorem Lowering.keeps_run (hfold : Lowering fold) {p : Char → Bool} (hplain : ∀ c, p c = true → Plain c)
    (hp : ∀ c d, c.toLower = d.toLower → p c = p d) : Keeps fold CaseEq (run p) (run p) := by
  intro s t hst a x b y hf hg
  cases hf
  cases hg
  exact hfold.span hplain hp hst

theorem keeps_word (w : List Char) : Keeps fold (fun _ _ => True) (word w) (word w) := by
  intro s t hst a x b y hf hg
  unfold word at hf hg
  split at hf
  · rename_i hs
    split at hg
    · rename_i ht
      obtain ⟨s, rfl⟩ := List.isPrefixOf_iff_prefix.mp hs
      obtain ⟨t, rfl⟩ := List.isPrefixOf_iff_prefix.mp ht
      rw [List.drop_left] at hf hg
      cases hf
      cases hg
      exact ⟨trivial, hst.of_append⟩
    · cases hg
  · cases hf

end Keeps

/-! ### Strings -/

def hexDigits : List Char :=
  ['0', '1', '2', '3', '4', '5', '6', '7', '8', '9', 'a', 'b', 'c', 'd', 'e', 'f']

/-- A hexadecimal digit of either case. -/
def hexDigit : Reader ℕ := do
  let c ← next
  match hexDigits.idxOf? c.toLower with
  | some n => return n
  | none => failure

def hex4 : Reader ℕ := do
  let a ← hexDigit
  let b ← hexDigit
  let c ← hexDigit
  let d ← hexDigit
  return ((a * 16 + b) * 16 + c) * 16 + d

/-- What follows a backslash and a `u`; characters outside the basic plane are two surrogates. -/
def unicode : Reader Char := do
  let high ← hex4
  if 0xd800 ≤ high ∧ high < 0xdc00 then
    word [backslash, 'u']
    let low ← hex4
    if 0xdc00 ≤ low ∧ low < 0xe000 then
      return Char.ofNat (0x10000 + (high - 0xd800) * 0x400 + (low - 0xdc00))
    else failure
  else if 0xdc00 ≤ high ∧ high < 0xe000 then failure
  else return Char.ofNat high

/-- The characters after a backslash; the code of a character follows the `u`. -/
def escapes : List (Char × Option Char) :=
  [(quote, quote), (backslash, backslash), ('/', '/'), ('b', '\x08'), ('f', '\x0c'), ('n', '\n'),
    ('r', '\r'), ('t', '\t'), ('u', none)]

def escape : Reader Char := do
  let c ← next
  match escapes.lookup c with
  | some (some d) => return d
  | some none => unicode
  | none => failure

/-- What stands for itself in a string. -/
def isRaw (c : Char) : Bool := c ≠ quote ∧ c ≠ backslash

/-- The rest of a string behind its opening quote. -/
def chars : ℕ → Reader (List Char)
  | 0 => failure
  | n + 1 => do
    let raw ← run isRaw
    let c ← next
    if c = quote then return raw
    else if c = backslash then
      let d ← escape
      let s ← chars n
      return raw ++ d :: s
    else failure

section Strings

variable {fold : Char → List Char}

theorem idxOf_eq_none_of_not_plain {c : Char} (h : ¬Plain c) : hexDigits.idxOf? c.toLower = none := by
  rw [List.idxOf?_eq_none_iff]
  intro hmem
  have hall : hexDigits.all (fun e => e.toNat < 128 ∧ e ≠ 'i' ∧ e ≠ 'k') = true := by decide
  have hplain := of_decide_eq_true (List.all_eq_true.mp hall _ hmem)
  exact h ⟨(toNat_toLower_lt c).mp hplain.1, hplain.2⟩

theorem Lowering.keeps_hexDigit (hfold : Lowering fold) : Keeps fold Eq hexDigit hexDigit := by
  refine hfold.keeps_next (fun c hc => ?_) fun c d hcd => ?_
  · rw [idxOf_eq_none_of_not_plain hc]
  · rw [hcd]
    cases hexDigits.idxOf? d.toLower with
    | none => exact Keeps.failure_left
    | some n => exact Keeps.pure rfl

theorem Lowering.keeps_hex4 (hfold : Lowering fold) : Keeps fold Eq hex4 hex4 := by
  refine hfold.keeps_hexDigit.bind fun a _ ha => hfold.keeps_hexDigit.bind fun b _ hb =>
    hfold.keeps_hexDigit.bind fun c _ hc => hfold.keeps_hexDigit.bind fun d _ hd => ?_
  subst ha hb hc hd
  exact Keeps.pure rfl

theorem Lowering.keeps_unicode (hfold : Lowering fold) : Keeps fold Eq unicode unicode := by
  refine hfold.keeps_hex4.bind fun high _ hhigh => ?_
  subst hhigh
  refine Keeps.ite Iff.rfl ((keeps_word _).bind fun _ _ _ => hfold.keeps_hex4.bind fun low _ hlow => ?_)
    (Keeps.ite Iff.rfl Keeps.failure_left (Keeps.pure rfl))
  subst hlow
  exact Keeps.ite Iff.rfl (Keeps.pure rfl) Keeps.failure_left

/-- The letters of the escapes are small and plain. -/
theorem plain_of_escapes {c : Char} {d : Option Char} (h : escapes.lookup c = some d) :
    Plain c ∧ c.toLower = c := by
  have hall : escapes.all (fun e => Plain e.1 ∧ e.1.toLower = e.1) = true := by decide
  exact of_decide_eq_true (List.all_eq_true.mp hall _ (mem_of_lookup h))

theorem Lowering.keeps_escape (hfold : Lowering fold) : Keeps fold Eq escape escape := by
  refine hfold.keeps_next (fun c hc => ?_) fun c d hcd => ?_
  · cases hlookup : escapes.lookup c with
    | none => rfl
    | some e => exact absurd (plain_of_escapes hlookup).1 hc
  cases hc : escapes.lookup c with
  | none => exact Keeps.failure_left
  | some e =>
    cases hd : escapes.lookup d with
    | none => exact Keeps.failure_right
    | some e' =>
      rw [(plain_of_escapes hc).2, (plain_of_escapes hd).2] at hcd
      subst hcd
      obtain rfl := Option.some.inj (hc.symm.trans hd)
      cases e with
      | none => exact hfold.keeps_unicode
      | some e => exact Keeps.pure rfl

/-- Lowering neither makes nor takes away a mark that ends a run. -/
theorem Lowering.keeps_raw (hfold : Lowering fold) : Keeps fold (FoldEq fold) (run isRaw) (run isRaw) := by
  have hmark : ∀ c, isRaw c = false → c = quote ∨ c = backslash := by
    intro c hc
    simpa [isRaw, or_iff_not_imp_left] using hc
  have hout : ∀ c, isRaw c = false → fold c = [c] := by
    intro c hc
    rcases hmark c hc with rfl | rfl
    · exact hfold.ascii _ (by decide)
    · exact hfold.ascii _ (by decide)
  have hin : ∀ c, isRaw c = true → ∀ d ∈ fold c, isRaw d = true := by
    intro c hc d hd
    by_contra hraw
    have hmarkd := hmark d (Bool.eq_false_iff.mpr hraw)
    by_cases hascii : c.toNat < 128
    · rw [hfold.ascii c hascii, List.mem_singleton] at hd
      subst hd
      have hq : ∀ q : Char, q.isAlpha = false → c.toLower = q → c = q := by
        rintro q hq rfl
        exact eq_of_isAlpha_eq_false (by rw [← Char.isAlpha_toLower_eq_isAlpha, hq])
          (Char.toLower_toLower_eq_toLower c).symm
      rcases hmarkd with h | h
      · rw [hq _ (by decide) h] at hc
        cases hc
      · rw [hq _ (by decide) h] at hc
        cases hc
    · have hlt : d.toNat < 128 := by rcases hmarkd with rfl | rfl <;> decide
      rcases hfold.beyond c hascii d hd hlt with rfl | rfl
      · exact hraw rfl
      · exact hraw rfl
  intro s t hst a x b y hf hg
  cases hf
  cases hg
  unfold FoldEq at hst ⊢
  rw [← (span_flatMap hin hout s).1, ← (span_flatMap hin hout s).2, hst,
    (span_flatMap hin hout t).1, (span_flatMap hin hout t).2]
  exact ⟨rfl, rfl⟩

theorem if_plain {α : Type} {q c : Char} {f g : Reader α} (hq : Plain q) (hc : ¬Plain c) :
    (if c = q then f else g) = g := by
  refine if_neg ?_
  rintro rfl
  exact hc hq

theorem Lowering.keeps_chars (hfold : Lowering fold) (n m : ℕ) :
    Keeps fold (FoldEq fold) (chars n) (chars m) := by
  induction n generalizing m with
  | zero => exact Keeps.failure_left
  | succ n ih =>
    cases m with
    | zero => exact Keeps.failure_right
    | succ m =>
      refine hfold.keeps_raw.bind fun raw raw' hraw => hfold.keeps_next (fun c hc => ?_) fun c d hcd => ?_
      · rw [if_plain (by decide) hc, if_plain (by decide) hc]
      refine Keeps.ite (eq_iff_of_toLower_eq (by decide) hcd) (Keeps.pure hraw) ?_
      refine Keeps.ite (eq_iff_of_toLower_eq (by decide) hcd) ?_ Keeps.failure_left
      refine hfold.keeps_escape.bind fun e _ he => (ih m).bind fun s t hst => Keeps.pure ?_
      subst he
      exact hraw.append (FoldEq.append (s := [e]) rfl hst)

end Strings

/-! ### Values -/

/-- What a value is made of; the fields of an object come in order, repeated keys included. -/
structure Builder (α : Type) where
  null : α
  bool : Bool → α
  number : List Char → α
  string : List Char → α
  array : List α → α
  object : List (List Char × α) → α

/-- The next character that is no space. -/
def token : Reader Char := do
  let _ ← run isSpace
  next

/-- Items between commas and the closing bracket. -/
def items {α : Type} (close : Char) (item : Reader α) : ℕ → Reader (List α)
  | 0 => failure
  | n + 1 => do
    let a ← item
    let c ← token
    if c = close then return [a]
    else if c = ',' then
      let as ← items close item n
      return a :: as
    else failure

/-- What is between brackets, behind the opening one. -/
def bracket {α : Type} (close : Char) (item : Reader α) (n : ℕ) : Reader (List α) := do
  let _ ← run isSpace
  let c ← peek
  if c = close then
    word [close]
    return []
  else items close item n

def field {α : Type} (n : ℕ) (value : Reader α) : Reader (List Char × α) := do
  let c ← token
  if c = quote then
    let key ← chars n
    let d ← token
    if d = ':' then
      let a ← value
      return (key, a)
    else failure
  else failure

section Values

variable {α : Type} (b : Builder α)

def value : ℕ → Reader α
  | 0 => failure
  | n + 1 => do
    let _ ← run isSpace
    let c ← peek
    match kindAt c with
    | some .null =>
      word ['n', 'u', 'l', 'l']
      return b.null
    | some .boolean =>
      if c = 't' then
        word ['t', 'r', 'u', 'e']
        return b.bool true
      else
        word ['f', 'a', 'l', 's', 'e']
        return b.bool false
    | some .number =>
      let digits ← run fun c => isNumeral c.toLower
      return b.number digits
    | some .string =>
      word [quote]
      let s ← chars n
      return b.string s
    | some .array =>
      word ['[']
      let as ← bracket ']' (value n) n
      return b.array as
    | some .object =>
      word [openBrace]
      let fields ← bracket closeBrace (field n (value n)) n
      return b.object fields
    | none => failure

/-- A value and nothing but spaces behind it. -/
def Reads (s : List Char) (a : α) : Prop :=
  ∃ n rest, value b n s = some (a, rest) ∧ rest.dropWhile isSpace = []

/-- What holds between the values of two texts that are equal when lowered. -/
structure Builder.Respects (fold : Char → List Char) (R : α → α → Prop) : Prop where
  null : R b.null b.null
  bool : ∀ x, R (b.bool x) (b.bool x)
  number : ∀ {s t}, CaseEq s t → R (b.number s) (b.number t)
  string : ∀ {s t}, FoldEq fold s t → R (b.string s) (b.string t)
  array : ∀ {as bs}, List.Forall₂ R as bs → R (b.array as) (b.array bs)
  object : ∀ {fs gs}, List.Forall₂ (fun f g => FoldEq fold f.1 g.1 ∧ R f.2 g.2) fs gs →
    R (b.object fs) (b.object gs)

variable {b} {fold : Char → List Char} {β γ δ : Type} {R : α → β → Prop} {S : γ → δ → Prop}

theorem isSpace_caseless (c d : Char) (h : c.toLower = d.toLower) : isSpace c = isSpace d := by
  have hiff : ∀ q : Char, q.isAlpha = false → (c = q ↔ d = q) := fun q hq => eq_iff_of_toLower_eq hq h
  unfold isSpace
  rw [decide_eq_decide, hiff _ (by decide), hiff _ (by decide), hiff _ (by decide),
    hiff _ (by decide)]

theorem plain_of_isSpace {c : Char} (h : isSpace c = true) : Plain c := by
  simp only [isSpace, decide_eq_true_eq] at h
  obtain rfl | rfl | rfl | rfl := h <;> decide

theorem plain_of_isNumeral {c : Char} (h : isNumeral c = true) : Plain c := by
  simp only [isNumeral, decide_eq_true_eq] at h
  rcases h with hdigit | hmark
  · simp only [Char.isDigit, Bool.and_eq_true, decide_eq_true_eq] at hdigit
    have hge : 48 ≤ c.toNat := UInt32.le_iff_toNat_le.mp hdigit.1
    have hle : c.toNat ≤ 57 := UInt32.le_iff_toNat_le.mp hdigit.2
    have hupper : ¬c.isUpper = true := by
      intro hupper
      simp only [Char.isUpper, decide_eq_true_eq] at hupper
      have hge' : 65 ≤ c.toNat := UInt32.le_iff_toNat_le.mp hupper.1
      omega
    rw [Plain, Char.toLower_eq_of_not_isUpper hupper]
    refine ⟨by omega, ?_, ?_⟩
    · rintro rfl
      exact absurd hle (by decide)
    · rintro rfl
      exact absurd hle (by decide)
  · simp only [List.mem_cons, List.not_mem_nil, or_false] at hmark
    obtain rfl | rfl | rfl | rfl := hmark <;> decide

theorem plain_toLower {c : Char} (h : Plain c.toLower) : Plain c := by
  rw [Plain, Char.toLower_toLower_eq_toLower] at h
  exact ⟨(toNat_toLower_lt c).mp h.1, h.2⟩

theorem Lowering.keeps_spaces (hfold : Lowering fold) :
    Keeps fold CaseEq (run isSpace) (run isSpace) :=
  hfold.keeps_run (fun _ => plain_of_isSpace) isSpace_caseless

theorem Lowering.keeps_token (hfold : Lowering fold) {k : Char → Reader γ} {l : Char → Reader δ}
    (hfail : ∀ c, ¬Plain c → k c = failure)
    (h : ∀ c d, c.toLower = d.toLower → Keeps fold S (k c) (l d)) :
    Keeps fold S (token >>= k) (token >>= l) := by
  unfold token
  rw [bind_assoc, bind_assoc]
  exact hfold.keeps_spaces.bind fun _ _ _ => hfold.keeps_next hfail h

theorem Lowering.keeps_items (hfold : Lowering fold) {close : Char} (hclose : close.isAlpha = false)
    (hplain : Plain close) {f : Reader α} {g : Reader β} (h : Keeps fold R f g) (n m : ℕ) :
    Keeps fold (List.Forall₂ R) (items close f n) (items close g m) := by
  induction n generalizing m with
  | zero => exact Keeps.failure_left
  | succ n ih =>
    cases m with
    | zero => exact Keeps.failure_right
    | succ m =>
      refine h.bind fun a b hab => hfold.keeps_token (fun c hc => ?_) fun c d hcd => ?_
      · rw [if_plain hplain hc, if_plain (by decide) hc]
      refine Keeps.ite (eq_iff_of_toLower_eq hclose hcd) (Keeps.pure (.cons hab .nil)) ?_
      refine Keeps.ite (eq_iff_of_toLower_eq (by decide) hcd) ?_ Keeps.failure_left
      exact (ih m).bind fun as bs hs => Keeps.pure (.cons hab hs)

/-- A mark is the first character of both texts, or of neither. -/
theorem Alike.eq_iff {c d q : Char} (h : Alike c d) (hq : q.isAlpha = false) (hplain : Plain q) :
    c = q ↔ d = q := by
  constructor
  · rintro rfl
    exact (eq_iff_of_toLower_eq hq (h.2 hplain)).mp rfl
  · rintro rfl
    exact (eq_iff_of_toLower_eq hq (h.2 (h.1.mpr hplain))).mpr rfl

theorem Lowering.keeps_bracket (hfold : Lowering fold) {close : Char} (hclose : close.isAlpha = false)
    (hplain : Plain close) {f : Reader α} {g : Reader β} (h : Keeps fold R f g) (n m : ℕ) :
    Keeps fold (List.Forall₂ R) (bracket close f n) (bracket close g m) := by
  refine hfold.keeps_spaces.bind fun _ _ _ => hfold.keeps_peek.bind fun c d hcd => ?_
  refine Keeps.ite (hcd.eq_iff hclose hplain) ?_ (hfold.keeps_items hclose hplain h n m)
  exact (keeps_word _).bind fun _ _ _ => Keeps.pure .nil

theorem Lowering.keeps_field (hfold : Lowering fold) {f : Reader α} {g : Reader β} (h : Keeps fold R f g)
    (n m : ℕ) : Keeps fold (fun x y => FoldEq fold x.1 y.1 ∧ R x.2 y.2) (field n f) (field m g) := by
  refine hfold.keeps_token (fun c hc => if_plain (by decide) hc) fun c d hcd => ?_
  refine Keeps.ite (eq_iff_of_toLower_eq (by decide) hcd) ?_ Keeps.failure_left
  refine (hfold.keeps_chars n m).bind fun key key' hkey =>
    hfold.keeps_token (fun c hc => if_plain (by decide) hc) fun c d hcd => ?_
  refine Keeps.ite (eq_iff_of_toLower_eq (by decide) hcd) ?_ Keeps.failure_left
  exact h.bind fun a b hab => Keeps.pure ⟨hkey, hab⟩

/-- A value begins with a plain character that is a small letter or none. -/
theorem plain_of_kindAt {c : Char} {k : Kind} (h : kindAt c = some k) : Plain c ∧ c.toLower = c := by
  unfold kindAt at h
  split at h
  · rename_i hnumeral
    refine ⟨plain_of_isNumeral hnumeral, ?_⟩
    simp only [isNumeral, decide_eq_true_eq] at hnumeral
    rcases hnumeral with hdigit | hmark
    · refine Char.toLower_eq_of_not_isUpper fun hupper => ?_
      simp only [Char.isDigit, Char.isUpper, Bool.and_eq_true, decide_eq_true_eq] at hdigit hupper
      have hle : c.toNat ≤ 57 := UInt32.le_iff_toNat_le.mp hdigit.2
      have hge : 65 ≤ c.toNat := UInt32.le_iff_toNat_le.mp hupper.1
      omega
    · simp only [List.mem_cons, List.not_mem_nil, or_false] at hmark
      obtain rfl | rfl | rfl | rfl := hmark <;> decide
  · have hall : ∀ e ∈ [('n', Kind.null), ('t', .boolean), ('f', .boolean), (quote, .string),
        ('[', .array), (openBrace, .object)], Plain e.1 ∧ e.1.toLower = e.1 := by decide
    exact hall _ (mem_of_lookup h)

theorem Lowering.keeps_value {R : α → α → Prop} (hfold : Lowering fold) (hb : b.Respects fold R)
    (n m : ℕ) : Keeps fold R (value b n) (value b m) := by
  induction n generalizing m with
  | zero => exact Keeps.failure_left
  | succ n ih =>
    cases m with
    | zero => exact Keeps.failure_right
    | succ m =>
      refine hfold.keeps_spaces.bind fun _ _ _ => hfold.keeps_peek.bind fun c d hcd => ?_
      cases hc : kindAt c with
      | none => exact Keeps.failure_left
      | some k =>
        cases hd : kindAt d with
        | none => exact Keeps.failure_right
        | some k' =>
          have hlower := hcd.2 (plain_of_kindAt hc).1
          rw [(plain_of_kindAt hc).2, (plain_of_kindAt hd).2] at hlower
          subst hlower
          obtain rfl := Option.some.inj (hc.symm.trans hd)
          cases k with
          | null => exact (keeps_word _).bind fun _ _ _ => Keeps.pure hb.null
          | boolean =>
            refine Keeps.ite Iff.rfl ?_ ?_
            · exact (keeps_word _).bind fun _ _ _ => Keeps.pure (hb.bool true)
            · exact (keeps_word _).bind fun _ _ _ => Keeps.pure (hb.bool false)
          | number =>
            refine (hfold.keeps_run (fun c hc => plain_toLower (plain_of_isNumeral hc))
              fun c d hcd => ?_).bind fun s t hst => Keeps.pure (hb.number hst)
            rw [hcd]
          | string =>
            exact (keeps_word _).bind fun _ _ _ => (hfold.keeps_chars n m).bind fun s t hst =>
              Keeps.pure (hb.string hst)
          | array =>
            exact (keeps_word _).bind fun _ _ _ =>
              (hfold.keeps_bracket (by decide) (by decide) (ih m) n m).bind fun as bs hs =>
                Keeps.pure (hb.array hs)
          | object =>
            exact (keeps_word _).bind fun _ _ _ =>
              (hfold.keeps_bracket (by decide) (by decide) (hfold.keeps_field (ih m) n m) n m).bind
                fun fs gs hs => Keeps.pure (hb.object hs)

/-- Two texts that are equal when lowered have values of one shape. -/
theorem Reads.related {R : α → α → Prop} (hfold : Lowering fold) (hb : b.Respects fold R)
    {s t : List Char} (hst : FoldEq fold s t) {x y : α} (hs : Reads b s x) (ht : Reads b t y) :
    R x y := by
  obtain ⟨n, rest, hx, -⟩ := hs
  obtain ⟨m, rest', hy, -⟩ := ht
  exact (hfold.keeps_value hb n m s t hst x rest y rest' hx hy).1

end Values

end Catalyrst.Lib.JsonReader
