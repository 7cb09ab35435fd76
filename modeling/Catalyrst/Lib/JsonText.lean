import Catalyrst.Lib.Instances

/-!
# JSON texts

The grammar of RFC 8259 over lists of characters, and a scanner that only follows quotes,
backslashes and colons. A text of the grammar is scanned to its end; it cannot hold a second
one behind a colon, an integer and another colon, because what is inside a string for the one
is outside for the other.
-/

namespace Catalyrst.Lib.JsonText

def quote : Char := '\x22'
def backslash : Char := '\x5c'
def openBrace : Char := '\x7b'
def closeBrace : Char := '\x7d'

inductive Kind where
  | null
  | boolean
  | number
  | string
  | array
  | object
  deriving DecidableEq

/-! ### The grammar -/

def isSpace (c : Char) : Bool := c = ' ' ∨ c = '\t' ∨ c = '\n' ∨ c = '\r'

def Spaces (s : List Char) : Prop := ∀ c ∈ s, isSpace c = true

def Digits (s : List Char) : Prop := s ≠ [] ∧ ∀ c ∈ s, c.isDigit = true

def isHex (c : Char) : Bool := c.isDigit ∨ 'a' ≤ c ∧ c ≤ 'f' ∨ 'A' ≤ c ∧ c ≤ 'F'

/-- What stands between the quotes of a string. -/
inductive Chars : List Char → Prop where
  | nil : Chars []
  | plain (c : Char) (s : List Char) : ' ' ≤ c → c ≠ quote → c ≠ backslash → Chars s → Chars (c :: s)
  | escape (c : Char) (s : List Char) : c ∈ [quote, backslash, '/', 'b', 'f', 'n', 'r', 't'] →
    Chars s → Chars (backslash :: c :: s)
  | unicode (c₁ c₂ c₃ c₄ : Char) (s : List Char) : isHex c₁ → isHex c₂ → isHex c₃ → isHex c₄ →
    Chars s → Chars (backslash :: 'u' :: c₁ :: c₂ :: c₃ :: c₄ :: s)

structure Number (s : List Char) : Prop where
  parts : ∃ sign whole fraction exponent, s = sign ++ whole ++ fraction ++ exponent ∧
    sign ∈ [[], ['-']] ∧ (Digits whole ∧ (whole.head? = some '0' → whole = ['0'])) ∧
    (fraction = [] ∨ ∃ ds, Digits ds ∧ fraction = '.' :: ds) ∧
    (exponent = [] ∨ ∃ e ∈ ['e', 'E'], ∃ sign ∈ [[], ['+'], ['-']], ∃ ds, Digits ds ∧
      exponent = e :: sign ++ ds)

inductive Symbol where
  | value (kind : Kind)
  | elements
  | members

/-- The texts of a value, of what an array and of what an object holds. -/
inductive Derives : Symbol → List Char → Prop where
  | null : Derives (.value .null) ['n', 'u', 'l', 'l']
  | true : Derives (.value .boolean) ['t', 'r', 'u', 'e']
  | false : Derives (.value .boolean) ['f', 'a', 'l', 's', 'e']
  | number {s : List Char} : Number s → Derives (.value .number) s
  | string {s : List Char} : Chars s → Derives (.value .string) (quote :: s ++ [quote])
  | emptyArray {w : List Char} : Spaces w → Derives (.value .array) ('[' :: w ++ [']'])
  | array {s : List Char} : Derives .elements s → Derives (.value .array) ('[' :: s ++ [']'])
  | emptyObject {w : List Char} : Spaces w →
    Derives (.value .object) (openBrace :: w ++ [closeBrace])
  | object {s : List Char} : Derives .members s →
    Derives (.value .object) (openBrace :: s ++ [closeBrace])
  | element {kind : Kind} {w s w' : List Char} : Spaces w → Derives (.value kind) s → Spaces w' →
    Derives .elements (w ++ s ++ w')
  | elements {kind : Kind} {w s w' t : List Char} : Spaces w → Derives (.value kind) s → Spaces w' →
    Derives .elements t → Derives .elements (w ++ s ++ w' ++ ',' :: t)
  | member {kind : Kind} {w key w₁ w₂ s w₃ : List Char} : Spaces w → Chars key → Spaces w₁ →
    Spaces w₂ → Derives (.value kind) s → Spaces w₃ →
    Derives .members (w ++ (quote :: key ++ [quote]) ++ w₁ ++ ':' :: w₂ ++ s ++ w₃)
  | members {kind : Kind} {w key w₁ w₂ s w₃ t : List Char} : Spaces w → Chars key → Spaces w₁ →
    Spaces w₂ → Derives (.value kind) s → Spaces w₃ → Derives .members t →
    Derives .members (w ++ (quote :: key ++ [quote]) ++ w₁ ++ ':' :: w₂ ++ s ++ w₃ ++ ',' :: t)

def Document (kind : Kind) (s : List Char) : Prop :=
  ∃ w v w', Spaces w ∧ Derives (.value kind) v ∧ Spaces w' ∧ s = w ++ v ++ w'

/-! ### The scanner -/

/-- Outside strings the scanner remembers whether digits and signs follow a colon. -/
inductive State where
  | plain
  | colon
  | literal
  | inside
  | escaped
  deriving DecidableEq

def State.outside : State → Bool
  | .plain | .colon | .literal => true
  | .inside | .escaped => false

def isLiteral (c : Char) : Bool := c.isDigit ∨ c = '+' ∨ c = '-'

def step : State → Char → Option State
  | .inside, c =>
    if c = quote then some .plain else if c = backslash then some .escaped else some .inside
  | .escaped, _ => some .inside
  | σ, c =>
    if c = quote then some .inside
    else if c = backslash then none
    else if c = ':' then if σ = .literal then none else some .colon
    else if isLiteral c ∧ σ ≠ .plain then some .literal
    else some .plain

def scan (σ : State) (s : List Char) : Option State := s.foldlM step σ

theorem scan_append (σ : State) (s t : List Char) :
    scan σ (s ++ t) = (scan σ s).bind fun τ => scan τ t :=
  List.foldlM_append

theorem scan_cons (σ : State) (c : Char) (s : List Char) :
    scan σ (c :: s) = (step σ c).bind fun τ => scan τ s :=
  List.foldlM_cons

/-- The scanner gets through from anywhere outside strings and ends there. -/
def Passes (s : List Char) : Prop :=
  ∀ σ : State, σ.outside = true → ∃ τ : State, τ.outside = true ∧ scan σ s = some τ

theorem Passes.append {s t : List Char} (hs : Passes s) (ht : Passes t) : Passes (s ++ t) := by
  intro σ hσ
  obtain ⟨τ, hτ, hscan⟩ := hs σ hσ
  obtain ⟨υ, hυ, hscan'⟩ := ht τ hτ
  exact ⟨υ, hυ, by rw [scan_append, hscan, Option.bind_some, hscan']⟩

theorem passes_nil : Passes [] := fun σ hσ => ⟨σ, hσ, rfl⟩

theorem step_ordinary {σ : State} (hσ : σ.outside = true) {c : Char}
    (h : c ≠ quote ∧ c ≠ backslash ∧ c ≠ ':') :
    ∃ τ : State, τ.outside = true ∧ step σ c = some τ ∧ (σ = .plain → τ = .plain) := by
  obtain ⟨hq, hb, hc⟩ := h
  by_cases hlit : isLiteral c = true ∧ σ ≠ .plain
  · refine ⟨.literal, rfl, ?_, fun hplain => absurd hplain hlit.2⟩
    cases σ <;> simp_all [step, State.outside]
  · refine ⟨.plain, rfl, ?_, fun _ => rfl⟩
    cases σ <;> simp_all [step, State.outside]

/-- Characters that the scanner does not look at. -/
def Ordinary (s : List Char) : Prop := ∀ c ∈ s, c ≠ quote ∧ c ≠ backslash ∧ c ≠ ':'

theorem Ordinary.passes {s : List Char} (h : Ordinary s) : Passes s := by
  induction s with
  | nil => exact passes_nil
  | cons c s ih =>
    rw [Ordinary, List.forall_mem_cons] at h
    intro σ hσ
    obtain ⟨τ, hτ, hstep, -⟩ := step_ordinary hσ h.1
    obtain ⟨υ, hυ, hscan⟩ := ih h.2 τ hτ
    exact ⟨υ, hυ, by rw [scan_cons, hstep, Option.bind_some, hscan]⟩

theorem Ordinary.scan_plain {s : List Char} (h : Ordinary s) : scan .plain s = some .plain := by
  induction s with
  | nil => rfl
  | cons c s ih =>
    rw [Ordinary, List.forall_mem_cons] at h
    obtain ⟨τ, -, hstep, hplain⟩ := step_ordinary (rfl : State.plain.outside = true) h.1
    rw [scan_cons, hstep, Option.bind_some, hplain rfl, ih h.2]

theorem Spaces.ordinary {w : List Char} (h : Spaces w) : Ordinary w := by
  intro c hc
  have hspace := h c hc
  simp only [isSpace, decide_eq_true_eq] at hspace
  rcases hspace with rfl | rfl | rfl | rfl <;> decide

theorem digit_ordinary {c : Char} (h : c.isDigit = true) : c ≠ quote ∧ c ≠ backslash ∧ c ≠ ':' := by
  refine ⟨?_, ?_, ?_⟩ <;>
  · rintro rfl
    exact absurd h (by decide)

theorem Ordinary.append {s t : List Char} (hs : Ordinary s) (ht : Ordinary t) :
    Ordinary (s ++ t) := by
  intro c hc
  exact (List.mem_append.mp hc).elim (hs c) (ht c)

theorem Digits.ordinary {s : List Char} (h : Digits s) : Ordinary s :=
  fun c hc => digit_ordinary (h.2 c hc)

theorem Number.ordinary {s : List Char} (h : Number s) : Ordinary s := by
  obtain ⟨sign, whole, fraction, exponent, rfl, hsign, ⟨hwhole, -⟩, hfraction, hexponent⟩ := h
  have hs : ∀ l ∈ [[], ['+'], ['-']], Ordinary l := by
    simp [Ordinary, quote, backslash]
  refine (((hs sign ?_).append hwhole.ordinary).append ?_).append ?_
  · revert hsign
    simp only [List.mem_cons, List.not_mem_nil, or_false]
    rintro (rfl | rfl) <;> simp
  · rcases hfraction with rfl | ⟨ds, hds, rfl⟩
    · exact fun _ hc => nomatch hc
    · exact List.forall_mem_cons.mpr ⟨by decide, hds.ordinary⟩
  · rcases hexponent with rfl | ⟨e, he, sign, hsign, ds, hds, rfl⟩
    · exact fun _ hc => nomatch hc
    · have hletter : ∀ e ∈ ['e', 'E'], e ≠ quote ∧ e ≠ backslash ∧ e ≠ ':' := by
        simp [quote, backslash]
      exact Ordinary.append (s := e :: sign)
        (List.forall_mem_cons.mpr ⟨hletter e he, hs sign hsign⟩) hds.ordinary

theorem Chars.scan_inside {s : List Char} (h : Chars s) : scan .inside s = some .inside := by
  induction h with
  | nil => rfl
  | plain c s _ hq hb _ ih => simp [scan_cons, step, hq, hb, ih]
  | escape c s _ _ ih =>
    have hback : backslash ≠ quote := by decide
    simp [scan_cons, step, hback, ih]
  | unicode c₁ c₂ c₃ c₄ s h₁ h₂ h₃ h₄ _ ih =>
    have hhex : ∀ {c : Char}, isHex c = true → step .inside c = some .inside := by
      intro c hc
      have hq : c ≠ quote := by
        rintro rfl
        exact absurd hc (by decide)
      have hb : c ≠ backslash := by
        rintro rfl
        exact absurd hc (by decide)
      simp [step, hq, hb]
    have hstart : step .inside backslash = some .escaped := by decide
    have hu : step .escaped 'u' = some .inside := rfl
    simp only [scan_cons, hstart, hu, hhex h₁, hhex h₂, hhex h₃, hhex h₄, Option.bind_some, ih]

theorem scan_string {σ : State} (hσ : σ.outside = true) {s : List Char} (h : Chars s) :
    scan σ (quote :: s ++ [quote]) = some .plain := by
  have hopen : step σ quote = some .inside := by
    cases σ <;> simp_all [step, State.outside]
  have hclose : scan .inside [quote] = some .plain := by decide
  rw [List.cons_append, scan_cons, hopen, Option.bind_some, scan_append, h.scan_inside,
    Option.bind_some, hclose]

/-- A key and its colon. -/
theorem passes_key {key w : List Char} (hkey : Chars key) (hw : Spaces w) :
    Passes ((quote :: key ++ [quote]) ++ w ++ [':']) := by
  intro σ hσ
  have hcolon : scan .plain [':'] = some .colon := by decide
  exact ⟨.colon, rfl, by rw [scan_append, scan_append, scan_string hσ hkey, Option.bind_some,
    hw.ordinary.scan_plain, Option.bind_some, hcolon]⟩

theorem passes_ordinary (c : Char) (h : c ≠ quote ∧ c ≠ backslash ∧ c ≠ ':') : Passes [c] :=
  Ordinary.passes (List.forall_mem_singleton.mpr h)

/-- By induction on the derivation: every colon of the grammar follows a string. -/
theorem Derives.passes {symbol : Symbol} {s : List Char} (h : Derives symbol s) : Passes s := by
  have hwrap : ∀ {c d : Char} {s : List Char}, c ≠ quote ∧ c ≠ backslash ∧ c ≠ ':' →
      d ≠ quote ∧ d ≠ backslash ∧ d ≠ ':' → Passes s → Passes (c :: s ++ [d]) :=
    fun hc hd hs => ((passes_ordinary _ hc).append hs).append (passes_ordinary _ hd)
  induction h with
  | null | true | false => exact Ordinary.passes (by simp [Ordinary, quote, backslash])
  | number h => exact h.ordinary.passes
  | string h => exact fun σ hσ => ⟨.plain, rfl, scan_string hσ h⟩
  | emptyArray h | emptyObject h => exact hwrap (by decide) (by decide) h.ordinary.passes
  | array _ ih | object _ ih => exact hwrap (by decide) (by decide) ih
  | element h _ h' ih => exact (h.ordinary.passes.append ih).append h'.ordinary.passes
  | elements h _ h' _ ih ih' =>
    refine ((h.ordinary.passes.append ih).append h'.ordinary.passes).append ?_
    exact (passes_ordinary ',' (by decide)).append ih'
  | member h hkey h₁ h₂ _ h₃ ih =>
    have hvalue := (h₂.ordinary.passes.append ih).append h₃.ordinary.passes
    simpa using (h.ordinary.passes.append (passes_key hkey h₁)).append hvalue
  | members h hkey h₁ h₂ _ h₃ _ ih ih' =>
    have hvalue := (h₂.ordinary.passes.append ih).append h₃.ordinary.passes
    have hrest := (passes_ordinary ',' (by decide)).append ih'
    simpa using ((h.ordinary.passes.append (passes_key hkey h₁)).append hvalue).append hrest

theorem Document.passes {kind : Kind} {s : List Char} (h : Document kind s) : Passes s := by
  obtain ⟨w, v, w', hw, hv, hw', rfl⟩ := h
  exact (hw.ordinary.passes.append hv.passes).append hw'.ordinary.passes

/-! ### No second document -/

def Ends (σ : State) (s : List Char) : Prop := ∃ τ : State, τ.outside = true ∧ scan σ s = some τ

theorem Ends.cons {σ : State} {c : Char} {s : List Char} (h : Ends σ (c :: s)) :
    ∃ τ, step σ c = some τ ∧ Ends τ s := by
  obtain ⟨υ, hυ, hscan⟩ := h
  rw [scan_cons, Option.bind_eq_some_iff] at hscan
  obtain ⟨τ, hstep, hscan⟩ := hscan
  exact ⟨τ, hstep, υ, hυ, hscan⟩

/-- A quote changes sides for both, and a backslash is an error for the one outside. -/
theorem not_ends_both (s : List Char) {σ : State} (hσ : σ.outside = true) :
    ¬ (Ends σ s ∧ Ends .inside s) := by
  induction s generalizing σ with
  | nil =>
    rintro ⟨-, τ, hτ, hscan⟩
    obtain rfl := Option.some.inj hscan
    exact absurd hτ (by decide)
  | cons c s ih =>
    rintro ⟨hout, hin⟩
    obtain ⟨τ, hstep, hout⟩ := hout.cons
    obtain ⟨τ', hstep', hin⟩ := hin.cons
    by_cases hq : c = quote
    · have hτ : τ = .inside := by
        cases σ <;> simp_all [step, State.outside]
      have hτ' : τ' = .plain := by
        simp_all [step]
      subst hτ hτ'
      exact ih (rfl : State.plain.outside = true) ⟨hin, hout⟩
    · by_cases hb : c = backslash
      · have hnone : step σ c = none := by
          cases σ <;> simp_all [step, State.outside]
        rw [hnone] at hstep
        cases hstep
      · have hτ' : τ' = .inside := by
          simp_all [step]
        have hτ : τ.outside = true := by
          cases σ <;> simp only [step, hq, hb, if_false] at hstep <;> grind [State.outside]
        subst hτ'
        exact ih hτ ⟨hout, hin⟩

theorem scan_literal {t : List Char} (hne : t ≠ []) (ht : ∀ c ∈ t, isLiteral c = true) :
    scan .colon t = some .literal := by
  have hstep : ∀ σ : State, σ = .colon ∨ σ = .literal → ∀ c, isLiteral c = true →
      step σ c = some .literal := by
    intro σ hσ c hc
    have hord : c ≠ quote ∧ c ≠ backslash ∧ c ≠ ':' := by
      refine ⟨?_, ?_, ?_⟩ <;>
      · rintro rfl
        exact absurd hc (by decide)
    rcases hσ with rfl | rfl <;> simp [step, hord, hc]
  have hrest : ∀ t : List Char, (∀ c ∈ t, isLiteral c = true) → scan .literal t = some .literal := by
    intro t ht
    induction t with
    | nil => rfl
    | cons c t ih =>
      rw [List.forall_mem_cons] at ht
      rw [scan_cons, hstep _ (.inr rfl) c ht.1, Option.bind_some, ih ht.2]
  cases t with
  | nil => exact absurd rfl hne
  | cons c t =>
    rw [List.forall_mem_cons] at ht
    rw [scan_cons, hstep _ (.inl rfl) c ht.1, Option.bind_some, hrest t ht.2]

/-- Outside strings no integer stands between two colons. -/
theorem scan_between_colons {t z : List Char} (hne : t ≠ []) (ht : ∀ c ∈ t, isLiteral c = true) :
    scan .colon (t ++ ':' :: z) = none := by
  have hcolon : step .literal ':' = none := by decide
  rw [scan_append, scan_literal hne ht, Option.bind_some, scan_cons, hcolon]
  rfl

theorem not_passes_literal {t z : List Char} (hne : t ≠ []) (ht : ∀ c ∈ t, isLiteral c = true) :
    ¬ Passes (t ++ ':' :: z) := by
  intro h
  obtain ⟨τ, -, hscan⟩ := h .colon rfl
  rw [scan_between_colons hne ht] at hscan
  cases hscan

theorem scan_inside_literal {t : List Char} (ht : ∀ c ∈ t, isLiteral c = true) :
    scan .inside (t ++ [':']) = some .inside := by
  have hord : ∀ c ∈ t ++ [':'], step .inside c = some .inside := by
    intro c hc
    have hne : c ≠ quote ∧ c ≠ backslash := by
      rw [List.mem_append, List.mem_singleton] at hc
      refine ⟨?_, ?_⟩ <;>
      · rintro rfl
        exact hc.elim (fun hc => absurd (ht _ hc) (by decide)) (fun hc => absurd hc (by decide))
    simp [step, hne]
  generalize t ++ [':'] = s at hord
  induction s with
  | nil => rfl
  | cons c s ih =>
    rw [List.forall_mem_cons] at hord
    rw [scan_cons, hord.1, Option.bind_some, ih hord.2]

theorem no_second_document {kind kind' : Kind} {y t z : List Char} (hne : t ≠ [])
    (ht : ∀ c ∈ t, isLiteral c = true) (h : Document kind (y ++ ':' :: (t ++ ':' :: z)))
    (h' : Document kind' z) : False := by
  obtain ⟨τ, hτ, hscan⟩ := h.passes .plain rfl
  rw [scan_append, Option.bind_eq_some_iff] at hscan
  obtain ⟨σ, -, hscan⟩ := hscan
  rw [scan_cons, Option.bind_eq_some_iff] at hscan
  obtain ⟨υ, hstep, hscan⟩ := hscan
  by_cases hσ : σ.outside = true
  · have hυ : υ = .colon := by
      have hne : ':' ≠ quote ∧ ':' ≠ backslash := by decide
      cases σ <;> simp_all [step, State.outside]
    subst hυ
    rw [scan_between_colons hne ht] at hscan
    cases hscan
  · have hυ : υ = .inside := by
      have hne : ':' ≠ quote ∧ ':' ≠ backslash := by decide
      cases σ <;> simp_all [step, State.outside]
    subst hυ
    rw [List.append_cons, scan_append, scan_inside_literal ht, Option.bind_some] at hscan
    exact not_ends_both z (rfl : State.plain.outside = true) ⟨h'.passes .plain rfl, τ, hτ, hscan⟩

end Catalyrst.Lib.JsonText
