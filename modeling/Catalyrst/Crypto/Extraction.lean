import Mathlib
import Catalyrst.Crypto.Binding

/-!
# The chain in the headers

The links of a chain stand in numbered headers, from number zero up to the first one that is
missing. What the extraction accepts is said here without its loop, and so is the one way in
which it does not return.
-/

namespace Catalyrst.Crypto

open Catalyrst.Lib

section Extraction

variable (env : FetchEnv) (headers : HeaderMap)

/-- The header is there and parses as a link that may stand at its number. -/
def LinkHeader (index : ℕ) : Prop :=
  ∃ raw link, headerStr headers (.authChain index) = some raw ∧ env.linkFromStr raw = .ok link ∧
    (link.linkType = .signer ↔ index = 0) ∧ (index ≠ 0 → link.signature.getD [] ≠ [])

/-- The headers before number `n` hold a chain, and the one with number `n` is missing. -/
structure ChainHeaders (n : ℕ) : Prop where
  atLeast : 2 ≤ n
  atMost : n ≤ maxAuthChainLinks
  links : ∀ i < n, LinkHeader env headers i
  ends : headerStr headers (.authChain n) = none
  overflow : headerStr headers (.authChain maxAuthChainLinks) = none

/-- If the header does not parse, the error text can be cut to 64 bytes. -/
def Cuttable (index : ℕ) : Prop :=
  ∀ raw detail, headerStr headers (.authChain index) = some raw →
    env.linkFromStr raw = .error detail → ¬ Utf8.Cuts 64 detail

theorem checkLink_ok_iff (link : AuthLink) (index : ℕ) : checkLink link index = .ok () ↔
    (link.linkType = .signer ↔ index = 0) ∧ (index ≠ 0 → link.signature.getD [] ≠ []) := by
  unfold checkLink
  split
  · rename_i hsigner
    split
    · rename_i hne
      exact iff_of_false (fun h => nomatch h) fun h => hne (h.1.mp hsigner)
    · rename_i hzero
      exact iff_of_true rfl ⟨iff_of_true hsigner (not_not.mp hzero), fun hne => absurd hne hzero⟩
  · rename_i hother
    split
    · rename_i hzero
      exact iff_of_false (fun h => nomatch h) fun h => hother (h.1.mpr hzero)
    · rename_i hne
      split
      · rename_i hempty
        exact iff_of_false (fun h => nomatch h) fun h => h.2 hne hempty
      · rename_i hsigned
        exact iff_of_true rfl ⟨iff_of_false hother hne, fun _ => hsigned⟩

theorem checkLink_ne_panicked (link : AuthLink) (index : ℕ) :
    checkLink link index ≠ .error .panicked := by
  unfold checkLink
  repeat' split
  all_goals exact fun h => nomatch h

theorem parseError_eq_panicked_iff (detail : Text) :
    parseError detail = .panicked ↔ Utf8.Cuts 64 detail := by
  rw [← Utf8.truncate_eq_none]
  unfold parseError
  cases Utf8.truncate 64 detail with
  | none => exact iff_of_true rfl rfl
  | some cut => exact iff_of_false (fun h => nomatch h) (fun h => nomatch h)

/-- How the loop over at most `n` headers from `index` on comes out. -/
inductive Extracted : ℕ → ℕ → Except AuthChainError (List FetchLink) → Prop
  | done (index : ℕ) : Extracted 0 index (.ok [])
  | missing (n index : ℕ) (hnone : headerStr headers (.authChain index) = none) :
      Extracted (n + 1) index (.ok [])
  | refused (n index : ℕ) (e : AuthChainError)
      (hsome : headerStr headers (.authChain index) ≠ none)
      (hbad : ¬ LinkHeader env headers index)
      (hpanics : e = .panicked ↔ ¬ Cuttable env headers index) :
      Extracted (n + 1) index (.error e)
  | taken (n index : ℕ) (link : FetchLink) (rest : Except AuthChainError (List FetchLink))
      (hlink : LinkHeader env headers index) (hrest : Extracted n (index + 1) rest) :
      Extracted (n + 1) index (rest.map fun links => link :: links)

theorem extractLinks_extracted (n index : ℕ) :
    Extracted env headers n index (extractLinks env headers n index) := by
  induction n generalizing index with
  | zero => exact .done index
  | succ n ih =>
    unfold extractLinks
    cases hraw : headerStr headers (.authChain index) with
    | none => exact .missing n index hraw
    | some raw =>
      have hsome : headerStr headers (.authChain index) ≠ none := by simp [hraw]
      dsimp only
      cases hparse : env.linkFromStr raw with
      | error detail =>
        refine .refused n index (parseError detail) hsome ?_ ?_
        · rintro ⟨raw', link, hraw', hlink, -⟩
          obtain rfl : raw = raw' := Option.some.inj (hraw.symm.trans hraw')
          rw [hparse] at hlink
          cases hlink
        · rw [parseError_eq_panicked_iff, ← not_iff_not, not_not]
          constructor
          · intro hfine raw' detail' hraw' hdetail
            obtain rfl : raw = raw' := Option.some.inj (hraw.symm.trans hraw')
            obtain rfl : detail = detail' := Except.error.inj (hparse.symm.trans hdetail)
            exact hfine
          · exact fun hcuttable => hcuttable raw detail hraw hparse
      | ok link =>
        cases hcheck : checkLink link index with
        | error e =>
          have hcuttable : Cuttable env headers index := by
            intro raw' detail hraw' hdetail
            obtain rfl : raw = raw' := Option.some.inj (hraw.symm.trans hraw')
            rw [hparse] at hdetail
            cases hdetail
          have hstop := @Extracted.refused env headers n index e hsome
          simp only [Except.mapError, bind, Except.bind, hcheck]
          refine hstop ?_ (iff_of_false ?_ (not_not.mpr hcuttable))
          · rintro ⟨raw', link', hraw', hlink, hallowed⟩
            obtain rfl : raw = raw' := Option.some.inj (hraw.symm.trans hraw')
            obtain rfl : link = link' := Except.ok.inj (hparse.symm.trans hlink)
            rw [(checkLink_ok_iff link index).mpr hallowed] at hcheck
            cases hcheck
          · rintro rfl
            exact checkLink_ne_panicked link index hcheck
        | ok u =>
          have hlink : LinkHeader env headers index :=
            ⟨raw, link, hraw, hparse, (checkLink_ok_iff link index).mp hcheck⟩
          have hnext := Extracted.taken n index ⟨link.linkType, link.payload, link.signature.getD []⟩
            _ hlink (ih (index + 1))
          simp only [Except.mapError, bind, Except.bind, hcheck]
          cases hrest : extractLinks env headers n (index + 1) with
          | error e => rw [hrest] at hnext; exact hnext
          | ok links => rw [hrest] at hnext; exact hnext

variable {env headers} {n index : ℕ} {r : Except AuthChainError (List FetchLink)}

/-- Every header taken is a link, and the loop ended for lack of numbers or of a header. -/
theorem Extracted.ok (h : Extracted env headers n index r) :
    ∀ {links : List FetchLink}, r = .ok links → links.length ≤ n ∧
      (∀ i < links.length, LinkHeader env headers (index + i)) ∧
      (links.length < n → headerStr headers (.authChain (index + links.length)) = none) := by
  induction h with
  | done index =>
    intro links hlinks
    obtain rfl : [] = links := Except.ok.inj hlinks
    exact ⟨le_rfl, fun i hi => absurd hi (Nat.not_lt_zero i), fun hlt => absurd hlt (lt_irrefl 0)⟩
  | missing n index hnone =>
    intro links hlinks
    obtain rfl : [] = links := Except.ok.inj hlinks
    exact ⟨Nat.zero_le _, fun i hi => absurd hi (Nat.not_lt_zero i), fun _ => hnone⟩
  | refused n index e hsome hbad hpanics =>
    intro links hlinks
    cases hlinks
  | taken n index link rest hlink hrest ih =>
    intro links hlinks
    cases rest with
    | error e => cases hlinks
    | ok tail =>
      obtain rfl : link :: tail = links := Except.ok.inj hlinks
      obtain ⟨hle, hall, hend⟩ := ih rfl
      rw [List.length_cons]
      refine ⟨by omega, ?_, ?_⟩
      · intro i hi
        cases i with
        | zero => exact hlink
        | succ i =>
          have hnext := hall i (by omega)
          rwa [Nat.add_right_comm] at hnext
      · intro hlt
        have hnone := hend (by omega)
        rwa [Nat.add_right_comm] at hnone

/-- The loop fails at the first header that is no link. -/
theorem Extracted.error (h : Extracted env headers n index r) :
    ∀ {e : AuthChainError}, r = .error e → ∃ k < n,
      (∀ i < k, LinkHeader env headers (index + i)) ∧
      headerStr headers (.authChain (index + k)) ≠ none ∧ ¬ LinkHeader env headers (index + k) ∧
      (e = .panicked ↔ ¬ Cuttable env headers (index + k)) := by
  induction h with
  | done index =>
    intro e he
    cases he
  | missing n index hnone =>
    intro e he
    cases he
  | refused n index e hsome hbad hpanics =>
    intro e' he
    obtain rfl : e = e' := Except.error.inj he
    exact ⟨0, Nat.succ_pos n, fun i hi => absurd hi (Nat.not_lt_zero i), hsome, hbad, hpanics⟩
  | taken n index link rest hlink hrest ih =>
    intro e he
    cases rest with
    | ok tail => cases he
    | error e' =>
      obtain rfl : e' = e := Except.error.inj he
      obtain ⟨k, hk, hall, hstop⟩ := ih rfl
      rw [Nat.add_right_comm] at hstop
      refine ⟨k + 1, by omega, ?_, hstop⟩
      intro i hi
      cases i with
      | zero => exact hlink
      | succ i =>
        have hnext := hall i (by omega)
        rwa [Nat.add_right_comm] at hnext

theorem LinkHeader.present (h : LinkHeader env headers index) :
    headerStr headers (.authChain index) ≠ none := by
  obtain ⟨raw, link, hraw, -⟩ := h
  simp [hraw]

theorem LinkHeader.cuttable (h : LinkHeader env headers index) : Cuttable env headers index := by
  obtain ⟨raw, link, hraw, hparse, -⟩ := h
  intro raw' detail hraw' hdetail
  obtain rfl : raw = raw' := Option.some.inj (hraw.symm.trans hraw')
  rw [hparse] at hdetail
  cases hdetail

/-- The headers say how many links there are. -/
theorem ChainHeaders.length_eq (h : ChainHeaders env headers n) {k : ℕ}
    (hall : ∀ i < k, LinkHeader env headers i)
    (hend : k < maxAuthChainLinks → headerStr headers (.authChain k) = none) : k = n := by
  rcases lt_trichotomy k n with hlt | heq | hgt
  · exact absurd (hend (hlt.trans_le h.atMost)) (h.links k hlt).present
  · exact heq
  · exact absurd h.ends (hall n hgt).present

theorem extractAuthChain_of_links {links : List FetchLink}
    (hlinks : extractLinks env headers maxAuthChainLinks 0 = .ok links) :
    extractAuthChain env headers ≠ .error .panicked ∧
      ((∃ chain, extractAuthChain env headers = .ok chain) ↔
        headerStr headers (.authChain maxAuthChainLinks) = none ∧ 2 ≤ links.length) := by
  unfold extractAuthChain
  simp only [hlinks, bind, Except.bind]
  cases hoverflow : headerStr headers (.authChain maxAuthChainLinks) with
  | some raw => simp [throw, throwThe, MonadExceptOf.throw]
  | none =>
    cases links with
    | nil => simp [throw, throwThe, MonadExceptOf.throw]
    | cons first rest =>
      cases rest with
      | nil => simp [throw, throwThe, MonadExceptOf.throw]
      | cons second rest => simp [pure, Except.pure]

theorem extractAuthChain_of_error {e : AuthChainError}
    (herror : extractLinks env headers maxAuthChainLinks 0 = .error e) :
    extractAuthChain env headers = .error e := by
  unfold extractAuthChain
  rw [herror]
  rfl

/-- If the loop ends, a chain comes out for the headers that hold one. -/
theorem accepted_iff {links : List FetchLink}
    (hlinks : extractLinks env headers maxAuthChainLinks 0 = .ok links) :
    (∃ chain, extractAuthChain env headers = .ok chain) ↔ ∃ n, ChainHeaders env headers n := by
  obtain ⟨hle, hall, hend⟩ := (extractLinks_extracted env headers maxAuthChainLinks 0).ok hlinks
  simp only [Nat.zero_add] at hall hend
  rw [(extractAuthChain_of_links hlinks).2]
  constructor
  · rintro ⟨hoverflow, htwo⟩
    refine ⟨links.length, htwo, hle, hall, ?_, hoverflow⟩
    rcases hle.lt_or_eq with hlt | heq
    · exact hend hlt
    · rw [heq]
      exact hoverflow
  · rintro ⟨n, h⟩
    obtain rfl := h.length_eq hall hend
    exact ⟨h.overflow, h.atLeast⟩

/-- The extraction returns and accepts the chains if the text of the first parse error, if
any, can be cut. -/
theorem extraction_accepts_chains (env : FetchEnv) (headers : HeaderMap) :
    (extractAuthChain env headers ≠ .error .panicked ∧
      ((∃ chain, extractAuthChain env headers = .ok chain) ↔ ∃ n, ChainHeaders env headers n)) ↔
    ∀ index < maxAuthChainLinks, (∀ i < index, LinkHeader env headers i) →
      Cuttable env headers index := by
  have hextracted := extractLinks_extracted env headers maxAuthChainLinks 0
  cases hresult : extractLinks env headers maxAuthChainLinks 0 with
  | ok links =>
    obtain ⟨hle, hall, hend⟩ := hextracted.ok hresult
    simp only [Nat.zero_add] at hall hend
    refine iff_of_true ⟨(extractAuthChain_of_links hresult).1, accepted_iff hresult⟩ ?_
    intro index hindex hprevious
    rcases lt_trichotomy index links.length with hlt | rfl | hgt
    · exact (hall index hlt).cuttable
    · intro raw detail hraw
      rw [hend hindex] at hraw
      cases hraw
    · exact absurd (hend (hgt.trans hindex)) (hprevious links.length hgt).present
  | error e =>
    obtain ⟨k, hk, hall, hsome, hbad, hpanics⟩ := hextracted.error hresult
    simp only [Nat.zero_add] at hall hsome hbad hpanics
    rw [extractAuthChain_of_error hresult]
    constructor
    · rintro ⟨hreturns, -⟩ index hindex hprevious
      rcases lt_trichotomy index k with hlt | rfl | hgt
      · exact (hall index hlt).cuttable
      · by_contra hcut
        exact hreturns (congrArg Except.error (hpanics.mpr hcut))
      · exact absurd (hprevious k hgt) hbad
    · intro hcuttable
      refine ⟨?_, iff_of_false (fun h => nomatch h) ?_⟩
      · intro hpanicked
        exact hpanics.mp (Except.error.inj hpanicked) (hcuttable k hk hall)
      · rintro ⟨n, h⟩
        rcases lt_trichotomy k n with hlt | rfl | hgt
        · exact hbad (h.links k hlt)
        · exact hsome h.ends
        · exact (hall n hgt).present h.ends

end Extraction

/-! ### A variant that cannot be quoted -/

namespace Escaped

/-- A link whose type is forty times the letter é, escaped. -/
def raw : Text :=
  "\x7b\x22type\x22:\x22".toList ++ (List.replicate 40 "\\u00e9".toList).flatten ++
    "\x22,\x22payload\x22:\x22\x22\x7d".toList

def detail : Text :=
  "unknown variant \x60".toList ++ List.replicate 40 'é' ++
    ("\x60, expected one of \x60SIGNER\x60, \x60ECDSA_EPHEMERAL\x60, \x60ECDSA_SIGNED_ENTITY\x60, " ++
      "\x60ECDSA_EIP_1654_EPHEMERAL\x60, \x60ECDSA_EIP_1654_SIGNED_ENTITY\x60 " ++
      "at line 1 column 250").toList

def env : FetchEnv :=
  { Sample.env with
    linkFromStr := fun s => if s = raw then .error detail else Sample.env.linkFromStr s }

def headers : HeaderMap
  | .authChain 0 => some (utf8 raw)
  | _ => none

end Escaped

/-- The error text is cut within a letter. -/
theorem extraction_panics :
    ¬ (extractAuthChain Escaped.env Escaped.headers ≠ .error .panicked ∧
      ((∃ chain, extractAuthChain Escaped.env Escaped.headers = .ok chain) ↔
        ∃ n, ChainHeaders Escaped.env Escaped.headers n)) := by
  have hpanicked : extractAuthChain Escaped.env Escaped.headers = .error .panicked := by
    decide +kernel
  exact fun h => h.1 hpanicked

end Catalyrst.Crypto
