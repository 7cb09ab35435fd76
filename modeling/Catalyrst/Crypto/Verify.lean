import Mathlib
import Catalyrst.Crypto.AuthChain
import Catalyrst.Lib.Fallible

/-!
# What a verified chain says

The authorities that a chain names one after the other, each signed for by the one before,
stated without the walk; and that the two walks find the same where there is no
smart-contract wallet.
-/

namespace Catalyrst.Crypto

open Catalyrst.Lib.Fallible

variable {env : CryptoEnv} {validator : Option Eip1654Validator} {nowMs : ℤ}

/-! ### The statement -/

/-- At most ten links within the limits, and only the first of them is `SIGNER`. -/
structure WellFormed (chain : AuthChain) : Prop where
  nonempty : 1 ≤ chain.length
  short : chain.length ≤ maxAuthChainLinks
  limits : ∀ link ∈ chain, (utf8 link.payload).length ≤ maxAuthLinkFieldLen ∧
    ∀ s ∈ link.signature, (utf8 s).length ≤ maxAuthLinkFieldLen
  signer : ∀ (i : ℕ) (h : i < chain.length), chain[i].linkType = .signer ↔ i = 0

/-- The payload of an ephemeral link, read as three lines or more. -/
structure Ephemeral (env : CryptoEnv) (payload message address : Text) (expirationMs : ℤ) : Prop where
  noReturns : message = payload.filter (· ≠ '\r')
  lines : ∃ first expiry rest, message.splitOn '\n' =
    first :: (ephemeralPrefix ++ address) :: (expirationPrefix ++ expiry) :: rest ∧
    parseExpiration env expiry = .ok expirationMs
  address : isEthAddress address = true

/-- A signature of a wallet. -/
def RecoversTo (env : CryptoEnv) (authority message signature : Text) : Prop :=
  ∃ recovered, env.recoverAddress (utf8 message) signature = .ok recovered ∧
    env.toLowercase authority = env.toLowercase recovered

/-- A signature a contract vouches for. -/
def ContractAccepts (env : CryptoEnv) (validator : Option Eip1654Validator)
    (authority message signature : Text) : Prop :=
  ∃ v bytes, validator = some v ∧ decodeHexSignature signature = .ok bytes ∧
    verifyEip1654 env v authority (utf8 message) bytes = .ok true

/-- A link hands the authority on. -/
inductive HandsOn (env : CryptoEnv) (validator : Option Eip1654Validator) (nowMs : ℤ)
    (authority : Text) (link : AuthLink) : Text → Prop where
  | signedEntity (signature : Text) : link.linkType = .ecdsaSignedEntity →
    link.signature = some signature → signature ≠ [] →
    RecoversTo env authority link.payload signature → HandsOn env validator nowMs authority link link.payload
  | ephemeral (signature message address : Text) (expirationMs : ℤ) :
    link.linkType = .ecdsaEphemeral → link.signature = some signature → signature ≠ [] →
    Ephemeral env link.payload message address expirationMs → nowMs < expirationMs →
    RecoversTo env authority message signature → HandsOn env validator nowMs authority link address
  | contractEphemeral (signature message address : Text) (expirationMs : ℤ) :
    link.linkType = .ecdsaEip1654Ephemeral → link.signature = some signature → signature ≠ [] →
    Ephemeral env link.payload message address expirationMs → nowMs < expirationMs →
    ContractAccepts env validator authority message signature →
    HandsOn env validator nowMs authority link address
  | contractSignedEntity (signature : Text) : link.linkType = .ecdsaEip1654SignedEntity →
    link.signature = some signature → signature ≠ [] →
    ContractAccepts env validator authority link.payload signature →
    HandsOn env validator nowMs authority link link.payload

/-- The authorities after each of the links. -/
def Authorities (env : CryptoEnv) (validator : Option Eip1654Validator) (nowMs : ℤ) :
    Text → List AuthLink → List Text → Prop
  | _, [], [] => True
  | authority, link :: links, next :: rest =>
    HandsOn env validator nowMs authority link next ∧ Authorities env validator nowMs next links rest
  | _, _, _ => False

/-! ### The parts of a step -/

section Parts

variable {link : AuthLink} {index : ℕ} {authority : Text}

theorem requireSignature_ok {s : Text} :
    requireSignature link index = .ok s ↔ link.signature = some s ∧ s ≠ [] := by
  unfold requireSignature
  split
  · rename_i sig hsig
    split
    · rename_i hne
      constructor
      · intro h
        obtain rfl := Except.ok.inj h
        exact ⟨hsig, hne⟩
      · rintro ⟨h, -⟩
        rw [hsig] at h
        exact congrArg Except.ok (Option.some.inj h)
    · rename_i hempty
      constructor
      · intro h
        cases h
      · rintro ⟨h, hne⟩
        rw [hsig] at h
        exact absurd (Option.some.inj h ▸ hne) hempty
  · rename_i hnone
    simp [hnone]

theorem checkAddressMatch_ok {actual : Text} {u : Unit} :
    checkAddressMatch env authority actual index = .ok u ↔
      env.toLowercase authority = env.toLowercase actual := by
  unfold checkAddressMatch
  split
  · rename_i hne
    simp [hne]
  · rename_i heq
    simpa using heq

/-- A prefix that is cut off. -/
theorem isPrefixOf_drop {p s : Text} (h : p.isPrefixOf s = true) : p ++ s.drop p.length = s := by
  obtain ⟨t, rfl⟩ := List.isPrefixOf_iff_prefix.mp h
  rw [List.drop_left]

theorem parseEphemeralPayload_ok {payload message address : Text} {expirationMs : ℤ} :
    parseEphemeralPayload env payload = .ok (message, address, expirationMs) ↔
      Ephemeral env payload message address expirationMs := by
  unfold parseEphemeralPayload
  dsimp only
  constructor
  · intro h
    split at h
    · rename_i first second third rest hlines
      split at h
      · rename_i hprefixes
        split at h
        · rename_i haddress
          obtain ⟨ms, hms, heq⟩ : ∃ ms, parseExpiration env (third.drop expirationPrefix.length) =
              .ok ms ∧ (payload.filter (· ≠ '\r'), second.drop ephemeralPrefix.length, ms) =
                (message, address, expirationMs) := by
            cases hp : parseExpiration env (third.drop expirationPrefix.length) with
            | error e =>
              rw [hp] at h
              cases h
            | ok ms =>
              rw [hp] at h
              exact ⟨ms, rfl, Except.ok.inj h⟩
          simp only [Prod.mk.injEq] at heq
          obtain ⟨rfl, rfl, rfl⟩ := heq
          refine ⟨rfl, ⟨first, third.drop expirationPrefix.length, rest, ?_, hms⟩, haddress⟩
          rw [hlines, isPrefixOf_drop hprefixes.1, isPrefixOf_drop hprefixes.2]
        · cases h
      · cases h
    · cases h
  · rintro ⟨rfl, ⟨first, expiry, rest, hlines, hexpiry⟩, haddress⟩
    have hstarts : ∀ p s : Text, p.isPrefixOf (p ++ s) = true :=
      fun p s => List.isPrefixOf_iff_prefix.mpr (List.prefix_append p s)
    rw [hlines]
    dsimp only
    rw [if_pos ⟨hstarts _ _, hstarts _ _⟩, List.drop_left, List.drop_left, if_pos haddress, hexpiry]
    rfl

end Parts

/-! ### Steps and walks -/

section Steps

variable {link : AuthLink} {index : ℕ} {authority next : Text}

theorem advanceAsync_signer (h : link.linkType = .signer) :
    advanceAsync env validator nowMs authority link index = .ok link.payload := by
  simp [advanceAsync, h]

theorem unless_expired {α : Type} {expirationMs : ℤ} {x : Except AuthError α} {a : α} :
    (do if expirationMs ≤ nowMs then throw (AuthError.ephemeralExpired expirationMs nowMs)
        x) = .ok a ↔ nowMs < expirationMs ∧ x = .ok a := by
  by_cases h : expirationMs ≤ nowMs
  · simp [h, not_lt.mpr h, throw, throwThe, MonadExceptOf.throw, bind, Except.bind]
  · simp [h, not_le.mp h]

theorem unless_rejected {α : Type} {valid : Bool} {x : Except AuthError α} {a : α} :
    (do if !valid then throw (AuthError.eip1654Rejected authority)
        x) = .ok a ↔ valid = true ∧ x = .ok a := by
  cases valid <;> simp [throw, throwThe, MonadExceptOf.throw, bind, Except.bind]

theorem recovers_ok {message signature b : Text} :
    (do let recovered ← env.recoverAddress (utf8 message) signature
        checkAddressMatch env authority recovered index
        return next : Except AuthError Text) = .ok b ↔
      RecoversTo env authority message signature ∧ b = next := by
  constructor
  · intro h
    obtain ⟨recovered, hr, h⟩ := bind_ok.mp h
    obtain ⟨u, hcheck, h⟩ := bind_ok.mp h
    exact ⟨⟨recovered, hr, checkAddressMatch_ok.mp hcheck⟩, (Except.ok.inj h).symm⟩
  · rintro ⟨⟨recovered, hr, hmatch⟩, rfl⟩
    exact bind_ok.mpr ⟨recovered, hr, bind_ok.mpr ⟨(), checkAddressMatch_ok.mpr hmatch, rfl⟩⟩

theorem accepts_ok {v : Eip1654Validator} {message signature b : Text} :
    (do let sigBytes ← decodeHexSignature signature
        let valid ← verifyEip1654 env v authority (utf8 message) sigBytes
        if !valid then throw (AuthError.eip1654Rejected authority)
        return next : Except AuthError Text) = .ok b ↔
      ContractAccepts env (some v) authority message signature ∧ b = next := by
  constructor
  · intro h
    obtain ⟨bytes, hbytes, h⟩ := bind_ok.mp h
    obtain ⟨valid, hvalid, h⟩ := bind_ok.mp h
    obtain ⟨rfl, h⟩ := unless_rejected.mp h
    exact ⟨⟨v, bytes, rfl, hbytes, hvalid⟩, (Except.ok.inj h).symm⟩
  · rintro ⟨⟨v', bytes, hv, hbytes, hvalid⟩, rfl⟩
    obtain rfl := Option.some.inj hv
    exact bind_ok.mpr ⟨bytes, hbytes, bind_ok.mpr ⟨true, hvalid, unless_rejected.mpr ⟨rfl, rfl⟩⟩⟩

/-- What a link needs besides `P`, of a message and a signature. -/
theorem ephemeral_ok (P : Text → Text → Prop) (check : Text → Text → Text → Except AuthError Text)
    (hcheck : ∀ message signature address b, check message signature address = .ok b ↔
      P message signature ∧ b = address) :
    (do let signature ← requireSignature link index
        let (message, address, expirationMs) ← parseEphemeralPayload env link.payload
        if expirationMs ≤ nowMs then throw (AuthError.ephemeralExpired expirationMs nowMs)
        check message signature address : Except AuthError Text) = .ok next ↔
      ∃ signature message expirationMs, link.signature = some signature ∧ signature ≠ [] ∧
        Ephemeral env link.payload message next expirationMs ∧ nowMs < expirationMs ∧
        P message signature := by
  constructor
  · intro h
    obtain ⟨signature, hsig, h⟩ := bind_ok.mp h
    obtain ⟨⟨message, address, expirationMs⟩, hparse, h⟩ := bind_ok.mp h
    obtain ⟨hlt, h⟩ := unless_expired.mp h
    obtain ⟨hp, rfl⟩ := (hcheck _ _ _ _).mp h
    obtain ⟨hs, hne⟩ := requireSignature_ok.mp hsig
    exact ⟨signature, message, expirationMs, hs, hne, parseEphemeralPayload_ok.mp hparse, hlt, hp⟩
  · rintro ⟨signature, message, expirationMs, hs, hne, hparse, hlt, hp⟩
    refine bind_ok.mpr ⟨signature, requireSignature_ok.mpr ⟨hs, hne⟩, ?_⟩
    refine bind_ok.mpr ⟨_, parseEphemeralPayload_ok.mpr hparse, ?_⟩
    exact unless_expired.mpr ⟨hlt, (hcheck _ _ _ _).mpr ⟨hp, rfl⟩⟩

/-- A link without a date. -/
theorem entity_ok (P : Text → Prop) (check : Text → Except AuthError Text)
    (hcheck : ∀ signature b, check signature = .ok b ↔ P signature ∧ b = link.payload) :
    (do let signature ← requireSignature link index
        check signature : Except AuthError Text) = .ok next ↔
      ∃ signature, link.signature = some signature ∧ signature ≠ [] ∧ P signature ∧
        next = link.payload := by
  constructor
  · intro h
    obtain ⟨signature, hsig, h⟩ := bind_ok.mp h
    obtain ⟨hs, hne⟩ := requireSignature_ok.mp hsig
    exact ⟨signature, hs, hne, (hcheck _ _).mp h⟩
  · rintro ⟨signature, hs, hne, hp⟩
    exact bind_ok.mpr ⟨signature, requireSignature_ok.mpr ⟨hs, hne⟩, (hcheck _ _).mpr hp⟩

theorem advanceAsync_ok (h : link.linkType ≠ .signer) :
    advanceAsync env validator nowMs authority link index = .ok next ↔
      HandsOn env validator nowMs authority link next := by
  unfold advanceAsync
  cases htype : link.linkType with
  | signer => exact absurd htype h
  | ecdsaSignedEntity =>
    refine (entity_ok (RecoversTo env authority link.payload) _ fun _ _ => recovers_ok).trans ?_
    constructor
    · rintro ⟨signature, hs, hne, hp, rfl⟩
      exact .signedEntity signature htype hs hne hp
    · intro hands
      cases hands <;> simp_all
  | ecdsaEphemeral =>
    refine (ephemeral_ok (RecoversTo env authority) (fun message signature address => do
      let recovered ← env.recoverAddress (utf8 message) signature
      checkAddressMatch env authority recovered index
      return address) fun _ _ _ _ => recovers_ok).trans ?_
    constructor
    · rintro ⟨signature, message, expirationMs, hs, hne, hparse, hlt, hp⟩
      exact .ephemeral signature message next expirationMs htype hs hne hparse hlt hp
    · intro hands
      cases hands with
      | ephemeral signature message _ expirationMs _ hs hne hparse hlt hp =>
        exact ⟨signature, message, expirationMs, hs, hne, hparse, hlt, hp⟩
      | _ => simp_all
  | ecdsaEip1654Ephemeral =>
    cases validator with
    | none =>
      constructor
      · intro h
        cases h
      · intro hands
        cases hands <;> simp_all [ContractAccepts]
    | some v =>
      refine (ephemeral_ok (ContractAccepts env (some v) authority)
        (fun message signature address => do
          let sigBytes ← decodeHexSignature signature
          let valid ← verifyEip1654 env v authority (utf8 message) sigBytes
          if !valid then throw (AuthError.eip1654Rejected authority)
          return address) fun _ _ _ _ => accepts_ok).trans ?_
      constructor
      · rintro ⟨signature, message, expirationMs, hs, hne, hparse, hlt, hp⟩
        exact .contractEphemeral signature message next expirationMs htype hs hne hparse hlt hp
      · intro hands
        cases hands with
        | contractEphemeral signature message _ expirationMs _ hs hne hparse hlt hp =>
          exact ⟨signature, message, expirationMs, hs, hne, hparse, hlt, hp⟩
        | _ => simp_all
  | ecdsaEip1654SignedEntity =>
    cases validator with
    | none =>
      constructor
      · intro h
        cases h
      · intro hands
        cases hands <;> simp_all [ContractAccepts]
    | some v =>
      refine (entity_ok (ContractAccepts env (some v) authority link.payload) _
        fun _ _ => accepts_ok).trans ?_
      constructor
      · rintro ⟨signature, hs, hne, hp, rfl⟩
        exact .contractSignedEntity signature htype hs hne hp
      · intro hands
        cases hands <;> simp_all

end Steps

theorem walk_ok {links : List AuthLink} (hlinks : ∀ link ∈ links, link.linkType ≠ .signer)
    (authority : Text) (index : ℕ) (last : Text) :
    walk (advanceAsync env validator nowMs) authority index links = .ok last ↔
      ∃ authorities, Authorities env validator nowMs authority links authorities ∧
        (authority :: authorities).getLast (List.cons_ne_nil _ _) = last := by
  induction links generalizing authority index with
  | nil =>
    constructor
    · intro h
      exact ⟨[], trivial, Except.ok.inj h⟩
    · rintro ⟨authorities, hauth, rfl⟩
      cases authorities with
      | nil => rfl
      | cons _ _ => exact hauth.elim
  | cons link links ih =>
    rw [List.forall_mem_cons] at hlinks
    constructor
    · intro h
      obtain ⟨next, hnext, h⟩ := bind_ok.mp h
      obtain ⟨authorities, hauth, hlast⟩ := (ih hlinks.2 next (index + 1)).mp h
      exact ⟨next :: authorities, ⟨(advanceAsync_ok hlinks.1).mp hnext, hauth⟩, hlast⟩
    · rintro ⟨authorities, hauth, hlast⟩
      cases authorities with
      | nil => exact hauth.elim
      | cons next rest =>
        obtain ⟨hands, hauth⟩ := hauth
        exact bind_ok.mpr ⟨next, (advanceAsync_ok hlinks.1).mpr hands,
          (ih hlinks.2 next (index + 1)).mpr ⟨rest, hauth, hlast⟩⟩

/-! ### Chains -/

theorem isValidAuthChain_iff {chain : AuthChain} :
    isValidAuthChain chain = true ↔ WellFormed chain := by
  have hcheck : (chain.zipIdx.all fun p =>
      !(p.2 = 0 ∧ p.1.linkType ≠ .signer) && !(p.1.linkType = .signer ∧ p.2 ≠ 0) &&
        p.1.withinLimits) = true ↔
      ∀ (i : ℕ) (h : i < chain.length), (chain[i].linkType = .signer ↔ i = 0) ∧
        chain[i].withinLimits = true := by
    rw [List.all_eq_true]
    constructor
    · intro h i hi
      have hentry := h (chain[i], i) (by simp [List.mem_zipIdx_iff_getElem?])
      simp only [Bool.and_eq_true, Bool.not_eq_true', decide_eq_false_iff_not] at hentry
      exact ⟨by grind, hentry.2⟩
    · rintro h ⟨link, i⟩ hmem
      rw [List.mem_zipIdx_iff_getElem?, List.getElem?_eq_some_iff] at hmem
      obtain ⟨hi, rfl⟩ : ∃ hi : i < chain.length, chain[i] = link := hmem
      obtain ⟨hsigner, hlimits⟩ := h i hi
      simp only [Bool.and_eq_true, Bool.not_eq_true', decide_eq_false_iff_not]
      exact ⟨⟨by grind, by grind⟩, hlimits⟩
  unfold isValidAuthChain
  by_cases hnil : chain = []
  · subst hnil
    refine iff_of_false (by simp) fun h => ?_
    exact absurd h.nonempty (by simp)
  rw [if_neg hnil]
  by_cases hlong : maxAuthChainLinks < chain.length
  · rw [if_pos hlong]
    exact iff_of_false (by simp) fun h => absurd h.short (not_le.mpr hlong)
  rw [if_neg hlong]
  refine hcheck.trans ?_
  constructor
  · intro h
    refine ⟨List.length_pos_iff.mpr hnil, not_lt.mp hlong, fun link hmem => ?_, fun i hi => (h i hi).1⟩
    obtain ⟨i, hi, rfl⟩ := List.getElem_of_mem hmem
    simpa [AuthLink.withinLimits] using (h i hi).2
  · intro h i hi
    exact ⟨h.signer i hi, by simpa [AuthLink.withinLimits] using h.limits _ (List.getElem_mem hi)⟩

/-- The first link and what follows it. -/
theorem WellFormed.split {chain : AuthChain} (h : WellFormed chain) :
    ∃ signer rest, chain = signer :: rest ∧ signer.linkType = .signer ∧
      ∀ link ∈ rest, link.linkType ≠ .signer := by
  cases chain with
  | nil => exact absurd h.nonempty (by simp)
  | cons signer rest =>
    refine ⟨signer, rest, rfl, (h.signer 0 (by simp)).mpr rfl, fun link hmem hsigner => ?_⟩
    obtain ⟨i, hi, rfl⟩ := List.getElem_of_mem hmem
    have := (h.signer (i + 1) (by simpa using hi)).mp (by simpa using hsigner)
    omega

theorem verifyWith_ok {advance : Text → AuthLink → ℕ → Except AuthError Text} {chain : AuthChain}
    {expected : Text} :
    verifyWith advance chain expected = .ok () ↔
      WellFormed chain ∧ walk advance [] 0 chain = .ok expected := by
  unfold verifyWith
  by_cases hlong : maxAuthChainLinks < chain.length
  · rw [if_pos hlong]
    exact iff_of_false (by simp) fun h => absurd h.1.short (not_le.mpr hlong)
  rw [if_neg hlong]
  by_cases hvalid : isValidAuthChain chain = true
  · have hform := isValidAuthChain_iff.mp hvalid
    rw [if_neg (by simp [hvalid])]
    cases hwalk : walk advance [] 0 chain with
    | error e => simp [Except.bind]
    | ok authority =>
      by_cases heq : authority = expected <;> simp [Except.bind, heq, hform]
  · have hnot : ¬ WellFormed chain := fun h => hvalid (isValidAuthChain_iff.mpr h)
    rw [if_pos (by simpa using hvalid)]
    simp [hnot]

theorem verifyAuthChainAsync_ok {chain : AuthChain} {expected : Text} :
    verifyAuthChainAsync env chain expected nowMs validator = .ok () ↔
      WellFormed chain ∧ ∃ signer rest authorities, chain = signer :: rest ∧
        Authorities env validator nowMs signer.payload rest authorities ∧
        (signer.payload :: authorities).getLast (List.cons_ne_nil _ _) = expected := by
  unfold verifyAuthChainAsync
  rw [verifyWith_ok]
  refine and_congr_right fun hform => ?_
  obtain ⟨signer, rest, rfl, hsigner, hrest⟩ := hform.split
  have hfirst : walk (advanceAsync env validator nowMs) [] 0 (signer :: rest) =
      walk (advanceAsync env validator nowMs) signer.payload 1 rest := by
    rw [walk, advanceAsync_signer hsigner]
    rfl
  rw [hfirst, walk_ok hrest]
  constructor
  · rintro ⟨authorities, h, hlast⟩
    exact ⟨signer, rest, authorities, rfl, h, hlast⟩
  · rintro ⟨_, _, authorities, heq, h, hlast⟩
    obtain ⟨rfl, rfl⟩ := List.cons.inj heq
    exact ⟨authorities, h, hlast⟩

/-! ### The two walks -/

theorem advanceInner_eq {link : AuthLink} (h : link.linkType.isEip1654 = false) (authority : Text)
    (index : ℕ) :
    advanceInner env nowMs authority link index =
      advanceAsync env validator nowMs authority link index := by
  unfold advanceInner advanceAsync
  cases htype : link.linkType with
  | ecdsaEip1654Ephemeral | ecdsaEip1654SignedEntity => simp [htype, AuthLinkType.isEip1654] at h
  | _ => rfl

theorem walk_congr {advance advance' : Text → AuthLink → ℕ → Except AuthError Text}
    {links : List AuthLink}
    (h : ∀ link ∈ links, ∀ authority index, advance authority link index = advance' authority link index)
    (authority : Text) (index : ℕ) :
    walk advance authority index links = walk advance' authority index links := by
  induction links generalizing authority index with
  | nil => rfl
  | cons link links ih =>
    rw [List.forall_mem_cons] at h
    unfold walk
    rw [h.1 authority index]
    congr 1
    funext next
    exact ih h.2 next (index + 1)

theorem verifyAuthChain_eq {chain : AuthChain} (h : ∀ link ∈ chain, link.linkType.isEip1654 = false)
    (expected : Text) :
    verifyAuthChain env chain expected nowMs =
      verifyAuthChainAsync env chain expected nowMs validator := by
  unfold verifyAuthChain verifyAuthChainAsync verifyWith
  rw [walk_congr fun link hmem => advanceInner_eq (h link hmem)]

/-- A chain is accepted just when every link hands the authority on to the payload expected
in the end; without smart-contract wallets the other walk says the same. -/
theorem verify_auth_chain_sound (env : CryptoEnv) (chain : AuthChain) (expected : Text) (nowMs : ℤ) :
    (∀ validator, verifyAuthChainAsync env chain expected nowMs validator = .ok () ↔
      WellFormed chain ∧ ∃ signer rest authorities, chain = signer :: rest ∧
        Authorities env validator nowMs signer.payload rest authorities ∧
        (signer.payload :: authorities).getLast (List.cons_ne_nil _ _) = expected) ∧
    ((∀ link ∈ chain, link.linkType.isEip1654 = false) → ∀ validator,
      verifyAuthChain env chain expected nowMs =
        verifyAuthChainAsync env chain expected nowMs validator) :=
  ⟨fun _ => verifyAuthChainAsync_ok, fun h _ => verifyAuthChain_eq h expected⟩

/-! ### The last authority -/

theorem HandsOn.next_unique {validator' : Option Eip1654Validator} {nowMs' : ℤ} {link : AuthLink}
    {authority authority' next next' : Text} (h : HandsOn env validator nowMs authority link next)
    (h' : HandsOn env validator' nowMs' authority' link next') : next = next' := by
  have hephemeral : ∀ {message message' address address' : Text} {ms ms' : ℤ},
      Ephemeral env link.payload message address ms →
      Ephemeral env link.payload message' address' ms' → address = address' := by
    intro message message' address address' ms ms' h h'
    have heq := (parseEphemeralPayload_ok.mpr h).symm.trans (parseEphemeralPayload_ok.mpr h')
    simp only [Except.ok.injEq, Prod.mk.injEq] at heq
    exact heq.2.1
  cases h with
  | signedEntity _ htype => cases h' <;> simp_all
  | ephemeral _ _ _ _ htype _ _ hparse =>
    cases h' with
    | ephemeral _ _ _ _ _ _ _ hparse' => exact hephemeral hparse hparse'
    | _ => simp_all
  | contractEphemeral _ _ _ _ htype _ _ hparse =>
    cases h' with
    | contractEphemeral _ _ _ _ _ _ _ hparse' => exact hephemeral hparse hparse'
    | _ => simp_all
  | contractSignedEntity _ htype => cases h' <;> simp_all

theorem authorities_unique {validator' : Option Eip1654Validator} {nowMs' : ℤ}
    {links : List AuthLink} {authority authority' : Text} {authorities authorities' : List Text}
    (h : Authorities env validator nowMs authority links authorities)
    (h' : Authorities env validator' nowMs' authority' links authorities') :
    authorities = authorities' := by
  induction links generalizing authority authority' authorities authorities' with
  | nil =>
    cases authorities <;> cases authorities' <;> first | rfl | exact h.elim | exact h'.elim
  | cons link links ih =>
    cases authorities with
    | nil => exact h.elim
    | cons next rest =>
      cases authorities' with
      | nil => exact h'.elim
      | cons next' rest' => rw [h.1.next_unique h'.1, ih h.2 h'.2]

/-- A chain is accepted for one payload at most, whenever and by whomever it is checked. -/
theorem expected_unique {validator' : Option Eip1654Validator} {nowMs' : ℤ} {chain : AuthChain}
    {expected expected' : Text}
    (h : verifyAuthChainAsync env chain expected nowMs validator = .ok ())
    (h' : verifyAuthChainAsync env chain expected' nowMs' validator' = .ok ()) :
    expected = expected' := by
  obtain ⟨-, signer, rest, authorities, rfl, hauth, rfl⟩ := verifyAuthChainAsync_ok.mp h
  obtain ⟨-, _, _, authorities', heq, hauth', rfl⟩ := verifyAuthChainAsync_ok.mp h'
  obtain ⟨rfl, rfl⟩ := List.cons.inj heq
  simp only [authorities_unique hauth hauth']

end Catalyrst.Crypto
