import Mathlib
import Catalyrst.Crypto.SignedFetch
import Catalyrst.Crypto.Verify
import Catalyrst.Lib.Segments

/-!
# What a signed fetch binds

Two requests with one chain have one payload. The parts of the older payload can be cut
differently, at a part of the path or of the metadata that reads as a timestamp; the parts of
the newer one cannot, since its metadata is a JSON text.
-/

namespace Catalyrst.Crypto

open Catalyrst.Lib Catalyrst.Lib.Fallible
open Catalyrst.Lib.Numeral (parseI64)

/-- A byte of `http::Method`. -/
def isTokenChar (c : Char) : Bool :=
  48 ≤ c.toNat ∧ c.toNat ≤ 57 ∨ 65 ≤ c.toNat ∧ c.toNat ≤ 90 ∨ 97 ≤ c.toNat ∧ c.toNat ≤ 122 ∨ c.toNat ∈
    [0x21, 0x23, 0x24, 0x25, 0x26, 0x27, 0x2a, 0x2b, 0x2d, 0x2e, 0x5e, 0x5f, 0x60, 0x7c, 0x7e]

def Ascii (s : Text) : Prop := ∀ c ∈ s, c.toNat < 128

/-- The method is a token and the route the path of a URI. -/
structure Request where
  headers : HeaderMap
  method : Text
  route : Text
  token : ∀ c ∈ method, isTokenChar c = true
  uri : Ascii route ∨ route.head? = some '/'

def Request.path (r : Request) : Text := signedFetchPath r.headers r.route

def Request.timestamp (r : Request) : Option Text := headerStr r.headers .timestamp

def Request.metadata (r : Request) : Text := metadataRaw r.headers

/-- How and when a request is checked. -/
structure Call where
  toleranceSecs : ℤ
  now : ℤ
  validator : Option Eip1654Validator

structure AcceptedOld (env : FetchEnv) (chain : FetchChain) (r : Request) (call : Call) : Prop where
  extracted : extractAuthChain env r.headers = .ok chain
  accepted : ∃ seen, verifySignedFetchMeta env r.headers r.method r.route call.toleranceSecs call.now
    call.validator = .ok seen

structure AcceptedNew (env : FetchEnv) (chain : FetchChain) (gate : Option SignerGate) (r : Request)
    (call : Call) : Prop where
  extracted : extractAuthChain env r.headers = .ok chain
  accepted : ∃ seen, verifySignedFetchMetaWithLegacyFallback env r.headers r.method r.route
    call.toleranceSecs call.now call.validator [] gate = .ok seen

/-- What `str::to_lowercase` does, as far as it matters here: the final form of a sigma depends
on the letters around it, and neither a slash nor a digit or a sign is looked through. -/
structure Lowers (lower : Text → Text) : Prop where
  ascii : ∀ s, Ascii s → lower s = s.map Char.toLower
  apart : ∀ s c t, (c = '/' ∨ JsonText.isLiteral c = true) →
    lower (s ++ ':' :: c :: t) = lower s ++ ':' :: lower (c :: t)
  colon : ∀ s, ':' ∈ lower s → ':' ∈ s

/-! ### Parts of a request -/

theorem parseI64_literal {s : Text} (h : parseI64 s ≠ none) :
    s ≠ [] ∧ ∀ c ∈ s, JsonText.isLiteral c = true := by
  have hdigits : ∀ {ds : Text}, (ds ≠ [] ∧ ds.all Char.isDigit = true) →
      ∀ c ∈ ds, JsonText.isLiteral c = true := by
    intro ds hds c hc
    simp [JsonText.isLiteral, List.all_eq_true.mp hds.2 c hc]
  obtain ⟨n, hn⟩ := Option.ne_none_iff_exists'.mp h
  have hread := (Option.filter_eq_some_iff.mp hn).1
  unfold Numeral.readInt at hread
  split at hread
  · split_ifs at hread with hds
    exact ⟨List.cons_ne_nil _ _, List.forall_mem_cons.mpr ⟨by decide, hdigits hds⟩⟩
  · split_ifs at hread with hds
    exact ⟨List.cons_ne_nil _ _, List.forall_mem_cons.mpr ⟨by decide, hdigits hds⟩⟩
  · split_ifs at hread with hds
    exact ⟨hds.1, hdigits hds⟩

theorem literal_no_colon {s : Text} (h : ∀ c ∈ s, JsonText.isLiteral c = true) : ':' ∉ s :=
  fun hc => absurd (h _ hc) (by decide)

theorem headerStr_ascii {headers : HeaderMap} {name : HeaderName} {s : Text}
    (h : headerStr headers name = some s) : Ascii s := by
  obtain ⟨value, -, hvalue⟩ := Option.bind_eq_some_iff.mp h
  unfold toStr at hvalue
  split at hvalue
  · rename_i hall
    obtain rfl := Option.some.inj hvalue
    intro c hc
    obtain ⟨b, hb, rfl⟩ := List.mem_map.mp hc
    have hbyte := List.all_eq_true.mp hall b hb
    simp only [decide_eq_true_eq] at hbyte
    have hlt : b.toNat < 128 := by
      rcases hbyte with ⟨-, hlt⟩ | rfl
      · exact lt_of_lt_of_le (UInt8.lt_iff_toNat_lt.mp hlt) (by decide)
      · decide
    rw [Char.toNat_ofNat, if_pos (Or.inl (by omega))]
    exact hlt
  · cases hvalue

theorem metadataRaw_ascii (headers : HeaderMap) : Ascii (metadataRaw headers) := by
  unfold metadataRaw
  cases h : headerStr headers .metadata with
  | none => simp [Ascii, JsonText.openBrace, JsonText.closeBrace]
  | some s => exact headerStr_ascii h

theorem Request.path_uri (r : Request) : Ascii r.path ∨ r.path.head? = some '/' := by
  unfold Request.path signedFetchPath
  split
  · rename_i raw hraw
    dsimp only
    split
    · exact .inl fun c hc => headerStr_ascii hraw c ((List.takeWhile_sublist _).subset hc)
    · exact r.uri
  · exact r.uri

theorem Request.method_ascii (r : Request) : Ascii r.method := by
  intro c hc
  have htoken := r.token c hc
  simp only [isTokenChar, List.mem_cons, List.not_mem_nil, or_false, decide_eq_true_eq] at htoken
  omega

theorem Request.method_no_colon (r : Request) : ':' ∉ r.method :=
  fun hc => absurd (r.token _ hc) (by decide)

section Payloads

/-! ### One payload -/

variable {env : FetchEnv} {chain : FetchChain}

theorem validateSignatureWith_ok {payload timestamp signer : Text} {window now : ℤ}
    {validator : Option Eip1654Validator}
    (h : validateSignatureWith env chain payload timestamp window now validator = .ok signer) :
    parseI64 timestamp ≠ none ∧ verifyAuthChainAsync env.toCryptoEnv (toCryptoChain chain) payload
      (now * 1000) validator = .ok () := by
  obtain ⟨signedAt, hsigned, h⟩ := bind_ok.mp h
  obtain ⟨_, -, h⟩ := bind_ok.mp h
  obtain ⟨_, hverify, -⟩ := bind_ok.mp h
  refine ⟨fun hnone => ?_, mapError_ok.mp hverify⟩
  rw [signedAtSecs, hnone] at hsigned
  cases hsigned

theorem AcceptedOld.verified {r : Request} {call : Call} (h : AcceptedOld env chain r call) :
    ∃ ts, r.timestamp = some ts ∧ parseI64 ts ≠ none ∧
      verifyAuthChainAsync env.toCryptoEnv (toCryptoChain chain)
        (buildLegacyPayload env r.method r.path ts r.metadata) (call.now * 1000) call.validator =
          .ok () := by
  obtain ⟨seen, h'⟩ := h.accepted
  obtain ⟨_, hchain, h'⟩ := bind_ok.mp h'
  obtain rfl := Except.ok.inj (h.extracted.symm.trans hchain)
  cases hts : headerStr r.headers .timestamp with
  | none =>
    rw [hts] at h'
    cases h'
  | some ts =>
    rw [hts] at h'
    obtain ⟨signer, hvalid, -⟩ := bind_ok.mp h'
    exact ⟨ts, hts, validateSignatureWith_ok hvalid⟩

theorem parseMetadata_ok {raw : Text} {metadata : Json} (h : parseMetadata env raw = .ok metadata) :
    ∃ v, env.fromStr raw = some v := by
  unfold parseMetadata at h
  split at h
  · exact ⟨_, ‹_›⟩
  · exact ⟨_, ‹_›⟩
  · cases h

theorem AcceptedNew.verified {gate : Option SignerGate} {r : Request} {call : Call}
    (h : AcceptedNew env chain gate r call) :
    ∃ ts, r.timestamp = some ts ∧ parseI64 ts ≠ none ∧
      (∃ metadata, parseMetadata env r.metadata = .ok metadata) ∧
      verifyAuthChainAsync env.toCryptoEnv (toCryptoChain chain)
        (buildPayloadV6 env r.method r.path ts r.metadata) (call.now * 1000) call.validator =
          .ok () := by
  obtain ⟨seen, h'⟩ := h.accepted
  obtain ⟨_, -, h'⟩ := bind_ok.mp h'
  obtain ⟨_, hchain, h'⟩ := bind_ok.mp h'
  obtain rfl := Except.ok.inj (h.extracted.symm.trans hchain)
  cases hts : headerStr r.headers .timestamp with
  | none =>
    rw [hts] at h'
    cases h'
  | some ts =>
    rw [hts] at h'
    obtain ⟨_, -, h'⟩ := bind_ok.mp h'
    obtain ⟨_, -, h'⟩ := bind_ok.mp h'
    obtain ⟨metadata, hmeta, h'⟩ := bind_ok.mp h'
    dsimp only at h'
    split at h'
    · cases h'
    · split at h'
      · rename_i signer hvalid
        have hok := validateSignatureWith_ok hvalid
        exact ⟨ts, hts, hok.1, ⟨metadata, hmeta⟩, hok.2⟩
      -- without declared keys there is no second attempt
      · rw [if_pos rfl] at h'
        cases h'
      · cases h'

/-! ### The older payload -/

variable (lowers : Lowers env.toLowercase)

theorem literal_cases {c : Char} (h : JsonText.isLiteral c = true) :
    c.toNat < 128 ∧ c.toLower = c := by
  simp only [JsonText.isLiteral, Char.isDigit, decide_eq_true_eq, Bool.and_eq_true] at h
  rcases h with ⟨-, hle⟩ | rfl | rfl
  · have hnat : c.toNat ≤ 57 := UInt32.le_iff_toNat_le.mp hle
    refine ⟨by omega, ?_⟩
    unfold Char.toLower
    refine dif_neg fun hupper => ?_
    have hge : 65 ≤ c.toNat := UInt32.le_iff_toNat_le.mp hupper.1
    omega
  · decide
  · decide

include lowers in
/-- Lower-casing as a whole is lower-casing part by part. -/
theorem buildLegacyPayload_eq (r : Request) {ts : Text} (hts : parseI64 ts ≠ none) :
    buildLegacyPayload env r.method r.path ts r.metadata =
      env.toLowercase r.method ++ ':' ::
        Segments.split ':' (env.toLowercase r.path) ts (env.toLowercase r.metadata) := by
  obtain ⟨hne, hliteral⟩ := parseI64_literal hts
  have hmeta : Ascii r.metadata := metadataRaw_ascii r.headers
  have htsAscii : Ascii ts := fun c hc => (literal_cases (hliteral c hc)).1
  have htsLower : ts.map Char.toLower = ts :=
    List.map_congr_left (fun c hc => (literal_cases (hliteral c hc)).2) |>.trans (List.map_id ts)
  have hjoin : ∀ {s t : Text}, Ascii s → Ascii t → Ascii (s ++ ':' :: t) := by
    intro s t hs ht c hc
    rw [List.mem_append, List.mem_cons] at hc
    rcases hc with hc | rfl | hc
    · exact hs c hc
    · decide
    · exact ht c hc
  have hcolon : Char.toLower ':' = ':' := by decide
  have htail : env.toLowercase (ts ++ ':' :: r.metadata) = ts ++ ':' :: env.toLowercase r.metadata := by
    rw [lowers.ascii _ (hjoin htsAscii hmeta), lowers.ascii _ hmeta, List.map_append, List.map_cons,
      htsLower, hcolon]
  unfold buildLegacyPayload joinPayload Segments.split
  rcases r.path_uri with hpath | hpath
  · rw [lowers.ascii _ (hjoin r.method_ascii (hjoin hpath (hjoin htsAscii hmeta))),
      lowers.ascii _ r.method_ascii, lowers.ascii _ hpath, lowers.ascii _ hmeta]
    simp only [List.map_append, List.map_cons, htsLower, hcolon]
  · obtain ⟨t, ht⟩ : ∃ t, r.path = '/' :: t := by
      cases hp : r.path with
      | nil => simp [hp] at hpath
      | cons c t =>
        rw [hp] at hpath
        exact ⟨t, by rw [Option.some.inj hpath]⟩
    obtain ⟨c, ts', rfl⟩ := List.exists_cons_of_ne_nil hne
    have hc := hliteral c List.mem_cons_self
    have hfirst := lowers.apart r.method '/' (t ++ ':' :: (c :: ts' ++ ':' :: r.metadata)) (.inl rfl)
    have hsecond := lowers.apart r.path c (ts' ++ ':' :: r.metadata) (.inr hc)
    rw [← List.cons_append, ← ht] at hfirst
    rw [hfirst, ← htail]
    exact congrArg (fun rest => env.toLowercase r.method ++ ':' :: rest) hsecond

include lowers in
theorem lower_method_no_colon (r : Request) : ':' ∉ env.toLowercase r.method :=
  fun hc => r.method_no_colon (lowers.colon _ hc)

/-- The lower-cased path, the timestamp and the metadata up to letter case. -/
def Agree (env : FetchEnv) (a b : Request) : Prop :=
  env.toLowercase a.path = env.toLowercase b.path ∧ a.timestamp = b.timestamp ∧
    env.toLowercase a.metadata = env.toLowercase b.metadata

include lowers in
theorem old_splits {a b : Request} {callA callB : Call} (ha : AcceptedOld env chain a callA)
    (hb : AcceptedOld env chain b callB) :
    ∃ t t', a.timestamp = some t ∧ b.timestamp = some t' ∧ parseI64 t' ≠ none ∧ ':' ∉ t ∧ ':' ∉ t' ∧
      Segments.split ':' (env.toLowercase a.path) t (env.toLowercase a.metadata) =
        Segments.split ':' (env.toLowercase b.path) t' (env.toLowercase b.metadata) := by
  obtain ⟨t, hta, hparse, hverify⟩ := ha.verified
  obtain ⟨t', htb, hparse', hverify'⟩ := hb.verified
  have hpayload := expected_unique hverify hverify'
  rw [buildLegacyPayload_eq lowers a hparse, buildLegacyPayload_eq lowers b hparse'] at hpayload
  exact ⟨t, t', hta, htb, hparse', literal_no_colon (parseI64_literal hparse).2,
    literal_no_colon (parseI64_literal hparse').2,
    (Segments.append_cons_inj (lower_method_no_colon lowers a) (lower_method_no_colon lowers b)
      hpayload).2⟩

include lowers in
theorem agree_of_count {a b : Request} {callA callB : Call} (ha : AcceptedOld env chain a callA)
    (hb : AcceptedOld env chain b callB)
    (hcount : (env.toLowercase a.path).count ':' = (env.toLowercase b.path).count ':') :
    Agree env a b := by
  obtain ⟨t, t', hta, htb, -, ht, ht', hsplit⟩ := old_splits lowers ha hb
  rcases Segments.split_cases ht ht' hsplit with ⟨hpath, rfl, hmeta⟩ | ⟨hbefore, -⟩ | ⟨hbefore, -⟩
  · exact ⟨hpath, hta.trans htb.symm, hmeta⟩
  · exact absurd hcount (ne_of_lt hbefore.count_lt)
  · exact absurd hcount (ne_of_gt hbefore.count_lt)

include lowers in
theorem agree_of_no_literal {a b : Request} {callA callB : Call} (ha : AcceptedOld env chain a callA)
    (hb : AcceptedOld env chain b callB)
    (hno : ∀ t, parseI64 t ≠ none → ¬ Segments.Segment ':' t (env.toLowercase a.path) ∧
      ¬ Segments.Segment ':' t (env.toLowercase a.metadata)) : Agree env a b := by
  obtain ⟨t, t', hta, htb, hparse, ht, ht', hsplit⟩ := old_splits lowers ha hb
  rcases Segments.split_cases ht ht' hsplit with ⟨hpath, rfl, hmeta⟩ | ⟨-, hwithin⟩ | ⟨hbefore, -⟩
  · exact ⟨hpath, hta.trans htb.symm, hmeta⟩
  · exact absurd hwithin.segment (hno t' hparse).2
  · exact absurd hbefore.segment (hno t' hparse).1

end Payloads

/-- Two requests accepted with one chain agree just when their lower-cased paths have the same
number of colons, and they always do when no part of one of them between colons is an integer. -/
theorem signed_fetch_binding (env : FetchEnv) (lowers : Lowers env.toLowercase) (chain : FetchChain)
    (a : Request) (callA : Call) (ha : AcceptedOld env chain a callA) :
    (∀ b callB, AcceptedOld env chain b callB → (Agree env a b ↔
      (env.toLowercase a.path).count ':' = (env.toLowercase b.path).count ':')) ∧
    ((∀ t, parseI64 t ≠ none → ¬ Segments.Segment ':' t (env.toLowercase a.path) ∧
        ¬ Segments.Segment ':' t (env.toLowercase a.metadata)) →
      ∀ b callB, AcceptedOld env chain b callB → Agree env a b) := by
  refine ⟨fun b callB hb => ⟨fun h => by rw [h.1], agree_of_count lowers ha hb⟩, fun hno b callB hb => ?_⟩
  exact agree_of_no_literal lowers ha hb hno

/-! ### Two requests for one signature -/

namespace Sample

def signerJson : Text :=
  ['\x7b', '\x22', 't', 'y', 'p', 'e', '\x22', ':', '\x22', 'S', 'I', 'G', 'N', 'E', 'R', '\x22',
   ',', '\x22', 'p', 'a', 'y', 'l', 'o', 'a', 'd', '\x22', ':', '\x22', '0', 'x', '1', '\x22',
   ',', '\x22', 's', 'i', 'g', 'n', 'a', 't', 'u', 'r', 'e', '\x22', ':', '\x22', '\x22', '\x7d']

def entityJson : Text :=
  ['\x7b', '\x22', 't', 'y', 'p', 'e', '\x22', ':', '\x22', 'E', 'C', 'D', 'S', 'A', '_', 'S',
   'I', 'G', 'N', 'E', 'D', '_', 'E', 'N', 'T', 'I', 'T', 'Y', '\x22', ',', '\x22', 'p', 'a',
   'y', 'l', 'o', 'a', 'd', '\x22', ':', '\x22', 'g', 'e', 't', ':', '/', 'a', ':', '1', '7',
   '0', '0', '0', '0', '0', '0', '0', '0', '0', '0', '0', ':', '1', '7', '0', '0', '0', '0', '0',
   '0', '0', '0', '0', '0', '0', ':', '\x7b', '\x7d', '\x22', ',', '\x22', 's', 'i', 'g', 'n',
   'a', 't', 'u', 'r', 'e', '\x22', ':', '\x22', '0', 'x', '2', '\x22', '\x7d']

def payload : Text :=
  ['g', 'e', 't', ':', '/', 'a', ':', '1', '7', '0', '0', '0', '0', '0', '0', '0', '0', '0', '0',
   '0', ':', '1', '7', '0', '0', '0', '0', '0', '0', '0', '0', '0', '0', '0', ':', '\x7b', '\x7d']

/-- One wallet, one signature and the two headers that carry them. -/
def env : FetchEnv where
  toLowercase := List.map Char.toLower
  recoverAddress message signature :=
    if message = utf8 payload ∧ signature = ['0', 'x', '2'] then .ok ['0', 'x', '1']
    else .error (.recoveryFailed "signature")
  keccak256 := id
  eip191HashMessage := id
  parseRfc3339 _ := none
  parseNaive _ _ := none
  linkFromStr raw :=
    if raw = signerJson then .ok ⟨.signer, ['0', 'x', '1'], some []⟩
    else if raw = entityJson then .ok ⟨.ecdsaSignedEntity, payload, some ['0', 'x', '2']⟩
    else .error "expected value at line 1 column 1".toList
  fromStr raw :=
    if raw = [JsonText.openBrace, JsonText.closeBrace] then some (.object []) else none

def chain : FetchChain :=
  ⟨[⟨.signer, ['0', 'x', '1'], []⟩, ⟨.ecdsaSignedEntity, payload, ['0', 'x', '2']⟩], ['0', 'x', '1']⟩

def digits : Text := ['1', '7', '0', '0', '0', '0', '0', '0', '0', '0', '0', '0', '0']

/-- A `GET` for the route with this metadata. -/
def request (route metadata : Text) (h : Ascii route) : Request where
  headers
    | .authChain 0 => some (utf8 signerJson)
    | .authChain 1 => some (utf8 entityJson)
    | .timestamp => some (utf8 digits)
    | .metadata => some (utf8 metadata)
    | _ => none
  method := ['G', 'E', 'T']
  route := route
  token := by simp [isTokenChar]
  uri := .inl h

def braces : Text := [JsonText.openBrace, JsonText.closeBrace]

/-- What the wallet was asked to sign. -/
def signed : Request := request ('/' :: 'a' :: ':' :: digits) braces (by simp [Ascii, digits])

/-- The same with another letter case. -/
def recased : Request := request ('/' :: 'A' :: ':' :: digits) braces (by simp [Ascii, digits])

/-- The timestamp in the path is moved to the metadata. -/
def other : Request := request ['/', 'a'] (digits ++ ':' :: braces) (by simp [Ascii])

def call : Call := ⟨300, 1700000000, none⟩

theorem lowers : Lowers env.toLowercase where
  ascii _ _ := rfl
  apart s c t hc := by
    have hcolon : Char.toLower ':' = ':' := by decide
    change List.map Char.toLower (s ++ ':' :: c :: t) = _
    rw [List.map_append, List.map_cons, hcolon]
    rfl
  colon s hs := by
    obtain ⟨c, hc, heq⟩ := List.mem_map.mp hs
    have hchar : c = ':' := by
      unfold Char.toLower at heq
      split at heq
      · rename_i hupper
        have hval := congrArg Char.val heq
        have hge : 65 ≤ c.val.toNat := UInt32.le_iff_toNat_le.mp hupper.1
        have hle : c.val.toNat ≤ 90 := UInt32.le_iff_toNat_le.mp hupper.2
        have hnat : (c.val.toNat + 32) % 2 ^ 32 = 58 := congrArg UInt32.toNat hval
        omega
      · exact heq
    exact hchar ▸ hc

theorem accepted {r : Request} (hchain : extractAuthChain env r.headers = .ok chain)
    (h : (verifySignedFetchMeta env r.headers r.method r.route 300 1700000000 none).isOk = true) :
    AcceptedOld env chain r call := by
  refine ⟨hchain, ?_⟩
  cases hv : verifySignedFetchMeta env r.headers r.method r.route 300 1700000000 none with
  | error e => simp [hv, Except.isOk, Except.toBool] at h
  | ok seen => exact ⟨seen, hv⟩

theorem signed_accepted : AcceptedOld env chain signed call :=
  accepted (by decide) (by decide)

theorem recased_accepted : AcceptedOld env chain recased call :=
  accepted (by decide) (by decide)

theorem other_accepted : AcceptedOld env chain other call :=
  accepted (by decide) (by decide)

end Sample

theorem signed_fetch_binding_recased :
    AcceptedOld Sample.env Sample.chain Sample.recased Sample.call ∧
      Agree Sample.env Sample.signed Sample.recased :=
  ⟨Sample.recased_accepted,
    ((signed_fetch_binding Sample.env Sample.lowers Sample.chain Sample.signed Sample.call
      Sample.signed_accepted).1 Sample.recased Sample.call Sample.recased_accepted).mpr
        (by decide)⟩

/-- One chain gets two paths and two metadata accepted. -/
theorem signed_path_moved :
    AcceptedOld Sample.env Sample.chain Sample.signed Sample.call ∧
      AcceptedOld Sample.env Sample.chain Sample.other Sample.call ∧
      ¬ Agree Sample.env Sample.signed Sample.other :=
  ⟨Sample.signed_accepted, Sample.other_accepted, fun h => absurd h.1 (by decide)⟩

/-! ### The newer payload -/

/-- `serde_json` reads the texts of the grammar only. -/
def ReadsJson (fromStr : Text → Option Json) : Prop :=
  ∀ s v, fromStr s = some v → JsonText.Document v.kind s

section New

variable {env : FetchEnv} (colon : ∀ s, ':' ∈ env.toLowercase s → ':' ∈ s)
  (reads : ReadsJson env.fromStr)

include reads in
/-- The later split would start inside a string of the earlier one's metadata. -/
theorem not_within {metadata metadata' ts' : Text} {v v' : Json}
    (hv : parseMetadata env metadata = .ok v) (hv' : parseMetadata env metadata' = .ok v')
    (hts : parseI64 ts' ≠ none) : ¬ Segments.Within ':' metadata ts' metadata' := by
  obtain ⟨j, hj⟩ := parseMetadata_ok hv
  obtain ⟨j', hj'⟩ := parseMetadata_ok hv'
  obtain ⟨hne, hliteral⟩ := parseI64_literal hts
  rintro (rfl | ⟨y, rfl⟩)
  · exact JsonText.not_passes_literal hne hliteral (reads _ _ hj).passes
  · exact JsonText.no_second_document hne hliteral (reads _ _ hj) (reads _ _ hj')

include colon reads in
theorem buildPayloadV6_inj {method method' path path' ts ts' metadata metadata' : Text} {v v' : Json}
    (hm : ':' ∉ method) (hm' : ':' ∉ method') (hts : parseI64 ts ≠ none) (hts' : parseI64 ts' ≠ none)
    (hv : parseMetadata env metadata = .ok v) (hv' : parseMetadata env metadata' = .ok v')
    (h : buildPayloadV6 env method path ts metadata = buildPayloadV6 env method' path' ts' metadata') :
    env.toLowercase method = env.toLowercase method' ∧
      env.toLowercase path = env.toLowercase path' ∧ ts = ts' ∧ metadata = metadata' := by
  obtain ⟨hmethod, hsplit⟩ := Segments.append_cons_inj (fun hc => hm (colon _ hc))
    (fun hc => hm' (colon _ hc)) h
  rcases Segments.split_cases (literal_no_colon (parseI64_literal hts).2)
    (literal_no_colon (parseI64_literal hts').2) hsplit with heq | ⟨-, hwithin⟩ | ⟨-, hwithin⟩
  · exact ⟨hmethod, heq⟩
  · exact absurd hwithin (not_within reads hv hv' hts')
  · exact absurd hwithin (not_within reads hv' hv hts)

end New

/-- The newer payload can be cut in one way only, so that the chain fixes all of the request. -/
theorem v6_payload_unambiguous (env : FetchEnv) (colon : ∀ s, ':' ∈ env.toLowercase s → ':' ∈ s)
    (reads : ReadsJson env.fromStr) :
    (∀ chain gate gate' a b callA callB, AcceptedNew env chain gate a callA →
      AcceptedNew env chain gate' b callB →
      env.toLowercase a.method = env.toLowercase b.method ∧
        env.toLowercase a.path = env.toLowercase b.path ∧ a.timestamp = b.timestamp ∧
        a.metadata = b.metadata) ∧
    ∀ method method' path path' ts ts' metadata metadata', ':' ∉ method → ':' ∉ method' →
      parseI64 ts ≠ none → parseI64 ts' ≠ none →
      (∃ v, parseMetadata env metadata = .ok v) → (∃ v, parseMetadata env metadata' = .ok v) →
      buildPayloadV6 env method path ts metadata = buildPayloadV6 env method' path' ts' metadata' →
      env.toLowercase method = env.toLowercase method' ∧
        env.toLowercase path = env.toLowercase path' ∧ ts = ts' ∧ metadata = metadata' := by
  constructor
  · intro chain gate gate' a b callA callB ha hb
    obtain ⟨t, hta, hparse, ⟨v, hv⟩, hverify⟩ := ha.verified
    obtain ⟨t', htb, hparse', ⟨v', hv'⟩, hverify'⟩ := hb.verified
    obtain ⟨hmethod, hpath, rfl, hmeta⟩ := buildPayloadV6_inj colon reads a.method_no_colon
      b.method_no_colon hparse hparse' hv hv' (expected_unique hverify hverify')
    exact ⟨hmethod, hpath, hta.trans htb.symm, hmeta⟩
  · intro method method' path path' ts ts' metadata metadata' hm hm' hts hts' hv hv' h
    obtain ⟨v, hv⟩ := hv
    obtain ⟨v', hv'⟩ := hv'
    exact buildPayloadV6_inj colon reads hm hm' hts hts' hv hv' h

theorem Sample.reads : ReadsJson Sample.env.fromStr := by
  intro s v h
  obtain ⟨rfl, rfl⟩ : s = [JsonText.openBrace, JsonText.closeBrace] ∧ v = .object [] := by
    simp only [Sample.env] at h
    split at h
    · exact ⟨‹_›, (Option.some.inj h).symm⟩
    · cases h
  have hnil : JsonText.Spaces [] := by simp [JsonText.Spaces]
  exact ⟨[], [JsonText.openBrace, JsonText.closeBrace], [], hnil, .emptyObject hnil, hnil, rfl⟩

theorem Sample.accepted_new {r : Request} (hchain : extractAuthChain Sample.env r.headers = .ok Sample.chain)
    (h : (verifySignedFetchMetaWithLegacyFallback Sample.env r.headers r.method r.route 300 1700000000
      none [] none).isOk = true) : AcceptedNew Sample.env Sample.chain none r Sample.call := by
  refine ⟨hchain, ?_⟩
  cases hv : verifySignedFetchMetaWithLegacyFallback Sample.env r.headers r.method r.route 300
      1700000000 none [] none with
  | error e => simp [hv, Except.isOk, Except.toBool] at h
  | ok seen => exact ⟨seen, hv⟩

theorem v6_payload_unambiguous_recased :
    AcceptedNew Sample.env Sample.chain none Sample.signed Sample.call ∧
      AcceptedNew Sample.env Sample.chain none Sample.recased Sample.call ∧
      Sample.env.toLowercase Sample.signed.path = Sample.env.toLowercase Sample.recased.path := by
  have hsigned : AcceptedNew Sample.env Sample.chain none Sample.signed Sample.call :=
    Sample.accepted_new (by decide) (by decide)
  have hrecased : AcceptedNew Sample.env Sample.chain none Sample.recased Sample.call :=
    Sample.accepted_new (by decide) (by decide)
  exact ⟨hsigned, hrecased, ((v6_payload_unambiguous Sample.env Sample.lowers.colon Sample.reads).1
    _ _ _ _ _ _ _ hsigned hrecased).2.1⟩

end Catalyrst.Crypto
