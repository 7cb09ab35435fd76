import Mathlib
import Catalyrst.Lib.JsonValue
import Catalyrst.Lib.Texts
import Catalyrst.Validator.Merkle

/-!
# Third-party items

The metadata of a third-party item carries a Merkle proof. Its entity hash is the digest of the
metadata's fields under the hashing keys, which the uploader chooses and which have to include
the required ones. A key that the metadata does not have is skipped. Lower-casing, Keccak-256
and the texts of parse errors come from libraries and are parameters.
-/

namespace Catalyrst.Validator

open Catalyrst.Crypto Catalyrst.Lib Catalyrst.Lib.JsonText Catalyrst.Lib.Texts

structure MerkleProof where
  proof : List Text
  index : ℕ
  entityHash : Text
  hashingKeys : List Text

structure ThirdPartyProps where
  merkleProof : MerkleProof
  content : List (Text × Text)
  id : Text

structure ContentMapping where
  file : Text
  hash : Text

structure Entity where
  pointers : List Text
  content : List ContentMapping
  metadata : Option JsonValue

inductive ValidationResponse where
  | ok
  | fail (error : Text)
  deriving DecidableEq

structure ThirdPartyEnv where
  toLowercase : Text → Text
  keccak256 : Crypto.Bytes → Hash32
  /-- What the parser says of metadata without the expected fields. -/
  parseError : JsonValue → Text

def idKey : Text := "id".toList
def contentKey : Text := "content".toList
def merkleProofKey : Text := "merkleProof".toList

def wearableRequiredHashingKeys : List Text := [idKey, contentKey, "data".toList]
def emoteRequiredHashingKeys : List Text := [idKey, contentKey, "emoteDataADR74".toList]

/-! ### Parsing -/

def strings : JsonValue → Option (List Text)
  | .array items => items.mapM JsonValue.asStr
  | _ => none

def stringMap : JsonValue → Option (List (Text × Text))
  | .object fields => fields.mapM fun f => f.2.asStr.map fun s => (f.1, s)
  | _ => none

def MerkleProof.ofParts (proof index entityHash hashingKeys : JsonValue) : Option MerkleProof := do
  return ⟨← strings proof, ← index.asU64, ← entityHash.asStr, ← strings hashingKeys⟩

/-- A structure is read from the fields of an object or from an array in their order. -/
def MerkleProof.fromValue : JsonValue → Option MerkleProof
  | .object fields => do
    ofParts (← fields.lookup "proof".toList) (← fields.lookup "index".toList)
      (← fields.lookup "entityHash".toList) (← fields.lookup "hashingKeys".toList)
  | .array [proof, index, entityHash, hashingKeys] => ofParts proof index entityHash hashingKeys
  | _ => none

/-- The content, which is empty by default. -/
def contentOf (metadata : JsonValue) : Option (List (Text × Text)) :=
  match metadata.get contentKey with
  | some content => stringMap content
  | none => some []

/-- Only objects have a Merkle proof, so the metadata is never read from an array. -/
def ThirdPartyProps.fromValue (metadata : JsonValue) : Option ThirdPartyProps := do
  let merkleProof ← (metadata.get merkleProofKey).bind MerkleProof.fromValue
  let content ← contentOf metadata
  let id ← (metadata.get idKey).bind JsonValue.asStr
  return ⟨merkleProof, content, id⟩

/-! ### The committed hash -/

/-- The fields under the keys that are there, without the opening brace. -/
def hashedFields (metadata : JsonValue) (first : Bool) : List Text → Text
  | [] => [closeBrace]
  | k :: keys =>
    match metadata.get k with
    | some v =>
      (if first then [] else [',']) ++ JsonWriter.string k ++ ':' :: v.render ++
        hashedFields metadata false keys
    | none => hashedFields metadata first keys

def hashedText (metadata : JsonValue) (keys : List Text) : Text :=
  openBrace :: hashedFields metadata true keys

/-- `hex::encode`. -/
def hexEncode (bytes : Crypto.Bytes) : Text :=
  bytes.flatMap fun b => [Nat.digitChar (b.toNat / 16), Nat.digitChar (b.toNat % 16)]

section Validation

variable (env : ThirdPartyEnv)

def keccak256Hash (metadata : JsonValue) (keys : List Text) : Text :=
  hexEncode (env.keccak256 (utf8 (hashedText metadata keys))).val

def ThirdPartyProps.allContentInFiles (props : ThirdPartyProps) (content : List ContentMapping) :
    Bool :=
  props.content.all fun (file, hash) => content.any fun c => c.file = file && c.hash = hash

def ThirdPartyProps.allFilesInContent (props : ThirdPartyProps) (content : List ContentMapping) :
    Bool :=
  content.all fun c => props.content.lookup c.file = some c.hash

def validateThirdPartyMerkleProofContent (entity : Entity) (requiredHashingKeys : List Text)
    (itemLabel : Text) : ValidationResponse :=
  match entity.metadata with
  | none => .ok
  | some metadata =>
    if (metadata.get merkleProofKey).isNone then .ok
    else
      match ThirdPartyProps.fromValue metadata with
      | none => .fail ("Failed to parse third-party metadata: ".toList ++ env.parseError metadata)
      | some props =>
        if entity.pointers.head?.map env.toLowercase ≠ some (env.toLowercase props.id) then
          .fail ("The id '".toList ++ props.id ++ "' does not match the pointer '".toList ++
            entity.pointers.head?.getD [] ++ ['\''])
        else
          match requiredHashingKeys.find? fun key => !props.merkleProof.hashingKeys.contains key with
          | some missingKey =>
            .fail ("The third-party ".toList ++ itemLabel ++ " merkle proof must commit the '".toList ++
              missingKey ++ "' field".toList)
          | none =>
            if !props.allContentInFiles entity.content || !props.allFilesInContent entity.content then
              .fail ("The content declared in the metadata does not match the files uploaded ".toList ++
                "with the entity".toList)
            else if props.merkleProof.entityHash = [] then
              .fail "The entity hash in the merkle proof is empty".toList
            else if !eqIgnoreAsciiCase (trimStart0x props.merkleProof.entityHash)
                (keccak256Hash env metadata props.merkleProof.hashingKeys) then
              .fail ("The hash provided in the merkleProof doesn't match the one generated by ".toList ++
                "the validator".toList)
            else if props.merkleProof.proof = [] then .fail "The merkle proof is empty".toList
            else if props.merkleProof.hashingKeys = [] then
              .fail "The hashing keys in the merkle proof are empty".toList
            else .ok

/-- The deployment is accepted with this metadata, which carries a Merkle proof. -/
structure Accepted (entity : Entity) (requiredHashingKeys : List Text) (itemLabel : Text)
    (metadata : JsonValue) (props : ThirdPartyProps) : Prop where
  metadata_eq : entity.metadata = some metadata
  parsed : ThirdPartyProps.fromValue metadata = some props
  ok : validateThirdPartyMerkleProofContent env entity requiredHashingKeys itemLabel = .ok

/-- The fields that are hashed. -/
def projection (metadata : JsonValue) (keys : List Text) : List (Text × JsonValue) :=
  keys.filterMap fun k => (metadata.get k).map fun v => (k, v)

/-- The digest that the text of an entity hash stands for. -/
def denotes (entityHash : Text) : Text := (trimStart0x entityHash).map Char.toLower

/-- The item's leaf fixes the required fields of the item. -/
structure Commits (entity : Entity) (metadata : JsonValue) (props : ThirdPartyProps)
    (requiredHashingKeys : List Text) : Prop where
  present : ∀ key ∈ requiredHashingKeys, ∃ value, metadata.get key = some value ∧
    (key, value) ∈ projection metadata props.merkleProof.hashingKeys
  digest : denotes props.merkleProof.entityHash = hexEncode (env.keccak256 (utf8
    (JsonValue.object (projection metadata props.merkleProof.hashingKeys)).render)).val
  content : ∀ file hash, props.content.lookup file = some hash ↔
    ⟨file, hash⟩ ∈ entity.content
  /-- For every other item with the same digest, whatever was required of it. -/
  others : ∀ entity' requiredHashingKeys' itemLabel' metadata' props',
    Accepted env entity' requiredHashingKeys' itemLabel' metadata' props' →
    denotes props'.merkleProof.entityHash = denotes props.merkleProof.entityHash →
    CollisionFree env.keccak256
      [utf8 (hashedText metadata props.merkleProof.hashingKeys),
        utf8 (hashedText metadata' props'.merkleProof.hashingKeys)] →
    (∀ key value, (key, value) ∈ projection metadata props.merkleProof.hashingKeys →
      metadata'.get key = some value) ∧
    (∀ key value, (key, value) ∈ projection metadata' props'.merkleProof.hashingKeys →
      metadata.get key = some value) ∧
    ∀ key ∈ requiredHashingKeys, ∃ value, metadata.get key = some value ∧
      (key, value) ∈ projection metadata' props'.merkleProof.hashingKeys

variable {env} {entity entity' : Entity} {keys keys' : List Text} {label label' : Text}
  {metadata metadata' : JsonValue} {props props' : ThirdPartyProps} {key : Text} {value : JsonValue}

theorem mem_projection : (key, value) ∈ projection metadata keys ↔
    key ∈ keys ∧ metadata.get key = some value := by
  rw [projection, List.mem_filterMap]
  constructor
  · rintro ⟨k, hk, hmap⟩
    obtain ⟨v, hv, heq⟩ := Option.map_eq_some_iff.mp hmap
    obtain ⟨rfl, rfl⟩ := Prod.mk.inj heq
    exact ⟨hk, hv⟩
  · rintro ⟨hk, hv⟩
    exact ⟨key, hk, by rw [hv, Option.map_some]⟩

theorem projection_cons_some (h : metadata.get key = some value) (keys : List Text) :
    projection metadata (key :: keys) = (key, value) :: projection metadata keys :=
  List.filterMap_cons_some (by rw [h, Option.map_some])

theorem projection_cons_none (h : metadata.get key = none) (keys : List Text) :
    projection metadata (key :: keys) = projection metadata keys :=
  List.filterMap_cons_none (by rw [h, Option.map_none])

theorem hashedFields_false (metadata : JsonValue) (keys : List Text) :
    hashedFields metadata false keys = JsonValue.renderFields (projection metadata keys) := by
  induction keys with
  | nil => rfl
  | cons k keys ih =>
    rw [hashedFields]
    cases hget : metadata.get k with
    | none => rw [projection_cons_none hget, ih]
    | some v =>
      rw [projection_cons_some hget, ih, JsonValue.renderFields, JsonValue.renderField]
      simp

/-- What is hashed is an object put out. -/
theorem hashedText_eq (metadata : JsonValue) (keys : List Text) :
    hashedText metadata keys = (JsonValue.object (projection metadata keys)).render := by
  rw [hashedText]
  induction keys with
  | nil =>
    rw [projection, List.filterMap_nil, JsonValue.render]
    rfl
  | cons k keys ih =>
    rw [hashedFields]
    cases hget : metadata.get k with
    | none =>
      rw [projection_cons_none hget]
      exact ih
    | some v =>
      rw [projection_cons_some hget, hashedFields_false, JsonValue.render, JsonValue.renderField]
      simp

theorem hexEncode_toLower (bytes : Crypto.Bytes) :
    (hexEncode bytes).map Char.toLower = hexEncode bytes := by
  have hdigit : ∀ n < 16, (Nat.digitChar n).toLower = Nat.digitChar n := by decide
  induction bytes with
  | nil => rfl
  | cons b bytes ih =>
    have hlt := b.toNat_lt
    rw [hexEncode] at ih ⊢
    rw [List.flatMap_cons, List.map_append, ih, List.map_cons, List.map_cons, List.map_nil,
      hdigit _ (by omega), hdigit _ (by omega)]

theorem hexEncode_inj {a b : Crypto.Bytes} (h : hexEncode a = hexEncode b) : a = b := by
  induction a generalizing b with
  | nil =>
    cases b with
    | nil => rfl
    | cons d b => cases h
  | cons c a ih =>
    cases b with
    | nil => cases h
    | cons d b =>
      rw [hexEncode, hexEncode, List.flatMap_cons, List.flatMap_cons] at h
      obtain ⟨hhigh, htail⟩ := List.cons.inj h
      obtain ⟨hlow, hrest⟩ := List.cons.inj htail
      have hc := c.toNat_lt
      have hd := d.toNat_lt
      have hdiv := JsonWriter.digitChar_inj (by omega) (by omega) hhigh
      have hmod := JsonWriter.digitChar_inj (by omega) (by omega) hlow
      have hbyte : c = d := UInt8.toNat_inj.mp (by omega)
      rw [hbyte, ih hrest]

/-- What an accepted deployment has been checked for. -/
structure Checked (env : ThirdPartyEnv) (entity : Entity) (required : List Text)
    (metadata : JsonValue) (props : ThirdPartyProps) : Prop where
  keys : ∀ key ∈ required, key ∈ props.merkleProof.hashingKeys
  contentInFiles : props.allContentInFiles entity.content = true
  filesInContent : props.allFilesInContent entity.content = true
  hash : eqIgnoreAsciiCase (trimStart0x props.merkleProof.entityHash)
    (keccak256Hash env metadata props.merkleProof.hashingKeys) = true

theorem fromValue_get (h : ThirdPartyProps.fromValue metadata = some props) :
    (metadata.get merkleProofKey).isSome ∧ (metadata.get idKey).isSome := by
  obtain ⟨proof, hproof, h⟩ := Option.bind_eq_some_iff.mp h
  obtain ⟨content, -, h⟩ := Option.bind_eq_some_iff.mp h
  obtain ⟨id, hid, -⟩ := Option.bind_eq_some_iff.mp h
  obtain ⟨v, hv, -⟩ := Option.bind_eq_some_iff.mp hproof
  obtain ⟨w, hw, -⟩ := Option.bind_eq_some_iff.mp hid
  exact ⟨Option.isSome_of_eq_some hv, Option.isSome_of_eq_some hw⟩

theorem Accepted.checked (h : Accepted env entity keys label metadata props) :
    Checked env entity keys metadata props := by
  have hproof : (metadata.get merkleProofKey).isNone = false := by
    have hsome := (fromValue_get h.parsed).1
    cases hget : metadata.get merkleProofKey with
    | none => rw [hget] at hsome; cases hsome
    | some v => rfl
  have hok := h.ok
  unfold validateThirdPartyMerkleProofContent at hok
  simp only [h.metadata_eq, hproof, h.parsed, Bool.false_eq_true, if_false] at hok
  split at hok
  · cases hok
  · split at hok
    · cases hok
    · rename_i hkeys
      split_ifs at hok with hcontent hempty hhash
      simp only [Bool.or_eq_true, Bool.not_eq_true', not_or, Bool.not_eq_false] at hcontent hhash
      refine ⟨?_, hcontent.1, hcontent.2, hhash⟩
      intro key hkey
      simpa using List.find?_eq_none.mp hkeys key hkey

theorem Checked.denotes_eq (h : Checked env entity keys metadata props) :
    denotes props.merkleProof.entityHash = hexEncode (env.keccak256 (utf8
      (hashedText metadata props.merkleProof.hashingKeys))).val := by
  have hhash := of_decide_eq_true h.hash
  rw [keccak256Hash, hexEncode_toLower] at hhash
  exact hhash

theorem Checked.lookup_iff (h : Checked env entity keys metadata props) (file hash : Text) :
    props.content.lookup file = some hash ↔ ⟨file, hash⟩ ∈ entity.content := by
  constructor
  · intro hlookup
    obtain ⟨before, after, heq, -⟩ := List.lookup_eq_some_iff.mp hlookup
    have hmem : (file, hash) ∈ props.content := by
      rw [heq]
      exact List.mem_append_right _ List.mem_cons_self
    obtain ⟨c, hc, hmatch⟩ := List.any_eq_true.mp (List.all_eq_true.mp h.contentInFiles _ hmem)
    simp only [Bool.and_eq_true, decide_eq_true_eq] at hmatch
    obtain ⟨rfl, rfl⟩ := hmatch
    exact hc
  · intro hmem
    exact of_decide_eq_true (List.all_eq_true.mp h.filesInContent _ hmem)

/-- One digest is of one list of fields. -/
theorem Checked.projection_eq (h : Checked env entity keys metadata props)
    (h' : Checked env entity' keys' metadata' props')
    (same : denotes props'.merkleProof.entityHash = denotes props.merkleProof.entityHash)
    (free : CollisionFree env.keccak256
      [utf8 (hashedText metadata props.merkleProof.hashingKeys),
        utf8 (hashedText metadata' props'.merkleProof.hashingKeys)]) :
    projection metadata props.merkleProof.hashingKeys =
      projection metadata' props'.merkleProof.hashingKeys := by
  rw [h.denotes_eq, h'.denotes_eq] at same
  have hbytes := free _ (List.mem_cons_of_mem _ (List.mem_singleton_self _)) _ List.mem_cons_self
    (Subtype.ext (hexEncode_inj same))
  have htext := (utf8_inj hbytes).symm
  rw [hashedText_eq, hashedText_eq] at htext
  exact JsonValue.object.inj (JsonValue.render_injective htext)

/-- An accepted item's leaf fixes the required fields exactly if the metadata has them all,
the id apart, which it always has. -/
theorem leaf_commits_required_fields (env : ThirdPartyEnv) (entity : Entity) (keys : List Text)
    (label : Text) (metadata : JsonValue) (props : ThirdPartyProps)
    (h : Accepted env entity keys label metadata props) :
    Commits env entity metadata props keys ↔
      ∀ key ∈ keys, key ≠ idKey → (metadata.get key).isSome := by
  have hchecked := h.checked
  constructor
  · intro hcommits key hkey _
    obtain ⟨value, hvalue, -⟩ := hcommits.present key hkey
    exact Option.isSome_of_eq_some hvalue
  · intro hpresent
    have hall : ∀ key ∈ keys, ∃ value, metadata.get key = some value ∧
        (key, value) ∈ projection metadata props.merkleProof.hashingKeys := by
      intro key hkey
      have hsome : (metadata.get key).isSome := by
        by_cases hid : key = idKey
        · rw [hid]
          exact (fromValue_get h.parsed).2
        · exact hpresent key hkey hid
      obtain ⟨value, hvalue⟩ := Option.isSome_iff_exists.mp hsome
      exact ⟨value, hvalue, mem_projection.mpr ⟨hchecked.keys key hkey, hvalue⟩⟩
    refine ⟨hall, ?_, hchecked.lookup_iff, ?_⟩
    · rw [hchecked.denotes_eq, hashedText_eq]
    · intro entity' keys' label' metadata' props' h' same free
      have hsame := hchecked.projection_eq h'.checked same free
      refine ⟨?_, ?_, ?_⟩
      · intro key value hmem
        rw [hsame] at hmem
        exact (mem_projection.mp hmem).2
      · intro key value hmem
        rw [← hsame] at hmem
        exact (mem_projection.mp hmem).2
      · intro key hkey
        obtain ⟨value, hvalue, hmem⟩ := hall key hkey
        rw [hsame] at hmem
        exact ⟨value, hvalue, hmem⟩

end Validation

/-! ### A wearable's leaf -/

namespace Reused

def pointer : Text := "urn:decentraland:matic:collections-thirdparty:tp-name:collection:item".toList

def digest : Hash32 :=
  ⟨[243, 138, 18, 207, 69, 251, 2, 206, 147, 96, 248, 106, 189, 234, 190, 74, 31, 159, 135, 249,
    144, 250, 43, 127, 48, 151, 160, 23, 227, 247, 162, 234], rfl⟩

/-- The fields that are hashed for the item as a wearable. -/
def fields : List (Text × JsonValue) :=
  [(idKey, .string pointer), (contentKey, .object []), ("data".toList, .object [])]

def env : ThirdPartyEnv where
  toLowercase := List.map Char.toLower
  keccak256 input :=
    if input = utf8 (JsonValue.object fields).render then digest
    else ⟨List.replicate 32 0, List.length_replicate⟩
  parseError _ := []

def metadata (hashingKeys : List Text) : JsonValue :=
  .object (fields ++ [(merkleProofKey, .object
    [("proof".toList, .array [.string (List.replicate 64 '0')]),
      ("index".toList, .number (.int 0 (by decide))),
      ("entityHash".toList, .string (hexEncode digest.val)),
      ("hashingKeys".toList, .array (hashingKeys.map .string))])])

def entity (hashingKeys : List Text) : Entity := ⟨[pointer], [], some (metadata hashingKeys)⟩

def props (hashingKeys : List Text) : ThirdPartyProps :=
  ⟨⟨[List.replicate 64 '0'], 0, hexEncode digest.val, hashingKeys⟩, [], pointer⟩

/-- The keys of a wearable and of an emote. -/
def bothKeys : List Text := wearableRequiredHashingKeys ++ ["emoteDataADR74".toList]

theorem accepted_wearable : Accepted env (entity wearableRequiredHashingKeys)
    wearableRequiredHashingKeys "wearable".toList (metadata wearableRequiredHashingKeys)
    (props wearableRequiredHashingKeys) where
  metadata_eq := rfl
  parsed := rfl
  ok := by decide

theorem accepted_emote : Accepted env (entity bothKeys) emoteRequiredHashingKeys "emote".toList
    (metadata bothKeys) (props bothKeys) where
  metadata_eq := rfl
  parsed := rfl
  ok := by decide

end Reused

theorem leaf_commits_required_fields_wearable :
    Commits Reused.env (Reused.entity wearableRequiredHashingKeys)
      (Reused.metadata wearableRequiredHashingKeys) (Reused.props wearableRequiredHashingKeys)
      wearableRequiredHashingKeys ↔
    ∀ key ∈ wearableRequiredHashingKeys, key ≠ idKey →
      ((Reused.metadata wearableRequiredHashingKeys).get key).isSome :=
  leaf_commits_required_fields _ _ _ _ _ _ Reused.accepted_wearable

/-- The leaf of a wearable is accepted for an emote without any emote data. -/
theorem wearable_leaf_reused_as_emote :
    ¬ (Accepted Reused.env (Reused.entity Reused.bothKeys) emoteRequiredHashingKeys
        "emote".toList (Reused.metadata Reused.bothKeys) (Reused.props Reused.bothKeys) →
      Commits Reused.env (Reused.entity Reused.bothKeys) (Reused.metadata Reused.bothKeys)
        (Reused.props Reused.bothKeys) emoteRequiredHashingKeys) := by
  intro h
  obtain ⟨value, hvalue, -⟩ := (h Reused.accepted_emote).present "emoteDataADR74".toList
    (by decide)
  have hnone : (Reused.metadata Reused.bothKeys).get "emoteDataADR74".toList = none := rfl
  rw [hnone] at hvalue
  cases hvalue

end Catalyrst.Validator
