import Catalyrst.Lib.Instances

/-!
# UnixFS messages (`unixfs.rs`, `cid.rs`)

The protobuf messages that a file's DAG is made of. The lengths are announced before the
fields are written, by functions of their own; that they agree with what is written is said
by comparing with messages made of fields that announce their own length.
-/

namespace Catalyrst.Hashing

abbrev Bytes := List UInt8

/-- A `u64`; the byte is `value & 0x7F`, with the high bit while something follows. -/
def encodeVarint (value : ℕ) : Bytes :=
  if value / 128 = 0 then [UInt8.ofNat (value % 128)]
  else UInt8.ofNat (value % 128 + 128) :: encodeVarint (value / 128)
termination_by value

def varintSize (value : ℕ) : ℕ :=
  if 128 ≤ value then varintSize (value / 128) + 1 else 1
termination_by value

theorem length_encodeVarint (value : ℕ) : (encodeVarint value).length = varintSize value := by
  induction value using Nat.strongRecOn with
  | ind value ih =>
    rw [encodeVarint, varintSize]
    by_cases hlarge : 128 ≤ value
    · rw [if_neg (by omega), if_pos hlarge, List.length_cons, ih (value / 128) (by omega)]
    · rw [if_pos (by omega), if_neg hlarge]
      rfl

theorem varintSize_le (k : ℕ) {value : ℕ} (h : value < 128 ^ (k + 1)) :
    varintSize value ≤ k + 1 := by
  induction k generalizing value with
  | zero =>
    rw [varintSize, if_neg (by omega)]
  | succ k ih =>
    rw [varintSize]
    split
    · have hdiv : value / 128 < 128 ^ (k + 1) := by
        rw [Nat.div_lt_iff_lt_mul (by omega), ← pow_succ]
        exact h
      have := ih hdiv
      omega
    · omega

structure PBLink where
  hash : Bytes
  name : Bytes
  tsize : ℕ

def encodeFileNode (filesize : ℕ) (blocksizes : List ℕ) : Bytes :=
  [0x08] ++ encodeVarint 2 ++ ([0x18] ++ encodeVarint filesize) ++
    blocksizes.flatMap fun bs => [0x20] ++ encodeVarint bs

def encodePbLink (link : PBLink) : Bytes :=
  [0x0a] ++ encodeVarint link.hash.length ++ link.hash ++
    (if link.name ≠ [] then [0x12] ++ encodeVarint link.name.length ++ link.name
      else [0x12] ++ encodeVarint 0) ++
    ([0x18] ++ encodeVarint link.tsize)

def pbLinkSize (link : PBLink) : ℕ :=
  (1 + varintSize link.hash.length + link.hash.length) +
    (1 + varintSize link.name.length + link.name.length) + (1 + varintSize link.tsize)

/-- The capacity reserved for the message. -/
def pbNodeSize (data : Bytes) (links : List PBLink) : ℕ :=
  (links.map fun l => 1 + varintSize (pbLinkSize l) + pbLinkSize l).sum +
    (1 + varintSize data.length + data.length)

def encodePbNode (data : Bytes) (links : List PBLink) : Bytes :=
  (links.flatMap fun link => [0x12] ++ encodeVarint (pbLinkSize link) ++ encodePbLink link) ++
    ([0x0a] ++ encodeVarint data.length ++ data)

/-- A SHA-256 digest: `encode_cid_v1` asserts its length. -/
abbrev Digest := { digest : Bytes // digest.length = 32 }

def encodeCidV1 (codec : ℕ) (digest : Digest) : Bytes :=
  encodeVarint 1 ++ encodeVarint codec ++ [0x12, 0x20] ++ digest.val

/-! ### Fields that announce their own length -/

/-- A length-delimited field. -/
def field (tag : UInt8) (payload : Bytes) : Bytes := tag :: (encodeVarint payload.length ++ payload)

def number (tag : UInt8) (value : ℕ) : Bytes := tag :: encodeVarint value

/-- `Hash`, `Name` and `Tsize`. -/
def linkMessage (link : PBLink) : Bytes :=
  field 0x0a link.hash ++ field 0x12 link.name ++ number 0x18 link.tsize

/-- `Type` (a file), `filesize` and `blocksizes`. -/
def fileMessage (filesize : ℕ) (blocksizes : List ℕ) : Bytes :=
  number 0x08 2 ++ number 0x18 filesize ++ blocksizes.flatMap (number 0x20)

def nodeMessage (data : Bytes) (links : List PBLink) : Bytes :=
  (links.flatMap fun link => field 0x12 (linkMessage link)) ++ field 0x0a data

theorem encodeFileNode_eq (filesize : ℕ) (blocksizes : List ℕ) :
    encodeFileNode filesize blocksizes = fileMessage filesize blocksizes := rfl

theorem encodePbLink_eq (link : PBLink) : encodePbLink link = linkMessage link := by
  unfold encodePbLink linkMessage field number
  split
  · simp
  · rename_i hname
    rw [not_ne_iff] at hname
    simp [hname]

theorem length_encodePbLink (link : PBLink) : (encodePbLink link).length = pbLinkSize link := by
  rw [encodePbLink_eq]
  simp only [linkMessage, field, number, pbLinkSize, List.length_append, List.length_cons,
    length_encodeVarint]
  omega

/-- Every length that a message announces is that of what follows. -/
theorem encodePbNode_eq (data : Bytes) (links : List PBLink) :
    encodePbNode data links = nodeMessage data links := by
  unfold encodePbNode nodeMessage
  refine congrArg₂ _ (List.flatMap_congr fun link _ => ?_) rfl
  rw [← encodePbLink_eq, field, length_encodePbLink]
  rfl

theorem length_encodePbNode (data : Bytes) (links : List PBLink) :
    (encodePbNode data links).length = pbNodeSize data links := by
  unfold encodePbNode pbNodeSize
  rw [List.length_append, List.length_flatMap]
  congr 1
  · refine congrArg List.sum (List.map_congr_left fun link _ => ?_)
    simp only [List.length_append, List.length_singleton, length_encodeVarint, length_encodePbLink]
  · simp only [List.length_append, List.length_singleton, length_encodeVarint]

end Catalyrst.Hashing
