import Mathlib
import Catalyrst.Fed.Messages
import Catalyrst.Lib.Merkle

/-!
# Merkle proofs

A leaf is an index and a content hash, packed into at least 96 bytes if the content hash has 64
of them. A pair of nodes is packed into 64 bytes, the smaller node first. Keccak-256 is a
parameter.
-/

namespace Catalyrst.Validator

open Catalyrst.Crypto Catalyrst.Lib.Merkle Catalyrst.Fed

/-- `[u8; 32]`. -/
abbrev Hash32 := { bytes : Bytes // bytes.length = 32 }

def packedLeaf (index : UInt64) (contentHash : Text) : Bytes :=
  List.replicate 24 0 ++ toBeBytes index.toBitVec ++ utf8 contentHash

/-- The two nodes in their order as byte strings. -/
def packedPair (first second : Hash32) : Bytes :=
  if first.val ≤ second.val then first.val ++ second.val else second.val ++ first.val

section Keccak

variable (keccak256 : Bytes → Hash32)

def toNode (index : UInt64) (contentHash : Text) : Hash32 := keccak256 (packedLeaf index contentHash)

def combinedHash (first second : Hash32) : Hash32 := keccak256 (packedPair first second)

def generateRoot (index : UInt64) (contentHash : Text) (proof : List Hash32) : Hash32 :=
  proof.foldl (combinedHash keccak256) (toNode keccak256 index contentHash)

def verifyProof (index : UInt64) (contentHash : Text) (proof : List Hash32) (root : Hash32) : Bool :=
  generateRoot keccak256 index contentHash proof = root

/-! ### Trees -/

structure Leaf where
  index : UInt64
  contentHash : Text
  deriving DecidableEq

def scheme : Scheme Leaf Bytes Hash32 where
  hash := keccak256
  leaf a := packedLeaf a.index a.contentHash
  pair := packedPair

/-- A leaf whose content hash has at least 64 bytes. -/
def Leaf.Long (a : Leaf) : Prop := 64 ≤ (utf8 a.contentHash).length

/-- No two of the inputs have one digest. -/
def CollisionFree (inputs : List Bytes) : Prop :=
  ∀ x ∈ inputs, ∀ y ∈ inputs, keccak256 x = keccak256 y → x = y

instance (inputs : List Bytes) : Decidable (CollisionFree keccak256 inputs) :=
  inferInstanceAs (Decidable (∀ x ∈ inputs, ∀ y ∈ inputs, keccak256 x = keccak256 y → x = y))

example (a : Leaf) : (scheme keccak256).root (.leaf a) = toNode keccak256 a.index a.contentHash := rfl

example (l r : HashTree Leaf) : (scheme keccak256).root (.pair l r) =
    combinedHash keccak256 ((scheme keccak256).root l) ((scheme keccak256).root r) := rfl

variable {keccak256}

theorem packedLeaf_inj {index index' : UInt64} {hash hash' : Text}
    (h : packedLeaf index hash = packedLeaf index' hash') : index = index' ∧ hash = hash' := by
  have hlen : (List.replicate 24 (0 : UInt8) ++ toBeBytes index.toBitVec).length =
      (List.replicate 24 (0 : UInt8) ++ toBeBytes index'.toBitVec).length := by
    rw [List.length_append, List.length_append, toBeBytes_length, toBeBytes_length]
  obtain ⟨hhead, htext⟩ := List.append_inj h hlen
  have hindex := List.append_cancel_left hhead
  exact ⟨UInt64.toBitVec_inj.mp (toBeBytes_inj hindex), utf8_inj htext⟩

theorem packedLeaf_length (index : UInt64) (hash : Text) :
    (packedLeaf index hash).length = 32 + (utf8 hash).length := by
  rw [packedLeaf, List.length_append, List.length_append, List.length_replicate, toBeBytes_length]

theorem packedPair_of_le {first second : Hash32} (h : first.val ≤ second.val) :
    packedPair first second = first.val ++ second.val := if_pos h

theorem packedPair_comm (first second : Hash32) :
    packedPair first second = packedPair second first := by
  by_cases hle : first.val ≤ second.val
  · rw [packedPair_of_le hle]
    by_cases hge : second.val ≤ first.val
    · rw [Subtype.ext (List.le_antisymm hle hge), packedPair_of_le (List.le_refl _)]
    · rw [packedPair, if_neg hge]
  · have hge : second.val ≤ first.val := (List.le_total first.val second.val).resolve_left hle
    rw [packedPair, if_neg hle, packedPair_of_le hge]

/-- The pair as it is packed. -/
theorem packedPair_cases (first second : Hash32) :
    packedPair first second = first.val ++ second.val ∨
      packedPair first second = second.val ++ first.val := by
  by_cases hle : first.val ≤ second.val
  · exact .inl (if_pos hle)
  · exact .inr (if_neg hle)

theorem packedPair_length (first second : Hash32) : (packedPair first second).length = 64 := by
  rcases packedPair_cases first second with h | h
  · rw [h, List.length_append, first.property, second.property]
  · rw [h, List.length_append, first.property, second.property]

theorem append_inj {a b c d : Hash32} (h : a.val ++ b.val = c.val ++ d.val) : a = c ∧ b = d := by
  obtain ⟨hfirst, hsecond⟩ := List.append_inj h (a.property.trans c.property.symm)
  exact ⟨Subtype.ext hfirst, Subtype.ext hsecond⟩

theorem packedPair_inj {a b c d : Hash32} (h : packedPair a b = packedPair c d) :
    a = c ∧ b = d ∨ a = d ∧ b = c := by
  rcases packedPair_cases a b with hab | hab
  · rcases packedPair_cases c d with hcd | hcd
    · exact .inl (append_inj (hab.symm.trans (h.trans hcd)))
    · exact .inr (append_inj (hab.symm.trans (h.trans hcd)))
  · rcases packedPair_cases c d with hcd | hcd
    · exact .inr (append_inj (hab.symm.trans (h.trans hcd))).symm
    · exact .inl (append_inj (hab.symm.trans (h.trans hcd))).symm

theorem generateRoot_eq (keccak256 : Bytes → Hash32) (index : UInt64) (hash : Text)
    (proof : List Hash32) : generateRoot keccak256 index hash proof =
      (scheme keccak256).climb ((scheme keccak256).hash ((scheme keccak256).leaf ⟨index, hash⟩))
        proof := rfl

/-- Leaves and pairs are told apart by their lengths. -/
theorem scheme_separates (keccak256 : Bytes → Hash32) : (scheme keccak256).Separates Leaf.Long where
  leaf_inj a b _ _ h := by
    obtain ⟨hindex, hhash⟩ := packedLeaf_inj h
    cases a
    cases b
    exact congrArg₂ Leaf.mk hindex hhash
  leaf_ne_pair a first second ha h := by
    have hlen := congrArg List.length h
    have hlong : 64 ≤ (utf8 a.contentHash).length := ha
    simp only [scheme, packedLeaf_length, packedPair_length] at hlen
    omega
  pair_comm := packedPair_comm
  pair_inj _ _ _ _ := packedPair_inj

end Keccak

/-- A proof is accepted exactly if it is a path of the tree from the leaf, and no pair of the
tree passes for the leaf. -/
theorem merkle_membership (keccak256 : Bytes → Hash32) (t : HashTree Leaf) (index : UInt64)
    (hash : Text) (proof : List Hash32)
    (leaves : ∀ a, HashTree.leaf a ∈ t.subtrees → 64 ≤ (utf8 a.contentHash).length)
    (long : 64 ≤ (utf8 hash).length)
    (free : CollisionFree keccak256 ((scheme keccak256).inputs t ⟨index, hash⟩ proof)) :
    (verifyProof keccak256 index hash proof ((scheme keccak256).root t) = true ↔
      (scheme keccak256).Path t ⟨index, hash⟩ proof) ∧
    ∀ l r, HashTree.pair l r ∈ t.subtrees → toNode keccak256 index hash ≠
      combinedHash keccak256 ((scheme keccak256).root l) ((scheme keccak256).root r) := by
  have separates := scheme_separates keccak256
  have hleaf : Leaf.Long ⟨index, hash⟩ := long
  have hinj : Set.InjOn (scheme keccak256).hash
      {x | x ∈ (scheme keccak256).inputs t ⟨index, hash⟩ proof} := fun x hx y hy => free x hx y hy
  constructor
  · rw [← Scheme.climb_eq_root_iff separates hleaf leaves hinj, verifyProof, decide_eq_true_iff,
      generateRoot_eq]
  · intro l r hpair
    have hne := Scheme.leaf_ne_pair_root separates hleaf hinj hpair
    exact hne

namespace TwoLeaves

def first : Leaf := ⟨0, List.replicate 64 'a'⟩
def second : Leaf := ⟨1, List.replicate 64 'b'⟩

def firstNode : Hash32 :=
  ⟨[161, 121, 185, 110, 11, 182, 62, 21, 217, 28, 227, 211, 171, 7, 211, 58, 87, 30, 172, 88, 246,
    227, 50, 169, 62, 188, 75, 120, 105, 191, 73, 149], rfl⟩

def secondNode : Hash32 :=
  ⟨[47, 57, 103, 181, 238, 240, 124, 160, 70, 243, 124, 39, 137, 81, 162, 115, 25, 39, 229, 143,
    145, 29, 162, 39, 100, 59, 31, 166, 185, 201, 211, 189], rfl⟩

def rootNode : Hash32 :=
  ⟨[250, 103, 69, 17, 174, 224, 195, 72, 10, 83, 194, 226, 255, 227, 248, 173, 187, 34, 157, 30,
    134, 91, 43, 193, 246, 219, 114, 235, 169, 61, 163, 47], rfl⟩

/-- The digests of the tree's three nodes. -/
def keccak256 (input : Bytes) : Hash32 :=
  if input = packedLeaf first.index first.contentHash then firstNode
  else if input = packedLeaf second.index second.contentHash then secondNode
  else if input = packedPair firstNode secondNode then rootNode
  else ⟨List.replicate 32 0, rfl⟩

def tree : HashTree Leaf := .pair (.leaf first) (.leaf second)

end TwoLeaves

theorem merkle_membership_two_leaves :
    (verifyProof TwoLeaves.keccak256 1 (List.replicate 64 'b') [TwoLeaves.firstNode]
        ((scheme TwoLeaves.keccak256).root TwoLeaves.tree) = true ↔
      (scheme TwoLeaves.keccak256).Path TwoLeaves.tree ⟨1, List.replicate 64 'b'⟩
        [TwoLeaves.firstNode]) ∧
    ∀ l r, HashTree.pair l r ∈ TwoLeaves.tree.subtrees →
      toNode TwoLeaves.keccak256 1 (List.replicate 64 'b') ≠
        combinedHash TwoLeaves.keccak256 ((scheme TwoLeaves.keccak256).root l)
          ((scheme TwoLeaves.keccak256).root r) := by
  refine merkle_membership TwoLeaves.keccak256 TwoLeaves.tree 1 (List.replicate 64 'b')
    [TwoLeaves.firstNode] ?_ ?_ ?_
  · intro a ha
    simp only [TwoLeaves.tree, HashTree.subtrees, List.mem_cons, List.cons_append, List.nil_append,
      reduceCtorEq, HashTree.leaf.injEq, List.not_mem_nil, or_false, false_or] at ha
    rcases ha with rfl | rfl
    · decide
    · decide
  · decide
  · decide

end Catalyrst.Validator
