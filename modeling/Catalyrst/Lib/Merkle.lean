import Mathlib

/-!
# Hash trees with unordered pairs

One hash function takes the leaves and the pairs of a tree. A proof is the list of the
siblings met on the way from a leaf to the root, without saying on which side each of them
stands. If the inputs hashed do not collide and no leaf is packed like a pair, the proofs that
climb to the root are the ones read off the tree.
-/

namespace Catalyrst.Lib.Merkle

inductive HashTree (α : Type*) where
  | leaf (a : α)
  | pair (left right : HashTree α)

def HashTree.subtrees {α : Type*} : HashTree α → List (HashTree α)
  | .leaf a => [.leaf a]
  | .pair l r => .pair l r :: (l.subtrees ++ r.subtrees)

/-- How leaves and pairs of digests are packed for the hash function. -/
structure Scheme (α β δ : Type*) where
  hash : β → δ
  leaf : α → β
  pair : δ → δ → β

namespace Scheme

variable {α β δ : Type*} (s : Scheme α β δ)

def root : HashTree α → δ
  | .leaf a => s.hash (s.leaf a)
  | .pair l r => s.hash (s.pair (root l) (root r))

/-- What is hashed for the root of the tree. -/
def input : HashTree α → β
  | .leaf a => s.leaf a
  | .pair l r => s.pair (s.root l) (s.root r)

/-- The siblings met from the leaf to the root. -/
inductive Path : HashTree α → α → List δ → Prop
  | here (a : α) : Path (.leaf a) a []
  | left {l : HashTree α} {a : α} {proof : List δ} (r : HashTree α) (h : Path l a proof) :
      Path (.pair l r) a (proof ++ [s.root r])
  | right {r : HashTree α} {a : α} {proof : List δ} (l : HashTree α) (h : Path r a proof) :
      Path (.pair l r) a (proof ++ [s.root l])

def climb (node : δ) (proof : List δ) : δ :=
  proof.foldl (fun node sibling => s.hash (s.pair node sibling)) node

/-- What is hashed on the way up. -/
def climbInputs (node : δ) : List δ → List β
  | [] => []
  | sibling :: proof =>
    s.pair node sibling :: climbInputs (s.hash (s.pair node sibling)) proof

/-- What is hashed for the tree and for a proof. -/
def inputs (t : HashTree α) (a : α) (proof : List δ) : List β :=
  t.subtrees.map s.input ++ s.leaf a :: s.climbInputs (s.hash (s.leaf a)) proof

/-- The packing keeps leaves, of which some are allowed, apart from each other and from pairs. -/
structure Separates (Allowed : α → Prop) : Prop where
  leaf_inj : ∀ a b, Allowed a → Allowed b → s.leaf a = s.leaf b → a = b
  leaf_ne_pair : ∀ a x y, Allowed a → s.leaf a ≠ s.pair x y
  pair_comm : ∀ x y, s.pair x y = s.pair y x
  pair_inj : ∀ x y x' y', s.pair x y = s.pair x' y' → x = x' ∧ y = y' ∨ x = y' ∧ y = x'

variable {s} {Allowed : α → Prop} {t l r : HashTree α} {a : α} {proof : List δ} {x : β}

theorem climb_concat (node sibling : δ) (proof : List δ) :
    s.climb node (proof ++ [sibling]) = s.hash (s.pair (s.climb node proof) sibling) := by
  rw [climb, climb, List.foldl_append]
  rfl

theorem climbInputs_concat (node sibling : δ) (proof : List δ) :
    s.climbInputs node (proof ++ [sibling]) =
      s.climbInputs node proof ++ [s.pair (s.climb node proof) sibling] := by
  induction proof generalizing node with
  | nil => rfl
  | cons first rest ih =>
    rw [List.cons_append, climbInputs, ih, climbInputs, List.cons_append]
    rfl

theorem mem_inputs : x ∈ s.inputs t a proof ↔
    (∃ u ∈ t.subtrees, s.input u = x) ∨ x = s.leaf a ∨
      x ∈ s.climbInputs (s.hash (s.leaf a)) proof := by
  rw [inputs, List.mem_append, List.mem_map, List.mem_cons]

theorem self_mem_subtrees (t : HashTree α) : t ∈ t.subtrees := by
  cases t with
  | leaf a => exact List.mem_singleton_self _
  | pair l r => exact List.mem_cons_self

theorem left_subtrees (h : t ∈ l.subtrees) : t ∈ (HashTree.pair l r).subtrees :=
  List.mem_cons_of_mem _ (List.mem_append_left _ h)

theorem right_subtrees (h : t ∈ r.subtrees) : t ∈ (HashTree.pair l r).subtrees :=
  List.mem_cons_of_mem _ (List.mem_append_right _ h)

theorem input_mem (t : HashTree α) : s.input t ∈ s.inputs t a proof :=
  mem_inputs.mpr (.inl ⟨t, self_mem_subtrees t, rfl⟩)

theorem leaf_mem : s.leaf a ∈ s.inputs t a proof := mem_inputs.mpr (.inr (.inl rfl))

theorem last_mem {sibling : δ} :
    s.pair (s.climb (s.hash (s.leaf a)) proof) sibling ∈ s.inputs t a (proof ++ [sibling]) := by
  refine mem_inputs.mpr (.inr (.inr ?_))
  rw [climbInputs_concat]
  exact List.mem_append_right _ (List.mem_singleton_self _)

/-- A subtree and a shorter proof hash nothing new. -/
theorem inputs_subset {sibling : δ} (hsub : ∀ u ∈ l.subtrees, u ∈ t.subtrees)
    (h : x ∈ s.inputs l a proof) : x ∈ s.inputs t a (proof ++ [sibling]) := by
  rcases mem_inputs.mp h with ⟨u, hu, hx⟩ | hx | hx
  · exact mem_inputs.mpr (.inl ⟨u, hsub u hu, hx⟩)
  · exact mem_inputs.mpr (.inr (.inl hx))
  · refine mem_inputs.mpr (.inr (.inr ?_))
    rw [climbInputs_concat]
    exact List.mem_append_left _ hx

/-- The siblings of a path lead to the root. -/
theorem Path.climb_eq (separates : s.Separates Allowed) (h : s.Path t a proof) :
    s.climb (s.hash (s.leaf a)) proof = s.root t := by
  induction h with
  | here a => rfl
  | left r h ih => rw [climb_concat, ih, root]
  | right l h ih => rw [climb_concat, ih, separates.pair_comm, root]

/-- What leads to the root is a path. -/
theorem path_of_climb_eq (separates : s.Separates Allowed) (ha : Allowed a)
    (leaves : ∀ b, HashTree.leaf b ∈ t.subtrees → Allowed b)
    (free : Set.InjOn s.hash {x | x ∈ s.inputs t a proof})
    (h : s.climb (s.hash (s.leaf a)) proof = s.root t) : s.Path t a proof := by
  -- The last step of the proof is the root of the tree, so the induction takes siblings off the end.
  induction t generalizing proof with
  | leaf b =>
    rcases List.eq_nil_or_concat' proof with rfl | ⟨rest, sibling, rfl⟩
    · have hinput := free leaf_mem (input_mem (.leaf b)) h
      obtain rfl := separates.leaf_inj a b ha (leaves b (self_mem_subtrees _)) hinput
      exact .here a
    · rw [climb_concat] at h
      have hinput := free last_mem (input_mem (.leaf b)) h
      exact absurd hinput.symm (separates.leaf_ne_pair b _ _ (leaves b (self_mem_subtrees _)))
  | pair l r ihl ihr =>
    rcases List.eq_nil_or_concat' proof with rfl | ⟨rest, sibling, rfl⟩
    · have hinput := free leaf_mem (input_mem (.pair l r)) h
      exact absurd hinput (separates.leaf_ne_pair a _ _ ha)
    · rw [climb_concat] at h
      have hinput := free last_mem (input_mem (.pair l r)) h
      rcases separates.pair_inj _ _ _ _ hinput with ⟨hl, rfl⟩ | ⟨hr, rfl⟩
      · refine .left r (ihl (fun b hb => leaves b (left_subtrees hb)) ?_ hl)
        exact free.mono fun x hx => inputs_subset (fun u => left_subtrees) hx
      · refine .right l (ihr (fun b hb => leaves b (right_subtrees hb)) ?_ hr)
        exact free.mono fun x hx => inputs_subset (fun u => right_subtrees) hx

theorem climb_eq_root_iff (separates : s.Separates Allowed) (ha : Allowed a)
    (leaves : ∀ b, HashTree.leaf b ∈ t.subtrees → Allowed b)
    (free : Set.InjOn s.hash {x | x ∈ s.inputs t a proof}) :
    s.climb (s.hash (s.leaf a)) proof = s.root t ↔ s.Path t a proof :=
  ⟨path_of_climb_eq separates ha leaves free, Path.climb_eq separates⟩

/-- No pair of the tree has the digest of an allowed leaf. -/
theorem leaf_ne_pair_root (separates : s.Separates Allowed) (ha : Allowed a)
    (free : Set.InjOn s.hash {x | x ∈ s.inputs t a proof}) (h : HashTree.pair l r ∈ t.subtrees) :
    s.hash (s.leaf a) ≠ s.root (.pair l r) := by
  intro heq
  have hinput := free leaf_mem (mem_inputs.mpr (.inl ⟨_, h, rfl⟩)) heq
  exact separates.leaf_ne_pair a _ _ ha hinput

end Scheme

end Catalyrst.Lib.Merkle
