import Catalyrst.Lib.Chunks
import Catalyrst.Hashing.UnixFs

/-!
# Content hashes (`hash.rs`)

Content up to one chunk is a raw block; longer content is cut into leaves, and interior nodes
of at most 174 links are built over them level by level. The streaming writer buffers what it
is fed so that its leaves fall on the same boundaries. SHA-256 and the base-32 text of a CID
come from libraries and are parameters; `none` is a panic.
-/

namespace Catalyrst.Hashing
open Catalyrst.Lib

abbrev Text := List Char

structure HashEnv where
  sha256 : Bytes → Digest
  base32Nopad : Bytes → Text

def chunkSize : ℕ := 262144

def maxChildren : ℕ := 174

theorem chunkSize_pos : 0 < chunkSize := Nat.zero_lt_succ _

structure TreeNode where
  cidBytes : Bytes
  fileSize : ℕ
  tsize : ℕ

section Hash

variable (env : HashEnv)

def multibaseBase32lower (data : Bytes) : Text := 'b' :: (env.base32Nopad data).map Char.toLower

def cidV1ToString (codec : ℕ) (digest : Digest) : Text :=
  multibaseBase32lower env (encodeCidV1 codec digest)

def leafNode (chunk : Bytes) : TreeNode where
  cidBytes := encodeCidV1 0x55 (env.sha256 chunk)
  fileSize := chunk.length
  tsize := chunk.length

def TreeNode.link (node : TreeNode) : PBLink := ⟨node.cidBytes, [], node.tsize⟩

def buildInteriorNode (children : List TreeNode) : TreeNode :=
  let blockSizes := children.map TreeNode.fileSize
  let totalFileSize := blockSizes.sum
  let unixfsData := encodeFileNode totalFileSize blockSizes
  let pbNode := encodePbNode unixfsData (children.map TreeNode.link)
  { cidBytes := encodeCidV1 0x70 (env.sha256 pbNode)
    fileSize := totalFileSize
    tsize := pbNode.length + (children.map TreeNode.tsize).sum }

def balancedReduce (nodes : List TreeNode) : Option TreeNode :=
  if 1 < nodes.length then
    balancedReduce ((chunks maxChildren nodes).map (buildInteriorNode env))
  else nodes.head?
termination_by nodes.length
decreasing_by
  rw [List.length_map]
  exact length_chunks_lt (by decide) (by omega)

def hashChunked (data : Bytes) : Option Text :=
  (balancedReduce env ((chunks chunkSize data).map (leafNode env))).map fun root =>
    multibaseBase32lower env root.cidBytes

def hashBytesV1 (data : Bytes) : Option Text :=
  if data.length ≤ chunkSize then some (cidV1ToString env 0x55 (env.sha256 data))
  else hashChunked env data

/-! ### The streaming writer -/

structure HashV1Writer where
  leaves : List TreeNode
  pending : Bytes
  total : ℕ
  bounded : pending.length ≤ chunkSize

namespace HashV1Writer

def new : HashV1Writer := ⟨[], [], 0, Nat.zero_le _⟩

/-- The buffer is flushed only once more data is known to follow. -/
def flush (w : HashV1Writer) : HashV1Writer :=
  if w.pending.length = chunkSize then
    { w with leaves := w.leaves ++ [leafNode env w.pending], pending := [], bounded := Nat.zero_le _ }
  else w

theorem flush_lt (w : HashV1Writer) : (w.flush env).pending.length < chunkSize := by
  unfold flush
  split
  · exact chunkSize_pos
  · rename_i hne
    exact lt_of_le_of_ne w.bounded hne

def extend (w : HashV1Writer) (data : Bytes) : HashV1Writer where
  leaves := w.leaves
  pending := w.pending ++ data.take (chunkSize - w.pending.length)
  total := w.total
  bounded := by
    have hle := w.bounded
    rw [List.length_append, List.length_take]
    omega

/-- The loop of `update`. -/
def feed (w : HashV1Writer) (data : Bytes) : HashV1Writer :=
  match data with
  | [] => w
  | b :: data =>
    let flushed := w.flush env
    feed (flushed.extend (b :: data)) ((b :: data).drop (chunkSize - flushed.pending.length))
termination_by data.length
decreasing_by
  have hlt := w.flush_lt env
  rw [List.length_drop, List.length_cons]
  omega

def update (w : HashV1Writer) (data : Bytes) : HashV1Writer :=
  feed env { w with total := w.total + data.length } data

def finish (w : HashV1Writer) : Option Text :=
  if w.total ≤ chunkSize then some (cidV1ToString env 0x55 (env.sha256 w.pending))
  else
    let leaves := if w.pending ≠ [] then w.leaves ++ [leafNode env w.pending] else w.leaves
    (balancedReduce env leaves).map fun root => multibaseBase32lower env root.cidBytes

end HashV1Writer

end Hash

/-! ### What the writer has seen -/

section Streaming

variable {env : HashEnv}

/-- The leaves are the full chunks of what was fed, the buffer holds the rest. -/
structure Fed (env : HashEnv) (w : HashV1Writer) (data : Bytes) : Prop where
  leaves : ∃ cs : List Bytes, (∀ c ∈ cs, c.length = chunkSize) ∧ w.leaves = cs.map (leafNode env) ∧
    cs.flatten ++ w.pending = data
  pending : data ≠ [] → w.pending ≠ []

theorem fed_new (env : HashEnv) : Fed env .new [] :=
  ⟨⟨[], by simp, rfl, rfl⟩, fun h => absurd rfl h⟩

theorem Fed.feed {w : HashV1Writer} {fed : Bytes} (h : Fed env w fed) (data : Bytes) :
    Fed env (w.feed env data) (fed ++ data) ∧ (w.feed env data).total = w.total := by
  induction hn : data.length using Nat.strongRecOn generalizing w fed data with
  | ind n ih =>
    cases data with
    | nil =>
      rw [HashV1Writer.feed, List.append_nil]
      exact ⟨h, rfl⟩
    | cons b data =>
      rw [HashV1Writer.feed]
      have hlt := w.flush_lt env
      have htotal : (w.flush env).total = w.total := by
        unfold HashV1Writer.flush
        split
        · rfl
        · rfl
      -- the flushed writer has seen the same
      obtain ⟨cs, hfull, hleaves, hdata⟩ : ∃ cs : List Bytes, (∀ c ∈ cs, c.length = chunkSize) ∧
          (w.flush env).leaves = cs.map (leafNode env) ∧
          cs.flatten ++ (w.flush env).pending = fed := by
        obtain ⟨cs, hfull, hleaves, hdata⟩ := h.leaves
        unfold HashV1Writer.flush
        split
        · rename_i hsize
          refine ⟨cs ++ [w.pending], ?_, ?_, ?_⟩
          · intro c hc
            obtain hold | hnew := List.mem_append.mp hc
            · exact hfull c hold
            · rw [List.mem_singleton.mp hnew, hsize]
          · rw [List.map_append, ← hleaves]
            rfl
          · rw [List.flatten_append, List.flatten_singleton, List.append_nil, hdata]
        · exact ⟨cs, hfull, hleaves, hdata⟩
      obtain ⟨m, hm⟩ : ∃ m, chunkSize - (w.flush env).pending.length = m + 1 :=
        Nat.exists_eq_add_one.mpr (by omega)
      have hext : Fed env ((w.flush env).extend (b :: data))
          (fed ++ (b :: data).take (m + 1)) := by
        refine ⟨⟨cs, hfull, hleaves, ?_⟩, fun _ => ?_⟩
        · show cs.flatten ++ ((w.flush env).pending ++ _) = _
          rw [← List.append_assoc, hdata, hm]
        · show (w.flush env).pending ++ _ ≠ []
          rw [hm]
          simp
      have hshorter : ((b :: data).drop (m + 1)).length < n := by
        rw [← hn, List.length_drop, List.length_cons]
        omega
      have hrest := ih _ hshorter hext ((b :: data).drop (m + 1)) rfl
      rw [List.append_assoc, List.take_append_drop] at hrest
      rw [hm]
      exact ⟨hrest.1, hrest.2.trans htotal⟩

theorem Fed.updates {w : HashV1Writer} {fed : Bytes} (h : Fed env w fed)
    (htotal : w.total = fed.length) (pieces : List Bytes) :
    Fed env (pieces.foldl (HashV1Writer.update env) w) (fed ++ pieces.flatten) ∧
      (pieces.foldl (HashV1Writer.update env) w).total = (fed ++ pieces.flatten).length := by
  induction pieces generalizing w fed with
  | nil =>
    rw [List.flatten_nil, List.append_nil]
    exact ⟨h, htotal⟩
  | cons piece pieces ih =>
    have hstart : Fed env { w with total := w.total + piece.length } fed := ⟨h.leaves, h.pending⟩
    obtain ⟨hfed, hsame⟩ := hstart.feed piece
    rw [List.foldl_cons, List.flatten_cons, ← List.append_assoc]
    refine ih hfed ?_
    rw [HashV1Writer.update, hsame, List.length_append, htotal]

/-- A writer that has seen the content finishes with its hash. -/
theorem Fed.finish {w : HashV1Writer} {data : Bytes} (h : Fed env w data)
    (htotal : w.total = data.length) : w.finish env = hashBytesV1 env data := by
  obtain ⟨cs, hfull, hleaves, hdata⟩ := h.leaves
  unfold HashV1Writer.finish hashBytesV1
  rw [htotal]
  by_cases hshort : data.length ≤ chunkSize
  · rw [if_pos hshort, if_pos hshort]
    -- no leaf has been flushed: it would be a full chunk with something after it
    have hnone : cs = [] := by
      cases cs with
      | nil => rfl
      | cons c cs =>
        have hc := hfull c List.mem_cons_self
        have hne : data ≠ [] := by
          rw [← hdata, List.flatten_cons, List.append_assoc]
          intro hnil
          have := congrArg List.length hnil
          rw [List.length_append, hc, List.length_nil] at this
          have := chunkSize_pos
          omega
        have hpending := List.length_pos_iff.mpr (h.pending hne)
        have hlen := congrArg List.length hdata
        rw [List.flatten_cons, List.append_assoc, List.length_append, List.length_append, hc] at hlen
        omega
    rw [hnone, List.flatten_nil, List.nil_append] at hdata
    rw [hdata]
  · rw [if_neg hshort, if_neg hshort]
    have hne : data ≠ [] := by
      rintro rfl
      exact hshort (Nat.zero_le _)
    have hchunks : chunks chunkSize data = cs ++ [w.pending] := by
      rw [← hdata]
      exact chunks_flatten_append chunkSize_pos hfull (h.pending hne) w.bounded
    rw [if_pos (h.pending hne), hashChunked, hchunks, List.map_append, ← hleaves]
    rfl

end Streaming

/-! ### The DAG -/

section Dag

variable {env : HashEnv}

/-- The block of an interior node over the given links, each with the content under it: it
announces the number of content bytes under every link and in all, and the length of every
field is that of what follows. -/
def interiorBlock (children : List (TreeNode × Bytes)) : Bytes :=
  nodeMessage
    (fileMessage (children.flatMap Prod.snd).length (children.map fun c => c.2.length))
    (children.map fun c => c.1.link)

/-- The nodes that may stand for a content. -/
inductive Dag (env : HashEnv) : TreeNode → Bytes → Prop
  | leaf (chunk : Bytes) (hne : chunk ≠ []) (hle : chunk.length ≤ chunkSize) :
      Dag env ⟨encodeCidV1 0x55 (env.sha256 chunk), chunk.length, chunk.length⟩ chunk
  | interior (children : List (TreeNode × Bytes)) (hne : children ≠ [])
      (hle : children.length ≤ maxChildren) (h : ∀ c ∈ children, Dag env c.1 c.2) :
      Dag env ⟨encodeCidV1 0x70 (env.sha256 (interiorBlock children)),
        (children.flatMap Prod.snd).length,
        (interiorBlock children).length + (children.map fun c => c.1.tsize).sum⟩
        (children.flatMap Prod.snd)

theorem Dag.fileSize {node : TreeNode} {content : Bytes} (h : Dag env node content) :
    node.fileSize = content.length := by
  cases h with
  | leaf => rfl
  | interior => rfl

theorem buildInteriorNode_eq {children : List (TreeNode × Bytes)}
    (h : ∀ c ∈ children, Dag env c.1 c.2) : buildInteriorNode env (children.map Prod.fst) =
      ⟨encodeCidV1 0x70 (env.sha256 (interiorBlock children)),
        (children.flatMap Prod.snd).length,
        (interiorBlock children).length + (children.map fun c => c.1.tsize).sum⟩ := by
  have hsizes : (children.map Prod.fst).map TreeNode.fileSize = children.map fun c => c.2.length := by
    rw [List.map_map]
    exact List.map_congr_left fun c hc => (h c hc).fileSize
  have htotal : ((children.map Prod.fst).map TreeNode.fileSize).sum =
      (children.flatMap Prod.snd).length := by
    rw [hsizes, List.length_flatMap]
  have hblock : encodePbNode (encodeFileNode
      ((children.map Prod.fst).map TreeNode.fileSize).sum
      ((children.map Prod.fst).map TreeNode.fileSize))
      ((children.map Prod.fst).map TreeNode.link) = interiorBlock children := by
    rw [encodePbNode_eq, encodeFileNode_eq, htotal, hsizes, List.map_map]
    rfl
  unfold buildInteriorNode
  dsimp only
  rw [hblock, htotal, List.map_map]
  rfl

/-- The next level up, with the content under each node. -/
def parents (env : HashEnv) (level : List (TreeNode × Bytes)) : List (TreeNode × Bytes) :=
  (chunks maxChildren level).map fun batch =>
    (buildInteriorNode env (batch.map Prod.fst), batch.flatMap Prod.snd)

theorem parents_content (env : HashEnv) (level : List (TreeNode × Bytes)) :
    (parents env level).flatMap Prod.snd = level.flatMap Prod.snd := by
  conv_rhs => rw [← flatten_chunks (n := maxChildren) level, ← List.flatMap_id, List.flatMap_assoc]
  rw [parents, List.flatMap_map]
  rfl

theorem parents_nodes (level : List (TreeNode × Bytes)) :
    (chunks maxChildren (level.map Prod.fst)).map (buildInteriorNode env) =
      (parents env level).map Prod.fst := by
  rw [chunks_map, parents, List.map_map, List.map_map]
  rfl

theorem parents_dag {level : List (TreeNode × Bytes)} (h : ∀ c ∈ level, Dag env c.1 c.2) :
    ∀ c ∈ parents env level, Dag env c.1 c.2 := by
  intro c hc
  obtain ⟨batch, hbatch, rfl⟩ := List.mem_map.mp hc
  have hdags : ∀ d ∈ batch, Dag env d.1 d.2 := fun d hd => h d (mem_of_mem_chunks hbatch hd)
  rw [buildInteriorNode_eq hdags]
  exact .interior batch (ne_nil_of_mem_chunks hbatch)
    (length_le_of_mem_chunks (by decide) hbatch) hdags

/-- The reduction ends in one node for all the content. -/
theorem balancedReduce_dag {level : List (TreeNode × Bytes)} (hne : level ≠ [])
    (h : ∀ c ∈ level, Dag env c.1 c.2) :
    ∃ root, balancedReduce env (level.map Prod.fst) = some root ∧
      Dag env root (level.flatMap Prod.snd) := by
  induction hn : level.length using Nat.strongRecOn generalizing level with
  | ind n ih =>
    rw [balancedReduce, List.length_map]
    split
    · rename_i hmany
      have hfewer : (parents env level).length < n := by
        rw [parents, List.length_map, ← hn]
        exact length_chunks_lt (by decide) (by omega)
      have hparents : parents env level ≠ [] := by
        rw [parents, Ne, List.map_eq_nil_iff, chunks_eq_nil]
        exact hne
      rw [parents_nodes, ← parents_content env level]
      exact ih _ hfewer hparents (parents_dag h) rfl
    · rename_i hone
      cases level with
      | nil => exact absurd rfl hne
      | cons c rest =>
        have hrest : rest = [] := by
          rw [List.length_cons] at hone
          exact List.eq_nil_of_length_eq_zero (by omega)
        subst hrest
        refine ⟨c.1, rfl, ?_⟩
        rw [List.flatMap_singleton]
        exact h c List.mem_cons_self

/-- The leaves of a content, each with its chunk. -/
def leafLevel (env : HashEnv) (data : Bytes) : List (TreeNode × Bytes) :=
  (chunks chunkSize data).map fun c => (leafNode env c, c)

theorem leafLevel_nodes (env : HashEnv) (data : Bytes) :
    (chunks chunkSize data).map (leafNode env) = (leafLevel env data).map Prod.fst := by
  rw [leafLevel, List.map_map]
  rfl

theorem leafLevel_content (env : HashEnv) (data : Bytes) :
    (leafLevel env data).flatMap Prod.snd = data := by
  rw [leafLevel, List.flatMap_map]
  exact List.flatMap_id.trans (flatten_chunks data)

theorem leafLevel_dag (env : HashEnv) (data : Bytes) :
    ∀ c ∈ leafLevel env data, Dag env c.1 c.2 := by
  intro c hc
  obtain ⟨chunk, hchunk, rfl⟩ := List.mem_map.mp hc
  exact Dag.leaf chunk (ne_nil_of_mem_chunks hchunk) (length_le_of_mem_chunks chunkSize_pos hchunk)

/-! ### The sizes fit a `u64` -/

theorem length_number_le (tag : UInt8) {value : ℕ} (h : value < 2 ^ 64) :
    (number tag value).length ≤ 11 := by
  have hsize := varintSize_le 9 (h.trans (by norm_num))
  rw [number, List.length_cons, length_encodeVarint]
  omega

theorem length_field {tag : UInt8} {payload : Bytes} :
    (field tag payload).length = 1 + varintSize payload.length + payload.length := by
  rw [field, List.length_cons, List.length_append, length_encodeVarint]
  omega

theorem Dag.length_cidBytes {node : TreeNode} {content : Bytes} (h : Dag env node content) :
    node.cidBytes.length = 36 := by
  have hcid : ∀ codec digest, codec < 128 → (encodeCidV1 codec digest).length = 36 := by
    intro codec digest hcodec
    have hone : varintSize 1 = 1 := by rw [varintSize, if_neg (by omega)]
    have hsmall : varintSize codec = 1 := by rw [varintSize, if_neg (by omega)]
    simp only [encodeCidV1, List.length_append, length_encodeVarint, hone, hsmall,
      List.length_cons, List.length_nil, digest.property]
  cases h with
  | leaf => exact hcid _ _ (by norm_num)
  | interior => exact hcid _ _ (by norm_num)

/-- A link costs the block at most 80 bytes. -/
theorem length_interiorBlock_le {children : List (TreeNode × Bytes)} (hne : children ≠ [])
    (hle : children.length ≤ maxChildren)
    (hcid : ∀ c ∈ children, c.1.cidBytes.length = 36) (htsize : ∀ c ∈ children, c.1.tsize < 2 ^ 64)
    (hlength : (children.flatMap Prod.snd).length < 2 ^ 64) :
    (interiorBlock children).length ≤ 80 * children.length := by
  have hpart : ∀ c ∈ children, c.2.length < 2 ^ 64 := by
    intro c hc
    refine lt_of_le_of_lt ?_ hlength
    rw [List.length_flatMap]
    exact List.single_le_sum (fun _ _ => Nat.zero_le _) _ (List.mem_map_of_mem hc)
  have hlinks : ((children.map fun c => c.1.link).flatMap fun link =>
      field 0x12 (linkMessage link)).length ≤ children.length * 53 := by
    rw [List.flatMap_map, List.length_flatMap]
    refine (List.sum_le_card_nsmul _ 53 fun n hn => ?_).trans_eq
      (by rw [List.length_map, smul_eq_mul])
    obtain ⟨c, hc, rfl⟩ := List.mem_map.mp hn
    have hlink : (linkMessage c.1.link).length ≤ 51 := by
      have hnum := length_number_le 0x18 (htsize c hc)
      have hsize : varintSize 36 = 1 := by rw [varintSize, if_neg (by omega)]
      have hzero : varintSize 0 = 1 := by rw [varintSize, if_neg (by omega)]
      simp only [linkMessage, List.length_append, length_field, TreeNode.link, hcid c hc, hsize,
        List.length_nil, hzero]
      omega
    have hsize := varintSize_le 0 (lt_of_le_of_lt hlink (by norm_num))
    rw [length_field]
    omega
  have hblocks : ((children.map fun c => c.2.length).flatMap (number 0x20)).length ≤
      children.length * 11 := by
    rw [List.flatMap_map, List.length_flatMap]
    refine (List.sum_le_card_nsmul _ 11 fun n hn => ?_).trans_eq
      (by rw [List.length_map, smul_eq_mul])
    obtain ⟨c, hc, rfl⟩ := List.mem_map.mp hn
    exact length_number_le _ (hpart c hc)
  have htwo : varintSize 2 = 1 := by rw [varintSize, if_neg (by omega)]
  have hfile := length_number_le 0x18 hlength
  have hpos := List.length_pos_iff.mpr hne
  have hwide : children.length ≤ 174 := hle
  have hdata : (fileMessage (children.flatMap Prod.snd).length
      (children.map fun c => c.2.length)).length ≤ 13 + children.length * 11 := by
    rw [fileMessage, List.length_append, List.length_append, number, List.length_cons,
      length_encodeVarint, htwo]
    omega
  have hsize := varintSize_le 1 (lt_of_le_of_lt hdata (by omega))
  rw [interiorBlock, nodeMessage, List.length_append, length_field]
  omega

/-- What the nodes of a level, and all that is to be built over them, come to at most. -/
def cost (level : List (TreeNode × Bytes)) : ℕ :=
  (level.map fun c => c.1.tsize).sum + 160 * level.length

theorem tsize_le_cost {level : List (TreeNode × Bytes)} {c : TreeNode × Bytes} (hc : c ∈ level) :
    c.1.tsize ≤ cost level := by
  have hmem : c.1.tsize ∈ level.map fun c => c.1.tsize := List.mem_map.mpr ⟨c, hc, rfl⟩
  exact (List.single_le_sum (fun _ _ => Nat.zero_le _) _ hmem).trans (Nat.le_add_right _ _)

theorem length_le_flatMap {level batch : List (TreeNode × Bytes)}
    (hbatch : batch ∈ chunks maxChildren level) :
    (batch.flatMap Prod.snd).length ≤ (level.flatMap Prod.snd).length := by
  have hsub : batch.Sublist level := by
    rw [← flatten_chunks (n := maxChildren) level]
    exact List.sublist_flatten_of_mem hbatch
  rw [List.length_flatMap, List.length_flatMap]
  exact (hsub.map _).sum_le_sum fun _ _ => Nat.zero_le _

/-- A level costs no less than the one above it: two nodes or more share a parent. -/
theorem cost_parents_le {level : List (TreeNode × Bytes)} (htwo : 1 < level.length)
    (h : ∀ c ∈ level, Dag env c.1 c.2) (hcost : cost level < 2 ^ 64)
    (hlength : (level.flatMap Prod.snd).length < 2 ^ 64) : cost (parents env level) ≤ cost level := by
  have hbatch : ∀ batch ∈ chunks maxChildren level,
      (buildInteriorNode env (batch.map Prod.fst)).tsize ≤
        (batch.map fun c => c.1.tsize + 80).sum := by
    intro batch hin
    have hdags : ∀ d ∈ batch, Dag env d.1 d.2 := fun d hd => h d (mem_of_mem_chunks hin hd)
    have hblock := length_interiorBlock_le (ne_nil_of_mem_chunks hin)
      (length_le_of_mem_chunks (by decide) hin) (fun c hc => (hdags c hc).length_cidBytes)
      (fun c hc => (tsize_le_cost (mem_of_mem_chunks hin hc)).trans_lt hcost)
      ((length_le_flatMap hin).trans_lt hlength)
    rw [buildInteriorNode_eq hdags, List.sum_map_add, List.map_const', List.sum_replicate,
      smul_eq_mul]
    dsimp only
    omega
  have hsum : ((parents env level).map fun c => c.1.tsize).sum ≤
      (level.map fun c => c.1.tsize).sum + 80 * level.length := by
    calc ((parents env level).map fun c => c.1.tsize).sum
        = ((chunks maxChildren level).map fun batch =>
            (buildInteriorNode env (batch.map Prod.fst)).tsize).sum := by
          rw [parents, List.map_map]
          rfl
      _ ≤ ((chunks maxChildren level).map fun batch =>
            (batch.map fun c => c.1.tsize + 80).sum).sum := List.sum_le_sum hbatch
      _ = (level.map fun c => c.1.tsize + 80).sum := by
          conv_rhs => rw [← flatten_chunks (n := maxChildren) level]
          rw [List.map_flatten, List.sum_flatten, List.map_map]
          rfl
      _ = (level.map fun c => c.1.tsize).sum + 80 * level.length := by
          rw [List.sum_map_add, List.map_const', List.sum_replicate, smul_eq_mul, Nat.mul_comm]
  have hcount : 174 * (parents env level).length ≤ level.length + 173 := by
    rw [parents, List.length_map]
    exact mul_length_chunks (n := maxChildren) (by decide) level
  unfold cost
  omega

theorem tsize_root_le {level : List (TreeNode × Bytes)} {root : TreeNode}
    (h : ∀ c ∈ level, Dag env c.1 c.2) (hcost : cost level < 2 ^ 64)
    (hlength : (level.flatMap Prod.snd).length < 2 ^ 64)
    (hroot : balancedReduce env (level.map Prod.fst) = some root) : root.tsize ≤ cost level := by
  induction hn : level.length using Nat.strongRecOn generalizing level with
  | ind n ih =>
    rw [balancedReduce, List.length_map] at hroot
    split at hroot
    · rename_i hmany
      have hfewer : (parents env level).length < n := by
        rw [parents, List.length_map, ← hn]
        exact length_chunks_lt (by decide) (by omega)
      have hle := cost_parents_le hmany h hcost hlength
      rw [parents_nodes] at hroot
      refine (ih _ hfewer (parents_dag h) (hle.trans_lt hcost) ?_ hroot rfl).trans hle
      rwa [parents_content]
    · rw [List.head?_map] at hroot
      obtain ⟨c, hc, rfl⟩ := Option.map_eq_some_iff.mp hroot
      exact tsize_le_cost (List.mem_of_head? hc)

theorem cost_leafLevel_lt {data : Bytes} (h : data.length < 2 ^ 63) :
    cost (leafLevel env data) < 2 ^ 64 := by
  have hsum : ((leafLevel env data).map fun c => c.1.tsize).sum = data.length := by
    conv_rhs => rw [← leafLevel_content env data, List.length_flatMap]
    rw [leafLevel, List.map_map, List.map_map]
    rfl
  have hcount : 262144 * (leafLevel env data).length ≤ data.length + 262143 := by
    rw [leafLevel, List.length_map]
    exact mul_length_chunks chunkSize_pos data
  rw [cost, hsum]
  omega

end Dag

/-- However the content is cut into pieces, the writer returns its hash; and the hash of content
that is longer than a chunk is that of a DAG whose every announced size is right. The size
functions agree with the writers, and no size overflows. -/
theorem streamed_hash (env : HashEnv) (pieces : List Bytes) :
    (pieces.foldl (HashV1Writer.update env) .new).finish env = hashBytesV1 env pieces.flatten ∧
      (if pieces.flatten.length ≤ chunkSize then
        hashBytesV1 env pieces.flatten = some (cidV1ToString env 0x55 (env.sha256 pieces.flatten))
      else ∃ root, hashBytesV1 env pieces.flatten = some (multibaseBase32lower env root.cidBytes) ∧
        Dag env root pieces.flatten ∧ (pieces.flatten.length < 2 ^ 63 → root.tsize < 2 ^ 64)) ∧
      (∀ link, (encodePbLink link).length = pbLinkSize link) ∧
      ∀ data links, (encodePbNode data links).length = pbNodeSize data links := by
  refine ⟨?_, ?_, length_encodePbLink, length_encodePbNode⟩
  · obtain ⟨hfed, htotal⟩ := (fed_new env).updates rfl pieces
    rw [List.nil_append] at hfed htotal
    exact hfed.finish htotal
  · generalize pieces.flatten = data
    unfold hashBytesV1
    split
    · rfl
    · rename_i hlong
      have hne : leafLevel env data ≠ [] := by
        rw [leafLevel, Ne, List.map_eq_nil_iff, chunks_eq_nil]
        rintro rfl
        exact hlong (Nat.zero_le _)
      obtain ⟨root, hroot, hdag⟩ := balancedReduce_dag hne (leafLevel_dag env data)
      rw [leafLevel_content] at hdag
      refine ⟨root, ?_, hdag, fun hshort => ?_⟩
      · rw [hashChunked, leafLevel_nodes, hroot]
        rfl
      · have hcost : cost (leafLevel env data) < 2 ^ 64 := cost_leafLevel_lt hshort
        refine lt_of_le_of_lt (tsize_root_le (leafLevel_dag env data) hcost ?_ hroot) hcost
        rw [leafLevel_content]
        exact hshort.trans (by norm_num)

end Catalyrst.Hashing
