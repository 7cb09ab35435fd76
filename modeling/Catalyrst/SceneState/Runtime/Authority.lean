import Catalyrst.SceneState.Crdt.Wire

/-!
# Entity ranges, write authority and client slots (`runtime.rs`)

The 2^16 entity numbers are carved into a reserved block, the server's band and
one range per client slot. `AuthorityGuard` decides which messages an author may
send; `ClientSlots` hands out the lowest free slot index.
-/

namespace Catalyrst.SceneState
open Catalyrst.Lib

def ENTITY_NUMBER_SPACE : ℕ := 65536
def RENDERER_LOCAL_ENTITIES : U32 := 406
def TRANSFORM_COMPONENT_ID : U32 := 1
def TRANSFORM_PARENT_OFFSET : ℕ := 40
def TRANSFORM_PAYLOAD_LEN : ℕ := 44

/-! ### Ranges -/

/-- A half-open range of entity numbers: its start and its size. -/
abbrev Range := U32 × U32

/-- The range of a client for which no slot is free: it holds no number. -/
def EMPTY_RANGE : Range := (u32Max, 0)

/-- `number` lies in `[start, start + size)`, the sum saturating at `u32::MAX`. -/
def Range.Holds (r : Range) (number : ℕ) : Prop := r.1.val ≤ number ∧ number < saturatingAdd r.1 r.2

instance (r : Range) (number : ℕ) : Decidable (r.Holds number) :=
  inferInstanceAs (Decidable (_ ∧ _))

structure ServerTransportConfig where
  reservedLocalEntities : U32
  serverNetworkEntitiesLimit : U32
  clientNetworkEntitiesLimit : U32
  deriving DecidableEq

namespace ServerTransportConfig

def default : ServerTransportConfig := ⟨512, 512, 512⟩

def clientBase (config : ServerTransportConfig) : ℕ :=
  config.reservedLocalEntities.val + config.serverNetworkEntitiesLimit.val

/-- The number of slots whose range fits inside the entity numbers. -/
def maxClientSlots (config : ServerTransportConfig) : ℕ :=
  if config.clientNetworkEntitiesLimit.val = 0 ∨ ENTITY_NUMBER_SPACE ≤ config.clientBase then 0
  else (ENTITY_NUMBER_SPACE - config.clientBase) / config.clientNetworkEntitiesLimit.val

def tryRangeForClient (config : ServerTransportConfig) (index : U32) : Option Range :=
  if config.maxClientSlots ≤ index.val then none
  else
    let start := config.clientBase + index.val * config.clientNetworkEntitiesLimit.val
    some (wrap32 start, config.clientNetworkEntitiesLimit)

def rangeForClient (config : ServerTransportConfig) (index : U32) : Range :=
  (config.tryRangeForClient index).getD EMPTY_RANGE

/-- The band the scene itself writes. -/
def serverRange (config : ServerTransportConfig) : Range :=
  (config.reservedLocalEntities, config.serverNetworkEntitiesLimit)

/-- The lowest entity number anything on the server may author. -/
def networkFloor (config : ServerTransportConfig) : U32 :=
  max config.reservedLocalEntities RENDERER_LOCAL_ENTITIES

/-- The last slot ends inside the entity numbers. -/
theorem slot_end_le (config : ServerTransportConfig) {index : ℕ} (h : index < config.maxClientSlots) :
    config.clientBase + index * config.clientNetworkEntitiesLimit.val +
      config.clientNetworkEntitiesLimit.val ≤ ENTITY_NUMBER_SPACE := by
  unfold maxClientSlots at h
  split at h
  · omega
  · rename_i hne
    obtain ⟨hlimit, hbase⟩ := not_or.mp hne
    have hslots : (index + 1) * config.clientNetworkEntitiesLimit.val ≤
        ENTITY_NUMBER_SPACE - config.clientBase := by
      calc (index + 1) * config.clientNetworkEntitiesLimit.val
          ≤ (ENTITY_NUMBER_SPACE - config.clientBase) / config.clientNetworkEntitiesLimit.val *
              config.clientNetworkEntitiesLimit.val := Nat.mul_le_mul_right _ h
        _ ≤ ENTITY_NUMBER_SPACE - config.clientBase := Nat.div_mul_le_self _ _
    rw [Nat.add_mul, Nat.one_mul] at hslots
    omega

theorem not_holds_empty (number : ℕ) : ¬ EMPTY_RANGE.Holds number := by
  rintro ⟨hlo, hhi⟩
  have hmax : (u32Max : U32).val = 4294967295 := rfl
  simp only [EMPTY_RANGE, saturatingAdd] at hlo hhi
  omega

/-- The numbers of a slot's range, without the machine arithmetic. -/
theorem holds_rangeForClient (config : ServerTransportConfig) (index : U32) (number : ℕ) :
    (config.rangeForClient index).Holds number ↔ index.val < config.maxClientSlots ∧
      config.clientBase + index.val * config.clientNetworkEntitiesLimit.val ≤ number ∧
      number < config.clientBase + index.val * config.clientNetworkEntitiesLimit.val +
        config.clientNetworkEntitiesLimit.val := by
  unfold rangeForClient tryRangeForClient
  split
  · rename_i hfull
    refine iff_of_false (not_holds_empty number) ?_
    rintro ⟨h, _⟩
    omega
  · rename_i hfree
    have hslot : index.val < config.maxClientSlots := not_le.mp hfree
    have hend := config.slot_end_le hslot
    have hspace : ENTITY_NUMBER_SPACE = 65536 := rfl
    have hstart := wrap32_val
      (config.clientBase + index.val * config.clientNetworkEntitiesLimit.val) (by omega)
    simp only [Option.getD_some, Range.Holds, saturatingAdd, hstart]
    omega

theorem holds_bounds {config : ServerTransportConfig} {index : U32} {number : ℕ}
    (h : (config.rangeForClient index).Holds number) :
    config.clientBase ≤ number ∧ number < ENTITY_NUMBER_SPACE := by
  obtain ⟨hslot, hlo, hhi⟩ := (holds_rangeForClient config index number).mp h
  have hend := config.slot_end_le hslot
  exact ⟨by omega, by omega⟩

/-- Slots of different index share no number. -/
theorem holds_unique {config : ServerTransportConfig} {i j : U32} {number : ℕ}
    (hi : (config.rangeForClient i).Holds number) (hj : (config.rangeForClient j).Holds number) :
    i = j := by
  obtain ⟨_, hilo, hihi⟩ := (holds_rangeForClient config i number).mp hi
  obtain ⟨_, hjlo, hjhi⟩ := (holds_rangeForClient config j number).mp hj
  rcases lt_trichotomy i j with h | h | h
  · have hmul : (i.val + 1) * config.clientNetworkEntitiesLimit.val ≤
        j.val * config.clientNetworkEntitiesLimit.val := Nat.mul_le_mul_right _ h
    rw [Nat.add_mul, Nat.one_mul] at hmul
    omega
  · exact h
  · have hmul : (j.val + 1) * config.clientNetworkEntitiesLimit.val ≤
        i.val * config.clientNetworkEntitiesLimit.val := Nat.mul_le_mul_right _ h
    rw [Nat.add_mul, Nat.one_mul] at hmul
    omega

/-- No client range meets the server's band. -/
theorem not_holds_serverRange {config : ServerTransportConfig} {index : U32} {number : ℕ}
    (h : (config.rangeForClient index).Holds number) : ¬ config.serverRange.Holds number := by
  rintro ⟨_, hhi⟩
  have hlo := (holds_bounds h).1
  simp only [serverRange, saturatingAdd, clientBase] at hhi hlo
  omega

end ServerTransportConfig

/-! ### Authority over messages -/

inductive Authority where
  /-- The scene's own code: any network entity. -/
  | server
  /-- A connected client, confined to the range it was assigned. -/
  | client (start size : U32)
  deriving DecidableEq

/-- `may_write`: `entity` is packed, the floor and the range are numbers. -/
def Authority.mayWrite (authority : Authority) (floor entity : U32) : Bool :=
  let number := (entityNumber entity).val
  if number < floor.val then false
  else match authority with
    | .server => true
    | .client start size => decide (Range.Holds (start, size) number)

/-- The parent named inside a Transform payload. -/
def transformParent (componentId : U32) (data : Bytes) : Option U32 :=
  if componentId ≠ TRANSFORM_COMPONENT_ID ∨ data.length < TRANSFORM_PAYLOAD_LEN then none
  else readU32 data TRANSFORM_PARENT_OFFSET

structure AuthorityGuard where
  authority : Authority
  floor : U32
  /-- Ranges assigned to other live clients. -/
  foreignRanges : List Range

namespace AuthorityGuard

def inForeignRange (guard : AuthorityGuard) (number : ℕ) : Bool :=
  guard.foreignRanges.any fun r => decide (r.Holds number)

/-- The parent a message names, if it carries a Transform payload. -/
def namedParent : CrdtMessage → Option U32
  | .put _ componentId _ data => transformParent componentId data
  | .append _ componentId _ data => transformParent componentId data
  | _ => none

def admits (guard : AuthorityGuard) (m : CrdtMessage) : Bool :=
  if guard.authority.mayWrite guard.floor m.entity then
    match namedParent m with
    | some parent => !guard.inForeignRange (entityNumber parent).val
    | none => true
  else false

def filter (guard : AuthorityGuard) (msgs : List CrdtMessage) : List CrdtMessage :=
  msgs.filter guard.admits

/-- What an admitted client message satisfies. -/
theorem admits_client {start size floor : U32} {foreign : List Range} {m : CrdtMessage}
    (h : (AuthorityGuard.mk (.client start size) floor foreign).admits m = true) :
    floor.val ≤ (entityNumber m.entity).val ∧
    Range.Holds (start, size) (entityNumber m.entity).val ∧
    ∀ parent, namedParent m = some parent →
      ∀ r ∈ foreign, ¬ r.Holds (entityNumber parent).val := by
  unfold admits at h
  split at h
  · rename_i hwrite
    simp only [Authority.mayWrite] at hwrite
    split at hwrite
    · cases hwrite
    · rename_i hfloor
      refine ⟨not_lt.mp hfloor, of_decide_eq_true hwrite, fun parent hp r hr hholds => ?_⟩
      rw [hp] at h
      simp only [inForeignRange, Bool.not_eq_true', List.any_eq_false, decide_eq_true_eq] at h
      exact h r hr hholds
  · cases h

end AuthorityGuard

/-! ### Client slots -/

/-- The slot indices in use. -/
abbrev ClientSlots := Finset U32

namespace ClientSlots

/-- The loop of `acquire`: the first index from `index` on that is not used, or
`u32::MAX` when the addition would overflow. -/
def firstFree (used : ClientSlots) : ℕ → U32 → U32
  | 0, index => index
  | fuel + 1, index =>
    if index ∈ used then
      if h : index.val + 1 < 4294967296 then firstFree used fuel ⟨index.val + 1, h⟩ else index
    else index

/-- `acquire`: the index handed out and the slots after. The loop counts up from
zero, so 2^32 iterations are enough. -/
def acquire (used : ClientSlots) : U32 × ClientSlots :=
  let index := firstFree used 4294967296 0
  (index, insert index used)

def release (used : ClientSlots) (index : U32) : ClientSlots := used.erase index

theorem firstFree_spec (used : ClientSlots) (fuel : ℕ) (index : U32)
    (hfuel : 4294967296 ≤ index.val + fuel) :
    firstFree used fuel index ∉ used ∨ firstFree used fuel index = u32Max := by
  induction fuel generalizing index with
  | zero => exact absurd index.isLt (not_lt.mpr (by omega))
  | succ fuel ih =>
    unfold firstFree
    split
    · split
      · rename_i hlt
        exact ih ⟨index.val + 1, hlt⟩ (by simp only; omega)
      · rename_i hge
        refine Or.inr (Fin.ext ?_)
        have hmax : (u32Max : U32).val = 4294967295 := rfl
        have := index.isLt
        omega
    · rename_i hfree
      exact Or.inl hfree

/-- The index handed out is free, unless every index is in use. -/
theorem acquire_fresh (used : ClientSlots) :
    (acquire used).1 ∉ used ∨ (acquire used).1 = u32Max :=
  firstFree_spec used 4294967296 0 (by simp)

/-- The slots that connections hold: used, and distinct for distinct connections.
Index `u32::MAX` is the exception: it is handed out again when all 2^32 are in
use, and it has no range. -/
structure Held (used : ClientSlots) (slot : ℕ → Option U32) : Prop where
  used : ∀ (c : ℕ) (i : U32), slot c = some i → i ∈ used ∨ i = u32Max
  distinct : ∀ (c d : ℕ) (i : U32), c ≠ d → slot c = some i → slot d = some i → i = u32Max

variable {used : ClientSlots} {slot slot' : ℕ → Option U32}

theorem held_empty (h : ∀ c, slot c = none) : Held ∅ slot := by
  refine ⟨fun c i hi => ?_, fun c d i _ hi => ?_⟩
  · rw [h] at hi
    cases hi
  · rw [h] at hi
    cases hi

theorem Held.mono (h : Held used slot) (hle : ∀ c i, slot' c = some i → slot c = some i) :
    Held used slot' :=
  ⟨fun c i hi => h.used c i (hle c i hi),
    fun c d i hne hi hj => h.distinct c d i hne (hle c i hi) (hle d i hj)⟩

theorem Held.acquire (h : Held used slot) {c : ℕ} (hc : slot' c = some (acquire used).1)
    (hother : ∀ d, d ≠ c → slot' d = slot d) : Held (acquire used).2 slot' := by
  -- the new index differs from every held one, unless it is the exhausted one
  have hnew : ∀ (d : ℕ) (i : U32), slot d = some i → (ClientSlots.acquire used).1 = i →
      i = u32Max := by
    intro d i hi heq
    rcases acquire_fresh used with hfree | hmax
    · rcases h.used d i hi with hin | hmax
      · exact absurd (heq ▸ hin) hfree
      · exact hmax
    · exact heq ▸ hmax
  refine ⟨fun d i hi => ?_, fun d d' i hne hi hi' => ?_⟩
  · by_cases hd : d = c
    · subst hd
      rw [hc] at hi
      rw [← Option.some.inj hi]
      exact Or.inl (Finset.mem_insert_self _ _)
    · rw [hother d hd] at hi
      rcases h.used d i hi with hin | hmax
      · exact Or.inl (Finset.mem_insert_of_mem hin)
      · exact Or.inr hmax
  · by_cases hd : d = c
    · subst hd
      rw [hc] at hi
      rw [hother d' (Ne.symm hne)] at hi'
      exact hnew d' i hi' (Option.some.inj hi)
    · rw [hother d hd] at hi
      by_cases hd' : d' = c
      · subst hd'
        rw [hc] at hi'
        exact hnew d i hi (Option.some.inj hi')
      · rw [hother d' hd'] at hi'
        exact h.distinct d d' i hne hi hi'

theorem Held.release (h : Held used slot) {c : ℕ} {index : U32} (hc : slot c = some index)
    (hnone : slot' c = none) (hother : ∀ d, d ≠ c → slot' d = slot d) :
    Held (ClientSlots.release used index) slot' := by
  have hback : ∀ (d : ℕ) (i : U32), slot' d = some i → d ≠ c ∧ slot d = some i := by
    intro d i hi
    have hd : d ≠ c := by
      rintro rfl
      rw [hnone] at hi
      cases hi
    exact ⟨hd, hother d hd ▸ hi⟩
  refine ⟨fun d i hi => ?_, fun d d' i hne hi hi' => ?_⟩
  · obtain ⟨hd, hi⟩ := hback d i hi
    by_cases heq : i = index
    · subst heq
      exact Or.inr (h.distinct d c i hd hi hc)
    · rcases h.used d i hi with hin | hmax
      · exact Or.inl (Finset.mem_erase.mpr ⟨heq, hin⟩)
      · exact Or.inr hmax
  · exact h.distinct d d' i hne (hback d i hi).2 (hback d' i hi').2

/-- A slot that no connection holds can be released. -/
theorem Held.releaseFree (h : Held used slot) {index : U32} (hfree : ∀ c, slot c ≠ some index) :
    Held (ClientSlots.release used index) slot := by
  refine ⟨fun c i hi => ?_, h.distinct⟩
  rcases h.used c i hi with hin | hmax
  · have hne : i ≠ index := by
      rintro rfl
      exact hfree c hi
    exact Or.inl (Finset.mem_erase.mpr ⟨hne, hin⟩)
  · exact Or.inr hmax

end ClientSlots

/-- A range of size zero holds no number. -/
theorem Range.not_holds_of_size_zero {r : Range} (h : r.2.val = 0) (number : ℕ) :
    ¬ r.Holds number := by
  rintro ⟨hlo, hhi⟩
  simp only [saturatingAdd, h] at hhi
  omega

/-- No slot has a range at index `u32::MAX`. -/
theorem ServerTransportConfig.not_holds_u32Max (config : ServerTransportConfig) (number : ℕ) :
    ¬ (config.rangeForClient u32Max).Holds number := by
  intro h
  obtain ⟨hslot, _⟩ := (holds_rangeForClient config u32Max number).mp h
  have hmax : (u32Max : U32).val = 4294967295 := rfl
  have hle : config.maxClientSlots ≤ 65536 := by
    unfold maxClientSlots
    split
    · omega
    · have hdiv := Nat.div_le_self (ENTITY_NUMBER_SPACE - config.clientBase)
        config.clientNetworkEntitiesLimit.val
      have hspace : ENTITY_NUMBER_SPACE = 65536 := rfl
      omega
  omega

end Catalyrst.SceneState
