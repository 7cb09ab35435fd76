import Mathlib
import Catalyrst.Lib.JsonValue
import Catalyrst.Sync.Orchestrator

/-!
# The snapshot list of a server

The entries of the list are arbitrary JSON. An entry whose load-bearing fields cannot
be used is discarded and counted, and the first few of these are logged, each cut to
512 bytes. The cut panics where it falls into a character.
-/

namespace Catalyrst.Sync

open Catalyrst.Lib

def maxReplacedSnapshotHashes : ℕ := 1000

def maxInvalidSnapshotLogs : ℕ := 5

structure TimeRange where
  initTimestamp : Timestamp
  endTimestamp : Timestamp

structure SnapshotMetadata where
  hash : Hash
  timeRange : TimeRange
  numberOfEntities : ℕ
  replacedSnapshotHashes : Option (List Hash)
  generationTimestamp : Timestamp

structure SnapshotsFromServer where
  snapshots : List SnapshotMetadata
  discarded : ℕ

/-! ### The names of the fields -/

def hashField : List Char := ['h', 'a', 's', 'h']

def timeRangeField : List Char := ['t', 'i', 'm', 'e', 'R', 'a', 'n', 'g', 'e']

def initTimestampField : List Char :=
  ['i', 'n', 'i', 't', 'T', 'i', 'm', 'e', 's', 't', 'a', 'm', 'p']

def endTimestampField : List Char := ['e', 'n', 'd', 'T', 'i', 'm', 'e', 's', 't', 'a', 'm', 'p']

def replacedSnapshotHashesField : List Char :=
  ['r', 'e', 'p', 'l', 'a', 'c', 'e', 'd', 'S', 'n', 'a', 'p', 's', 'h', 'o', 't', 'H', 'a', 's',
    'h', 'e', 's']

def numberOfEntitiesField : List Char :=
  ['n', 'u', 'm', 'b', 'e', 'r', 'O', 'f', 'E', 'n', 't', 'i', 't', 'i', 'e', 's']

def generationTimestampField : List Char :=
  ['g', 'e', 'n', 'e', 'r', 'a', 't', 'i', 'o', 'n', 'T', 'i', 'm', 'e', 's', 't', 'a', 'm', 'p']

/-! ### Content ids -/

def isBase58 (c : Char) : Bool :=
  ('1' ≤ c && c ≤ '9') || ('A' ≤ c && c ≤ 'H') || ('J' ≤ c && c ≤ 'N') || ('P' ≤ c && c ≤ 'Z') ||
    ('a' ≤ c && c ≤ 'k') || ('m' ≤ c && c ≤ 'z')

def isBase32 (c : Char) : Bool := ('a' ≤ c && c ≤ 'z') || ('2' ≤ c && c ≤ '7')

def isCanonicalContentId (id : Hash) : Bool :=
  if id.isEmpty || decide (100 < Utf8.byteLength id) then false
  else
    let cidv0 := decide (Utf8.byteLength id = 46) && ['Q', 'm'].isPrefixOf id &&
      (id.drop 2).all isBase58
    let cidv1 := ['b', 'a'].isPrefixOf id && decide (58 ≤ Utf8.byteLength id) &&
      (id.drop 2).all isBase32
    cidv0 || cidv1

/-! ### One entry -/

/-- A hash of the list of replaced snapshots. -/
def replacedHash (h : JsonValue) : Option Hash :=
  h.asStr.bind fun h => if isCanonicalContentId h then some h else none

/-- The hashes an entry replaces, if it names any; there is no result if they are unusable. -/
def replacedHashes (value : JsonValue) : Option (Option (List Hash)) :=
  match value.get replacedSnapshotHashesField with
  | none => some none
  | some .null => some none
  | some (.array hashes) =>
    if hashes.length > maxReplacedSnapshotHashes then none
    else (hashes.mapM replacedHash).map some
  | some _ => none

def parseSnapshotMetadata (value : JsonValue) (nowMs : Timestamp) : Option SnapshotMetadata := do
  let hash ← (← value.get hashField).asStr
  if !isCanonicalContentId hash then none
  else
    let timeRange ← value.get timeRangeField
    let initTimestamp ← (← timeRange.get initTimestampField).asI64
    let endTimestamp ← (← timeRange.get endTimestampField).asI64
    if !isUsableTimestamp initTimestamp nowMs || !isUsableTimestamp endTimestamp nowMs ||
        initTimestamp > endTimestamp then none
    else
      let replacedSnapshotHashes ← replacedHashes value
      return {
        hash
        timeRange := { initTimestamp, endTimestamp }
        numberOfEntities := ((value.get numberOfEntitiesField).bind JsonValue.asU64).getD 0
        replacedSnapshotHashes
        generationTimestamp := ((value.get generationTimestampField).bind JsonValue.asI64).getD 0 }

/-! ### The list -/

/-- An entry of the list, or a panic. The preview goes to the log only. -/
def readSnapshot (nowMs : Timestamp) (acc : SnapshotsFromServer) (item : JsonValue) :
    Option SnapshotsFromServer :=
  match parseSnapshotMetadata item nowMs with
  | some snapshot => some { acc with snapshots := acc.snapshots ++ [snapshot] }
  | none =>
    let discarded := acc.discarded + 1
    if discarded ≤ maxInvalidSnapshotLogs then
      (Utf8.truncate 512 item.render).map fun _preview => { acc with discarded }
    else some { acc with discarded }

/-- Newest first; snapshots with one end timestamp keep their order. -/
def newestFirst (snapshots : List SnapshotMetadata) : List SnapshotMetadata :=
  snapshots.insertionSort fun a b => b.timeRange.endTimestamp ≤ a.timeRange.endTimestamp

/-- The usable entries, or `none` for a panic. -/
def parseSnapshotsResponse (items : List JsonValue) (nowMs : Timestamp) :
    Option SnapshotsFromServer :=
  (items.foldlM (readSnapshot nowMs) ⟨[], 0⟩).map fun r =>
    { r with snapshots := newestFirst r.snapshots }

/-! ### Usable entries -/

/-- The number under a field. -/
def timestampOf (value : JsonValue) (field : List Char) : Option Timestamp :=
  (value.get field).bind JsonValue.asI64

/-- The fields of an entry that the node depends on can be used. -/
structure Usable (nowMs : Timestamp) (value : JsonValue) : Prop where
  hash : ∃ h, value.get hashField = some (.string h) ∧ isCanonicalContentId h = true
  timeRange : ∃ range first last, value.get timeRangeField = some range ∧
    timestampOf range initTimestampField = some first ∧
    timestampOf range endTimestampField = some last ∧
    0 ≤ first ∧ first ≤ last ∧ last ≤ nowMs + maxTimestampClockSkewMs
  replaced : value.get replacedSnapshotHashesField = none ∨
    value.get replacedSnapshotHashesField = some .null ∨
    ∃ hashes, value.get replacedSnapshotHashesField = some (.array hashes) ∧
      hashes.length ≤ maxReplacedSnapshotHashes ∧
      ∀ h ∈ hashes, ∃ text, h = .string text ∧ isCanonicalContentId text = true

theorem asStr_eq_some {value : JsonValue} {s : List Char} :
    value.asStr = some s ↔ value = .string s := by
  cases value <;> simp [JsonValue.asStr]

theorem replacedHash_eq_some {value : JsonValue} {h : Hash} :
    replacedHash value = some h ↔ value = .string h ∧ isCanonicalContentId h = true := by
  unfold replacedHash
  rw [Option.bind_eq_some_iff]
  constructor
  · rintro ⟨text, htext, hh⟩
    split at hh
    · rename_i hcanonical
      cases hh
      exact ⟨asStr_eq_some.mp htext, hcanonical⟩
    · cases hh
  · rintro ⟨hvalue, hcanonical⟩
    exact ⟨h, asStr_eq_some.mpr hvalue, if_pos hcanonical⟩

theorem mapM_isSome {α β : Type} {f : α → Option β} {l : List α} :
    (l.mapM f).isSome ↔ ∀ a ∈ l, (f a).isSome := by
  induction l with
  | nil => simp
  | cons a l ih =>
    rw [List.mapM_cons, List.forall_mem_cons, ← ih]
    cases f a with
    | none => simp
    | some b => cases l.mapM f <;> simp

/-- The hashes an entry replaces can be used. -/
theorem replacedHashes_isSome {value : JsonValue} : (replacedHashes value).isSome ↔
    value.get replacedSnapshotHashesField = none ∨
      value.get replacedSnapshotHashesField = some .null ∨
      ∃ hashes, value.get replacedSnapshotHashesField = some (.array hashes) ∧
        hashes.length ≤ maxReplacedSnapshotHashes ∧
        ∀ h ∈ hashes, ∃ text, h = .string text ∧ isCanonicalContentId text = true := by
  unfold replacedHashes
  cases value.get replacedSnapshotHashesField with
  | none => simp
  | some v =>
    cases v with
    | null => simp
    | array hashes =>
      have hall : (hashes.mapM replacedHash).isSome ↔
          ∀ h ∈ hashes, ∃ text, h = .string text ∧ isCanonicalContentId text = true := by
        rw [mapM_isSome]
        simp only [Option.isSome_iff_exists, replacedHash_eq_some]
      by_cases hlen : hashes.length ≤ maxReplacedSnapshotHashes
      · simp [hlen, not_lt.mpr hlen, hall]
      · simp [hlen, not_le.mp hlen]
    | _ => simp

theorem isUsableTimestamp_iff {ts nowMs : Timestamp} :
    isUsableTimestamp ts nowMs = true ↔ 0 ≤ ts ∧ ts ≤ nowMs + maxTimestampClockSkewMs :=
  decide_eq_true_iff

theorem parseSnapshotMetadata_eq_some {value : JsonValue} {nowMs : Timestamp}
    {s : SnapshotMetadata} : parseSnapshotMetadata value nowMs = some s ↔
      ∃ hash range first last replaced, value.get hashField = some (.string hash) ∧
        isCanonicalContentId hash = true ∧ value.get timeRangeField = some range ∧
        timestampOf range initTimestampField = some first ∧
        timestampOf range endTimestampField = some last ∧
        (0 ≤ first ∧ first ≤ last ∧ last ≤ nowMs + maxTimestampClockSkewMs) ∧
        replacedHashes value = some replaced ∧
        s = ⟨hash, ⟨first, last⟩,
          ((value.get numberOfEntitiesField).bind JsonValue.asU64).getD 0, replaced,
          ((value.get generationTimestampField).bind JsonValue.asI64).getD 0⟩ := by
  simp only [parseSnapshotMetadata, Option.bind_eq_bind, Option.bind_eq_some_iff, asStr_eq_some]
  constructor
  · rintro ⟨v, hget, hash, rfl, h⟩
    split at h
    · cases h
    rename_i hcanonical
    rw [Bool.not_eq_true, Bool.not_eq_false'] at hcanonical
    simp only [Option.bind_eq_some_iff] at h
    obtain ⟨range, hrange, a, ha, first, hfirst, b, hb, last, hlast, h⟩ := h
    split at h
    · cases h
    rename_i hbounds
    simp only [Bool.or_eq_true, Bool.not_eq_true', decide_eq_true_eq, not_or,
      Bool.not_eq_false, isUsableTimestamp_iff, not_lt] at hbounds
    obtain ⟨replaced, hreplaced, h⟩ := Option.bind_eq_some_iff.mp h
    obtain ⟨⟨⟨h0, -⟩, -, hskew⟩, hle⟩ := hbounds
    exact ⟨hash, range, first, last, replaced, hget, hcanonical, hrange,
      Option.bind_eq_some_iff.mpr ⟨a, ha, hfirst⟩, Option.bind_eq_some_iff.mpr ⟨b, hb, hlast⟩,
      ⟨h0, hle, hskew⟩, hreplaced, (Option.some.inj h).symm⟩
  · rintro ⟨hash, range, first, last, replaced, hget, hcanonical, hrange, hfirst, hlast,
      ⟨h0, hle, hskew⟩, hreplaced, rfl⟩
    obtain ⟨a, ha, hfirst⟩ := Option.bind_eq_some_iff.mp hfirst
    obtain ⟨b, hb, hlast⟩ := Option.bind_eq_some_iff.mp hlast
    have hfirstUsable := isUsableTimestamp_iff.mpr ⟨h0, hle.trans hskew⟩
    have hlastUsable := isUsableTimestamp_iff.mpr ⟨h0.trans hle, hskew⟩
    refine ⟨_, hget, hash, rfl, (if_neg (by simp [hcanonical])).trans ?_⟩
    simp only [Option.bind_eq_some_iff]
    exact ⟨range, hrange, a, ha, first, hfirst, b, hb, last, hlast, by
      rw [hfirstUsable, hlastUsable, hreplaced]
      simp [not_lt.mpr hle]⟩

/-- An entry is parsed exactly when it is usable. -/
theorem parseSnapshotMetadata_isSome {value : JsonValue} {nowMs : Timestamp} :
    (parseSnapshotMetadata value nowMs).isSome ↔ Usable nowMs value := by
  rw [Option.isSome_iff_exists]
  constructor
  · rintro ⟨s, hs⟩
    obtain ⟨hash, range, first, last, replaced, hget, hcanonical, hrange, hfirst, hlast, hbounds,
      hreplaced, -⟩ := parseSnapshotMetadata_eq_some.mp hs
    exact ⟨⟨hash, hget, hcanonical⟩, ⟨range, first, last, hrange, hfirst, hlast, hbounds⟩,
      replacedHashes_isSome.mp (Option.isSome_iff_exists.mpr ⟨replaced, hreplaced⟩)⟩
  · rintro ⟨⟨hash, hget, hcanonical⟩, ⟨range, first, last, hrange, hfirst, hlast, hbounds⟩, h⟩
    obtain ⟨replaced, hreplaced⟩ := Option.isSome_iff_exists.mp (replacedHashes_isSome.mpr h)
    exact ⟨_, parseSnapshotMetadata_eq_some.mpr ⟨hash, range, first, last, replaced, hget,
      hcanonical, hrange, hfirst, hlast, hbounds, hreplaced, rfl⟩⟩

instance (nowMs : Timestamp) (value : JsonValue) : Decidable (Usable nowMs value) :=
  decidable_of_iff _ parseSnapshotMetadata_isSome

theorem parseSnapshotMetadata_eq_none {value : JsonValue} {nowMs : Timestamp} :
    parseSnapshotMetadata value nowMs = none ↔ ¬ Usable nowMs value := by
  rw [← parseSnapshotMetadata_isSome, Option.not_isSome_iff_eq_none]

/-! ### The loop -/

/-- The entries that are discarded. -/
def unusable (nowMs : Timestamp) (items : List JsonValue) : List JsonValue :=
  items.filter fun item => ¬ Usable nowMs item

/-- The snapshots of the others. -/
def parsed (nowMs : Timestamp) (items : List JsonValue) : List SnapshotMetadata :=
  items.filterMap fun item => parseSnapshotMetadata item nowMs

/-- No entry is cut within a character. -/
def CutsNone (items : List JsonValue) : Prop := ∀ item ∈ items, ¬ Utf8.Cuts 512 item.render

instance (items : List JsonValue) : Decidable (CutsNone items) :=
  inferInstanceAs (Decidable (∀ item ∈ items, ¬ Utf8.Cuts 512 item.render))

theorem cutsNone_cons {item : JsonValue} {items : List JsonValue} :
    CutsNone (item :: items) ↔ ¬ Utf8.Cuts 512 item.render ∧ CutsNone items :=
  List.forall_mem_cons

section

variable {nowMs : Timestamp} {item : JsonValue}

theorem parsed_cons_some (items : List JsonValue) {s : SnapshotMetadata}
    (h : parseSnapshotMetadata item nowMs = some s) :
    unusable nowMs (item :: items) = unusable nowMs items ∧
      parsed nowMs (item :: items) = s :: parsed nowMs items := by
  have husable : Usable nowMs item := by
    rw [← parseSnapshotMetadata_isSome, h]
    rfl
  refine ⟨List.filter_cons_of_neg (by simpa using husable), ?_⟩
  rw [parsed, List.filterMap_cons, h]
  rfl

theorem parsed_cons_none (items : List JsonValue)
    (h : parseSnapshotMetadata item nowMs = none) :
    unusable nowMs (item :: items) = item :: unusable nowMs items ∧
      parsed nowMs (item :: items) = parsed nowMs items := by
  have hunusable := parseSnapshotMetadata_eq_none.mp h
  refine ⟨List.filter_cons_of_pos (by simpa using hunusable), ?_⟩
  rw [parsed, List.filterMap_cons, h]
  rfl

end

/-- The loop goes through unless one of the entries it logs is cut within a character. -/
theorem foldlM_readSnapshot (nowMs : Timestamp) (items : List JsonValue)
    (acc : SnapshotsFromServer) :
    items.foldlM (readSnapshot nowMs) acc =
      if CutsNone ((unusable nowMs items).take (maxInvalidSnapshotLogs - acc.discarded)) then
        some ⟨acc.snapshots ++ parsed nowMs items,
          acc.discarded + (unusable nowMs items).length⟩
      else none := by
  induction items generalizing acc with
  | nil =>
    have hnone : CutsNone ((unusable nowMs []).take (maxInvalidSnapshotLogs - acc.discarded)) := by
      intro item hitem
      simp [unusable] at hitem
    rw [if_pos hnone]
    simp [unusable, parsed]
  | cons item items ih =>
    rw [List.foldlM_cons]
    cases hparse : parseSnapshotMetadata item nowMs with
    | some snapshot =>
      obtain ⟨hrest, hkept⟩ := parsed_cons_some items hparse
      have hstep : readSnapshot nowMs acc item =
          some { acc with snapshots := acc.snapshots ++ [snapshot] } := by
        rw [readSnapshot, hparse]
      rw [hstep, hrest, hkept, Option.bind_eq_bind, Option.bind_some, ih, List.append_assoc,
        List.singleton_append]
    | none =>
      obtain ⟨hrest, hkept⟩ := parsed_cons_none items hparse
      rw [hrest, hkept, List.length_cons]
      by_cases hlog : acc.discarded + 1 ≤ maxInvalidSnapshotLogs
      · obtain ⟨k, hk⟩ : ∃ k, maxInvalidSnapshotLogs - acc.discarded = k + 1 :=
          ⟨maxInvalidSnapshotLogs - acc.discarded - 1, by omega⟩
        have hk' : maxInvalidSnapshotLogs - (acc.discarded + 1) = k := by omega
        rw [hk, List.take_succ_cons]
        by_cases hcut : Utf8.Cuts 512 item.render
        · have hstep : readSnapshot nowMs acc item = none := by
            rw [readSnapshot, hparse]
            simp [hlog, Utf8.truncate_eq_none.mpr hcut]
          rw [hstep, if_neg fun hall => (cutsNone_cons.mp hall).1 hcut]
          rfl
        · have hstep : readSnapshot nowMs acc item =
              some { acc with discarded := acc.discarded + 1 } := by
            obtain ⟨preview, hpreview⟩ := Option.ne_none_iff_exists'.mp
              (mt Utf8.truncate_eq_none.mp hcut)
            rw [readSnapshot, hparse]
            simp [hlog, hpreview]
          rw [hstep, Option.bind_eq_bind, Option.bind_some, ih, hk', Nat.add_assoc,
            Nat.add_comm 1]
          refine if_congr ?_ rfl rfl
          rw [cutsNone_cons, and_iff_right hcut]
      · have hstep : readSnapshot nowMs acc item =
            some { acc with discarded := acc.discarded + 1 } := by
          rw [readSnapshot, hparse]
          simp [hlog]
        have hzero : maxInvalidSnapshotLogs - acc.discarded = 0 := by omega
        have hzero' : maxInvalidSnapshotLogs - (acc.discarded + 1) = 0 := by omega
        rw [hstep, Option.bind_eq_bind, Option.bind_some, ih, hzero, hzero', Nat.add_assoc,
          Nat.add_comm 1]
        rfl

/-! ### The response -/

theorem newestFirst_perm (snapshots : List SnapshotMetadata) :
    (newestFirst snapshots).Perm snapshots := List.perm_insertionSort _ _

theorem newestFirst_sorted (snapshots : List SnapshotMetadata) :
    (newestFirst snapshots).Pairwise fun a b =>
      b.timeRange.endTimestamp ≤ a.timeRange.endTimestamp := by
  have htotal : Std.Total fun a b : SnapshotMetadata =>
      b.timeRange.endTimestamp ≤ a.timeRange.endTimestamp := ⟨fun _ _ => le_total _ _⟩
  have htrans : IsTrans SnapshotMetadata fun a b =>
      b.timeRange.endTimestamp ≤ a.timeRange.endTimestamp := ⟨fun _ _ _ hab hbc => hbc.trans hab⟩
  exact List.pairwise_insertionSort _ _

theorem parseSnapshotsResponse_eq (items : List JsonValue) (nowMs : Timestamp) :
    parseSnapshotsResponse items nowMs =
      if CutsNone ((unusable nowMs items).take maxInvalidSnapshotLogs) then
        some ⟨newestFirst (parsed nowMs items), (unusable nowMs items).length⟩
      else none := by
  rw [parseSnapshotsResponse, foldlM_readSnapshot, Nat.sub_zero, List.nil_append, Nat.zero_add]
  split <;> rfl

/-- The response gives one snapshot for each usable entry, newest first, and counts the rest. -/
structure Faithful (items : List JsonValue) (nowMs : Timestamp) (r : SnapshotsFromServer) :
    Prop where
  total : r.snapshots.length + r.discarded = items.length
  sorted : r.snapshots.Pairwise fun a b => b.timeRange.endTimestamp ≤ a.timeRange.endTimestamp
  parses : (r.snapshots.map some).Perm
    ((items.filter fun item => Usable nowMs item).map fun item => parseSnapshotMetadata item nowMs)
  bounded : ∀ s ∈ r.snapshots, s.timeRange.initTimestamp ≤ s.timeRange.endTimestamp ∧
    s.timeRange.endTimestamp ≤ nowMs + maxTimestampClockSkewMs
  discards : r.discarded = items.countP fun item => ¬ Usable nowMs item

theorem map_some_parsed (nowMs : Timestamp) (items : List JsonValue) :
    (parsed nowMs items).map some =
      (items.filter fun item => Usable nowMs item).map fun item =>
        parseSnapshotMetadata item nowMs := by
  induction items with
  | nil => rfl
  | cons item items ih =>
    cases hparse : parseSnapshotMetadata item nowMs with
    | some s =>
      have husable : Usable nowMs item := by
        rw [← parseSnapshotMetadata_isSome, hparse]
        rfl
      rw [(parsed_cons_some items hparse).2, List.filter_cons_of_pos (by simpa using husable),
        List.map_cons, List.map_cons, hparse, ih]
    | none =>
      have hunusable := parseSnapshotMetadata_eq_none.mp hparse
      rw [(parsed_cons_none items hparse).2, List.filter_cons_of_neg (by simpa using hunusable), ih]

theorem faithful_parsed (items : List JsonValue) (nowMs : Timestamp) :
    Faithful items nowMs
      ⟨newestFirst (parsed nowMs items), (unusable nowMs items).length⟩ where
  total := by
    have hlen := congrArg List.length (map_some_parsed nowMs items)
    rw [List.length_map, List.length_map] at hlen
    have hsplit := List.length_eq_length_filter_add (l := items) fun item =>
      decide (Usable nowMs item)
    dsimp only
    rw [(newestFirst_perm _).length_eq, hlen, hsplit]
    simp only [unusable, decide_not]
  sorted := newestFirst_sorted _
  parses := by
    rw [← map_some_parsed]
    exact (newestFirst_perm _).map some
  bounded s hs := by
    obtain ⟨item, -, hitem⟩ := List.mem_filterMap.mp ((newestFirst_perm _).mem_iff.mp hs)
    obtain ⟨hash, range, first, last, replaced, -, -, -, -, -, ⟨-, hle, hskew⟩, -, rfl⟩ :=
      parseSnapshotMetadata_eq_some.mp hitem
    exact ⟨hle, hskew⟩
  discards := List.countP_eq_length_filter.symm

/-- A response is read, and faithfully, exactly when none of the first few unusable entries is
cut within a character. -/
theorem parseSnapshotsResponse_iff (items : List JsonValue) (nowMs : Timestamp) :
    (∃ r, parseSnapshotsResponse items nowMs = some r ∧ Faithful items nowMs r) ↔
      CutsNone ((unusable nowMs items).take maxInvalidSnapshotLogs) := by
  rw [parseSnapshotsResponse_eq]
  constructor
  · rintro ⟨r, hr, -⟩
    by_contra hcuts
    rw [if_neg hcuts] at hr
    cases hr
  · intro hcuts
    exact ⟨_, if_pos hcuts, faithful_parsed items nowMs⟩

/-- A response whose unusable entries are all of single bytes is read. -/
theorem parseSnapshotsResponse_ascii {items : List JsonValue} {nowMs : Timestamp}
    (h : ∀ item ∈ items, ¬ Usable nowMs item → item.Ascii) :
    ∃ r, parseSnapshotsResponse items nowMs = some r ∧ Faithful items nowMs r := by
  have hcuts : CutsNone ((unusable nowMs items).take maxInvalidSnapshotLogs) := by
    intro item hitem
    obtain ⟨hmem, hunusable⟩ := List.mem_filter.mp (List.mem_of_mem_take hitem)
    exact (JsonValue.render_ascii item (h item hmem (of_decide_eq_true hunusable))).not_cuts
  rw [parseSnapshotsResponse_eq, if_pos hcuts]
  exact ⟨_, rfl, faithful_parsed items nowMs⟩

/-- A string of characters of two bytes, put out between quotes. -/
def wideEntry : JsonValue := .string (List.replicate 256 'é')

/-- The entry is not an object, and byte 512 of it is the second one of a character. -/
theorem wideEntry_panics :
    ¬ ∃ r, parseSnapshotsResponse [wideEntry] 1750000000000 = some r ∧
      Faithful [wideEntry] 1750000000000 r := by
  have hnone : parseSnapshotsResponse [wideEntry] 1750000000000 = none := by decide +kernel
  rintro ⟨r, hr, -⟩
  rw [hnone] at hr
  cases hr

end Catalyrst.Sync
