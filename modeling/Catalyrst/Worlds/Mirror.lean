import Mathlib
import Catalyrst.Crypto.AuthChain
import Catalyrst.Lib.Chunks
import Catalyrst.Lib.Texts
import Catalyrst.Lib.Utf8

/-!
# The mirror of a peer's worlds

A poll asks a peer for its listing page by page, admits the entries whose names have a
plausible shape, and replaces the peer's rows in one transaction, sparing those that an
operator has hidden. The connection, the JSON parser, the date parser and the failures of the
database are parameters.
-/

namespace Catalyrst.Worlds

open Catalyrst.Crypto Catalyrst.Lib Catalyrst.Lib.Texts

/-! ### Names -/

def maxWorldNameLen : ℕ := 255

/-- Letters and digits of ASCII, dots, hyphens and underscores. -/
def isNameChar (c : Char) : Bool := c.isAlphanum ∨ c ∈ ['.', '-', '_']

def isShaped (n : Text) : Bool :=
  n ≠ [] ∧ Utf8.byteLength n ≤ maxWorldNameLen ∧ n.all isNameChar

/-- A name of the shape that is stored. -/
abbrev RemoteWorldName := { n : Text // isShaped n = true }

def fromPeerListing (raw : Text) : Option RemoteWorldName :=
  let n := (trim raw).map Char.toLower
  if h : isShaped n = true then some ⟨n, h⟩ else none

/-! ### Rows -/

structure RemoteWorld where
  peerId : Text
  name : RemoteWorldName
  title : Option Text
  description : Option Text
  contentRating : Option Text
  categories : Option (List Text)
  thumbnailHash : Option Text
  deployedScenes : ℤ
  lastDeployedAt : Option ℤ
  observedAt : ℤ
  /-- The veto of an operator. -/
  hiddenSince : Option ℤ

structure PeerWorldEntry where
  name : Text
  title : Option Text
  description : Option Text
  contentRating : Option Text
  categories : Option (List Text)
  thumbnailHash : Option Text
  deployedScenes : Option ℤ
  lastDeployedAt : Option Text

def maxTitleLen : ℕ := 512
def maxDescriptionLen : ℕ := 4096
def maxContentRatingLen : ℕ := 64
def maxThumbnailHashLen : ℕ := 128
def maxCategories : ℕ := 32
def maxCategoryLen : ℕ := 64

/-- A field that is too long is dropped. -/
def capped (v : Option Text) (max : ℕ) : Option Text :=
  v.filter fun s => s ≠ [] ∧ Utf8.byteLength s ≤ max

def cappedCategories (v : Option (List Text)) : Option (List Text) := do
  let v ← v
  let kept := (v.filter fun c => c ≠ [] ∧ Utf8.byteLength c ≤ maxCategoryLen).take maxCategories
  if kept = [] then none else some kept

inductive PollFailure where
  | transport (error : Text)
  | status (code : ℕ)
  | notJson (contentType : Text)
  | bodyTooLarge (bytes : ℕ)
  | malformed (error : Text)
  | store (error : Text)

/-- `local_names_also_claimed`, or why it could not answer. -/
inductive LocalNameCollisions where
  | checked (hits : List Text)
  | unavailable (reason : Text)

structure PollEnv where
  /-- `serde_json::from_slice` for a page: the error text, or the entries. -/
  fromSlice : Crypto.Bytes → Except Text (List PeerWorldEntry)
  parseRfc3339 : Text → Option ℤ

structure PageIntake where
  worlds : List RemoteWorld
  entriesSkipped : ℕ
  truncated : Bool
  entriesSeen : ℕ

section Intake

variable (env : PollEnv) (peerId : Text) (observedAt : ℤ)

def rowOf (entry : PeerWorldEntry) (name : RemoteWorldName) : RemoteWorld where
  peerId := peerId
  name := name
  title := capped entry.title maxTitleLen
  description := capped entry.description maxDescriptionLen
  contentRating := capped entry.contentRating maxContentRatingLen
  categories := cappedCategories entry.categories
  thumbnailHash := capped entry.thumbnailHash maxThumbnailHashLen
  deployedScenes := max (entry.deployedScenes.getD 0) 0
  lastDeployedAt := entry.lastDeployedAt.bind env.parseRfc3339
  observedAt := observedAt
  hiddenSince := none

/-- The loop over the entries; it stops at the first entry behind the budget. -/
def takeEntries (budget : ℕ) (out : PageIntake) : List PeerWorldEntry → PageIntake
  | [] => out
  | entry :: rest =>
    if budget ≤ out.worlds.length then { out with truncated := true }
    else
      match fromPeerListing entry.name with
      | none => takeEntries budget { out with entriesSkipped := out.entriesSkipped + 1 } rest
      | some name =>
        takeEntries budget { out with worlds := out.worlds ++ [rowOf env peerId observedAt entry name] }
          rest

/-- `is_ascii_whitespace`. -/
def isAsciiWhitespace (b : UInt8) : Bool := b ∈ [9, 10, 12, 13, 32]

def intakePage (body : Crypto.Bytes) (budget : ℕ) : Except Text PageIntake :=
  if (body.find? fun b => !isAsciiWhitespace b) ≠ some 123 then
    .error "peer response is not a JSON object, so it is not a worlds listing".toList
  else do
    let entries ← env.fromSlice body
    return takeEntries env peerId observedAt budget ⟨[], 0, false, entries.length⟩ entries

end Intake

/-! ### The store -/

abbrev Table := List RemoteWorld

def upsertChunk : ℕ := 500

/-- `ON CONFLICT DO UPDATE`: everything but the veto. -/
def upsertRow (table : Table) (w : RemoteWorld) : Table :=
  if table.any fun r => r.peerId = w.peerId ∧ r.name = w.name then
    table.map fun r =>
      if r.peerId = w.peerId ∧ r.name = w.name then { w with hiddenSince := r.hiddenSince } else r
  else table ++ [{ w with hiddenSince := none }]

/-- One statement, which must not name a row twice. -/
def upsert (table : Table) (chunk : List RemoteWorld) : Except Text Table :=
  if (chunk.map fun w => (w.peerId, w.name)).Nodup then .ok (chunk.foldl upsertRow table)
  else .error "ON CONFLICT DO UPDATE command cannot affect row a second time".toList

/-- The transaction; `fault` is what the database says if it does not go through. -/
def replacePeerWorlds (fault : Option Text) (table : Table) (peerId : Text)
    (worlds : List RemoteWorld) : Except Text Table :=
  match fault with
  | some e => .error e
  | none =>
    (chunks upsertChunk worlds).foldlM upsert
      (table.filter fun r => !(r.peerId = peerId ∧ r.hiddenSince.isNone))

/-! ### The poll -/

def pageSize : ℕ := 500

def maxPages (maxWorlds : ℕ) : ℕ := (maxWorlds + (pageSize - 1)) / pageSize + 2

structure PollReport where
  worldsObserved : ℕ
  entriesSkipped : ℕ
  truncated : Bool
  collisions : LocalNameCollisions

/-- The variables of the loop over the pages, and the requests made. -/
structure Poll where
  rows : List RemoteWorld
  seen : List RemoteWorldName
  skipped : ℕ
  truncated : Bool
  offset : ℕ
  requests : List (ℕ × ℕ)

def Poll.start : Poll := ⟨[], [], 0, false, 0, []⟩

/-- A name listed twice is counted and dropped. -/
def Poll.push (p : Poll) (world : RemoteWorld) : Poll :=
  if world.name ∈ p.seen then { p with skipped := p.skipped + 1 }
  else { p with seen := world.name :: p.seen, rows := p.rows ++ [world] }

def Poll.take (p : Poll) (intake : PageIntake) : Poll :=
  intake.worlds.foldl Poll.push
    { p with
      skipped := p.skipped + intake.entriesSkipped
      truncated := p.truncated || intake.truncated }

section Poll

variable (env : PollEnv) (peerId : Text) (observedAt : ℤ) (rowCap : ℕ)
  (fetchListingBytes : ℕ → ℕ → Except PollFailure Crypto.Bytes)

/-- The loop over at most `n` pages, and why it failed. -/
def collectPages : ℕ → Poll → Poll × Option PollFailure
  | 0, p => (p, none)
  | n + 1, p =>
    let remaining := rowCap - p.rows.length
    if remaining = 0 then ({ p with truncated := true }, none)
    else
      let p := { p with requests := p.requests ++ [(pageSize, p.offset)] }
      match fetchListingBytes pageSize p.offset with
      | .error e => (p, some e)
      | .ok body =>
        match intakePage env peerId observedAt body remaining with
        | .error e => (p, some (.malformed e))
        | .ok intake =>
          let p := p.take intake
          if p.truncated || intake.entriesSeen < pageSize then (p, none)
          else collectPages n { p with offset := p.offset + pageSize }

/-- What a poll leads to: its result, the table after it and the requests it made. -/
structure Outcome where
  result : Except PollFailure PollReport
  table : Table
  requests : List (ℕ × ℕ)

def collectAndApply (localNamesAlsoClaimed : List RemoteWorldName → Except Text (List Text))
    (fault : Option Text) (table : Table) : Outcome :=
  match collectPages env peerId observedAt rowCap fetchListingBytes (maxPages rowCap) .start with
  | (p, some e) => ⟨.error e, table, p.requests⟩
  | (p, none) =>
    match replacePeerWorlds fault table peerId p.rows with
    | .error e => ⟨.error (.store e), table, p.requests⟩
    | .ok table =>
      let collisions := match localNamesAlsoClaimed (p.rows.map RemoteWorld.name) with
        | .ok hits => .checked hits
        | .error e => .unavailable e
      ⟨.ok ⟨p.rows.length, p.skipped, p.truncated, collisions⟩, table, p.requests⟩

end Poll

end Catalyrst.Worlds
