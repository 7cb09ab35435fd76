import Catalyrst.Content.QueryParams

/-!
# The deployment history

Two endpoints list the rows of `deployments` in pages: `/deployments` and `/pointer-changes`. A
page that more rows follow links to the next one: a query string that repeats the filters of the
request and puts the time and the id of the last row into its bounds. The times in a link are whole
milliseconds; the column holds microseconds. The links of `/deployments` are percent-coded, those
of `/pointer-changes` are not.
-/

namespace Catalyrst.Content

open Catalyrst.Lib Catalyrst.Lib.Texts Catalyrst.Lib.Numeral

inductive SortingField where
  | localTimestamp
  | entityTimestamp
deriving DecidableEq, Repr

inductive SortingOrder where
  | asc
  | desc
deriving DecidableEq, Repr

/-- The columns of `deployments` that the listings read. Times are in microseconds. -/
structure HistoryRow where
  entityType : Text
  entityId : EntityId
  pointers : List Pointer
  deployerAddress : Text
  entityTimestamp : ℤ
  localTimestamp : ℤ
  deleterDeployment : Option ℕ
deriving DecidableEq, Repr

/-- What Rust and SQL do with texts, and `date_part('epoch', t) * 1000 as i64`, which cuts off a
part of a millisecond. -/
structure HistoryEnv where
  loc : Locale
  fromUtf8Lossy : Urlencoded.Bytes → Text
  fromUtf8Lossy_utf8 : ∀ s, fromUtf8Lossy (Urlencoded.utf8 s) = s
  toUppercase : Text → Text
  toUppercase_ascii : ∀ s : Text, (∀ c ∈ s, c.toNat < 128) → toUppercase s = s.map Char.toUpper
  lower_toLowercase : ∀ s, loc.lower (loc.toLowercase s) = loc.lower s
  toLowercase_idem : ∀ s, loc.toLowercase (loc.toLowercase s) = loc.toLowercase s
  millis : ℤ → ℤ
  millis_i64 : ∀ t, -2 ^ 63 ≤ millis t ∧ millis t < 2 ^ 63
  millis_le : ∀ t, 0 ≤ t → 1000 * millis t ≤ t

def HistoryRow.time (d : HistoryRow) : SortingField → ℤ
  | .localTimestamp => d.localTimestamp
  | .entityTimestamp => d.entityTimestamp

/-! ### Requests -/

def MAX_HISTORY_LIMIT : ℤ := 500

def MAX_DEPLOYMENT_FILTER_VALUES : ℕ := 1000

def MAX_OFFSET : ℤ := 5000

def DEFAULT_FIELDS : List Text := ["pointers".toList, "content".toList, "metadata".toList]

def VALID_DEPLOYMENT_FIELDS : List Text :=
  ["pointers".toList, "content".toList, "metadata".toList, "auditInfo".toList]

def curateLimit (limit : Option ℤ) : ℕ :=
  match limit with
  | some l => if 0 < l ∧ l ≤ MAX_HISTORY_LIMIT then l.toNat else MAX_HISTORY_LIMIT.toNat
  | none => MAX_HISTORY_LIMIT.toNat

def curateOffset (offset : Option ℤ) : ℕ :=
  match offset with
  | some o => if 0 ≤ o then o.toNat else 0
  | none => 0

def parseEntityType (env : HistoryEnv) (raw : Text) : Option Text :=
  let t := if raw.getLast? = some 's' then raw.dropLast else raw
  let t := trim (env.toUppercase t)
  if t = "SCENE".toList then some "scene".toList
  else if t = "PROFILE".toList then some "profile".toList
  else if t = "WEARABLE".toList then some "wearable".toList
  else if t = "STORE".toList then some "store".toList
  else if t = "EMOTE".toList then some "emote".toList
  else if t = "OUTFITS".toList then some "outfits".toList
  else none

def camelToSnake : Text → Text
  | [] => []
  | c :: s => c.toLower :: s.flatMap fun c => if c.isUpper then ['_', c.toLower] else [c]

def parseSortingField (s : Text) : Except Text SortingField :=
  let snake := camelToSnake s
  if snake = "local_timestamp".toList then .ok .localTimestamp
  else if snake = "entity_timestamp".toList then .ok .entityTimestamp
  else .error "Found an unrecognized sort field param".toList

def parseSortingOrder (s : Text) : Except Text SortingOrder :=
  if s = "ASC".toList then .ok .asc
  else if s = "DESC".toList then .ok .desc
  else .error "Found an unrecognized sort order param".toList

def SortingField.name : SortingField → Text
  | .localTimestamp => "local_timestamp".toList
  | .entityTimestamp => "entity_timestamp".toList

def SortingOrder.name : SortingOrder → Text
  | .asc => "ASC".toList
  | .desc => "DESC".toList

structure DeploymentQueryOptions where
  entityTypes : List Text
  entityIds : List Text
  pointers : List Text
  deployedBy : List Text
  fromTime : Option ℤ
  toTime : Option ℤ
  onlyCurrentlyPointed : Option Bool
  fields : List Text
  sortingField : Option SortingField
  sortingOrder : Option SortingOrder
  offset : Option ℤ
  limit : Option ℤ
  lastId : Option Text
deriving DecidableEq, Repr

def parseEntityTypes (env : HistoryEnv) (raw : List Text) : Except Text (List Text) :=
  match raw.mapM (parseEntityType env) with
  | some types => .ok types
  | none => .error "Found an unrecognized entity type".toList

def parseFields : Option Text → List Text
  | some f =>
    if trim f = [] then DEFAULT_FIELDS
    else ((f.splitOn ',').filter fun s => trim s ∈ VALID_DEPLOYMENT_FIELDS).map trim
  | none => DEFAULT_FIELDS

def checkOffset (offset : Option ℤ) : Except Text Unit :=
  if offset.any fun off => MAX_OFFSET < off then
    .error ("Offset can't be higher than 5000. ".toList ++
      "Please use the 'next' property for pagination.".toList)
  else .ok ()

section Endpoints

variable (env : HistoryEnv)

def parseDeploymentQueryOptions (params : QueryParams) : Except Text DeploymentQueryOptions := do
  let entityTypes ← parseEntityTypes env (qsGetArray params "entityType".toList)
  let entityIds := qsGetArray params "entityId".toList
  let pointers := (qsGetArray params "pointer".toList).map env.loc.toLowercase
  let deployedBy := (qsGetArray params "deployedBy".toList).map env.loc.toLowercase
  if MAX_DEPLOYMENT_FILTER_VALUES < entityIds.length ∨
      MAX_DEPLOYMENT_FILTER_VALUES < pointers.length ∨
      MAX_DEPLOYMENT_FILTER_VALUES < entityTypes.length then
    throw "Too many filter values; the maximum allowed per filter is 1000".toList
  let sortingField ← (qsGetString params "sortingField".toList).mapM parseSortingField
  let sortingOrder ← (qsGetString params "sortingOrder".toList).mapM parseSortingOrder
  checkOffset (qsGetNumber params "offset".toList)
  return {
    entityTypes := entityTypes
    entityIds := entityIds
    pointers := pointers
    deployedBy := deployedBy
    fromTime := qsGetNumber params "from".toList
    toTime := qsGetNumber params "to".toList
    onlyCurrentlyPointed := qsGetBool params "onlyCurrentlyPointed".toList
    fields := parseFields (qsGetString params "fields".toList)
    sortingField := sortingField
    sortingOrder := sortingOrder
    offset := qsGetNumber params "offset".toList
    limit := qsGetNumber params "limit".toList
    lastId := (qsGetString params "lastId".toList).map env.loc.toLowercase }

/-! ### Pages -/

/-- The columns a listing is ordered by. -/
def HistoryRow.key (field : SortingField) (d : HistoryRow) : ℤ ×ₗ Text :=
  toLex (d.time field, env.loc.lowerKey d.entityId)

/-- What a bound in a request is compared with. -/
def cursor (timestamp : ℤ) (lastId : Text) : ℤ ×ₗ Text :=
  toLex (1000 * timestamp, env.loc.lowerKey lastId)

def inOrder (field : SortingField) (order : SortingOrder) (a b : HistoryRow) : Prop :=
  match order with
  | .asc => a.key env field ≤ b.key env field
  | .desc => b.key env field ≤ a.key env field

instance (field : SortingField) (order : SortingOrder) : DecidableRel (inOrder env field order) :=
  fun a b => match order with
    | .asc => inferInstanceAs (Decidable (a.key env field ≤ b.key env field))
    | .desc => inferInstanceAs (Decidable (b.key env field ≤ a.key env field))

/-- The rows of a page and whether more follow. -/
def historyPage (rows : List HistoryRow) (offset limit : ℕ) : List HistoryRow × Bool :=
  let fetched := (rows.drop offset).take (limit + 1)
  if limit < fetched.length then (fetched.take limit, true) else (fetched, false)

namespace DeploymentQueryOptions

variable (q : DeploymentQueryOptions)

def field : SortingField := q.sortingField.getD .localTimestamp

def order : SortingOrder := q.sortingOrder.getD .desc

def admitsFrom (d : HistoryRow) : Bool :=
  match q.fromTime, q.lastId, q.order with
  | none, _, _ => true
  | some t, some lastId, .asc => decide (cursor env t lastId < d.key env q.field)
  | some t, _, _ => decide (1000 * t ≤ d.time q.field)

def admitsTo (d : HistoryRow) : Bool :=
  match q.toTime, q.lastId, q.order with
  | none, _, _ => true
  | some t, some lastId, .desc => decide (d.key env q.field < cursor env t lastId)
  | some t, _, _ => decide (d.time q.field ≤ 1000 * t)

/-- The conditions that do not bound the time. -/
def admitsRest (d : HistoryRow) : Bool :=
  decide (q.entityTypes = [] ∨ d.entityType ∈ q.entityTypes) &&
    decide (q.entityIds = [] ∨ d.entityId ∈ q.entityIds) &&
    decide (q.onlyCurrentlyPointed = some true → d.deleterDeployment = none) &&
    decide (q.pointers = [] ∨ ∃ p ∈ q.pointers, env.loc.toLowercase p ∈ d.pointers) &&
    decide (q.deployedBy = [] ∨
      env.loc.lower d.deployerAddress ∈ q.deployedBy.map env.loc.toLowercase)

def admits (d : HistoryRow) : Bool := q.admitsFrom env d && q.admitsTo env d && q.admitsRest env d

/-- The rows that the query asks for, in the order it asks for. -/
def listing (table : List HistoryRow) : List HistoryRow :=
  (table.filter (q.admits env)).insertionSort (inOrder env q.field q.order)

/-- The fields of a link; the default ones are left out. -/
def fieldsParam : List Text :=
  let fieldsStr := [','].intercalate q.fields
  if q.fields.length = DEFAULT_FIELDS.length ∧ ∀ f ∈ q.fields, f ∈ DEFAULT_FIELDS then []
  else if fieldsStr = [] then []
  else [fieldsStr]

/-- The parameters of a link; one that is left out has no value here. -/
def nextParams (last : HistoryRow) : List (Text × List Text) :=
  let timestamp := showInt (env.millis (last.time q.field))
  [("entityType".toList, q.entityTypes),
    ("entityId".toList, q.entityIds),
    ("pointer".toList, q.pointers),
    ("deployedBy".toList, q.deployedBy),
    ("onlyCurrentlyPointed".toList,
      if q.onlyCurrentlyPointed = some true then ["true".toList] else []),
    ("from".toList, if q.order = .asc then [timestamp] else (q.fromTime.map showInt).toList),
    ("to".toList, if q.order = .asc then (q.toTime.map showInt).toList else [timestamp]),
    ("fields".toList, q.fieldsParam),
    ("sortingField".toList, [q.field.name]),
    ("sortingOrder".toList, [q.order.name]),
    ("lastId".toList, [last.entityId]),
    ("limit".toList, (q.limit.map showInt).toList)]

end DeploymentQueryOptions

structure HistoryResponse where
  rows : List HistoryRow
  moreData : Bool
  next : Option Text

structure PointerChangesQueryOptions where
  entityTypes : List Text
  fromTime : Option ℤ
  toTime : Option ℤ
  includeAuthChain : Bool
  sortingField : Option SortingField
  sortingOrder : Option SortingOrder
  offset : Option ℤ
  limit : Option ℤ
  lastId : Option Text
deriving DecidableEq, Repr

def parsePointerChangesQueryOptions (params : QueryParams) :
    Except Text PointerChangesQueryOptions := do
  let entityTypes ← parseEntityTypes env (qsGetArray params "entityType".toList)
  let sortingField ← (qsGetString params "sortingField".toList).mapM parseSortingField
  let sortingOrder ← (qsGetString params "sortingOrder".toList).mapM parseSortingOrder
  checkOffset (qsGetNumber params "offset".toList)
  return {
    entityTypes := entityTypes
    fromTime := qsGetNumber params "from".toList
    toTime := qsGetNumber params "to".toList
    includeAuthChain := (qsGetBool params "includeAuthChain".toList).getD false
    sortingField := sortingField
    sortingOrder := sortingOrder
    offset := qsGetNumber params "offset".toList
    limit := qsGetNumber params "limit".toList
    lastId := (qsGetString params "lastId".toList).map env.loc.toLowercase }

namespace PointerChangesQueryOptions

variable (q : PointerChangesQueryOptions)

def field : SortingField := q.sortingField.getD .localTimestamp

def order : SortingOrder := q.sortingOrder.getD .desc

def admitsFrom (d : HistoryRow) : Bool := q.fromTime.all fun t => 1000 * t ≤ d.time q.field

def admitsTo (d : HistoryRow) : Bool :=
  match q.toTime, q.lastId, q.order with
  | none, _, _ => true
  | some t, some lastId, .desc => decide (d.key env q.field < cursor env t lastId)
  | some t, _, _ => decide (d.time q.field ≤ 1000 * t)

def admits (d : HistoryRow) : Bool :=
  q.admitsFrom d && q.admitsTo env d && decide (q.entityTypes = [] ∨ d.entityType ∈ q.entityTypes)

def listing (table : List HistoryRow) : List HistoryRow :=
  (table.filter (q.admits env)).insertionSort (inOrder env q.field q.order)

/-- A link names neither the field nor the order of the request. -/
def nextParams (limit : ℕ) (last : HistoryRow) : QueryParams :=
  q.entityTypes.map (("entityType".toList, ·)) ++
    (q.fromTime.map fun t => ("from".toList, showInt t)).toList ++
    [("to".toList, showInt (env.millis last.localTimestamp)), ("limit".toList, showInt limit),
      ("lastId".toList, last.entityId)]

/-- Written as it is, without percent coding. -/
def next (limit : ℕ) (last : HistoryRow) : Text :=
  '?' :: ['&'].intercalate ((q.nextParams env limit last).map fun p => p.1 ++ '=' :: p.2)

end PointerChangesQueryOptions

def getPointerChanges (isDenylisted : EntityId → Bool) (table : List HistoryRow)
    (queryString : Text) : Except Text HistoryResponse := do
  let q ← parsePointerChangesQueryOptions env (parseQueryString env.fromUtf8Lossy queryString)
  let limit := curateLimit q.limit
  let (rows, moreData) := historyPage (q.listing env table) (curateOffset q.offset) limit
  let deltas := rows.filter fun d => !isDenylisted d.entityId
  let next := if moreData then deltas.getLast?.map (q.next env limit) else none
  return ⟨deltas, moreData, next⟩

/-- The rows a client reads that follows the links to the end; `none` when a link is refused or the
links go on. The query string of a link is what comes after `?`. -/
def followLinks (serve : Text → Except Text HistoryResponse) :
    ℕ → Text → Option (List HistoryRow)
  | 0, _ => none
  | fuel + 1, queryString =>
    match serve queryString with
    | .error _ => none
    | .ok response =>
      match response.next with
      | none => some response.rows
      | some link => (followLinks serve fuel link.tail).map (response.rows ++ ·)

end Endpoints

end Catalyrst.Content
