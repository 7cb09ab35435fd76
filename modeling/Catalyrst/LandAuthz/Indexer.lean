import Catalyrst.Lib.Chunks
import Catalyrst.Lib.OrdMap
import Catalyrst.Lib.Texts
import Catalyrst.LandAuthz.Events

/-!
# Scanning the chain

The indexer asks an RPC server for the logs from its cursor on. The server may refuse a range that
holds too many logs; the range is then cut short, to the bound that the refusal names or by half.
The events of a range are written before the cursor moves behind it, so a scan that stops anywhere
starts again at a block none of whose events is past the cursor.
-/

namespace Catalyrst.LandAuthz

open Catalyrst.Lib Catalyrst.Lib.Fallible Catalyrst.Lib.Texts

/-! ### Replies of the server -/

structure RpcLog where
  address : Text
  topics : List Text
  data : Text
  blockNumber : Text
  logIndex : Text
  blockTimestamp : Option Text
deriving DecidableEq, Repr

inductive Reply where
  | transport
  | result (logs : List RpcLog)
  | unreadable
  | error (message : Text)
deriving DecidableEq, Repr

inductive IndexError where
  | transport
  | rpc (message : Text)
  | db
  | decode (block index : ℤ) (source : DecodeError)
deriving DecidableEq, Repr

def parseHex (s : Text) : Option ℕ :=
  if s = [] then none else (s.mapM toDigit16).map hexValue

def u64FromHex (s : Text) : Option ℕ :=
  (parseHex (match s with | '+' :: t => t | t => t)).filter fun n => n < 2 ^ 64

def hexToI64 (s : Text) : Option ℤ :=
  match trimStart0x s with
  | '-' :: t => ((parseHex t).filter fun n => n ≤ 2 ^ 63).map fun n => -(n : ℤ)
  | '+' :: t => ((parseHex t).filter fun n => n < 2 ^ 63).map fun n => (n : ℤ)
  | t => ((parseHex t).filter fun n => n < 2 ^ 63).map fun n => (n : ℤ)

/-- The low thirty-two bits, as a signed number. -/
def asI32 (n : ℤ) : ℤ := Int.bmod n (2 ^ 32)

/-- The bound of the range that a refusal says should work. -/
def suggestedUpperBound (message : Text) : Option ℕ := do
  let rest ← afterLast '[' message
  let (inner, _) ← splitOnce ']' rest
  let (_, hi) ← splitOnce ',' inner
  u64FromHex (trimStart0x (trim hi))

/-- Why a scan stops: an error, or the process ends. -/
inductive Stop where
  | error (e : IndexError)
  | killed
deriving DecidableEq, Repr

/-- What the server says to the calls one after the other. -/
abbrev Answers := List (ℕ → ℕ → Reply)

/-- The logs of the blocks from `from` to the second number. -/
def getLogs : Answers → ℕ → ℕ → Except Stop (List RpcLog × ℕ)
  | [], _, _ => .error .killed
  | answer :: answers, start, upper =>
    match answer start upper with
    | .transport => .error (.error .transport)
    | .unreadable => .error (.error (.rpc "cannot read logs".toList))
    | .result logs => .ok (logs, upper)
    | .error message =>
      let halved := start + (upper - start) / 2
      match suggestedUpperBound message with
      | some hi =>
        if start < hi ∧ hi < upper then getLogs answers start hi
        else if halved ≤ start then .error (.error (.rpc message))
        else getLogs answers start halved
      | none =>
        if halved ≤ start then .error (.error (.rpc message)) else getLogs answers start halved

/-! ### Events of the logs -/

/-- The event of a log; a log with a topic that is not modelled has none. -/
def readLog (log : RpcLog) : Except IndexError (Option AuthzEvent) :=
  match hexToI64 log.blockNumber with
  | none => .error (.rpc ("bad blockNumber ".toList ++ log.blockNumber))
  | some block =>
    match hexToI64 log.logIndex with
    | none => .error (.rpc ("bad logIndex ".toList ++ log.logIndex))
    | some index =>
      let time := (log.blockTimestamp.bind hexToI64).getD 0
      match decodeLog log.address log.topics log.data block (asI32 index) time with
      | .ok event => .ok (some event)
      | .error (.unhandledTopic _) => .ok none
      | .error source => .error (.decode block (asI32 index) source)

def readLogs : List RpcLog → Except IndexError (List AuthzEvent)
  | [] => .ok []
  | log :: logs => do
    let event ← readLog log
    let events ← readLogs logs
    return event.toList ++ events

/-! ### The database -/

/-- Block and index of an event. -/
abbrev Position := ℤ ×ₗ ℤ

instance transOrd_position : Std.TransOrd (ℤ ×ₗ ℤ) := Prod.Lex.instTransOrdLex

def AuthzEvent.position (e : AuthzEvent) : Position := toLex (e.blockNumber, e.logIndex)

abbrev EventTable := OrdMap Position AuthzEvent

/-- `ON CONFLICT (block_number, log_index) DO NOTHING` -/
def insertChunk (table : EventTable) (chunk : List AuthzEvent) : EventTable :=
  chunk.foldl (fun table e => table.insertIfNew e.position e) table

structure Index where
  authzEvent : EventTable
  lastBlock : Option ℕ

/-- One turn of `sync`: what the server answers, how many chunks are written before the database
fails or the process ends, and whether the cursor is set. -/
structure Turn where
  answers : Answers
  written : Option ℕ
  cursorSet : Bool

def insertEvents (table : EventTable) (written : Option ℕ) (events : List AuthzEvent) :
    EventTable × Bool :=
  let pieces := chunks 1000 events
  match written with
  | none => (pieces.foldl insertChunk table, true)
  | some n => ((pieces.take n).foldl insertChunk table, decide (pieces.length ≤ n))

/-- The index after the turns, and the error that ended them. -/
def sync (index : Index) (start stop : ℕ) : List Turn → Index × Option Stop
  | [] => (index, if start ≤ stop then some .killed else none)
  | turn :: turns =>
    if start ≤ stop then
      match getLogs turn.answers start stop with
      | .error e => (index, some e)
      | .ok (logs, reached) =>
        match readLogs logs with
        | .error e => (index, some (.error e))
        | .ok events =>
          let (table, all) := insertEvents index.authzEvent turn.written events
          if all && turn.cursorSet then
            sync { authzEvent := table, lastBlock := some reached } (reached + 1) stop turns
          else ({ index with authzEvent := table }, some (.error .db))
    else (index, none)

/-- The block to start from. -/
def cursor (index : Index) : ℕ :=
  match index.lastBlock with
  | some last => last + 1
  | none => LAND_START_BLOCK_MAINNET

/-- One run of the indexer, up to the block `stop`. -/
def scan (index : Index) (stop : ℕ) (turns : List Turn) : Index × Option Stop :=
  sync index (cursor index) stop turns

/-! ### Ranges -/

theorem getLogs_ok {answers : Answers} {start upper reached : ℕ} {logs : List RpcLog}
    (hle : start ≤ upper) (h : getLogs answers start upper = .ok (logs, reached)) :
    start ≤ reached ∧ reached ≤ upper ∧ ∃ answer ∈ answers, answer start reached = .result logs := by
  induction answers generalizing upper with
  | nil => cases h
  | cons answer answers ih =>
    have hcut : ∀ u, start < u → u ≤ upper → getLogs answers start u = .ok (logs, reached) →
        start ≤ reached ∧ reached ≤ upper ∧
          ∃ answer' ∈ answer :: answers, answer' start reached = .result logs := by
      intro u hlt hu hrest
      obtain ⟨h₁, h₂, a, ha, hresult⟩ := ih (by omega) hrest
      exact ⟨h₁, by omega, a, List.mem_cons_of_mem answer ha, hresult⟩
    unfold getLogs at h
    split at h
    · cases h
    · cases h
    · rename_i logs' hresult
      cases h
      exact ⟨hle, le_rfl, answer, List.mem_cons_self, hresult⟩
    · dsimp only at h
      split at h
      · split_ifs at h with hhi hhalf
        · exact hcut _ hhi.1 (by omega) h
        · exact hcut _ (by omega) (by omega) h
      · split_ifs at h with hhalf
        exact hcut _ (by omega) (by omega) h

/-- A server that serves a range whenever it serves a longer one, and refuses it with an error
otherwise, is scanned past a block if and only if it serves that block and the next one together,
or the block alone where it is the last. -/
theorem getLogs_passes_iff {answers : Answers} {start upper : ℕ} {serves : ℕ → Prop}
    (hle : start ≤ upper) (hlength : upper - start < answers.length)
    (hserves : ∀ u v, u ≤ v → serves v → serves u)
    (hserved : ∀ answer ∈ answers, ∀ u, serves u → ∃ logs, answer start u = .result logs)
    (hrefused : ∀ answer ∈ answers, ∀ u, ¬ serves u → ∃ message, answer start u = .error message) :
    (∃ logs reached, getLogs answers start upper = .ok (logs, reached)) ↔
      serves (min upper (start + 1)) := by
  induction answers generalizing upper with
  | nil => cases hlength
  | cons answer answers ih =>
    by_cases hup : serves upper
    · obtain ⟨logs, hlogs⟩ := hserved answer List.mem_cons_self upper hup
      refine iff_of_true ⟨logs, upper, ?_⟩ (hserves _ _ (min_le_left _ _) hup)
      simp only [getLogs, hlogs]
    obtain ⟨message, hmessage⟩ := hrefused answer List.mem_cons_self upper hup
    have hnext : ∀ u, start < u → u < upper →
        ((∃ logs reached, getLogs answers start u = .ok (logs, reached)) ↔
          serves (min upper (start + 1))) := by
      intro u hlt hu
      rw [ih (by omega) (by simp at hlength; omega)
        (fun a ha => hserved a (List.mem_cons_of_mem answer ha))
        (fun a ha => hrefused a (List.mem_cons_of_mem answer ha)),
        show min u (start + 1) = min upper (start + 1) by omega]
    have hstuck : start + (upper - start) / 2 ≤ start → ¬ serves (min upper (start + 1)) := by
      intro hhalf
      rwa [show min upper (start + 1) = upper by omega]
    simp only [getLogs, hmessage]
    split
    · split_ifs with hhi hhalf
      · exact hnext _ hhi.1 hhi.2
      · simpa using hstuck hhalf
      · exact hnext _ (by omega) (by omega)
    · split_ifs with hhalf
      · simpa using hstuck hhalf
      · exact hnext _ (by omega) (by omega)

/-- A server that serves ranges of at most five blocks and else names no bound. -/
theorem getLogs_passes_iff_five :
    (∃ logs reached, getLogs (List.replicate 30
        fun start upper => if upper ≤ start + 4 then .result [] else .error "too many".toList)
      100 120 = .ok (logs, reached)) ↔ min 120 (100 + 1) ≤ 100 + 4 :=
  @getLogs_passes_iff _ 100 120 (fun u => u ≤ 104) (by decide) (by decide)
    (fun u v huv hv => huv.trans hv)
    (fun answer hanswer u hu => by
      obtain rfl := List.eq_of_mem_replicate hanswer
      exact ⟨[], if_pos hu⟩)
    (fun answer hanswer u hu => by
      obtain rfl := List.eq_of_mem_replicate hanswer
      exact ⟨"too many".toList, if_neg hu⟩)

/-! ### What the index holds -/

def blockOf (log : RpcLog) : ℤ := (hexToI64 log.blockNumber).getD 0

/-- No two events of the chain have one position. -/
def Distinct (chain : List RpcLog) : Prop :=
  ∀ log ∈ chain, ∀ log' ∈ chain, ∀ e e', readLog log = .ok (some e) →
    readLog log' = .ok (some e') → e.position = e'.position → e = e'

/-- Where the server answers with logs, they are the chain's logs of the range. -/
def Honest (chain : List RpcLog) (turns : List Turn) : Prop :=
  ∀ turn ∈ turns, ∀ answer ∈ turn.answers, ∀ (start upper : ℕ) (logs : List RpcLog),
    answer start upper = .result logs →
      ∀ log, log ∈ logs ↔ log ∈ chain ∧ (start : ℤ) ≤ blockOf log ∧ blockOf log ≤ upper

/-- An event of the chain's logs from the first block on, up to `top`. -/
def FromChain (chain : List RpcLog) (top : ℕ) (e : AuthzEvent) : Prop :=
  ∃ log ∈ chain, (LAND_START_BLOCK_MAINNET : ℤ) ≤ blockOf log ∧ blockOf log ≤ top ∧
    readLog log = .ok (some e)

/-- The logs before the cursor were read and their events are in the table, which holds no event of
a block behind `top`. -/
structure Covers (chain : List RpcLog) (top : ℕ) (index : Index) : Prop where
  start : LAND_START_BLOCK_MAINNET ≤ cursor index
  events : ∀ k e, index.authzEvent[k]? = some e → e.position = k ∧ FromChain chain top e
  logs : ∀ log ∈ chain, (LAND_START_BLOCK_MAINNET : ℤ) ≤ blockOf log → blockOf log < cursor index →
    ∃ event, readLog log = .ok event ∧ ∀ e ∈ event, index.authzEvent[e.position]? = some e

theorem mem_readLogs {logs : List RpcLog} {events : List AuthzEvent}
    (h : readLogs logs = .ok events) (e : AuthzEvent) :
    e ∈ events ↔ ∃ log ∈ logs, readLog log = .ok (some e) := by
  induction logs generalizing events with
  | nil =>
    cases h
    simp
  | cons log logs ih =>
    simp only [readLogs] at h
    obtain ⟨event, hevent, h⟩ := bind_ok.mp h
    obtain ⟨rest, hrest, h⟩ := bind_ok.mp h
    cases h
    simp only [List.mem_append, List.mem_cons, exists_eq_or_imp, ih hrest, hevent,
      Except.ok.injEq, Option.mem_toList]

theorem readLogs_read {logs : List RpcLog} {events : List AuthzEvent}
    (h : readLogs logs = .ok events) {log : RpcLog} (hlog : log ∈ logs) :
    ∃ event, readLog log = .ok event := by
  induction logs generalizing events with
  | nil => cases hlog
  | cons log' logs ih =>
    simp only [readLogs] at h
    obtain ⟨event, hevent, h⟩ := bind_ok.mp h
    obtain ⟨rest, hrest, h⟩ := bind_ok.mp h
    rcases List.mem_cons.mp hlog with rfl | hlog
    · exact ⟨event, hevent⟩
    · exact ih hrest hlog

/-- What is in the table stays; a position that is free takes the first event for it. -/
theorem find_insertChunk (table : EventTable) (events : List AuthzEvent) (k : Position) :
    (insertChunk table events)[k]? =
      (table[k]?).or (events.find? fun e => decide (e.position = k)) := by
  induction events generalizing table with
  | nil => simp [insertChunk]
  | cons e events ih =>
    have hstep : insertChunk table (e :: events) =
        insertChunk (table.insertIfNew e.position e) events := rfl
    rw [hstep, ih, OrdMap.find_insertIfNew, List.find?_cons]
    by_cases hk : e.position = k
    · subst hk
      cases table[e.position]? with
      | none => simp
      | some e' => simp
    · simp [hk]

theorem insertEvents_table (table : EventTable) (written : Option ℕ) (events : List AuthzEvent) :
    ∃ sent, (insertEvents table written events).1 = insertChunk table sent ∧
      (∀ e ∈ sent, e ∈ events) ∧ ((insertEvents table written events).2 = true → sent = events) := by
  have hall : ∀ pieces : List (List AuthzEvent),
      pieces.foldl insertChunk table = insertChunk table pieces.flatten := fun pieces =>
    List.foldl_flatten.symm
  cases written with
  | none =>
    refine ⟨events, ?_, fun e he => he, fun _ => rfl⟩
    simp only [insertEvents, hall, flatten_chunks]
  | some n =>
    refine ⟨((chunks 1000 events).take n).flatten, ?_, ?_, ?_⟩
    · simp only [insertEvents, hall]
    · intro e he
      obtain ⟨piece, hpiece, he⟩ := List.mem_flatten.mp he
      exact mem_of_mem_chunks (List.mem_of_mem_take hpiece) he
    · intro hle
      simp only [insertEvents, decide_eq_true_eq] at hle
      rw [List.take_of_length_le hle, flatten_chunks]

/-- The logs of a range, as a server that has them answers. -/
def serve (chain : List RpcLog) (start upper : ℕ) : Reply :=
  .result (chain.filter fun log => decide ((start : ℤ) ≤ blockOf log ∧ blockOf log ≤ upper))

theorem honest_of_answers {chain : List RpcLog} {turns : List Turn}
    (h : ∀ turn ∈ turns, ∀ answer ∈ turn.answers,
      answer = serve chain ∨ answer = fun _ _ => .transport) : Honest chain turns := by
  intro turn hturn answer hanswer start upper logs hresult log
  rcases h turn hturn answer hanswer with rfl | rfl
  · cases hresult
    simp
  · cases hresult

theorem readLog_block {log : RpcLog} {e : AuthzEvent} (h : readLog log = .ok (some e)) :
    e.blockNumber = blockOf log := by
  unfold readLog at h
  split at h
  · cases h
  · rename_i block hblock
    split at h
    · cases h
    · dsimp only at h
      split at h
      · rename_i event hevent
        cases h
        rw [(decodeLog_place hevent).1, blockOf, hblock, Option.getD_some]
      · cases h
      · cases h

theorem FromChain.mono {chain : List RpcLog} {top top' : ℕ} {e : AuthzEvent}
    (h : FromChain chain top e) (hle : top ≤ top') : FromChain chain top' e := by
  obtain ⟨log, hlog, hstart, htop, hread⟩ := h
  exact ⟨log, hlog, hstart, by omega, hread⟩

theorem Covers.mono {chain : List RpcLog} {top top' : ℕ} {index : Index}
    (h : Covers chain top index) (hle : top ≤ top') : Covers chain top' index where
  start := h.start
  events k e hk := ⟨(h.events k e hk).1, (h.events k e hk).2.mono hle⟩
  logs := h.logs

/-- Events of the chain are added; where the cursor moves, the logs up to it were read. -/
theorem Covers.insert {chain : List RpcLog} {top reached : ℕ} {index : Index} {logs : List RpcLog}
    {events sent : List AuthzEvent} (h : Covers chain top index) (hdistinct : Distinct chain)
    (hlogs : ∀ log, log ∈ logs ↔ log ∈ chain ∧ (cursor index : ℤ) ≤ blockOf log ∧ blockOf log ≤ reached)
    (hread : readLogs logs = .ok events) (hsent : ∀ e ∈ sent, e ∈ events) (htop : reached ≤ top)
    (last : Option ℕ)
    (hlast : last = index.lastBlock ∨ sent = events ∧ last = some reached ∧ cursor index ≤ reached) :
    Covers chain top { authzEvent := insertChunk index.authzEvent sent, lastBlock := last } := by
  have hfrom : ∀ e ∈ sent, FromChain chain top e := by
    intro e he
    obtain ⟨log, hlog, hevent⟩ := (mem_readLogs hread e).mp (hsent e he)
    obtain ⟨hchain, hlo, hhi⟩ := (hlogs log).mp hlog
    have hstart := h.start
    exact ⟨log, hchain, by omega, by omega, hevent⟩
  have hevents : ∀ k e, (insertChunk index.authzEvent sent)[k]? = some e →
      e.position = k ∧ FromChain chain top e := by
    intro k e hk
    rw [find_insertChunk] at hk
    cases hold : index.authzEvent[k]? with
    | some e' =>
      rw [hold, Option.some_or] at hk
      obtain rfl := Option.some.inj hk
      exact h.events k e' hold
    | none =>
      rw [hold, Option.none_or] at hk
      exact ⟨by simpa using List.find?_some hk, hfrom e (List.mem_of_find?_eq_some hk)⟩
  have hkept : ∀ (k : Position) (e : AuthzEvent), index.authzEvent[k]? = some e →
      (insertChunk index.authzEvent sent)[k]? = some e := by
    intro k e hk
    rw [find_insertChunk, hk, Option.some_or]
  have hadded : ∀ e ∈ sent, (insertChunk index.authzEvent sent)[e.position]? = some e := by
    intro e he
    have hsome : (insertChunk index.authzEvent sent)[e.position]? ≠ none := by
      rw [find_insertChunk, ne_eq, Option.or_eq_none_iff, not_and]
      intro _ hnone
      simpa using List.find?_eq_none.mp hnone e he
    obtain ⟨e', he'⟩ := Option.ne_none_iff_exists'.mp hsome
    obtain ⟨hposition, log', hlog', -, -, hread'⟩ := hevents _ _ he'
    obtain ⟨log, hlog, -, -, hread⟩ := hfrom e he
    rw [he', hdistinct log' hlog' log hlog e' e hread' hread hposition]
  have hold : ∀ log ∈ chain, (LAND_START_BLOCK_MAINNET : ℤ) ≤ blockOf log →
      blockOf log < cursor index → ∃ event, readLog log = .ok event ∧
        ∀ e ∈ event, (insertChunk index.authzEvent sent)[e.position]? = some e := by
    intro log hlog hlo hhi
    obtain ⟨event, hevent, hin⟩ := h.logs log hlog hlo hhi
    exact ⟨event, hevent, fun e he => hkept _ _ (hin e he)⟩
  rcases hlast with rfl | ⟨rfl, rfl, hle⟩
  · exact ⟨h.start, hevents, hold⟩
  · refine ⟨?_, hevents, ?_⟩
    · have hstart := h.start
      simp only [cursor]
      omega
    · intro log hlog hlo hhi
      by_cases hbefore : blockOf log < cursor index
      · exact hold log hlog hlo hbefore
      · simp only [cursor, Nat.cast_add, Nat.cast_one] at hhi
        have hin : log ∈ logs := (hlogs log).mpr ⟨hlog, by omega, by omega⟩
        obtain ⟨event, hevent⟩ := readLogs_read hread hin
        refine ⟨event, hevent, ?_⟩
        intro e he
        obtain rfl := Option.mem_def.mp he
        exact hadded e ((mem_readLogs hread e).mpr ⟨log, hin, hevent⟩)

theorem sync_covers {chain : List RpcLog} {top stop : ℕ} {index : Index} {turns : List Turn}
    (h : Covers chain top index) (hdistinct : Distinct chain) (hhonest : Honest chain turns)
    (hstop : stop ≤ top) :
    Covers chain top (sync index (cursor index) stop turns).1 ∧
      ((sync index (cursor index) stop turns).2 = none →
        stop < cursor (sync index (cursor index) stop turns).1) := by
  induction turns generalizing index with
  | nil =>
    refine ⟨h, ?_⟩
    simp only [sync]
    split_ifs with hle
    · intro hnone
      cases hnone
    · intro _
      omega
  | cons turn turns ih =>
    unfold sync
    split_ifs with hle
    · split
      · exact ⟨h, by simp⟩
      · rename_i logs reached hget
        obtain ⟨hlo, hhi, answer, hanswer, hresult⟩ := getLogs_ok hle hget
        have hlogs := hhonest turn List.mem_cons_self answer hanswer _ _ _ hresult
        split
        · exact ⟨h, by simp⟩
        · rename_i events hread
          obtain ⟨sent, htable, hsent, hall⟩ :=
            insertEvents_table index.authzEvent turn.written events
          have hrest : Honest chain turns := fun t ht => hhonest t (List.mem_cons_of_mem turn ht)
          dsimp only
          rw [htable]
          split_ifs with hset
          · rw [Bool.and_eq_true] at hset
            exact ih (h.insert hdistinct hlogs hread hsent (by omega) _
              (.inr ⟨hall hset.1, rfl, hlo⟩)) hrest
          · exact ⟨h.insert hdistinct hlogs hread hsent (by omega) _ (.inl rfl), by simp⟩
    · exact ⟨h, fun _ => not_le.mp hle⟩

/-- Scans one after the other, each up to its own block. -/
def scans (index : Index) (calls : List (ℕ × List Turn)) : Index :=
  calls.foldl (fun index call => (scan index call.1 call.2).1) index

def emptyIndex : Index where
  authzEvent := ∅
  lastBlock := none

theorem scans_covers {chain : List RpcLog} {top : ℕ} {index : Index} {calls : List (ℕ × List Turn)}
    (h : Covers chain top index) (hdistinct : Distinct chain)
    (hhonest : ∀ call ∈ calls, Honest chain call.2) (hstop : ∀ call ∈ calls, call.1 ≤ top) :
    Covers chain top (scans index calls) := by
  induction calls generalizing index with
  | nil => exact h
  | cons call calls ih =>
    have hcall := sync_covers h hdistinct (hhonest call List.mem_cons_self)
      (hstop call List.mem_cons_self)
    exact ih hcall.1 (fun c hc => hhonest c (List.mem_cons_of_mem call hc))
      fun c hc => hstop c (List.mem_cons_of_mem call hc)

theorem empty_covers (chain : List RpcLog) (top : ℕ) : Covers chain top emptyIndex where
  start := le_rfl
  events k e hk := by simp [emptyIndex] at hk
  logs log hlog hlo hhi := by
    simp only [emptyIndex, cursor] at hhi
    omega

theorem distinct_of_blocks {chain : List RpcLog}
    (h : ∀ log ∈ chain, ∀ log' ∈ chain, blockOf log = blockOf log' → log = log') :
    Distinct chain := by
  intro log hlog log' hlog' e e' hread hread' hposition
  have hblock : e.blockNumber = e'.blockNumber := congrArg (fun p => (ofLex p).1) hposition
  rw [readLog_block hread, readLog_block hread'] at hblock
  obtain rfl := h log hlog log' hlog' hblock
  rw [hread] at hread'
  exact Option.some.inj (Except.ok.inj hread')

/-- Where the last of any number of scans completes, whatever broke off the others, the table holds
the events of the chain up to its block, each once, and nothing else. -/
theorem scan_table {chain : List RpcLog} {stop : ℕ} {calls : List (ℕ × List Turn)}
    {turns : List Turn} (hdistinct : Distinct chain) (hcalls : ∀ call ∈ calls, Honest chain call.2)
    (hturns : Honest chain turns) (hstop : ∀ call ∈ calls, call.1 ≤ stop)
    (hdone : (scan (scans emptyIndex calls) stop turns).2 = none) (k : Position) (e : AuthzEvent) :
    (scan (scans emptyIndex calls) stop turns).1.authzEvent[k]? = some e ↔
      e.position = k ∧ FromChain chain stop e := by
  have hbefore := scans_covers (empty_covers chain stop) hdistinct hcalls hstop
  obtain ⟨hcovers, hcursor⟩ := sync_covers hbefore hdistinct hturns le_rfl
  refine ⟨hcovers.events k e, ?_⟩
  rintro ⟨rfl, log, hlog, hlo, hhi, hread⟩
  have hlt := hcursor hdone
  obtain ⟨event, hevent, hin⟩ := hcovers.logs log hlog hlo (by omega)
  rw [hread] at hevent
  obtain rfl := Except.ok.inj hevent
  exact hin e rfl

/-- A log that names `operator` as the one who may update the parcel (0, 7). -/
def operatorLog (block operator : Text) : RpcLog where
  address := LAND_REGISTRY_MAINNET
  topics := [TOPIC_UPDATE_OPERATOR, "0x".toList ++ List.replicate 63 '0' ++ "7".toList, operator]
  data := "0x".toList
  blockNumber := block
  logIndex := "0x1".toList
  blockTimestamp := none

def operatorTopic (c : Char) : Text := "0x".toList ++ List.replicate 24 '0' ++ List.replicate 40 c

def operatorLogs : List RpcLog :=
  [operatorLog "0x589fce".toList (operatorTopic 'a'), operatorLog "0x58a000".toList (operatorTopic 'b')]

/-- A log that cannot be decoded ends every scan that reaches it: the cursor never passes it. -/
theorem scans_stop_at_unreadable {chain : List RpcLog} {calls : List (ℕ × List Turn)} {log : RpcLog}
    {e : IndexError} (hdistinct : Distinct chain) (hcalls : ∀ call ∈ calls, Honest chain call.2)
    (hlog : log ∈ chain) (hstart : (LAND_START_BLOCK_MAINNET : ℤ) ≤ blockOf log)
    (hread : readLog log = .error e) : (cursor (scans emptyIndex calls) : ℤ) ≤ blockOf log := by
  obtain ⟨top, htop⟩ : ∃ top, ∀ call ∈ calls, call.1 ≤ top := by
    refine ⟨(calls.map Prod.fst).sum, ?_⟩
    intro call hcall
    exact List.le_sum_of_mem (List.mem_map_of_mem hcall)
  have hcovers := scans_covers (empty_covers chain top) hdistinct hcalls htop
  by_contra hpast
  obtain ⟨event, hevent, -⟩ := hcovers.logs log hlog hstart (not_le.mp hpast)
  rw [hread] at hevent
  cases hevent

/-- The third topic of this log is too short for an address. -/
theorem scans_stop_at_unreadable_short :
    (cursor (scans emptyIndex [(5808100, [⟨[serve [operatorLog "0x589fce".toList "0x".toList]],
      none, true⟩])]) : ℤ) ≤ blockOf (operatorLog "0x589fce".toList "0x".toList) :=
  scans_stop_at_unreadable (e := .decode 5808078 1 (.field "operator".toList))
    (distinct_of_blocks (by decide))
    (fun call hcall => honest_of_answers (by
      simp only [List.mem_cons, List.not_mem_nil, or_false] at hcall
      subst hcall
      simp))
    (List.mem_singleton_self _) (by decide) (by decide)

end Catalyrst.LandAuthz
