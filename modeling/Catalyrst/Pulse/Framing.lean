import Catalyrst.Lib.Word

/-!
# Frames of a stream (`transport/webtransport/framing.rs`)

A message is sent behind its length, a 32-bit word. The reader keeps the bytes that have
arrived and not been read in a part of its buffer, which is compacted and grown when a chunk
does not fit behind it. Memory is taken to be unlimited.
-/

namespace Catalyrst.Pulse
open Catalyrst.Lib

def STREAM_HEADER_SIZE : ℕ := 4

/-- The length is cast to a `u32`. -/
def streamFrame (payload : Bytes) : Bytes :=
  beBytes (Fin.ofNat 4294967296 payload.length) ++ payload

structure StreamFrameOverrun where
  length : U32
  cap : ℕ
  deriving DecidableEq

/-- The live bytes are those from `start` to `stop`, the `end` of the source. -/
structure StreamFrameReader where
  maxMessageLen : ℕ
  buffer : Bytes
  start : ℕ
  stop : ℕ

/-- The size doubled until it is enough; a size of zero, which the source would double for
ever, does not occur. -/
def grow (size need : ℕ) : ℕ :=
  if 0 < size ∧ size < need then grow (size * 2) need else size
termination_by need - size

namespace StreamFrameReader

/-- The cap is asserted to be positive. -/
def new (maxMessageLen : ℕ+) : StreamFrameReader :=
  ⟨maxMessageLen, List.replicate (STREAM_HEADER_SIZE + maxMessageLen) 0, 0, 0⟩

/-- The live bytes are moved to the front. -/
def compact (r : StreamFrameReader) : StreamFrameReader :=
  if 0 < r.start then
    { r with
      buffer := if 0 < r.stop - r.start then
          (r.buffer.drop r.start).take (r.stop - r.start) ++ r.buffer.drop (r.stop - r.start)
        else r.buffer
      start := 0
      stop := r.stop - r.start }
  else r

def ensureWritable (r : StreamFrameReader) (count : ℕ) : StreamFrameReader :=
  if r.stop + count ≤ r.buffer.length then r
  else
    let r := r.compact
    if r.stop + count ≤ r.buffer.length then r
    else
      let size := grow (r.buffer.length * 2) (r.stop + count)
      { r with buffer := r.buffer ++ List.replicate (size - r.buffer.length) 0 }

def append (r : StreamFrameReader) (chunk : Bytes) : StreamFrameReader :=
  let r := r.ensureWritable chunk.length
  { r with
    buffer := r.buffer.take r.stop ++ chunk ++ r.buffer.drop (r.stop + chunk.length)
    stop := r.stop + chunk.length }

def tryRead (r : StreamFrameReader) :
    Except StreamFrameOverrun (Option Bytes) × StreamFrameReader :=
  if r.stop - r.start < STREAM_HEADER_SIZE then (.ok none, r)
  else
    let length := beWord (r.buffer.getD r.start 0) (r.buffer.getD (r.start + 1) 0)
      (r.buffer.getD (r.start + 2) 0) (r.buffer.getD (r.start + 3) 0)
    if r.maxMessageLen < length.val then
      (.error ⟨length, r.maxMessageLen⟩, { r with start := 0, stop := 0 })
    else
      let total := STREAM_HEADER_SIZE + length.val
      if r.stop - r.start < total then (.ok none, r)
      else
        let msg := (r.buffer.drop (r.start + STREAM_HEADER_SIZE)).take length.val
        if r.start + total = r.stop then (.ok (some msg), { r with start := 0, stop := 0 })
        else (.ok (some msg), { r with start := r.start + total })

/-! ### The reader over its live bytes -/

def live (r : StreamFrameReader) : Bytes := (r.buffer.drop r.start).take (r.stop - r.start)

structure Inv (r : StreamFrameReader) : Prop where
  start_le : r.start ≤ r.stop
  stop_le : r.stop ≤ r.buffer.length
  nonempty : 0 < r.buffer.length

/-- What a reader has to do with the bytes that have arrived: the result and what is left. -/
def next (maxMessageLen : ℕ) : Bytes → Except StreamFrameOverrun (Option Bytes) × Bytes
  | a :: b :: c :: d :: rest =>
    let length := beWord a b c d
    if maxMessageLen < length.val then (.error ⟨length, maxMessageLen⟩, [])
    else if rest.length < length.val then (.ok none, a :: b :: c :: d :: rest)
    else (.ok (some (rest.take length.val)), rest.drop length.val)
  | pending => (.ok none, pending)

variable {r : StreamFrameReader} {max : ℕ}

theorem Inv.live_length (h : r.Inv) : r.live.length = r.stop - r.start := by
  have hstop := h.stop_le
  rw [live, List.length_take, List.length_drop]
  omega

theorem Inv.drop_start (h : r.Inv) : r.buffer.drop r.start = r.live ++ r.buffer.drop r.stop := by
  have hsum : r.start + (r.stop - r.start) = r.stop := Nat.add_sub_cancel' h.start_le
  have hsplit := List.take_append_drop (r.stop - r.start) (r.buffer.drop r.start)
  rw [List.drop_drop, hsum] at hsplit
  exact hsplit.symm

theorem inv_new (maxMessageLen : ℕ+) : (new maxMessageLen).Inv where
  start_le := le_rfl
  stop_le := Nat.zero_le _
  nonempty := by
    show 0 < (List.replicate (STREAM_HEADER_SIZE + (maxMessageLen : ℕ)) (0 : Byte)).length
    rw [List.length_replicate, STREAM_HEADER_SIZE]
    omega

theorem live_new (maxMessageLen : ℕ+) : (new maxMessageLen).live = [] := List.take_zero

/-! ### Room for a chunk -/

theorem le_grow {size : ℕ} (need : ℕ) (h : 0 < size) :
    size ≤ grow size need ∧ need ≤ grow size need := by
  induction hn : need - size using Nat.strong_induction_on generalizing size with
  | _ n ih =>
    rw [grow]
    by_cases hlt : size < need
    · rw [if_pos ⟨h, hlt⟩]
      obtain ⟨hsize, hneed⟩ := ih (need - size * 2) (by omega) (by omega) rfl
      exact ⟨by omega, hneed⟩
    · rw [if_neg fun hand => hlt hand.2]
      omega

theorem compact_spec (h : r.Inv) : r.compact.Inv ∧ r.compact.live = r.live ∧
    r.compact.maxMessageLen = r.maxMessageLen := by
  have hstart := h.start_le
  have hstop := h.stop_le
  unfold compact
  by_cases hpos : 0 < r.start
  · rw [if_pos hpos]
    by_cases hlive : 0 < r.stop - r.start
    · rw [if_pos hlive]
      have hlen : r.live.length = r.stop - r.start := h.live_length
      refine ⟨⟨Nat.zero_le _, ?_, ?_⟩, ?_, rfl⟩
      · show r.stop - r.start ≤ (r.live ++ r.buffer.drop (r.stop - r.start)).length
        rw [List.length_append, hlen]
        omega
      · show 0 < (r.live ++ r.buffer.drop (r.stop - r.start)).length
        rw [List.length_append, hlen]
        omega
      · show ((r.live ++ r.buffer.drop (r.stop - r.start)).drop 0).take (r.stop - r.start - 0) =
          r.live
        rw [List.drop_zero, Nat.sub_zero, List.take_left' hlen]
    · rw [if_neg hlive]
      have hzero : r.stop - r.start = 0 := by omega
      refine ⟨⟨Nat.zero_le _, (Nat.sub_le _ _).trans hstop, h.nonempty⟩, ?_, rfl⟩
      rw [live, live, hzero, Nat.sub_zero, List.take_zero, List.take_zero]
  · rw [if_neg hpos]
    exact ⟨h, rfl, rfl⟩

theorem ensureWritable_spec (h : r.Inv) (count : ℕ) : (r.ensureWritable count).Inv ∧
    (r.ensureWritable count).live = r.live ∧
    (r.ensureWritable count).stop + count ≤ (r.ensureWritable count).buffer.length ∧
    (r.ensureWritable count).maxMessageLen = r.maxMessageLen := by
  unfold ensureWritable
  by_cases hfits : r.stop + count ≤ r.buffer.length
  · rw [if_pos hfits]
    exact ⟨h, rfl, hfits, rfl⟩
  · rw [if_neg hfits]
    obtain ⟨hinv, hlive, hmax⟩ := compact_spec h
    generalize r.compact = r' at hinv hlive hmax
    dsimp only
    by_cases hfits' : r'.stop + count ≤ r'.buffer.length
    · rw [if_pos hfits']
      exact ⟨hinv, hlive, hfits', hmax⟩
    · rw [if_neg hfits']
      have hnonempty := hinv.nonempty
      have hstop := hinv.stop_le
      obtain ⟨hsize, hneed⟩ := le_grow (r'.stop + count) (show 0 < r'.buffer.length * 2 by omega)
      generalize grow (r'.buffer.length * 2) (r'.stop + count) = size at hsize hneed
      have hlen : (r'.buffer ++ List.replicate (size - r'.buffer.length) (0 : Byte)).length = size := by
        rw [List.length_append, List.length_replicate]
        omega
      refine ⟨⟨hinv.start_le, ?_, ?_⟩, ?_, ?_, hmax⟩
      · exact hstop.trans (by rw [hlen]; omega)
      · exact hnonempty.trans_le (by rw [hlen]; omega)
      · rw [← hlive, live, live]
        dsimp only
        rw [List.drop_append_of_le_length (hinv.start_le.trans hstop), List.take_append_of_le_length]
        rw [List.length_drop]
        omega
      · show r'.stop + count ≤
          (r'.buffer ++ List.replicate (size - r'.buffer.length) (0 : Byte)).length
        rw [hlen]
        exact hneed

/-! ### One step -/

theorem append_spec (h : r.Inv) (chunk : Bytes) : (r.append chunk).Inv ∧
    (r.append chunk).live = r.live ++ chunk ∧ (r.append chunk).maxMessageLen = r.maxMessageLen := by
  obtain ⟨hinv, hlive, hroom, hmax⟩ := ensureWritable_spec h chunk.length
  unfold append
  generalize r.ensureWritable chunk.length = r' at hinv hlive hroom hmax
  have hstart := hinv.start_le
  have htake : (r'.buffer.take r'.stop).length = r'.stop := by
    rw [List.length_take]
    omega
  have hlen : (r'.buffer.take r'.stop ++ chunk ++ r'.buffer.drop (r'.stop + chunk.length)).length =
      r'.buffer.length := by
    rw [List.length_append, List.length_append, htake, List.length_drop]
    omega
  refine ⟨⟨hstart.trans (Nat.le_add_right _ _), ?_, ?_⟩, ?_, hmax⟩
  · show r'.stop + chunk.length ≤ _
    rw [hlen]
    exact hroom
  · show 0 < _
    rw [hlen]
    exact hinv.nonempty
  · rw [← hlive, live, live]
    dsimp only
    have hfront : (r'.buffer.take r'.stop).drop r'.start =
        (r'.buffer.drop r'.start).take (r'.stop - r'.start) := List.drop_take
    have hsize : ((r'.buffer.drop r'.start).take (r'.stop - r'.start) ++ chunk).length =
        r'.stop + chunk.length - r'.start := by
      rw [List.length_append, ← live, hinv.live_length]
      omega
    rw [List.append_assoc, List.drop_append_of_le_length (by rw [htake]; exact hstart), hfront,
      ← List.append_assoc, List.take_left' hsize]

theorem next_short {pending : Bytes} (h : pending.length < 4) :
    next max pending = (.ok none, pending) := by
  match pending, h with
  | [], _ => rfl
  | [a], _ => rfl
  | [a, b], _ => rfl
  | [a, b, c], _ => rfl

theorem exists_header {pending : Bytes} (h : ¬ pending.length < 4) :
    ∃ a b c d rest, pending = a :: b :: c :: d :: rest := by
  match pending with
  | [] => exact absurd (by decide) h
  | [a] => exact absurd (by simp) h
  | [a, b] => exact absurd (by simp) h
  | [a, b, c] => exact absurd (by simp) h
  | a :: b :: c :: d :: rest => exact ⟨a, b, c, d, rest, rfl⟩

/-- The reader does with its live bytes what it has to do. -/
theorem tryRead_spec (h : r.Inv) : r.tryRead.2.Inv ∧
    (r.tryRead.1, r.tryRead.2.live) = next r.maxMessageLen r.live ∧
    r.tryRead.2.maxMessageLen = r.maxMessageLen := by
  have hlength := h.live_length
  have hdrop := h.drop_start
  have hstart := h.start_le
  have hstop := h.stop_le
  unfold tryRead STREAM_HEADER_SIZE
  by_cases hheader : r.stop - r.start < 4
  · rw [if_pos hheader, next_short (by omega)]
    exact ⟨h, rfl, rfl⟩
  · rw [if_neg hheader]
    have hlong : ¬r.live.length < 4 := by omega
    obtain ⟨a, b, c, d, rest, hlive⟩ := exists_header hlong
    have hget : ∀ i, r.buffer.getD (r.start + i) 0 = (r.buffer.drop r.start).getD i 0 :=
      fun i => by rw [List.getD_eq_getElem?_getD, List.getD_eq_getElem?_getD, List.getElem?_drop]
    have hzero := hget 0
    rw [Nat.add_zero] at hzero
    rw [hzero, hget 1, hget 2, hget 3, hdrop, hlive]
    simp only [List.cons_append, List.getD_cons_zero, List.getD_cons_succ, next]
    rw [hlive] at hlength hdrop
    simp only [List.length_cons] at hlength
    generalize beWord a b c d = length
    by_cases hover : r.maxMessageLen < length.val
    · rw [if_pos hover, if_pos hover]
      exact ⟨⟨le_rfl, Nat.zero_le _, h.nonempty⟩, congrArg _ List.take_zero, rfl⟩
    · rw [if_neg hover, if_neg hover]
      by_cases hpart : rest.length < length.val
      · rw [if_pos hpart, if_pos (by omega)]
        exact ⟨h, by rw [hlive], rfl⟩
      · rw [if_neg hpart, if_neg (by omega)]
        have hmsg : (r.buffer.drop (r.start + 4)).take length.val = rest.take length.val := by
          rw [← List.drop_drop, hdrop]
          exact List.take_append_of_le_length (not_lt.mp hpart)
        rw [hmsg]
        by_cases hall : r.start + (4 + length.val) = r.stop
        · rw [if_pos hall, List.drop_of_length_le (by omega)]
          exact ⟨⟨le_rfl, Nat.zero_le _, h.nonempty⟩, congrArg _ List.take_zero, rfl⟩
        · rw [if_neg hall]
          refine ⟨⟨by show r.start + (4 + length.val) ≤ r.stop; omega, hstop, h.nonempty⟩, ?_, rfl⟩
          refine congrArg _ ?_
          rw [live]
          dsimp only
          have hrest : r.buffer.drop (r.start + (4 + length.val)) =
              rest.drop length.val ++ r.buffer.drop r.stop := by
            rw [← List.drop_drop, ← List.drop_drop, hdrop]
            exact List.drop_append_of_le_length (not_lt.mp hpart)
          rw [hrest, List.take_left']
          rw [List.length_drop]
          omega

/-! ### Reading until nothing is left -/

theorem tryRead_shrinks {msg : Bytes} {r' : StreamFrameReader}
    (h : r.tryRead = (.ok (some msg), r')) : r'.stop - r'.start < r.stop - r.start := by
  unfold tryRead STREAM_HEADER_SIZE at h
  dsimp only at h
  split_ifs at h with hheader hover hpart hall
  · cases h
  · cases h
  · cases h
  · rw [← (Prod.mk.inj h).2]
    dsimp only
    omega
  · rw [← (Prod.mk.inj h).2]
    dsimp only
    omega

/-- `try_read` until `Ok(None)` or an error. -/
def drain (r : StreamFrameReader) : Except StreamFrameOverrun (List Bytes) × StreamFrameReader :=
  match _h : r.tryRead with
  | (.ok none, r') => (.ok [], r')
  | (.ok (some msg), r') => ((drain r').1.map (msg :: ·), (drain r').2)
  | (.error e, r') => (.error e, r')
termination_by r.stop - r.start
decreasing_by all_goals exact tryRead_shrinks _h

/-- The messages read while the chunks arrive. -/
def feed (r : StreamFrameReader) : List Bytes → Except StreamFrameOverrun (List Bytes)
  | [] => .ok []
  | chunk :: chunks =>
    match (r.append chunk).drain with
    | (.ok msgs, r') => (feed r' chunks).map (msgs ++ ·)
    | (.error e, _) => .error e

/-- The readers that calls in any order lead to. -/
inductive Reached (maxMessageLen : ℕ+) : StreamFrameReader → Prop
  | new : Reached maxMessageLen (new maxMessageLen)
  | append {r : StreamFrameReader} (h : Reached maxMessageLen r) (chunk : Bytes) :
      Reached maxMessageLen (r.append chunk)
  | tryRead {r : StreamFrameReader} (h : Reached maxMessageLen r) :
      Reached maxMessageLen r.tryRead.2

theorem Reached.inv {maxMessageLen : ℕ+} (h : Reached maxMessageLen r) : r.Inv := by
  induction h with
  | new => exact inv_new maxMessageLen
  | append _ chunk ih => exact (append_spec ih chunk).1
  | tryRead _ ih => exact (tryRead_spec ih).1

theorem drain_none {r' : StreamFrameReader} (h : r.tryRead = (.ok none, r')) :
    r.drain = (.ok [], r') := by
  rw [drain]
  split
  · rename_i heq
    rw [h] at heq
    rw [(Prod.mk.inj heq).2]
  · rename_i heq
    rw [h] at heq
    cases heq
  · rename_i heq
    rw [h] at heq
    cases heq

theorem drain_some {msg : Bytes} {r' : StreamFrameReader} (h : r.tryRead = (.ok (some msg), r')) :
    r.drain = (r'.drain.1.map (msg :: ·), r'.drain.2) := by
  rw [drain]
  split
  · rename_i heq
    rw [h] at heq
    cases heq
  · rename_i heq
    rw [h] at heq
    cases heq
    rfl
  · rename_i heq
    rw [h] at heq
    cases heq

/-! ### Frames -/

/-- The bytes of a stream of messages. -/
def stream (messages : List Bytes) : Bytes := (messages.map streamFrame).flatten

/-- The message fits the reader, and its length fits the header. -/
def Fits (max : ℕ) (message : Bytes) : Prop := message.length ≤ max ∧ message.length < 4294967296

variable {message : Bytes}

theorem streamFrame_eq (h : message.length < 4294967296) : ∃ a b c d,
    streamFrame message = a :: b :: c :: d :: message ∧ (beWord a b c d).val = message.length := by
  refine ⟨_, _, _, _, rfl, ?_⟩
  rw [beWord, leWord_leBytes]
  exact Nat.mod_eq_of_lt h

theorem next_frame (h : Fits max message) (rest : Bytes) :
    next max (streamFrame message ++ rest) = (.ok (some message), rest) := by
  obtain ⟨a, b, c, d, hframe, hlength⟩ := streamFrame_eq h.2
  have hfits := h.1
  simp only [hframe, List.cons_append, next, hlength, List.length_append]
  rw [if_neg (by omega), if_neg (by omega), List.take_left, List.drop_left]

/-- A part of a frame is waited with. -/
theorem next_part {pending tail : Bytes} (h : Fits max message)
    (hpart : streamFrame message = pending ++ tail) (hne : tail ≠ []) :
    next max pending = (.ok none, pending) := by
  by_cases hshort : pending.length < 4
  · exact next_short hshort
  · obtain ⟨a, b, c, d, hframe, hlength⟩ := streamFrame_eq h.2
    obtain ⟨a', b', c', d', rest, rfl⟩ := exists_header hshort
    rw [hframe] at hpart
    simp only [List.cons_append, List.cons.injEq] at hpart
    obtain ⟨rfl, rfl, rfl, rfl, hmessage⟩ := hpart
    have hpos := List.length_pos_of_ne_nil hne
    have hlen := congrArg List.length hmessage
    rw [List.length_append] at hlen
    have hfits := h.1
    simp only [next, hlength]
    rw [if_neg (by omega), if_pos (by omega)]

/-- A part of a frame is kept. -/
theorem drain_part {pending : Bytes} (hinv : r.Inv) (hmax : r.maxMessageLen = max)
    (hlive : r.live = pending) (hnext : next max pending = (.ok none, pending)) :
    ∃ r', r.drain = (.ok [], r') ∧ r'.Inv ∧ r'.maxMessageLen = max ∧ r'.live = pending := by
  obtain ⟨hinv', hspec, hmax'⟩ := tryRead_spec hinv
  rw [hmax, hlive, hnext] at hspec
  obtain ⟨hresult, hlive'⟩ := Prod.mk.inj hspec
  exact ⟨r.tryRead.2, drain_none (Prod.ext hresult rfl), hinv', hmax'.trans hmax, hlive'⟩

/-- Whatever has arrived of a stream, its complete frames are read and the rest is kept. -/
theorem drain_spec (messages : List Bytes) (hfits : ∀ m ∈ messages, Fits max m) {tail : Bytes}
    (hinv : r.Inv) (hmax : r.maxMessageLen = max) (hlive : r.live ++ tail = stream messages) :
    ∃ done rest r', messages = done ++ rest ∧ r.drain = (.ok done, r') ∧ r'.Inv ∧
      r'.maxMessageLen = max ∧ r'.live ++ tail = stream rest ∧
      (next max r'.live).1 = .ok none := by
  induction messages generalizing r with
  | nil =>
    obtain ⟨hempty, htail⟩ := List.append_eq_nil_iff.mp hlive
    obtain ⟨r', hdrain, hinv', hmax', hlive'⟩ := drain_part hinv hmax hempty rfl
    exact ⟨[], [], r', rfl, hdrain, hinv', hmax', by rw [hlive', htail]; rfl, by rw [hlive']; rfl⟩
  | cons m ms ih =>
    have hm := hfits m List.mem_cons_self
    have hstream : r.live ++ tail = streamFrame m ++ stream ms := hlive
    have hread : ∀ t, r.live = streamFrame m ++ t → t ++ tail = stream ms →
        ∃ done rest r', m :: ms = done ++ rest ∧ r.drain = (.ok done, r') ∧ r'.Inv ∧
          r'.maxMessageLen = max ∧ r'.live ++ tail = stream rest ∧
          (next max r'.live).1 = .ok none := by
      intro t hframe htail
      obtain ⟨hinv', hspec, hmax'⟩ := tryRead_spec hinv
      rw [hmax, hframe, next_frame hm] at hspec
      obtain ⟨hresult, hlive'⟩ := Prod.mk.inj hspec
      rw [← hlive'] at htail
      obtain ⟨done, rest, r', hsplit, hdrain, hend⟩ :=
        ih (fun m' hm' => hfits m' (List.mem_cons_of_mem m hm')) hinv' (hmax'.trans hmax) htail
      refine ⟨m :: done, rest, r', by rw [hsplit, List.cons_append], ?_, hend⟩
      rw [drain_some (Prod.ext hresult rfl), hdrain]
      rfl
    rcases List.append_eq_append_iff.mp hstream with ⟨t, hframe, htail⟩ | ⟨t, hframe, htail⟩
    · by_cases hne : t = []
      · rw [hne, List.append_nil] at hframe
        exact hread [] (by rw [hframe, List.append_nil]) (by rw [htail, hne]; rfl)
      · have hnext := next_part hm hframe hne
        obtain ⟨r', hdrain, hinv', hmax', hlive'⟩ := drain_part hinv hmax rfl hnext
        exact ⟨[], m :: ms, r', rfl, hdrain, hinv', hmax', by rw [hlive', hlive], by rw [hlive', hnext]⟩
    · exact hread t hframe htail.symm

/-- By induction on the chunks: after each of them the reader holds a part of a frame. -/
theorem feed_spec (chunks : List Bytes) (messages : List Bytes)
    (hfits : ∀ m ∈ messages, Fits max m) (hinv : r.Inv) (hmax : r.maxMessageLen = max)
    (hlive : r.live ++ chunks.flatten = stream messages)
    (hwaits : (next max r.live).1 = .ok none) : r.feed chunks = .ok messages := by
  induction chunks generalizing r messages with
  | nil =>
    cases messages with
    | nil => rfl
    | cons m ms =>
      rw [List.flatten_nil, List.append_nil] at hlive
      have hframe : r.live = streamFrame m ++ stream ms := hlive
      rw [hframe, next_frame (hfits m List.mem_cons_self)] at hwaits
      cases hwaits
  | cons chunk chunks ih =>
    obtain ⟨hinv', hlive', hmax'⟩ := append_spec hinv chunk
    rw [List.flatten_cons, ← List.append_assoc, ← hlive'] at hlive
    obtain ⟨done, rest, r', rfl, hdrain, hinv'', hmax'', hlive'', hwaits'⟩ :=
      drain_spec messages hfits hinv' (hmax'.trans hmax) hlive
    rw [feed, hdrain]
    dsimp only
    rw [ih rest (fun m hm => hfits m (List.mem_append_right done hm)) hinv'' hmax'' hlive'' hwaits']
    rfl

/-! ### Lengths -/

theorem tryRead_length {msg : Bytes} {r' : StreamFrameReader}
    (h : r.tryRead = (.ok (some msg), r')) : msg.length < 4294967296 := by
  unfold tryRead at h
  dsimp only at h
  split_ifs at h with hheader hover hpart hall
  · cases h
  · cases h
  · cases h
  · obtain rfl := Option.some.inj (Except.ok.inj (Prod.mk.inj h).1)
    exact (List.length_take_le _ _).trans_lt (Fin.isLt _)
  · obtain rfl := Option.some.inj (Except.ok.inj (Prod.mk.inj h).1)
    exact (List.length_take_le _ _).trans_lt (Fin.isLt _)

theorem drain_length : ∀ {msgs : List Bytes}, r.drain.1 = .ok msgs →
    ∀ m ∈ msgs, m.length < 4294967296 := by
  induction r using drain.induct with
  | case1 r r' hread =>
    intro msgs h m hm
    rw [drain_none hread] at h
    rw [← Except.ok.inj h] at hm
    cases hm
  | case2 r msg r' hread ih =>
    intro msgs h m hm
    rw [drain_some hread] at h
    cases hrest : r'.drain.1 with
    | error e =>
      rw [hrest] at h
      cases h
    | ok rest =>
      rw [hrest] at h
      rw [← Except.ok.inj h] at hm
      rcases List.mem_cons.mp hm with rfl | hm
      · exact tryRead_length hread
      · exact ih hrest m hm
  | case3 r e r' hread =>
    intro msgs h
    rw [drain] at h
    split at h
    · rename_i heq
      rw [hread] at heq
      cases heq
    · rename_i heq
      rw [hread] at heq
      cases heq
    · cases h

theorem feed_length (chunks : List Bytes) {msgs : List Bytes} (h : r.feed chunks = .ok msgs) :
    ∀ m ∈ msgs, m.length < 4294967296 := by
  induction chunks generalizing r msgs with
  | nil =>
    rw [← Except.ok.inj h]
    exact fun m hm => nomatch hm
  | cons chunk chunks ih =>
    rw [feed] at h
    have hlength := @drain_length (r.append chunk)
    cases hdrain : (r.append chunk).drain with
    | mk result r' =>
      rw [hdrain] at h hlength
      cases result with
      | error e => cases h
      | ok done =>
        dsimp only at h
        cases hrest : r'.feed chunks with
        | error e =>
          rw [hrest] at h
          cases h
        | ok rest =>
          rw [hrest] at h
          rw [← Except.ok.inj h]
          intro m hm
          rcases List.mem_append.mp hm with hm | hm
          · exact hlength rfl m hm
          · exact ih hrest m hm

/-- However the stream is cut into chunks, its messages are read in order; and the live bytes
always lie within the buffer. -/
def Reassembles (maxMessageLen : ℕ+) (messages : List Bytes) : Prop :=
  (∀ chunks : List Bytes, chunks.flatten = stream messages →
    (new maxMessageLen).feed chunks = .ok messages) ∧
  ∀ r, Reached maxMessageLen r → r.start ≤ r.stop ∧ r.stop ≤ r.buffer.length

theorem reassembles_iff (maxMessageLen : ℕ+) (messages : List Bytes)
    (hfits : ∀ m ∈ messages, m.length ≤ maxMessageLen) :
    Reassembles maxMessageLen messages ↔ ∀ m ∈ messages, m.length < 4294967296 := by
  constructor
  · intro h
    have hfeed := h.1 [stream messages] (by rw [List.flatten_cons, List.flatten_nil, List.append_nil])
    exact feed_length _ hfeed
  · intro hlength
    refine ⟨?_, fun r hr => ⟨hr.inv.start_le, hr.inv.stop_le⟩⟩
    intro chunks hchunks
    refine feed_spec chunks messages (fun m hm => ⟨hfits m hm, hlength m hm⟩)
      (inv_new maxMessageLen) rfl ?_ ?_
    · rw [live_new, hchunks, List.nil_append]
    · rw [live_new]
      rfl

theorem reassembles_iff_hello : Reassembles 4096 [[104, 101, 108, 108, 111], []] ↔
    ∀ m ∈ ([[104, 101, 108, 108, 111], []] : List Bytes), m.length < 4294967296 :=
  reassembles_iff 4096 [[104, 101, 108, 108, 111], []] (by decide)

/-- The length of a message of 4 GiB is sent as zero. -/
theorem long_message_lost : ¬ Reassembles 4294967296 [List.replicate 4294967296 0] := by
  intro h
  have hfeed := h.1 [stream [List.replicate 4294967296 0]]
    (by rw [List.flatten_cons, List.flatten_nil, List.append_nil])
  have hlength := feed_length _ hfeed _ (List.mem_singleton_self _)
  rw [List.length_replicate] at hlength
  exact absurd hlength (lt_irrefl _)

end StreamFrameReader

end Catalyrst.Pulse
