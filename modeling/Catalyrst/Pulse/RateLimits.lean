import Catalyrst.Lib.TokenBucket
import Catalyrst.Pulse.Hardening

/-!
# The rate limiters against the token bucket (`hardening.rs`)

A limiter keeps buckets for its peers. Each of them does what the ideal bucket does from its
first call on, or from a release on, but for a first call at time zero: its time is then
stored as one, and the next call at zero looks like a call one full turn of the clock later.
-/

namespace Catalyrst.Pulse
open Catalyrst.Lib TokenBucket

namespace BucketParams

/-- The answers to a sequence of charges. -/
def answers (p : BucketParams) : Bucket → List U32 → List Bool
  | _, [] => []
  | b, t :: ts => (p.charge b t).1 :: p.answers (p.charge b t).2 ts

/-- The bucket is the ideal one, counted from `t₀`, after a call at `s`. -/
structure Agrees (p : BucketParams) (t₀ s : ℕ) (b : Bucket) : Prop where
  tokens_le : b.tokens ≤ p.burst
  started : b.lastRefillMs ≠ 0
  last : b.lastRefillMs.val = t₀ + ticks p.refillIntervalMs t₀ s * p.refillIntervalMs
  first_le : t₀ ≤ s

variable {p : BucketParams} {b : Bucket} {t₀ s : ℕ} {t : U32}

theorem Agrees.last_le (h : p.Agrees t₀ s b) : b.lastRefillMs.val ≤ s := by
  have hle := Nat.div_mul_le_self (s - t₀) p.refillIntervalMs
  have hfirst := h.first_le
  rw [h.last, ticks]
  omega

/-- The refills due are those of the ideal bucket since its last call. -/
theorem Agrees.refills (h : p.Agrees t₀ s b) (hst : s ≤ t.val) :
    (t - b.lastRefillMs).val / p.refillIntervalMs =
      ticks p.refillIntervalMs t₀ t.val - ticks p.refillIntervalMs t₀ s := by
  have hle : b.lastRefillMs ≤ t := Fin.le_def.mpr (h.last_le.trans hst)
  rw [Fin.sub_val_of_le hle, h.last, ← Nat.sub_sub, Nat.mul_comm, Nat.sub_mul_div]
  rfl

theorem Agrees.refill (h : p.Agrees t₀ s b) (hburst : p.burst ≤ 255) (hst : s ≤ t.val) :
    (p.refill b t).tokens =
        (gain p.burst)^[ticks p.refillIntervalMs t₀ t.val - ticks p.refillIntervalMs t₀ s] b.tokens ∧
      p.Agrees t₀ t.val (p.refill b t) := by
  have htokens := h.tokens_le
  have hmono : ticks p.refillIntervalMs t₀ s ≤ ticks p.refillIntervalMs t₀ t.val := ticks_mono hst
  have hrefills := h.refills hst
  rw [iterate_gain htokens]
  unfold BucketParams.refill
  rw [if_neg h.started]
  dsimp only
  by_cases hzero : (t - b.lastRefillMs).val / p.refillIntervalMs = 0
  · rw [if_pos hzero]
    have hticks : ticks p.refillIntervalMs t₀ t.val = ticks p.refillIntervalMs t₀ s := by omega
    refine ⟨?_, ⟨htokens, h.started, ?_, h.first_le.trans hst⟩⟩
    · rw [hticks, Nat.sub_self, Nat.add_zero, min_eq_left htokens]
    · rw [hticks, h.last]
  · rw [if_neg hzero, hrefills]
    have hlast := h.last
    have hgrid : t₀ + ticks p.refillIntervalMs t₀ t.val * p.refillIntervalMs ≤ t.val := by
      have hle := Nat.div_mul_le_self (t.val - t₀) p.refillIntervalMs
      have hfirst := h.first_le
      rw [ticks]
      omega
    have hsum : b.lastRefillMs.val + (ticks p.refillIntervalMs t₀ t.val -
        ticks p.refillIntervalMs t₀ s) * p.refillIntervalMs =
        t₀ + ticks p.refillIntervalMs t₀ t.val * p.refillIntervalMs := by
      rw [hlast, Nat.add_assoc, ← Nat.add_mul, Nat.add_sub_cancel' hmono]
    have hval : (b.lastRefillMs + Fin.ofNat 4294967296 ((ticks p.refillIntervalMs t₀ t.val -
        ticks p.refillIntervalMs t₀ s) * p.refillIntervalMs)).val =
        t₀ + ticks p.refillIntervalMs t₀ t.val * p.refillIntervalMs := by
      have hlt := t.isLt
      rw [Fin.val_add, Fin.val_ofNat, Nat.add_mod_mod, hsum]
      exact Nat.mod_eq_of_lt (hgrid.trans_lt hlt)
    refine ⟨?_, ⟨min_le_right _ _, ?_, hval, h.first_le.trans hst⟩⟩
    · show min (min _ 4294967295) p.burst = _
      rw [min_assoc, min_eq_right (show p.burst ≤ 4294967295 by omega)]
    · intro hnone
      have hpos : b.lastRefillMs.val ≠ 0 := fun heq => h.started (Fin.ext heq)
      have hnone' := congrArg Fin.val hnone
      rw [hval] at hnone'
      have hzero' : (0 : U32).val = 0 := rfl
      omega

/-- A bucket that agrees with the ideal one gives the same answers. -/
theorem Agrees.answers (hburst : p.burst ≤ 255) (ts : List U32) (h : p.Agrees t₀ s b)
    (hsorted : (s :: ts.map Fin.val).Pairwise (· ≤ ·)) :
    p.answers b ts = TokenBucket.answers p.burst p.refillIntervalMs t₀ b.tokens s (ts.map Fin.val) := by
  induction ts generalizing b s with
  | nil => rfl
  | cons t ts ih =>
    obtain ⟨hfirst, hrest⟩ := List.pairwise_cons.mp hsorted
    obtain ⟨htokens, hagrees⟩ := h.refill hburst (hfirst t.val List.mem_cons_self)
    rw [BucketParams.answers, List.map_cons, TokenBucket.answers, ← htokens]
    unfold charge
    by_cases hzero : (p.refill b t).tokens = 0
    · rw [if_pos hzero, if_pos hzero, ih hagrees hrest, hzero]
    · rw [if_neg hzero, if_neg hzero]
      refine congrArg _ (ih (b := { p.refill b t with tokens := (p.refill b t).tokens - 1 }) ?_ hrest)
      exact ⟨(Nat.sub_le _ 1).trans hagrees.tokens_le, hagrees.started, hagrees.last,
        hagrees.first_le⟩

/-! ### The first call -/

theorem refill_default (p : BucketParams) {t : U32} (ht : t ≠ 0) :
    p.refill Bucket.default t = ⟨p.burst, t⟩ := by
  rw [BucketParams.refill, if_pos (show Bucket.default.lastRefillMs = 0 from rfl), if_neg ht]

theorem refill_self (p : BucketParams) {t : U32} (ht : t ≠ 0) (tokens : ℕ) :
    p.refill ⟨tokens, t⟩ t = ⟨tokens, t⟩ := by
  have hzero : (t - t).val / p.refillIntervalMs = 0 := by
    rw [Fin.sub_val_of_le le_rfl, Nat.sub_self, Nat.zero_div]
  rw [BucketParams.refill, if_neg ht]
  exact if_pos hzero

/-- From a first call not at time zero on, the answers are the ideal ones. -/
theorem answers_default (p : BucketParams) (hburst : p.burst ≤ 255) {t₀ : U32} (ht : t₀ ≠ 0)
    {ts : List U32} (hsorted : (t₀ :: ts).Pairwise (· ≤ ·)) :
    p.answers Bucket.default (t₀ :: ts) =
      ideal p.burst p.refillIntervalMs ((t₀ :: ts).map Fin.val) := by
  have hfull : p.Agrees t₀.val t₀.val ⟨p.burst, t₀⟩ := by
    refine ⟨le_rfl, ht, ?_, le_rfl⟩
    rw [ticks, Nat.sub_self, Nat.zero_div, Nat.zero_mul, Nat.add_zero]
  have hsorted' : (t₀.val :: (t₀ :: ts).map Fin.val).Pairwise (· ≤ ·) := by
    have hvals : ((t₀ :: t₀ :: ts).map Fin.val).Pairwise (· ≤ ·) := by
      rw [List.pairwise_map]
      refine List.pairwise_cons.mpr ⟨?_, hsorted⟩
      intro t hmem
      rcases List.mem_cons.mp hmem with rfl | hmem
      · exact le_rfl
      · exact (List.pairwise_cons.mp hsorted).1 t hmem
    exact hvals
  have hfirst : p.charge Bucket.default t₀ = p.charge ⟨p.burst, t₀⟩ t₀ := by
    rw [charge, charge, refill_default p ht, refill_self p ht]
  calc p.answers Bucket.default (t₀ :: ts)
      = p.answers ⟨p.burst, t₀⟩ (t₀ :: ts) := by rw [answers, answers, hfirst]
    _ = TokenBucket.answers p.burst p.refillIntervalMs t₀ p.burst t₀ ((t₀ :: ts).map Fin.val) :=
      hfull.answers hburst (t₀ :: ts) hsorted'

/-! ### A first call at time zero -/

theorem tokens_le_refill (hburst : p.burst ≤ 255) (h : b.tokens ≤ p.burst) :
    b.tokens ≤ (p.refill b t).tokens ∧ (p.refill b t).tokens ≤ p.burst := by
  unfold BucketParams.refill
  split
  · exact ⟨h, le_rfl⟩
  · dsimp only
    split
    · exact ⟨le_rfl, h⟩
    · refine ⟨?_, min_le_right _ _⟩
      generalize (t - b.lastRefillMs).val / p.refillIntervalMs = refills
      show b.tokens ≤ min (min (b.tokens + refills) 4294967295) p.burst
      omega

/-- As many calls are accepted as there are tokens, whatever the clock says. -/
theorem answers_replicate (hburst : p.burst ≤ 255) (n : ℕ) (h : b.tokens ≤ p.burst)
    (hn : n ≤ b.tokens) : p.answers b (List.replicate n t) = List.replicate n true := by
  induction n generalizing b with
  | zero => rfl
  | succ n ih =>
    obtain ⟨hmore, hle⟩ := tokens_le_refill (t := t) hburst h
    rw [List.replicate_succ, answers, charge, if_neg (by omega), List.replicate_succ]
    refine congrArg _ (ih (b := { p.refill b t with tokens := (p.refill b t).tokens - 1 }) ?_ ?_)
    · exact (Nat.sub_le _ 1).trans hle
    · show n ≤ (p.refill b t).tokens - 1
      omega

/-- At time zero the bucket is filled twice, and one call too many is accepted. -/
theorem answers_zero (hburst : p.burst ≤ 255) (hpos : 0 < p.burst) (hinterval : 0 < p.refillIntervalMs)
    (hlt : p.refillIntervalMs < 4294967296) :
    p.answers Bucket.default (List.replicate (p.burst + 1) 0) = List.replicate (p.burst + 1) true := by
  obtain ⟨n, hn⟩ : ∃ n, p.burst = n + 1 := ⟨p.burst - 1, by omega⟩
  have hfirst : p.charge Bucket.default 0 = (true, ⟨n, 1⟩) := by
    have hrefill : p.refill Bucket.default 0 = ⟨p.burst, 1⟩ := rfl
    have hfull : ¬ p.burst = 0 := hpos.ne'
    rw [charge, hrefill, if_neg hfull, hn]
    rfl
  have hturn : (0 - 1 : U32).val = 4294967295 := by decide
  have hrefills : 0 < (0 - 1 : U32).val / p.refillIntervalMs := by
    rw [hturn]
    exact Nat.div_pos (by omega) hinterval
  have hsecond : (p.refill ⟨n, 1⟩ 0).tokens = p.burst := by
    have hone : (1 : U32) ≠ 0 := by decide
    unfold BucketParams.refill
    rw [if_neg hone]
    generalize (0 - 1 : U32).val / p.refillIntervalMs = refills at hrefills
    show (if refills = 0 then _ else _ : Bucket).tokens = p.burst
    rw [if_neg hrefills.ne']
    show min (min (n + refills) 4294967295) p.burst = p.burst
    omega
  have hfound : ¬ (p.refill ⟨n, 1⟩ 0).tokens = 0 := by omega
  rw [hn, List.replicate_succ, List.replicate_succ, answers, hfirst, answers, charge,
    if_neg hfound, List.replicate_succ, List.replicate_succ]
  refine congrArg _ (congrArg _ (answers_replicate hburst n ?_ ?_))
  · exact (Nat.sub_le _ 1).trans hsecond.le
  · show n ≤ (p.refill ⟨n, 1⟩ 0).tokens - 1
    omega

end BucketParams

/-! ### A bucket of a limiter -/

/-- One bucket of a limiter, among calls of all peers. -/
structure Slot (L C : Type) where
  params : L → BucketParams
  bucket : L → Bucket
  /-- The answer and the limiter after. -/
  step : L → C → Bool × L
  /-- The time of the call, if it is one on the bucket. -/
  call : C → Option U32
  releases : C → Bool

namespace Slot

variable {L C : Type} (s : Slot L C)

def run (l : L) (cs : List C) : L := cs.foldl (fun l c => (s.step l c).2) l

/-- The answers to the calls on the bucket. -/
def answers (l : L) : List C → List Bool
  | [] => []
  | c :: cs =>
    if (s.call c).isSome then (s.step l c).1 :: answers (s.step l c).2 cs
    else answers (s.step l c).2 cs

/-- No call on the bucket since its last release, or none at all. -/
def unused (cs : List C) : Bool :=
  cs.foldl (fun fresh c => if s.releases c then true else if (s.call c).isSome then false else fresh)
    true

/-- From a first call at `t₀` on, or from the first one after a release, the limiter accepts
what the ideal bucket accepts, and never more than its bound. -/
def IsIdeal (initial : L) (t₀ : U32) : Prop :=
  ∀ before during ts, s.unused before = true → (∀ c ∈ during, s.releases c = false) →
    during.filterMap s.call = t₀ :: ts → (t₀ :: ts).Pairwise (· ≤ ·) →
    s.answers (s.run initial before) during =
      ideal (s.params initial).burst (s.params initial).refillIntervalMs ((t₀ :: ts).map Fin.val) ∧
    ∀ t, acceptedBy t (((t₀ :: ts).map Fin.val).zip (s.answers (s.run initial before) during)) ≤
      (s.params initial).burst + (t - t₀.val) / (s.params initial).refillIntervalMs

/-- A call charges the bucket and everything but a release leaves it. -/
structure Lawful : Prop where
  params_step : ∀ l c, s.params (s.step l c).2 = s.params l
  call_step : ∀ l c t, s.call c = some t → (s.params l).isEnabled = true →
    ((s.step l c).1, s.bucket (s.step l c).2) = (s.params l).charge (s.bucket l) t
  release_step : ∀ l c, s.releases c = true → s.bucket (s.step l c).2 = Bucket.default
  other_step : ∀ l c, s.call c = none → s.releases c = false →
    s.bucket (s.step l c).2 = s.bucket l
  has_call : ∀ t, ∃ c, s.call c = some t ∧ s.releases c = false

variable {s} {l initial : L} {t₀ : U32}

theorem Lawful.params_run (h : s.Lawful) (l : L) (cs : List C) :
    s.params (s.run l cs) = s.params l := by
  induction cs generalizing l with
  | nil => rfl
  | cons c cs ih => exact (ih (s.step l c).2).trans (h.params_step l c)

theorem Lawful.bucket_run (h : s.Lawful) {cs : List C} (hl : s.bucket l = Bucket.default)
    (hunused : s.unused cs = true) : s.bucket (s.run l cs) = Bucket.default := by
  have hrun : ∀ (cs : List C) (l : L) (fresh : Bool),
      (fresh = true → s.bucket l = Bucket.default) →
      cs.foldl (fun fresh c => if s.releases c then true else if (s.call c).isSome then false
        else fresh) fresh = true → s.bucket (s.run l cs) = Bucket.default := by
    intro cs
    induction cs with
    | nil => exact fun l fresh hfresh hend => hfresh hend
    | cons c cs ih =>
      intro l fresh hfresh hend
      refine ih (s.step l c).2 _ ?_ hend
      intro hnext
      dsimp only at hnext
      by_cases hrelease : s.releases c = true
      · exact h.release_step l c hrelease
      · rw [if_neg hrelease] at hnext
        cases hcall : s.call c with
        | some t =>
          rw [hcall] at hnext
          cases hnext
        | none =>
          rw [hcall] at hnext
          rw [h.other_step l c hcall (Bool.eq_false_iff.mpr hrelease)]
          exact hfresh hnext
  exact hrun cs l true (fun _ => hl) hunused

/-- Among the calls of others the bucket is charged by its own ones only. -/
theorem Lawful.answers_eq (h : s.Lawful) (l : L) (henabled : (s.params l).isEnabled = true)
    (cs : List C) (hkept : ∀ c ∈ cs, s.releases c = false) :
    s.answers l cs = (s.params l).answers (s.bucket l) (cs.filterMap s.call) := by
  induction cs generalizing l with
  | nil => rfl
  | cons c cs ih =>
    have hparams := h.params_step l c
    have hrest := ih (s.step l c).2 (by rw [hparams]; exact henabled)
      fun c' hc' => hkept c' (List.mem_cons_of_mem c hc')
    rw [hparams] at hrest
    cases hcall : s.call c with
    | none =>
      rw [List.filterMap_cons_none hcall, answers, hcall, if_neg (by simp), hrest,
        h.other_step l c hcall (hkept c List.mem_cons_self)]
    | some t =>
      rw [List.filterMap_cons_some hcall, answers, hcall, if_pos (by simp), hrest,
        BucketParams.answers, ← h.call_step l c t hcall henabled]

theorem Lawful.isIdeal_iff (h : s.Lawful) (hinitial : s.bucket initial = Bucket.default)
    (henabled : (s.params initial).isEnabled = true) (hburst : (s.params initial).burst ≤ 255)
    (hlt : (s.params initial).refillIntervalMs < 4294967296) :
    s.IsIdeal initial t₀ ↔ t₀ ≠ 0 := by
  constructor
  · rintro hideal rfl
    obtain ⟨hinterval, hpos⟩ := of_decide_eq_true henabled
    obtain ⟨c, hcall, hkept⟩ := h.has_call 0
    have hcalls : (List.replicate ((s.params initial).burst + 1) c).filterMap s.call =
        List.replicate ((s.params initial).burst + 1) 0 := by
      rw [List.filterMap_replicate_of_some hcall]
    have hsorted : (List.replicate ((s.params initial).burst + 1) (0 : U32)).Pairwise (· ≤ ·) :=
      List.pairwise_replicate.mpr (.inr le_rfl)
    have hall := h.answers_eq initial henabled (List.replicate ((s.params initial).burst + 1) c)
      fun c' hc' => by rw [List.eq_of_mem_replicate hc']; exact hkept
    rw [hcalls, hinitial, BucketParams.answers_zero hburst hpos hinterval hlt] at hall
    obtain ⟨-, hbound⟩ := hideal [] (List.replicate ((s.params initial).burst + 1) c)
      (List.replicate (s.params initial).burst 0) rfl
      (fun c' hc' => by rw [List.eq_of_mem_replicate hc']; exact hkept) hcalls hsorted
    have hcount := hbound 0
    rw [show s.run initial [] = initial from rfl, hall, ← List.replicate_succ, List.map_replicate,
      List.zip_replicate', acceptedBy, List.countP_replicate] at hcount
    simp at hcount
  · intro ht before during ts hunused hkept hcalls hsorted
    have hparams := h.params_run initial before
    have hanswers := h.answers_eq (s.run initial before) (by rw [hparams]; exact henabled) during hkept
    rw [hparams, h.bucket_run hinitial hunused, hcalls,
      BucketParams.answers_default _ hburst ht hsorted] at hanswers
    rw [hanswers]
    refine ⟨rfl, fun t => ?_⟩
    rw [List.map_cons]
    refine acceptedBy_ideal _ _ t ?_
    rw [← List.map_cons, List.pairwise_map]
    exact hsorted

end Slot

/-! ### The limiters -/

namespace GameplayRateLimiter

def new (inputMaxHz inputBurst discreteRatePerSec discreteBurst : ℕ) : GameplayRateLimiter :=
  ⟨.perSecond inputMaxHz inputBurst, .perSecond discreteRatePerSec discreteBurst, ∅⟩

inductive Call where
  | tryAccept (kind : Limited) (peer now : U32)
  | release (peer : U32)

/-- A release has no answer. -/
def step (l : GameplayRateLimiter) : Call → Bool × GameplayRateLimiter
  | .tryAccept .input peer now => l.tryAcceptInput peer now
  | .tryAccept .discrete peer now => l.tryAcceptDiscrete peer now
  | .release peer => (true, l.release peer)

def slot (kind : Limited) (peer : U32) : Slot GameplayRateLimiter Call where
  params l := l.params kind
  bucket l := (l.buckets peer).bucket kind
  step := step
  call
    | .tryAccept k q now => if k = kind ∧ q = peer then some now else none
    | .release _ => none
  releases
    | .tryAccept _ _ _ => false
    | .release q => q = peer

def inputSlot (peer : U32) : Slot GameplayRateLimiter Call := slot .input peer

def discreteSlot (peer : U32) : Slot GameplayRateLimiter Call := slot .discrete peer

theorem step_tryAccept (l : GameplayRateLimiter) (kind : Limited) (peer now : U32) :
    l.step (.tryAccept kind peer now) = l.tryAccept kind peer now := by
  cases kind <;> rfl

theorem buckets_insert (l : GameplayRateLimiter) (q peer : U32) (b : PeerBuckets) :
    buckets { l with peers := l.peers.insert q b } peer = if q = peer then b else l.buckets peer := by
  rw [buckets, buckets, OrdMap.find_insert]
  split <;> rfl

theorem buckets_release (l : GameplayRateLimiter) (q peer : U32) :
    (l.release q).buckets peer =
      if q = peer then ⟨Bucket.default, Bucket.default⟩ else l.buckets peer := by
  rw [buckets, buckets, release, OrdMap.find_erase]
  split <;> rfl

section Steps

variable (l : GameplayRateLimiter) (kind k : Limited) (q now peer : U32)

theorem tryAccept_params : (l.tryAccept k q now).2.params kind = l.params kind := by
  unfold tryAccept
  split <;> rfl

theorem tryAccept_bucket (h : (l.params kind).isEnabled = true) :
    ((l.tryAccept kind q now).1, ((l.tryAccept kind q now).2.buckets q).bucket kind) =
      (l.params kind).charge ((l.buckets q).bucket kind) now := by
  have hset : ∀ (b : PeerBuckets) bucket, (b.setBucket kind bucket).bucket kind = bucket := by
    cases kind <;> exact fun _ _ => rfl
  unfold tryAccept
  rw [if_neg (by simp [h])]
  dsimp only
  rw [buckets_insert, if_pos rfl, hset]

/-- A call leaves the buckets of other peers and the other bucket of its own peer. -/
theorem tryAccept_others (h : ¬(k = kind ∧ q = peer)) :
    ((l.tryAccept k q now).2.buckets peer).bucket kind = (l.buckets peer).bucket kind := by
  unfold tryAccept
  split
  · rfl
  · rw [buckets_insert]
    by_cases heq : q = peer
    · have hne : k ≠ kind := fun hk => h ⟨hk, heq⟩
      rw [if_pos heq, heq]
      cases k <;> cases kind <;> first | rfl | exact absurd rfl hne
    · rw [if_neg heq]

end Steps

theorem slot_lawful (kind : Limited) (peer : U32) : (slot kind peer).Lawful where
  params_step l c := by
    cases c with
    | tryAccept k q now =>
      show (l.step (.tryAccept k q now)).2.params kind = l.params kind
      rw [step_tryAccept]
      exact l.tryAccept_params kind k q now
    | release q => cases kind <;> rfl
  call_step l c t hcall henabled := by
    cases c with
    | tryAccept k q now =>
      obtain ⟨⟨rfl, rfl⟩, hnow⟩ := Option.ite_none_right_eq_some.mp hcall
      rw [← Option.some.inj hnow]
      show ((l.step (.tryAccept k q now)).1, ((l.step (.tryAccept k q now)).2.buckets q).bucket k) = _
      rw [step_tryAccept]
      exact l.tryAccept_bucket k q now henabled
    | release q => cases hcall
  release_step l c hrelease := by
    cases c with
    | tryAccept k q now => cases hrelease
    | release q =>
      show ((l.release q).buckets peer).bucket kind = Bucket.default
      rw [buckets_release, if_pos (of_decide_eq_true hrelease)]
      cases kind <;> rfl
  other_step l c hcall hkept := by
    cases c with
    | tryAccept k q now =>
      have hother : ¬(k = kind ∧ q = peer) := fun heq => by simp [slot, heq] at hcall
      show ((l.step (.tryAccept k q now)).2.buckets peer).bucket kind = _
      rw [step_tryAccept]
      exact l.tryAccept_others kind k q now peer hother
    | release q =>
      show ((l.release q).buckets peer).bucket kind = (l.buckets peer).bucket kind
      rw [buckets_release, if_neg (of_decide_eq_false hkept)]
  has_call t := ⟨.tryAccept kind peer t, if_pos ⟨rfl, rfl⟩, rfl⟩

end GameplayRateLimiter

namespace CorruptedPacketLimiter

def new (maxPerMinute burstCapacity : ℕ) : CorruptedPacketLimiter :=
  ⟨.perMinute maxPerMinute burstCapacity, ∅⟩

inductive Call where
  | registerAndCheckExhausted (peer now : U32)
  | release (peer : U32)

/-- A packet is tolerated if the bucket is not exhausted. -/
def step (l : CorruptedPacketLimiter) : Call → Bool × CorruptedPacketLimiter
  | .registerAndCheckExhausted peer now =>
    (!(l.registerAndCheckExhausted peer now).1, (l.registerAndCheckExhausted peer now).2)
  | .release peer => (true, l.release peer)

def slot (peer : U32) : Slot CorruptedPacketLimiter Call where
  params l := l.params
  bucket l := l.peers[peer]?.getD Bucket.default
  step := step
  call
    | .registerAndCheckExhausted q now => if q = peer then some now else none
    | .release _ => none
  releases
    | .registerAndCheckExhausted _ _ => false
    | .release q => q = peer

theorem slot_lawful (peer : U32) : (slot peer).Lawful where
  params_step l c := by
    cases c with
    | registerAndCheckExhausted q now =>
      show (l.registerAndCheckExhausted q now).2.params = l.params
      unfold registerAndCheckExhausted
      split <;> rfl
    | release q => rfl
  call_step l c t hcall henabled := by
    cases c with
    | registerAndCheckExhausted q now =>
      obtain ⟨rfl, hnow⟩ := Option.ite_none_right_eq_some.mp hcall
      rw [← Option.some.inj hnow]
      show (!(l.registerAndCheckExhausted q now).1,
        (l.registerAndCheckExhausted q now).2.peers[q]?.getD Bucket.default) = _
      have hparams : l.params.isEnabled = true := henabled
      unfold registerAndCheckExhausted
      rw [if_neg (by simp [hparams]), OrdMap.find_insert, if_pos rfl, Bool.not_not]
      rfl
    | release q => cases hcall
  release_step l c hrelease := by
    cases c with
    | registerAndCheckExhausted q now => cases hrelease
    | release q =>
      show (l.peers.erase q)[peer]?.getD Bucket.default = Bucket.default
      rw [OrdMap.find_erase, if_pos (of_decide_eq_true hrelease)]
      rfl
  other_step l c hcall hkept := by
    cases c with
    | registerAndCheckExhausted q now =>
      have hne : q ≠ peer := fun heq => by simp [slot, heq] at hcall
      show (l.registerAndCheckExhausted q now).2.peers[peer]?.getD Bucket.default =
        l.peers[peer]?.getD Bucket.default
      unfold registerAndCheckExhausted
      split
      · rfl
      · rw [OrdMap.find_insert, if_neg hne]
    | release q =>
      show (l.peers.erase q)[peer]?.getD Bucket.default = l.peers[peer]?.getD Bucket.default
      rw [OrdMap.find_erase, if_neg (of_decide_eq_false hkept)]
  has_call t := ⟨.registerAndCheckExhausted peer t, if_pos rfl, rfl⟩

end CorruptedPacketLimiter

theorem BucketParams.perSecond_bounds (rate burst : ℕ) : (perSecond rate burst).burst ≤ 255 ∧
    (perSecond rate burst).refillIntervalMs < 4294967296 := by
  refine ⟨min_le_right burst 255, ?_⟩
  have hdiv := Nat.div_le_self 1000 rate
  show (if rate = 0 then 0 else max (1000 / rate) 1) < 4294967296
  split <;> omega

theorem BucketParams.perMinute_bounds (rate burst : ℕ) : (perMinute rate burst).burst ≤ 255 ∧
    (perMinute rate burst).refillIntervalMs < 4294967296 := by
  refine ⟨min_le_right burst 255, ?_⟩
  have hdiv := Nat.div_le_self 60000 rate
  show (if rate = 0 then 0 else 60000 / rate) < 4294967296
  split <;> omega

/-- An enabled limiter is the ideal bucket for a first call that is not at time zero. -/
theorem limiters_are_ideal_buckets (inputMaxHz inputBurst discreteRatePerSec discreteBurst
    maxPerMinute burstCapacity : ℕ) (peer t₀ : U32) :
    ((BucketParams.perSecond inputMaxHz inputBurst).isEnabled = true →
      ((GameplayRateLimiter.inputSlot peer).IsIdeal
        (.new inputMaxHz inputBurst discreteRatePerSec discreteBurst) t₀ ↔ t₀ ≠ 0)) ∧
    ((BucketParams.perSecond discreteRatePerSec discreteBurst).isEnabled = true →
      ((GameplayRateLimiter.discreteSlot peer).IsIdeal
        (.new inputMaxHz inputBurst discreteRatePerSec discreteBurst) t₀ ↔ t₀ ≠ 0)) ∧
    ((BucketParams.perMinute maxPerMinute burstCapacity).isEnabled = true →
      ((CorruptedPacketLimiter.slot peer).IsIdeal
        (.new maxPerMinute burstCapacity) t₀ ↔ t₀ ≠ 0)) := by
  refine ⟨fun henabled => ?_, fun henabled => ?_, fun henabled => ?_⟩
  · obtain ⟨hburst, hlt⟩ := BucketParams.perSecond_bounds inputMaxHz inputBurst
    exact (GameplayRateLimiter.slot_lawful .input peer).isIdeal_iff rfl henabled hburst hlt
  · obtain ⟨hburst, hlt⟩ := BucketParams.perSecond_bounds discreteRatePerSec discreteBurst
    exact (GameplayRateLimiter.slot_lawful .discrete peer).isIdeal_iff rfl henabled hburst hlt
  · obtain ⟨hburst, hlt⟩ := BucketParams.perMinute_bounds maxPerMinute burstCapacity
    exact (CorruptedPacketLimiter.slot_lawful peer).isIdeal_iff rfl henabled hburst hlt

theorem limiters_are_ideal_buckets_at_second :
    (GameplayRateLimiter.inputSlot 1).IsIdeal (.new 20 16 5 10) 1000 ↔ (1000 : U32) ≠ 0 :=
  (limiters_are_ideal_buckets 20 16 5 10 5 5 1 1000).1 (by decide)

/-- A peer whose first input comes at time zero gets one more than its burst. -/
theorem input_bucket_filled_twice :
    ¬ (GameplayRateLimiter.inputSlot 1).IsIdeal (.new 20 16 5 10) 0 := by
  obtain ⟨hburst, hlt⟩ := BucketParams.perSecond_bounds 20 16
  have hlawful := GameplayRateLimiter.slot_lawful .input 1
  intro hideal
  exact (@Slot.Lawful.isIdeal_iff _ _ _ (GameplayRateLimiter.new 20 16 5 10) 0 hlawful rfl
    (by decide) hburst hlt).mp hideal rfl

end Catalyrst.Pulse
