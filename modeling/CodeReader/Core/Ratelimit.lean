import CodeReader.Email.Service
import CodeReader.Txn.History

/-!
# The token bucket

`checkTokenBucket` reads Redis's clock in a round trip of its own and then has the script run, so calls can reach the
script in another order than that of their clocks.

* `checkTokenBucket` — a call, on what Redis has under its key;
* `InOrder` — the call comes after the one that it finds in the bucket;
* `bounded_of_inOrder` — **the result**: where every call is in order, the calls that are allowed are bounded;
* `stale_clock_refills` — what a call with an older clock does.
-/

namespace CodeReader.Ratelimit

open Txn (Steps)
open Email (Bucket tokenBucketScript)

structure RateLimitResult where
  allowed : Bool
  limit : Nat
  remaining : Int
  retryAfter : Int
  deriving DecidableEq

/-- The arguments of `check_token_bucket`. -/
structure BucketLimit where
  limit : Nat
  windowSeconds : Nat
  window_pos : 0 < windowSeconds

def BucketLimit.rate (p : BucketLimit) : Rat := p.limit / p.windowSeconds

/-- What Redis has under a key. -/
structure StoredBucket where
  bucket : Bucket
  expiresAt : Rat

/-- A call: the clock that it has read, and when its script runs.  Times are seconds. -/
structure BucketCall where
  now : Int
  runsAt : Rat

/-- `check_token_bucket`, from the script on. -/
def checkTokenBucket (p : BucketLimit) (stored : Option StoredBucket) (c : BucketCall) :
    RateLimitResult × StoredBucket :=
  let data := (stored.filter fun b => c.runsAt < b.expiresAt).map (·.bucket)
  let (allowed, bucket) := tokenBucketScript p.limit p.windowSeconds c.now data
  let retryAfter := if allowed then 0 else ⌈(1 - bucket.tokens) / p.rate⌉
  (⟨allowed, p.limit, max 0 ⌊bucket.tokens⌋, max 1 retryAfter⟩, ⟨bucket, c.runsAt + p.windowSeconds * 2⟩)

/-! ## Calls on one key -/

/-- What Redis has under the key, and how many calls were allowed. -/
structure Served where
  stored : Option StoredBucket
  allowed : Nat

namespace BucketLimit

variable (p : BucketLimit)

def serve (s : Served) (c : BucketCall) : Served :=
  let (result, stored) := checkTokenBucket p s.stored c
  ⟨some stored, if result.allowed then s.allowed + 1 else s.allowed⟩

/-- The calls, in the order in which their scripts run. -/
def served (calls : List BucketCall) : Served := calls.foldl p.serve ⟨none, 0⟩

theorem served_append_singleton (calls : List BucketCall) (c : BucketCall) :
    p.served (calls ++ [c]) = p.serve (p.served calls) c := by
  rw [served, List.foldl_append]
  rfl

end BucketLimit

/-- The largest clock minus the smallest. -/
def spread (calls : List BucketCall) : Int :=
  let nows := calls.map (·.now)
  nows.max?.getD 0 - nows.min?.getD 0

theorem le_spread {calls : List BucketCall} {c c' : BucketCall} (hc : c ∈ calls) (hc' : c' ∈ calls) :
    c'.now - c.now ≤ spread calls := by
  have hmem : c.now ∈ calls.map (·.now) := List.mem_map_of_mem hc
  have hmem' : c'.now ∈ calls.map (·.now) := List.mem_map_of_mem hc'
  have hne : calls.map (·.now) ≠ [] := List.ne_nil_of_mem hmem
  obtain ⟨hi, hhi⟩ := Option.isSome_iff_exists.mp (List.isSome_max?_of_ne_nil hne)
  obtain ⟨lo, hlo⟩ := Option.isSome_iff_exists.mp (List.isSome_min?_of_ne_nil hne)
  have hle := (List.max?_eq_some_iff.mp hhi).2 _ hmem'
  have hge := (List.min?_eq_some_iff.mp hlo).2 _ hmem
  simp only [spread, hhi, hlo, Option.getD_some]
  omega

/-- The calls that are allowed are at most the limit, and what the window refills between the clocks. -/
def Bounded (p : BucketLimit) (calls : List BucketCall) : Prop :=
  ((p.served calls).allowed : Rat) ≤ p.limit + p.rate * spread calls

/-- The call's clock is not before the bucket's, and a bucket that has expired was full again by the call's clock. -/
def InOrder (p : BucketLimit) (calls : List BucketCall) (c : BucketCall) : Prop :=
  ∀ b, (p.served calls).stored = some b → b.bucket.ts ≤ c.now ∧
    (b.expiresAt ≤ c.runsAt → b.bucket.ts + p.windowSeconds ≤ c.now)

/-! ## Credit -/

section Credit

variable {p : BucketLimit} {calls : List BucketCall} {c : BucketCall}

theorem BucketLimit.rate_nonneg : 0 ≤ p.rate := by
  unfold rate
  positivity

theorem BucketLimit.rate_mul_window : p.rate * p.windowSeconds = p.limit := by
  have hne : (p.windowSeconds : Rat) ≠ 0 := Nat.cast_ne_zero.mpr p.window_pos.ne'
  exact div_mul_cancel₀ _ hne

/-- What the script has to spend. -/
def BucketLimit.filled (p : BucketLimit) (now : Int) : Option Bucket → Rat
  | some b => min p.limit (b.tokens + (max 0 (now - b.ts) : Int) * p.rate)
  | none => p.limit

/-- The script allows a call and takes a token for it, or leaves what there is. -/
theorem tokenBucketScript_eq (data : Option Bucket) (now : Int) :
    tokenBucketScript p.limit p.windowSeconds now data =
      if 1 ≤ p.filled now data then (true, ⟨p.filled now data - 1, now⟩) else (false, ⟨p.filled now data, now⟩) := by
  cases data with
  | none => simp [tokenBucketScript, BucketLimit.filled]
  | some b => rfl

/-- The calls that were allowed, and the tokens that are left, are at most what there was to spend since the first
call. -/
structure Paid (p : BucketLimit) (calls : List BucketCall) (b : StoredBucket) : Prop where
  tokens_nonneg : 0 ≤ b.bucket.tokens
  paid : ∃ first ∈ calls, ∃ last ∈ calls, b.bucket.ts = last.now ∧
    ((p.served calls).allowed : Rat) + b.bucket.tokens ≤ p.limit + p.rate * (last.now - first.now : Int)

/-- What a call has to spend. -/
def BucketLimit.toSpend (p : BucketLimit) (calls : List BucketCall) (c : BucketCall) : Rat :=
  p.filled c.now (((p.served calls).stored.filter fun b => c.runsAt < b.expiresAt).map (·.bucket))

theorem served_one_more (p : BucketLimit) (calls : List BucketCall) (c : BucketCall) : p.served (calls ++ [c]) =
    if 1 ≤ p.toSpend calls c then
      ⟨some ⟨⟨p.toSpend calls c - 1, c.now⟩, c.runsAt + p.windowSeconds * 2⟩, (p.served calls).allowed + 1⟩
    else ⟨some ⟨⟨p.toSpend calls c, c.now⟩, c.runsAt + p.windowSeconds * 2⟩, (p.served calls).allowed⟩ := by
  rw [p.served_append_singleton]
  simp only [BucketLimit.serve, checkTokenBucket, tokenBucketScript_eq]
  rw [← BucketLimit.toSpend]
  split <;> rfl

/-- A call leaves what it finds, less the token that it takes. -/
theorem paid_serve {first : BucketCall} (hfirst : first ∈ calls ++ [c]) (hspend : 0 ≤ p.toSpend calls c)
    (hpaid : ((p.served calls).allowed : Rat) + p.toSpend calls c ≤ p.limit + p.rate * (c.now - first.now : Int)) :
    ∃ b, (p.served (calls ++ [c])).stored = some b ∧ Paid p (calls ++ [c]) b := by
  have hlast : c ∈ calls ++ [c] := List.mem_append_right _ (List.mem_singleton_self c)
  have hserved := served_one_more p calls c
  split at hserved
  · rename_i hone
    have hcredit : (((p.served (calls ++ [c])).allowed : Nat) : Rat) + (p.toSpend calls c - 1) ≤
        p.limit + p.rate * (c.now - first.now : Int) := by
      rw [hserved, Nat.cast_add, Nat.cast_one]
      linarith
    exact ⟨_, congrArg Served.stored hserved, sub_nonneg.mpr hone, first, hfirst, c, hlast, rfl, hcredit⟩
  · have hcredit : (((p.served (calls ++ [c])).allowed : Nat) : Rat) + p.toSpend calls c ≤
        p.limit + p.rate * (c.now - first.now : Int) := by
      rw [hserved]
      exact hpaid
    exact ⟨_, congrArg Served.stored hserved, hspend, first, hfirst, c, hlast, rfl, hcredit⟩

/-- **A call in order** spends only what was filled in since the first call. -/
theorem paid_of_inOrder (hnone : (p.served calls).stored = none → calls = [])
    (hpaid : ∀ b, (p.served calls).stored = some b → Paid p calls b) (hc : InOrder p calls c) :
    ∃ b, (p.served (calls ++ [c])).stored = some b ∧ Paid p (calls ++ [c]) b := by
  cases hstored : (p.served calls).stored with
  | none =>
    have hempty := hnone hstored
    subst hempty
    refine paid_serve (List.mem_append_right _ (List.mem_singleton_self c)) ?_ ?_
    · rw [BucketLimit.toSpend, hstored]
      exact Nat.cast_nonneg _
    · rw [BucketLimit.toSpend, hstored]
      simp [BucketLimit.filled, BucketLimit.served]
  | some b =>
    obtain ⟨htokens, first, hfirst, last, -, hts, hcredit⟩ := hpaid b hstored
    obtain ⟨hin, hexpired⟩ := hc b hstored
    have hrate := p.rate_nonneg
    have hsince : (p.rate * (last.now - first.now : Int)) + p.rate * (c.now - b.bucket.ts : Int) =
        p.rate * (c.now - first.now : Int) := by
      rw [hts]
      push_cast
      ring
    by_cases hlive : c.runsAt < b.expiresAt
    · -- the bucket is filled up for the time since its last call
      have hdata : ((some b).filter fun b => c.runsAt < b.expiresAt).map (·.bucket) = some b.bucket := by simp [hlive]
      have hmax : max 0 (c.now - b.bucket.ts) = c.now - b.bucket.ts := max_eq_right (sub_nonneg.mpr hin)
      have hrefill : 0 ≤ p.rate * (c.now - b.bucket.ts : Int) :=
        mul_nonneg hrate (Int.cast_nonneg (sub_nonneg.mpr hin))
      refine paid_serve (List.mem_append_left _ hfirst) ?_ ?_
      · rw [BucketLimit.toSpend, hstored, hdata, BucketLimit.filled, hmax]
        refine le_min (Nat.cast_nonneg _) ?_
        rw [mul_comm]
        linarith
      · rw [BucketLimit.toSpend, hstored, hdata, BucketLimit.filled, hmax]
        have hle := min_le_right (p.limit : Rat) (b.bucket.tokens + (c.now - b.bucket.ts : Int) * p.rate)
        linarith [mul_comm ((c.now - b.bucket.ts : Int) : Rat) p.rate]
    · -- a new bucket is full, as the old one would be
      have hdata : ((some b).filter fun b => c.runsAt < b.expiresAt).map (·.bucket) = none := by
        simpa using not_lt.mp hlive
      have hwindow : (p.windowSeconds : Rat) ≤ (c.now - b.bucket.ts : Int) := by
        have := hexpired (not_lt.mp hlive)
        exact_mod_cast (by omega : (p.windowSeconds : Int) ≤ c.now - b.bucket.ts)
      have hfull : (p.limit : Rat) ≤ p.rate * (c.now - b.bucket.ts : Int) := by
        rw [← p.rate_mul_window]
        exact mul_le_mul_of_nonneg_left hwindow hrate
      refine paid_serve (List.mem_append_left _ hfirst) ?_ ?_
      · rw [BucketLimit.toSpend, hstored, hdata]
        exact Nat.cast_nonneg _
      · rw [BucketLimit.toSpend, hstored, hdata, BucketLimit.filled]
        linarith

end Credit

/-- After a call there is a bucket. -/
theorem paid_of_steps {p : BucketLimit} {calls : List BucketCall} (h : Steps (InOrder p) calls) :
    ((p.served calls).stored = none → calls = []) ∧ ∀ b, (p.served calls).stored = some b → Paid p calls b := by
  induction calls using List.reverseRecOn with
  | nil => exact ⟨fun _ => rfl, fun b hb => absurd hb.symm (Option.some_ne_none b)⟩
  | append_singleton calls c ih =>
    obtain ⟨hsteps, hlast⟩ := Txn.steps_append_singleton.mp h
    obtain ⟨hnone, hpaid⟩ := ih hsteps
    obtain ⟨b, hb, hpaid'⟩ := paid_of_inOrder hnone hpaid hlast
    refine ⟨fun hn => ?_, fun b' hb' => ?_⟩
    · rw [hb] at hn
      cases hn
    · rw [hb] at hb'
      cases hb'
      exact hpaid'

/-- **The bound of the bucket**: in every run of calls that are all in order, the calls that were allowed are bounded at
every point of the run. -/
theorem bounded_of_inOrder (p : BucketLimit) (calls : List BucketCall) (h : Steps (InOrder p) calls) :
    ∀ pre, pre <+: calls → Bounded p pre := by
  intro pre hpre
  have hsteps : Steps (InOrder p) pre := fun pre' c hpre' => h pre' c (hpre'.trans hpre)
  obtain ⟨hnone, hpaid⟩ := paid_of_steps hsteps
  unfold Bounded
  cases hstored : (p.served pre).stored with
  | none =>
    rw [hnone hstored]
    simp [BucketLimit.served, spread]
  | some b =>
    obtain ⟨htokens, first, hfirst, last, hlast, -, hcredit⟩ := hpaid b hstored
    have hspread : p.rate * (last.now - first.now : Int) ≤ p.rate * spread pre :=
      mul_le_mul_of_nonneg_left (Int.cast_le.mpr (le_spread hfirst hlast)) p.rate_nonneg
    linarith

/-- The bucket has the clock of the last call. -/
theorem served_stored {p : BucketLimit} {calls : List BucketCall} {c : BucketCall} :
    ∀ b, (p.served (calls ++ [c])).stored = some b →
      b.bucket.ts = c.now ∧ b.expiresAt = c.runsAt + p.windowSeconds * 2 := by
  intro b hb
  rw [served_one_more] at hb
  split at hb <;> cases hb <;> exact ⟨rfl, rfl⟩

/-- Calls whose clocks do not go back, and whose scripts run within a window of the clock, are in order. -/
theorem inOrder_of_prompt {p : BucketLimit} {calls : List BucketCall}
    (hclock : calls.Pairwise fun c c' => c.now ≤ c'.now)
    (hprompt : ∀ c ∈ calls, (c.now : Rat) ≤ c.runsAt ∧ c.runsAt ≤ c.now + p.windowSeconds) :
    Steps (InOrder p) calls := by
  induction calls using List.reverseRecOn with
  | nil => exact Txn.steps_nil
  | append_singleton calls c ih =>
    obtain ⟨hclock, -, hlast⟩ := List.pairwise_append.mp hclock
    refine Txn.steps_append_singleton.mpr ⟨ih hclock fun c' hc' => hprompt c' (List.mem_append_left _ hc'), ?_⟩
    cases calls using List.reverseRecOn with
    | nil => exact fun b hb => absurd hb.symm (Option.some_ne_none b)
    | append_singleton pre last =>
      intro b hb
      obtain ⟨hts, hexpires⟩ := served_stored b hb
      have hmem : last ∈ pre ++ [last] := List.mem_append_right _ (List.mem_singleton_self last)
      have hle : last.now ≤ c.now := hlast last hmem c (List.mem_singleton_self c)
      have hread := (hprompt last (List.mem_append_left _ hmem)).1
      have hruns := (hprompt c (List.mem_append_right _ (List.mem_singleton_self c))).2
      refine ⟨hts ▸ hle, fun hexpired => ?_⟩
      rw [hexpires] at hexpired
      rw [hts]
      have hcast : ((last.now + p.windowSeconds : Int) : Rat) ≤ c.now := by
        push_cast
        linarith
      exact_mod_cast hcast

instance (p : BucketLimit) (calls : List BucketCall) : Decidable (Bounded p calls) :=
  inferInstanceAs (Decidable (_ ≤ _))

/-- One call in a second. -/
def onePerSecond : BucketLimit := ⟨1, 1, by decide⟩

/-- Two calls at once, and two that come later. -/
theorem bounded_prompt : Bounded onePerSecond [⟨0, 0⟩, ⟨0, 0⟩, ⟨1, 1⟩, ⟨3, 3⟩] :=
  bounded_of_inOrder onePerSecond _ (inOrder_of_prompt (by decide +kernel) (by decide +kernel)) _ List.prefix_rfl

/-- **A stale clock refills**: a call whose clock is a second old sets the bucket back, and the next call is paid for
that second once more. -/
theorem stale_clock_refills : ¬ Bounded onePerSecond [⟨0, 1⟩, ⟨1, 1⟩, ⟨0, 1⟩, ⟨1, 1⟩] := by
  decide +kernel

end CodeReader.Ratelimit
