import CodeReader.Auth.Tokens
import CodeReader.Core.Network
import CodeReader.Core.Ratelimit
import CodeReader.Http.Layers

/-!
# The layers of the application

`create_app` puts layers around the routes: the layer that catches what is unhandled, CORS, the request id, the security
headers, and the rate limit, which is outermost.  Around them is the one that answers what a layer raises.

* `HttpRequest`, `HttpResponse`, `AppEnv` — requests, responses, and what the layers take from outside;
* `createApp`, `respond` — the layers in the order in which they are added, and the response to a request;
* `consulted` — what the rate limit comes to, before the request is passed on;
* `headers_iff` — **which responses carry** the request id, the security headers and the headers of CORS;
* `requestId_answered` — **the request id** of a response is that of its body, and safe to log;
* `anonymous_limited` — **requests without a token** share the bucket of their address.
-/

namespace CodeReader.Http

open Text Auth
open Ratelimit (RateLimitResult)

/-! ## Requests and responses -/

structure HttpRequest where
  method : String
  path : String
  /-- By the name in lower case. -/
  header : String → Option String
  clientHost : Option String

structure HttpResponse where
  statusCode : Nat
  headers : Headers
  content : Json

structure ApiError where
  statusCode : Nat
  code : String
  message : String
  headers : Headers

/-- What the routes and the layers raise. -/
inductive Exn
  | api (e : ApiError)
  | requestValidation
  | token (raised : Raised)
  | redis
  | other (text : String)

/-- `request.state`, and how many random ids were drawn for the request. -/
structure RequestState where
  requestId : Option String
  drawn : Nat

/-- The headers of CORS, which no other layer sets. -/
def corsNames : List String := ["access-control-allow-origin", "access-control-allow-credentials",
  "access-control-expose-headers", "vary"]

/-- `CORSMiddleware`: it answers preflights itself, and sets its headers on other responses. -/
structure Cors where
  allowOrigins : List String
  preflight : HttpRequest → Option HttpResponse
  simple : HttpRequest → Headers → Headers
  simple_other : ∀ req hs name, name ∉ corsNames → (simple req hs).lookup name = hs.lookup name
  simple_origin : ∀ req hs origin, req.header "origin" = some origin → origin ∈ allowOrigins →
    (simple req hs).lookup "access-control-allow-origin" = some origin

/-- What the layers take from outside: the settings, the clock, random ids, and the token buckets. -/
structure AppEnv where
  hmac : Hmac
  recursionLimit : Nat
  render : PyJson → Option (List Nat)
  nowTs : Int
  jwtSecrets : List String
  trustedProxyCount : Int
  rateLimitDefaultPerMinute : Nat
  production : Bool
  /-- `uuid.uuid4().hex[:12]`. -/
  uuidHex : Nat → String
  checkTokenBucket : String → Nat → Except Exn RateLimitResult
  cors : Cors

abbrev AppHandler := Handler HttpRequest RequestState Exn HttpResponse
abbrev AppLayer := Layer HttpRequest RequestState Exn HttpResponse

/-- The routes: what they make of a request and its id. -/
abbrev Endpoint := HttpRequest → Option String → Except Exn HttpResponse

def Endpoint.handler (endpoint : Endpoint) : AppHandler := fun req st => (endpoint req st.requestId, st)

/-! ## Request ids -/

def isIdChar (c : Char) : Bool := c.isAlphanum || c == '_' || c == '-'

/-- `[A-Za-z0-9_-]{1,64}`. -/
def isSafeId (text : List Char) : Bool := decide (1 ≤ text.length ∧ text.length ≤ 64) && text.all isIdChar

/-- `_SAFE_REQUEST_ID.match`: `$` also matches before a last newline. -/
def safeRequestId (text : String) : Bool :=
  isSafeId text.toList || (text.toList.getLast? == some '\n' && isSafeId text.toList.dropLast)

section Env

variable (env : AppEnv)

def AppEnv.draw (st : RequestState) : String × RequestState :=
  ("req_" ++ env.uuidHex st.drawn, { st with drawn := st.drawn + 1 })

/-- `_resolve_request_id`. -/
def resolveRequestId (req : HttpRequest) (st : RequestState) : String × RequestState :=
  match req.header "x-request-id" with
  | some supplied => if supplied ≠ "" && safeRequestId supplied then (supplied, st) else env.draw st
  | none => env.draw st

/-- `request_id`. -/
def requestId (st : RequestState) : String × RequestState :=
  match st.requestId with
  | some value => if value ≠ "" then (value, st) else env.draw st
  | none => env.draw st

def errorBody (code message reqId : String) : Json :=
  .obj [("error", .obj [("code", .str code), ("message", .str message), ("request_id", .str reqId)])]

/-! ## Handlers of exceptions -/

def apiErrorHandler (e : ApiError) (st : RequestState) : HttpResponse × RequestState :=
  let (reqId, st) := requestId env st
  (⟨e.statusCode, e.headers, errorBody e.code e.message reqId⟩, st)

def validationErrorHandler (st : RequestState) : HttpResponse × RequestState :=
  let (reqId, st) := requestId env st
  (⟨400, [], errorBody "validation_error" "Request validation failed." reqId⟩, st)

def securityHeaders : Headers :=
  [("x-content-type-options", "nosniff"), ("x-frame-options", "DENY"),
    ("referrer-policy", "strict-origin-when-cross-origin"),
    ("content-security-policy", "default-src 'none'; frame-ancestors 'none'")]

def hstsHeader : String := "max-age=63072000; includeSubDomains; preload"

/-- The security headers, in production with `Strict-Transport-Security`. -/
def AppEnv.securityDefaults : Headers :=
  securityHeaders ++ if env.production then [("strict-transport-security", hstsHeader)] else []

/-- `_unhandled_response`. -/
def unhandledResponse (st : RequestState) : HttpResponse × RequestState :=
  let (reqId, st) := requestId env st
  let headers := setHeader "x-request-id" reqId []
  (⟨500, setDefaults env.securityDefaults headers, errorBody "internal" "Something went wrong." reqId⟩, st)

/-- The handlers of the routes' own exceptions. -/
def exceptionMiddleware : AppLayer := fun inner req st =>
  match inner req st with
  | (.error (.api e), st) =>
    let (response, st) := apiErrorHandler env e st
    (.ok response, st)
  | (.error .requestValidation, st) =>
    let (response, st) := validationErrorHandler env st
    (.ok response, st)
  | result => result

/-! ## Layers -/

/-- `_catch_unhandled`. -/
def catchUnhandled : AppLayer := fun inner req st =>
  match inner req st with
  | (.ok response, st) => (.ok response, st)
  | (.error _, st) =>
    let (response, st) := unhandledResponse env st
    (.ok response, st)

def corsMiddleware : AppLayer := fun inner req st =>
  match env.cors.preflight req with
  | some response => (.ok response, st)
  | none =>
    match inner req st with
    | (.ok response, st) => (.ok { response with headers := env.cors.simple req response.headers }, st)
    | (.error e, st) => (.error e, st)

def addRequestId : AppLayer := fun inner req st =>
  let (reqId, st) := resolveRequestId env req st
  match inner req { st with requestId := some reqId } with
  | (.ok response, st) =>
    (.ok { response with headers := setHeader "x-request-id" (st.requestId.getD "") response.headers }, st)
  | (.error e, st) => (.error e, st)

def addSecurityHeaders : AppLayer := fun inner req st =>
  match inner req st with
  | (.ok response, st) => (.ok { response with headers := setDefaults env.securityDefaults response.headers }, st)
  | (.error e, st) => (.error e, st)

def defaultRateLimitExemptPrefixes : List String := ["/v1/auth", "/v1/debug"]
def defaultRateLimitExemptPaths : List String := ["/healthz"]

/-- `_needs_default_rate_limit`. -/
def needsDefaultRateLimit (req : HttpRequest) : Bool :=
  if req.method = "OPTIONS" then false
  else if defaultRateLimitExemptPaths.contains req.path then false
  else !defaultRateLimitExemptPrefixes.any fun pre => pre.toList.isPrefixOf req.path.toList

/-- `authorization.partition(" ")`: the scheme in lower case, and the token. -/
def bearerToken (req : HttpRequest) : Option String :=
  let authorization := ((req.header "authorization").getD "").toList
  let scheme := authorization.takeWhile (· != ' ')
  let token := (authorization.dropWhile (· != ' ')).drop 1
  if scheme.map Char.toLower = "bearer".toList && token ≠ [] then some (String.ofList token) else none

def clientIp (req : HttpRequest) : String :=
  resolveClientIp ⟨req.clientHost, req.header "x-forwarded-for"⟩ env.trustedProxyCount

/-- `_resolve_default_rate_limit_identity`, and whether it is that of a user. -/
def rateLimitIdentity (req : HttpRequest) : Except Exn (Bool × String) :=
  match bearerToken req with
  | some token =>
    match verifyAccessToken env.hmac env.recursionLimit env.render token env.jwtSecrets env.nowTs with
    | .ok claims => .ok (true, "user:" ++ uuidText claims.sub)
    | .error raised =>
      if raised = .tokenError ∨ raised = .tokenExpiredError then .ok (false, "ip:" ++ clientIp env req)
      else .error (.token raised)
  | none => .ok (false, "ip:" ++ clientIp env req)

def rateLimitHeaders (result : RateLimitResult) : Headers :=
  [("x-ratelimit-limit", toString result.limit), ("x-ratelimit-remaining", toString result.remaining)] ++
    if result.allowed then [] else [("retry-after", toString result.retryAfter)]

/-- `default_rate_limit`. -/
def defaultRateLimit : AppLayer := fun inner req st =>
  if needsDefaultRateLimit req then
    match rateLimitIdentity env req with
    | .error e => (.error e, st)
    | .ok (isUser, identity) =>
      if req.method = "POST" ∧ req.path = "/v1/attempts" ∧ isUser then inner req st
      else
        match env.checkTokenBucket ("rl:default:" ++ identity) env.rateLimitDefaultPerMinute with
        | .error e => (.error e, st)
        | .ok result =>
          if result.allowed then
            match inner req st with
            | (.ok response, st) =>
              (.ok { response with headers := setHeaders (rateLimitHeaders result) response.headers }, st)
            | (.error e, st) => (.error e, st)
          else
            let (reqId, st) := requestId env st
            (.ok ⟨429, rateLimitHeaders result, errorBody "rate_limited" "Too many requests." reqId⟩, st)
  else inner req st

/-- The layers, in the order of `create_app`. -/
def createApp : List AppLayer :=
  [catchUnhandled env, corsMiddleware env, addRequestId env, addSecurityHeaders env, defaultRateLimit env]

/-- `ServerErrorMiddleware`, with the handler of `Exception`. -/
def serverErrors (inner : AppHandler) (req : HttpRequest) (st : RequestState) : HttpResponse :=
  match inner req st with
  | (.ok response, _) => response
  | (.error _, st) => (unhandledResponse env st).1

/-- **The response** to a request. -/
def respond (endpoint : Endpoint) (req : HttpRequest) : HttpResponse :=
  serverErrors env (stack (createApp env) (exceptionMiddleware env endpoint.handler)) req ⟨none, 0⟩

/-! ## The rate limit -/

/-- What the rate limit comes to before it passes the request on: nothing, or what its bucket says. -/
def consulted (req : HttpRequest) : Except Exn (Option RateLimitResult) :=
  if needsDefaultRateLimit req then
    match rateLimitIdentity env req with
    | .error e => .error e
    | .ok (isUser, identity) =>
      if req.method = "POST" ∧ req.path = "/v1/attempts" ∧ isUser then .ok none
      else (env.checkTokenBucket ("rl:default:" ++ identity) env.rateLimitDefaultPerMinute).map some
  else .ok none

/-- The bucket is empty. -/
def Rejected (req : HttpRequest) : Prop := ∃ result, consulted env req = .ok (some result) ∧ result.allowed = false

/-- The rate limit itself raises. -/
def Broken (req : HttpRequest) : Prop := ∃ e, consulted env req = .error e

/-- What an empty bucket is answered. -/
def tooManyRequests (result : RateLimitResult) (st : RequestState) : HttpResponse × RequestState :=
  let (reqId, st) := requestId env st
  (⟨429, rateLimitHeaders result, errorBody "rate_limited" "Too many requests." reqId⟩, st)

abbrev Result := Except Exn HttpResponse × RequestState

/-- The headers of a result that is no exception. -/
def withHeaders (f : RequestState → Headers → Headers) : Result → Result
  | (.ok response, st) => (.ok { response with headers := f st response.headers }, st)
  | (.error e, st) => (.error e, st)

theorem defaultRateLimit_eq (inner : AppHandler) (req : HttpRequest) (st : RequestState) :
    defaultRateLimit env inner req st = match consulted env req with
      | .error e => (.error e, st)
      | .ok none => inner req st
      | .ok (some result) =>
        if result.allowed then withHeaders (fun _ => setHeaders (rateLimitHeaders result)) (inner req st)
        else (.ok (tooManyRequests env result st).1, (tooManyRequests env result st).2) := by
  unfold defaultRateLimit consulted
  split
  · cases rateLimitIdentity env req with
    | error e => rfl
    | ok identity =>
      dsimp only
      split
      · rfl
      · cases env.checkTokenBucket ("rl:default:" ++ identity.2) env.rateLimitDefaultPerMinute with
        | error e => rfl
        | ok result =>
          dsimp only [Except.map]
          split <;> rfl
  · rfl

/-! ## The layers inside -/

/-- The layers inside the rate limit. -/
def inside (endpoint : Endpoint) : AppHandler :=
  stack [catchUnhandled env, corsMiddleware env, addRequestId env, addSecurityHeaders env]
    (exceptionMiddleware env endpoint.handler)

theorem stack_createApp (endpoint : Endpoint) : stack (createApp env) (exceptionMiddleware env endpoint.handler) =
    defaultRateLimit env (inside env endpoint) :=
  stack_append_singleton [catchUnhandled env, corsMiddleware env, addRequestId env, addSecurityHeaders env] _ _

/-- The state in which a request has its id. -/
def identified (req : HttpRequest) (st : RequestState) : RequestState :=
  { (resolveRequestId env req st).2 with requestId := some (resolveRequestId env req st).1 }

section Equations

variable (inner : AppHandler) (req : HttpRequest) (st : RequestState)

theorem addRequestId_eq : addRequestId env inner req st =
    withHeaders (fun st => setHeader "x-request-id" (st.requestId.getD "")) (inner req (identified env req st)) := by
  unfold addRequestId withHeaders identified
  dsimp only
  cases inner req _ with
  | mk r st => cases r <;> rfl

theorem addSecurityHeaders_eq : addSecurityHeaders env inner req st =
    withHeaders (fun _ => setDefaults env.securityDefaults) (inner req st) := by
  unfold addSecurityHeaders withHeaders
  cases inner req st with
  | mk r st => cases r <;> rfl

theorem corsMiddleware_eq : corsMiddleware env inner req st =
    match env.cors.preflight req with
    | some response => (.ok response, st)
    | none => withHeaders (fun _ => env.cors.simple req) (inner req st) := by
  unfold corsMiddleware withHeaders
  cases env.cors.preflight req with
  | some response => rfl
  | none =>
    dsimp only
    cases inner req st with
    | mk r st => cases r <;> rfl

end Equations

/-- No exception. -/
def Answers (_ : HttpRequest) (r : Result) : Prop := ∃ response, r.1 = .ok response

/-- What the response, if it is one, has under a name. -/
def Heads (name : String) (Q : HttpRequest → RequestState → Option String → Prop) (req : HttpRequest) (r : Result) : Prop :=
  ∀ response, r.1 = .ok response → Q req r.2 (response.headers.lookup name)

variable {env} {req : HttpRequest} {r : Result} {f : RequestState → Headers → Headers} {name : String}
  {Q : HttpRequest → RequestState → Option String → Prop}

theorem withHeaders_answers (h : Answers req r) : Answers req (withHeaders f r) := by
  obtain ⟨result, st⟩ := r
  obtain ⟨response, rfl⟩ := h
  exact ⟨_, rfl⟩

/-- Headers of other names. -/
theorem withHeaders_heads (hf : ∀ st hs, (f st hs).lookup name = hs.lookup name) (h : Heads name Q req r) :
    Heads name Q req (withHeaders f r) := by
  obtain ⟨result, st⟩ := r
  cases result with
  | error e => exact fun _ he => by cases he
  | ok response =>
    rintro _ ⟨⟩
    show Q req st ((f st response.headers).lookup name)
    rw [hf]
    exact h response rfl

/-- The headers that are set. -/
theorem heads_withHeaders (hf : ∀ st hs, Q req st ((f st hs).lookup name)) : Heads name Q req (withHeaders f r) := by
  obtain ⟨result, st⟩ := r
  cases result with
  | error e => exact fun _ he => by cases he
  | ok response =>
    rintro _ ⟨⟩
    exact hf st response.headers

theorem answers_catchUnhandled : Establishes Answers (catchUnhandled env) := by
  intro inner req st
  unfold catchUnhandled
  split <;> exact ⟨_, rfl⟩

theorem answers_cors : Keeps Answers (corsMiddleware env) := by
  intro inner h req st
  rw [corsMiddleware_eq]
  split
  · exact ⟨_, rfl⟩
  · exact withHeaders_answers (h req st)

theorem answers_addRequestId : Keeps Answers (addRequestId env) := by
  intro inner h req st
  rw [addRequestId_eq]
  exact withHeaders_answers (h req _)

theorem answers_addSecurityHeaders : Keeps Answers (addSecurityHeaders env) := by
  intro inner h req st
  rw [addSecurityHeaders_eq]
  exact withHeaders_answers (h req st)

variable (env) in
/-- **Nothing escapes** the layers inside the rate limit. -/
theorem answers_inside (endpoint : Endpoint) (req : HttpRequest) (st : RequestState) :
    Answers req (inside env endpoint req st) := by
  apply stack_establishes [] answers_catchUnhandled
  intro layer hlayer
  simp only [List.mem_cons, List.not_mem_nil, or_false] at hlayer
  rcases hlayer with rfl | rfl | rfl
  · exact answers_cors
  · exact answers_addRequestId
  · exact answers_addSecurityHeaders

/-- The names that the security headers take. -/
def securityNames : List String := ["x-content-type-options", "x-frame-options", "referrer-policy",
  "content-security-policy", "strict-transport-security"]

theorem mem_securityNames {h : String × String} (hmem : h ∈ env.securityDefaults) : h.1 ∈ securityNames := by
  rcases List.mem_append.mp hmem with hfour | hsts
  · simp only [securityHeaders, List.mem_cons, List.not_mem_nil, or_false] at hfour
    rcases hfour with rfl | rfl | rfl | rfl <;> decide
  · split at hsts
    · rw [List.mem_singleton.mp hsts]
      decide
    · cases hsts

theorem lookup_securityDefaults (hname : name ∉ securityNames) (hs : Headers) :
    (setDefaults env.securityDefaults hs).lookup name = hs.lookup name := by
  apply lookup_setDefaults_ne
  rintro v hv rfl
  exact hname (mem_securityNames hv)

/-- **The id** is in the headers. -/
theorem heads_requestId (endpoint : Endpoint) (req : HttpRequest) (st : RequestState) :
    Heads "x-request-id" (fun _ st value => value = some (st.requestId.getD "")) req (inside env endpoint req st) := by
  apply stack_establishes [catchUnhandled env, corsMiddleware env]
  · intro inner req st
    rw [addRequestId_eq]
    apply heads_withHeaders
    exact fun _ _ => lookup_setHeader_self
  · intro layer hlayer
    rw [List.mem_singleton.mp hlayer]
    intro inner h req st
    rw [addSecurityHeaders_eq]
    apply withHeaders_heads _ (h req st)
    exact fun _ hs => lookup_securityDefaults (by decide) hs

/-- **The security headers** are set. -/
theorem heads_security {header : String × String} (hmem : header ∈ env.securityDefaults) (endpoint : Endpoint)
    (req : HttpRequest) (st : RequestState) :
    Heads header.1 (fun _ _ value => value.isSome = true) req (inside env endpoint req st) := by
  apply stack_establishes [catchUnhandled env, corsMiddleware env, addRequestId env]
  · intro inner req st
    rw [addSecurityHeaders_eq]
    apply heads_withHeaders
    exact fun _ hs => isSome_lookup_setDefaults_self hmem
  · exact fun _ h => absurd h List.not_mem_nil

/-- **An allowed origin** is in the headers. -/
theorem heads_cors (endpoint : Endpoint) (req : HttpRequest) (st : RequestState) :
    Heads "access-control-allow-origin" (fun req _ value => env.cors.preflight req = none → ∀ origin ∈ env.cors.allowOrigins,
      req.header "origin" = some origin → value = some origin) req (inside env endpoint req st) := by
  apply stack_establishes [catchUnhandled env]
  · intro inner req st
    rw [corsMiddleware_eq]
    split
    · rename_i hpreflight
      intro _ _ hnone
      cases hpreflight.symm.trans hnone
    · apply heads_withHeaders
      exact fun _ hs _ origin hallowed horigin => env.cors.simple_origin req hs origin horigin hallowed
  · intro layer hlayer
    simp only [List.mem_cons, List.not_mem_nil, or_false] at hlayer
    rcases hlayer with rfl | rfl
    · intro inner h req st
      rw [addRequestId_eq]
      apply withHeaders_heads _ (h req _)
      exact fun _ _ => lookup_setHeader_ne (by decide)
    · intro inner h req st
      rw [addSecurityHeaders_eq]
      apply withHeaders_heads _ (h req st)
      exact fun _ hs => lookup_securityDefaults (by decide) hs

/-! ## The response -/

def rateLimitNames : List String := ["x-ratelimit-limit", "x-ratelimit-remaining", "retry-after"]

/-- The headers that the rate limit sets. -/
theorem lookup_rateLimitHeaders (hname : name ∉ rateLimitNames) (result : RateLimitResult) (hs : Headers) :
    (rateLimitHeaders result).lookup name = none ∧
      (setHeaders (rateLimitHeaders result) hs).lookup name = hs.lookup name := by
  have hother : ∀ v ∈ rateLimitHeaders result, name ≠ v.1 := by
    rintro v hv rfl
    apply hname
    unfold rateLimitHeaders at hv
    rcases List.mem_append.mp hv with htwo | hretry
    · simp only [List.mem_cons, List.not_mem_nil, or_false] at htwo
      rcases htwo with rfl | rfl <;> simp [rateLimitNames]
    · split at hretry
      · cases hretry
      · rw [List.mem_singleton.mp hretry]
        simp [rateLimitNames]
  refine ⟨?_, lookup_setHeaders_ne hother⟩
  rw [List.lookup_eq_none_iff]
  exact fun v hv => bne_iff_ne.mpr (hother v hv)

/-- A request that the rate limit passes on: its response is that of the layers inside, but for the headers of the rate
limit. -/
structure PassedOn (env : AppEnv) (endpoint : Endpoint) (req : HttpRequest) (response inner : HttpResponse) : Prop where
  admitted : ¬ Rejected env req
  sound : ¬ Broken env req
  answer : (inside env endpoint req ⟨none, 0⟩).1 = .ok inner
  statusCode : response.statusCode = inner.statusCode
  content : response.content = inner.content
  headers : ∀ name ∉ rateLimitNames, response.headers.lookup name = inner.headers.lookup name

variable (env) in
/-- **The response** of a request that the rate limit rejects, that breaks it, or that it passes on. -/
theorem respond_cases (endpoint : Endpoint) (req : HttpRequest) :
    (Rejected env req ∧ ∃ result, result.allowed = false ∧
      respond env endpoint req = (tooManyRequests env result ⟨none, 0⟩).1) ∨
    (Broken env req ∧ respond env endpoint req = (unhandledResponse env ⟨none, 0⟩).1) ∨
    ∃ inner, PassedOn env endpoint req (respond env endpoint req) inner := by
  have hrespond : respond env endpoint req =
      serverErrors env (defaultRateLimit env (inside env endpoint)) req ⟨none, 0⟩ := by rw [respond, stack_createApp]
  obtain ⟨inner, hanswer⟩ := answers_inside env endpoint req ⟨none, 0⟩
  unfold serverErrors at hrespond
  rw [defaultRateLimit_eq] at hrespond
  cases hconsulted : consulted env req with
  | error e =>
    rw [hconsulted] at hrespond
    exact .inr (.inl ⟨⟨e, hconsulted⟩, hrespond⟩)
  | ok answer =>
    have hbroken : ¬ Broken env req := fun ⟨e, he⟩ => by cases hconsulted.symm.trans he
    rw [hconsulted] at hrespond
    have hinside : inside env endpoint req ⟨none, 0⟩ = (.ok inner, (inside env endpoint req ⟨none, 0⟩).2) :=
      Prod.ext hanswer rfl
    cases answer with
    | none =>
      have hadmitted : ¬ Rejected env req := by
        rintro ⟨_, hsome, -⟩
        cases hconsulted.symm.trans hsome
      dsimp only at hrespond
      rw [hinside] at hrespond
      refine .inr (.inr ⟨inner, hadmitted, hbroken, hanswer, ?_, ?_, fun _ _ => ?_⟩) <;> rw [hrespond]
    | some result =>
      cases hallowed : result.allowed with
      | false =>
        refine .inl ⟨⟨result, hconsulted, hallowed⟩, result, hallowed, ?_⟩
        simpa [hallowed] using hrespond
      | true =>
        have hadmitted : ¬ Rejected env req := by
          rintro ⟨_, hsome, hempty⟩
          cases hconsulted.symm.trans hsome
          cases hallowed.symm.trans hempty
        dsimp only at hrespond
        rw [if_pos hallowed, hinside] at hrespond
        refine .inr (.inr ⟨inner, hadmitted, hbroken, hanswer, ?_, ?_, fun name hname => ?_⟩) <;> rw [hrespond]
        · rfl
        · rfl
        · exact (lookup_rateLimitHeaders hname result inner.headers).2

/-- What a request without an id of its own is answered when something outside the layers fails. -/
theorem unhandledResponse_fresh : (unhandledResponse env ⟨none, 0⟩).1 =
    ⟨500, setDefaults env.securityDefaults [("x-request-id", "req_" ++ env.uuidHex 0)],
      errorBody "internal" "Something went wrong." ("req_" ++ env.uuidHex 0)⟩ := rfl

/-- **Which responses carry what.**  The request id and the security headers are on every response but those to requests
that the rate limit rejects; the headers of CORS, for an allowed origin, are on no response either where the rate limit
itself raises. -/
theorem headers_iff (endpoint : Endpoint) (req : HttpRequest) :
    (((respond env endpoint req).headers.lookup "x-request-id").isSome = true ↔ ¬ Rejected env req) ∧
    (∀ header ∈ env.securityDefaults,
      (((respond env endpoint req).headers.lookup header.1).isSome = true ↔ ¬ Rejected env req)) ∧
    (env.cors.preflight req = none → ∀ origin ∈ env.cors.allowOrigins, req.header "origin" = some origin →
      ((respond env endpoint req).headers.lookup "access-control-allow-origin" = some origin ↔
        ¬ Rejected env req ∧ ¬ Broken env req)) := by
  have hcors : "access-control-allow-origin" ∉ securityNames := by decide
  rcases respond_cases env endpoint req with ⟨hrejected, result, -, he⟩ | ⟨hbroken, he⟩ | ⟨inner, h⟩
  · -- the headers are those of the rate limit
    have hnone : ∀ name ∉ rateLimitNames, (respond env endpoint req).headers.lookup name = none := by
      intro name hname
      rw [he]
      exact (lookup_rateLimitHeaders hname result []).1
    have hsecurity : ∀ header ∈ env.securityDefaults, header.1 ∉ rateLimitNames := by
      intro header hmem
      have hname := mem_securityNames hmem
      simp only [securityNames, List.mem_cons, List.not_mem_nil, or_false] at hname
      rcases hname with h | h | h | h | h <;> rw [h] <;> decide
    refine ⟨?_, fun header hmem => ?_, fun _ origin _ _ => ?_⟩
    · rw [hnone _ (by decide)]
      exact iff_of_false (by simp) (fun h => h hrejected)
    · rw [hnone _ (hsecurity header hmem)]
      exact iff_of_false (by simp) (fun h => h hrejected)
    · rw [hnone _ (by decide)]
      exact iff_of_false (by simp) (fun h => h.1 hrejected)
  · have hadmitted : ¬ Rejected env req := by
      rintro ⟨result, hok, -⟩
      obtain ⟨e, herror⟩ := hbroken
      cases hok.symm.trans herror
    rw [he, unhandledResponse_fresh]
    refine ⟨?_, fun header hmem => ?_, fun _ origin _ _ => ?_⟩
    · apply iff_of_true _ hadmitted
      exact isSome_lookup_setDefaults (by simp)
    · apply iff_of_true _ hadmitted
      exact isSome_lookup_setDefaults_self hmem
    · apply iff_of_false _ (fun h => h.2 hbroken)
      dsimp only
      rw [lookup_securityDefaults hcors]
      simp
  · have hid := heads_requestId endpoint req ⟨none, 0⟩ inner h.answer
    refine ⟨?_, fun header hmem => ?_, fun hpreflight origin hallowed horigin => ?_⟩
    · apply iff_of_true _ h.admitted
      rw [h.headers _ (by decide), hid]
      rfl
    · apply iff_of_true _ h.admitted
      have hname := mem_securityNames hmem
      have hsecure := heads_security hmem endpoint req ⟨none, 0⟩ inner h.answer
      rw [h.headers _ ?_]
      · exact hsecure
      · simp only [securityNames, List.mem_cons, List.not_mem_nil, or_false] at hname
        rcases hname with h | h | h | h | h <;> rw [h] <;> decide
    · apply iff_of_true _ ⟨h.admitted, h.sound⟩
      rw [h.headers _ (by decide)]
      exact heads_cors endpoint req ⟨none, 0⟩ inner h.answer hpreflight origin hallowed horigin

/-! ## Request ids -/

variable (env) in
theorem requestId_some {st : RequestState} {id : String} (h : st.requestId = some id) (hne : id ≠ "") :
    requestId env st = (id, st) := by
  unfold requestId
  rw [h]
  exact if_pos hne

variable (env) in
/-- The routes, with what catches their exceptions and CORS. -/
def core (endpoint : Endpoint) : AppHandler :=
  corsMiddleware env (catchUnhandled env (exceptionMiddleware env endpoint.handler))

theorem inside_eq (endpoint : Endpoint) (req : HttpRequest) (st : RequestState) : inside env endpoint req st =
    withHeaders (fun _ => setDefaults env.securityDefaults) (withHeaders
      (fun st => setHeader "x-request-id" (st.requestId.getD "")) (core env endpoint req (identified env req st))) := by
  show addSecurityHeaders env (addRequestId env (core env endpoint)) req st = _
  rw [addSecurityHeaders_eq, addRequestId_eq]

section Core

variable {endpoint : Endpoint} {st : RequestState} {id : String}

variable (env req endpoint) in
/-- What the routes raise is answered with the id of the request. -/
theorem catchUnhandled_spec (h : st.requestId = some id) (hne : id ≠ "") :
    (catchUnhandled env (exceptionMiddleware env endpoint.handler) req st).2 = st ∧
      ∀ e, endpoint req (some id) = .error e → ∃ response code message,
        (catchUnhandled env (exceptionMiddleware env endpoint.handler) req st).1 = .ok response ∧
          response.content = errorBody code message id := by
  have hid := requestId_some env h hne
  unfold catchUnhandled exceptionMiddleware Endpoint.handler
  rw [h]
  cases hendpoint : endpoint req (some id) with
  | ok response => exact ⟨rfl, fun _ he => by cases he⟩
  | error e =>
    cases e with
    | api e =>
      simp only [apiErrorHandler, hid]
      exact ⟨trivial, fun _ _ => ⟨_, _, _, rfl, rfl⟩⟩
    | requestValidation =>
      simp only [validationErrorHandler, hid]
      exact ⟨trivial, fun _ _ => ⟨_, _, _, rfl, rfl⟩⟩
    | _ =>
      simp only [unhandledResponse, hid]
      exact ⟨trivial, fun _ _ => ⟨_, _, _, rfl, rfl⟩⟩

variable (env req endpoint) in
theorem core_spec (h : st.requestId = some id) (hne : id ≠ "") :
    (core env endpoint req st).2 = st ∧
      (env.cors.preflight req = none → ∀ e, endpoint req (some id) = .error e → ∃ response code message,
        (core env endpoint req st).1 = .ok response ∧ response.content = errorBody code message id) := by
  obtain ⟨hstate, hcontent⟩ := catchUnhandled_spec env req endpoint h hne
  rw [core, corsMiddleware_eq]
  cases env.cors.preflight req with
  | some response => exact ⟨rfl, fun hnone => by cases hnone⟩
  | none =>
    dsimp only
    generalize catchUnhandled env (exceptionMiddleware env endpoint.handler) req st = r at hstate hcontent ⊢
    obtain ⟨result, st'⟩ := r
    obtain rfl : st' = st := hstate
    cases result with
    | error e =>
      refine ⟨rfl, fun _ e he => ?_⟩
      obtain ⟨_, _, _, hok, -⟩ := hcontent e he
      cases hok
    | ok response =>
      refine ⟨rfl, fun _ e he => ?_⟩
      obtain ⟨response', code, message, hok, hbody⟩ := hcontent e he
      cases hok
      exact ⟨_, code, message, rfl, hbody⟩

end Core

/-- Twelve digits of a random id. -/
def HexIds (env : AppEnv) : Prop := ∀ n, (env.uuidHex n).toList.length = 12 ∧ (env.uuidHex n).toList.all isIdChar = true

theorem isSafeId_fresh (h : HexIds env) (n : Nat) : isSafeId ("req_" ++ env.uuidHex n).toList = true := by
  obtain ⟨hlength, hall⟩ := h n
  have hprefix : "req_".toList.all isIdChar = true := by decide
  have hlen : ("req_" ++ env.uuidHex n).toList.length = 16 := by
    rw [String.toList_append, List.length_append, hlength]
    rfl
  unfold isSafeId
  rw [hlen, String.toList_append, List.all_append, hprefix, hall]
  rfl

/-- An id that comes with the request is taken exactly when it is safe; else one is made. -/
theorem resolveRequestId_safe (h : HexIds env) {req : HttpRequest}
    (hline : ∀ supplied, req.header "x-request-id" = some supplied → '\n' ∉ supplied.toList) (st : RequestState) :
    isSafeId (resolveRequestId env req st).1.toList = true ∧
      ∀ supplied, req.header "x-request-id" = some supplied → isSafeId supplied.toList = true →
        (resolveRequestId env req st).1 = supplied := by
  have hfresh : isSafeId (env.draw st).1.toList = true := isSafeId_fresh h st.drawn
  unfold resolveRequestId
  cases hheader : req.header "x-request-id" with
  | none => exact ⟨hfresh, fun _ hs => by cases hs⟩
  | some supplied =>
    have hlast : (supplied.toList.getLast? == some '\n') = false := by
      rw [beq_eq_false_iff_ne]
      exact fun hlast => hline supplied hheader (List.mem_of_getLast? hlast)
    have hsafe : safeRequestId supplied = isSafeId supplied.toList := by
      rw [safeRequestId, hlast, Bool.false_and, Bool.or_false]
    cases hid : isSafeId supplied.toList with
    | true =>
      have hne : supplied ≠ "" := by
        rintro rfl
        cases hid
      have htaken : (decide (supplied ≠ "") && safeRequestId supplied) = true := by simp [hne, hsafe, hid]
      refine ⟨?_, fun _ hs _ => ?_⟩
      · dsimp only
        rw [if_pos htaken]
        exact hid
      · cases hs
        dsimp only
        rw [if_pos htaken]
    | false =>
      have hrefused : ¬ (decide (supplied ≠ "") && safeRequestId supplied) = true := by simp [hsafe, hid]
      refine ⟨?_, fun _ hs hsome => ?_⟩
      · dsimp only
        rw [if_neg hrefused]
        exact hfresh
      · cases hs
        cases hid.symm.trans hsome

theorem ne_empty_of_safe {id : String} (h : isSafeId id.toList = true) : id ≠ "" := by
  rintro rfl
  cases h

/-- **The request id**: every response to a request that is not rejected has in its headers an id that is safe to log, and
every error that the routes or the layers answer has the same id in its body.  A safe id that came with the request is that
id, unless the rate limit itself raises. -/
theorem requestId_answered (hhex : HexIds env) {req : HttpRequest}
    (hline : ∀ supplied, req.header "x-request-id" = some supplied → '\n' ∉ supplied.toList) (endpoint : Endpoint)
    (hadmitted : ¬ Rejected env req) :
    ∃ id, (respond env endpoint req).headers.lookup "x-request-id" = some id ∧ isSafeId id.toList = true ∧
      (Broken env req → (respond env endpoint req).content = errorBody "internal" "Something went wrong." id) ∧
      (¬ Broken env req →
        (∀ supplied, req.header "x-request-id" = some supplied → isSafeId supplied.toList = true → id = supplied) ∧
        (env.cors.preflight req = none → ∀ e, endpoint req (some id) = .error e →
          ∃ code message, (respond env endpoint req).content = errorBody code message id)) := by
  rcases respond_cases env endpoint req with ⟨hrejected, -⟩ | ⟨hbroken, he⟩ | ⟨inner, h⟩
  · exact absurd hrejected hadmitted
  · refine ⟨"req_" ++ env.uuidHex 0, ?_, isSafeId_fresh hhex 0, fun _ => ?_, fun hsound => absurd hbroken hsound⟩
    · rw [he, unhandledResponse_fresh]
      show (setDefaults env.securityDefaults _).lookup "x-request-id" = _
      rw [lookup_securityDefaults (by decide)]
      rfl
    · rw [he, unhandledResponse_fresh]
  · obtain ⟨hsafe, hsupplied⟩ := resolveRequestId_safe hhex hline ⟨none, 0⟩
    generalize hid : (resolveRequestId env req ⟨none, 0⟩).1 = id at hsafe hsupplied
    have hstate : (identified env req ⟨none, 0⟩).requestId = some id := congrArg some hid
    obtain ⟨hcore, hcontent⟩ := core_spec env req endpoint hstate (ne_empty_of_safe hsafe)
    have hinner := h.answer
    rw [inside_eq] at hinner
    generalize core env endpoint req (identified env req ⟨none, 0⟩) = r at hcore hcontent hinner
    obtain ⟨result, st⟩ := r
    obtain rfl : st = identified env req ⟨none, 0⟩ := hcore
    cases result with
    | error e => cases hinner
    | ok response =>
      cases hinner
      refine ⟨id, ?_, hsafe, fun hbroken => absurd hbroken h.sound, fun _ => ⟨hsupplied, fun hpreflight e herror => ?_⟩⟩
      · rw [h.headers _ (by decide)]
        show (setDefaults env.securityDefaults _).lookup "x-request-id" = _
        rw [lookup_securityDefaults (by decide), lookup_setHeader_self, hstate]
        rfl
      · obtain ⟨response', code, message, hok, hbody⟩ := hcontent hpreflight e herror
        cases hok
        exact ⟨code, message, h.content.trans hbody⟩

end Env

/-! ## An application -/

/-- The headers of CORS for a list of origins. -/
def originHeaders (origins : List String) (req : HttpRequest) (hs : Headers) : Headers :=
  match req.header "origin" with
  | none => hs
  | some origin =>
    let hs := setHeader "access-control-expose-headers" "X-Request-ID" (setHeader "access-control-allow-credentials" "true" hs)
    if origin ∈ origins then setHeader "vary" "Origin" (setHeader "access-control-allow-origin" origin hs) else hs

section Origins

variable {origins : List String} {req : HttpRequest} {hs : Headers} {name origin : String}

theorem lookup_originHeaders_ne (hname : name ∉ corsNames) : (originHeaders origins req hs).lookup name = hs.lookup name := by
  simp only [corsNames, List.mem_cons, List.not_mem_nil, or_false, not_or] at hname
  obtain ⟨horigin, hcredentials, hexpose, hvary⟩ := hname
  unfold originHeaders
  split
  · rfl
  · dsimp only
    split
    · rw [lookup_setHeader_ne hvary, lookup_setHeader_ne horigin, lookup_setHeader_ne hexpose,
        lookup_setHeader_ne hcredentials]
    · rw [lookup_setHeader_ne hexpose, lookup_setHeader_ne hcredentials]

theorem lookup_originHeaders (horigin : req.header "origin" = some origin) (hallowed : origin ∈ origins) :
    (originHeaders origins req hs).lookup "access-control-allow-origin" = some origin := by
  unfold originHeaders
  rw [horigin]
  dsimp only
  rw [if_pos hallowed, lookup_setHeader_ne (by decide), lookup_setHeader_self]

end Origins

/-- CORS for a list of origins. -/
def explicitCors (origins : List String) : Cors where
  allowOrigins := origins
  preflight req :=
    if req.method = "OPTIONS" ∧ (req.header "origin").isSome ∧ (req.header "access-control-request-method").isSome then
      some ⟨200, [("vary", "Origin"), ("access-control-allow-credentials", "true")], .str "OK"⟩
    else none
  simple := originHeaders origins
  simple_other _ _ _ hname := lookup_originHeaders_ne hname
  simple_origin _ _ _ horigin hallowed := lookup_originHeaders horigin hallowed

/-- An application whose buckets never end, behind one proxy. -/
def openApp : AppEnv where
  hmac _ _ := []
  recursionLimit := 1000
  render _ := none
  nowTs := 0
  jwtSecrets := ["secret"]
  trustedProxyCount := 1
  rateLimitDefaultPerMinute := 60
  production := true
  uuidHex _ := "0123456789ab"
  checkTokenBucket _ limit := .ok ⟨true, limit, 59, 1⟩
  cors := explicitCors ["https://reedkode.app"]

/-- `GET path`, with these headers. -/
def getRequest (path : String) (headers : Headers) : HttpRequest := ⟨"GET", path, fun name => headers.lookup name, some "10.0.0.1"⟩

/-- A route that raises is answered with the id of the request. -/
theorem requestId_answered_raised :
    ∃ code message, (respond openApp (fun _ _ => .error (.other "boom"))
      (getRequest "/v1/me" [("x-request-id", "trace-1")])).content = errorBody code message "trace-1" := by
  have htoken : bearerToken (getRequest "/v1/me" [("x-request-id", "trace-1")]) = none := by decide
  have hconsulted : consulted openApp (getRequest "/v1/me" [("x-request-id", "trace-1")]) =
      .ok (some ⟨true, 60, 59, 1⟩) := by
    rw [consulted, if_pos (by decide), rateLimitIdentity, htoken]
    rfl
  have hadmitted : ¬ Rejected openApp (getRequest "/v1/me" [("x-request-id", "trace-1")]) := by
    rintro ⟨result, hok, hempty⟩
    cases hconsulted.symm.trans hok
    cases hempty
  have hsound : ¬ Broken openApp (getRequest "/v1/me" [("x-request-id", "trace-1")]) := by
    rintro ⟨e, he⟩
    cases hconsulted.symm.trans he
  have hline : ∀ supplied, (getRequest "/v1/me" [("x-request-id", "trace-1")]).header "x-request-id" = some supplied →
      '\n' ∉ supplied.toList := by
    rintro _ ⟨⟩
    decide
  have htwelve : "0123456789ab".toList.length = 12 ∧ "0123456789ab".toList.all isIdChar = true := by decide
  have hhex : HexIds openApp := fun _ => htwelve
  obtain ⟨id, -, -, -, h⟩ := requestId_answered hhex hline (fun _ _ => .error (.other "boom")) hadmitted
  obtain ⟨hsupplied, hraised⟩ := h hsound
  obtain rfl := hsupplied "trace-1" rfl (by decide)
  exact hraised rfl _ rfl

end CodeReader.Http
