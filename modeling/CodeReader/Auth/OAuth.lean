import CodeReader.Auth.Service
import CodeReader.Core.Expiring
import CodeReader.Txn.Commits
import CodeReader.Txn.Embed
import Mathlib.Data.List.Nodup

/-!
# Logins through GitHub

`github_start` keeps the verifier of a login under its state for ten minutes; `github_callback` takes it with `GETDEL`,
exchanges the code with it, and opens a session where the beta is open to the user.

* `OAuthKeys` — the states, with those that were made and taken;
* `githubStart`, `githubCallback` — the two routes;
* `OAuthKeys.Ok`, `Valid` — **the invariants**: a state that is there was made and not taken, and whoever exchanged a code
  had taken a state;
* `login_once` — **the result**, for requests interleaved in any way, with any codes and states.
-/

namespace CodeReader.Auth.OAuth

open Txn Prog Expiring

/-! ## The routes -/

/-- A state that was made: who made it, its verifier, and when. -/
structure MadeState (τ : Type) where
  state : String
  owner : τ
  verifier : String
  since : Int

/-- A state that was taken: who took it, the verifier found, and when. -/
structure TakenState (τ : Type) where
  state : String
  owner : τ
  verifier : String
  time : Int

/-- Redis, with its clock; the states that were made, and those that were taken. -/
structure OAuthKeys (τ : Type) where
  now : Int
  states : String → Option (Entry String)
  made : List (MadeState τ)
  taken : List (TakenState τ)

/-- A code is exchanged at GitHub, with the verifier of a state. -/
structure Exchanged where
  state : String
  code : String
  verifier : String
  deriving DecidableEq

inductive OAuthErr
  | app (e : Err)
  | github
  deriving DecidableEq

abbrev OAuthApp (τ : Type) : Iface where
  Db := AuthDb
  Kv := OAuthKeys τ
  Lock := AuthLock
  Tbl := AuthTbl
  Ev := Exchanged
  Err := OAuthErr

/-- The tables of accounts, with no keys. -/
def accounts (τ : Type) : Embed App (OAuthApp τ) where
  get := id
  set a _ := a
  getKv _ := ()
  setKv _ keys := keys
  lock := id
  tbl := id
  ev e := e.elim
  err := .app
  get_set _ _ := rfl
  set_set _ _ _ := rfl
  set_get _ := rfl
  getKv_setKv _ _ := rfl
  setKv_setKv _ _ _ := rfl
  setKv_getKv _ := rfl

/-- `OAUTH_STATE_TTL_SECONDS`, in milliseconds. -/
def oauthStateTtl : Int := 600 * 1000

/-- What GitHub says of a code and its verifier. -/
structure GithubAnswer where
  profile : GithubProfile
  accessToken : String
  scopes : Option String

/-- Where a response redirects to. -/
inductive Redirect
  /-- GitHub, with the state and the verifier whose challenge is sent. -/
  | authorize (state verifier : String)
  | login (error : String)
  | app (session : RefreshToken)

section Routes

variable {τ : Type}

namespace OAuthKeys

/-- `SET oauth:github:state:{state} … EX 600 NX`. -/
def put (me : τ) (state verifier : String) (keys : OAuthKeys τ) : OAuthKeys τ :=
  match setNxEx keys.now oauthStateTtl verifier (keys.states state) with
  | (true, key) => { keys with
      states := Function.update keys.states state key
      made := ⟨state, me, verifier, keys.now⟩ :: keys.made }
  | (false, _) => keys

/-- `GETDEL oauth:github:state:{state}`. -/
def take (me : τ) (state : String) (keys : OAuthKeys τ) : Option String × OAuthKeys τ :=
  match getDel keys.now (keys.states state) with
  | (some verifier, key) => (some verifier, { keys with
      states := Function.update keys.states state key
      taken := ⟨state, me, verifier, keys.now⟩ :: keys.taken })
  | (none, key) => (none, { keys with states := Function.update keys.states state key })

end OAuthKeys

/-- `GET /auth/github/start`. -/
def githubStart (me : τ) (state verifier : String) : Prog (OAuthApp τ) Redirect := do
  cmd fun keys => ((), keys.put me state verifier)
  ret (.authorize state verifier)

/-- A request to the callback. -/
structure CallbackRequest where
  code : Option String
  state : Option String
  error : Option String
  env : IssueEnv
  familyId : FamilyId

/-- The callback once GitHub has answered. -/
def signIn (settings : Settings) (answer : GithubAnswer) (req : CallbackRequest) : Prog (OAuthApp τ) Redirect := do
  match ← (Auth.githubCallback settings answer.profile answer.accessToken answer.scopes req.env req.familyId).embed
      (accounts τ) with
  | none => ret (.login "beta_required")
  | some session => ret (.app session)

/-- `GET /auth/github/callback`; `github` is GitHub. -/
def githubCallback (settings : Settings) (github : String → String → Option GithubAnswer) (me : τ) (req : CallbackRequest) :
    Prog (OAuthApp τ) Redirect :=
  if (presented req.error).isSome then ret (.login "oauth_denied")
  else match presented req.code, presented req.state with
    | some code, some state => do
      match ← cmd (OAuthKeys.take me state) with
      | none => ret (.login "oauth_state")
      | some verifier => do
        note ⟨state, code, verifier⟩
        match github code verifier with
        | none => raise .github
        | some answer => signIn settings answer req
    | _, _ => ret (.login "oauth_state")

inductive LoginRequest
  | start (state verifier : String)
  | callback (req : CallbackRequest)

def LoginRequest.program (settings : Settings) (github : String → String → Option GithubAnswer) (me : τ) :
    LoginRequest → Prog (OAuthApp τ) Redirect
  | .start state verifier => githubStart me state verifier
  | .callback req => githubCallback settings github me req

def start (settings : Settings) (github : String → String → Option GithubAnswer) (req : τ → LoginRequest) (db : AuthDb) :
    Sys (OAuthApp τ) τ Redirect :=
  .start db ⟨0, fun _ => none, [], []⟩ fun i => (req i).program settings github i

end Routes

/-! ## The keys -/

section Keys

variable {τ : Type} {keys : OAuthKeys τ} {i : τ} {state verifier : String}

/-- A state that is there was made so long ago, with its verifier, and not taken; a state that was taken was taken once,
within its time, with the verifier it was made with. -/
structure OAuthKeys.Ok (keys : OAuthKeys τ) : Prop where
  clock : ∀ m ∈ keys.made, m.since ≤ keys.now
  there : ∀ state e, keys.states state = some e → (∀ t ∈ keys.taken, t.state ≠ state) ∧
    ∃ m ∈ keys.made, m.state = state ∧ m.verifier = e.value ∧ e.expiresAt = some (m.since + oauthStateTtl)
  once : (keys.taken.map (·.state)).Nodup
  taken : ∀ t ∈ keys.taken, ∃ m ∈ keys.made, m.state = t.state ∧ m.verifier = t.verifier ∧ m.since ≤ t.time ∧
    t.time < m.since + oauthStateTtl

theorem OAuthKeys.Ok.put (h : keys.Ok) (hnew : ∀ m ∈ keys.made, m.state ≠ state) : (keys.put i state verifier).Ok := by
  unfold OAuthKeys.put setNxEx
  cases live keys.now (keys.states state) with
  | some e => exact h
  | none =>
    refine ⟨?_, ?_, h.once, ?_⟩
    · intro m hm
      rcases List.mem_cons.mp hm with rfl | hm
      · exact le_refl _
      · exact h.clock m hm
    · intro other e he
      by_cases hother : other = state
      · subst hother
        dsimp only at he
        rw [Function.update_self] at he
        cases he
        refine ⟨fun t ht hstate => ?_, _, List.mem_cons_self .., rfl, rfl, rfl⟩
        obtain ⟨m, hm, hmade, -⟩ := h.taken t ht
        exact hnew m hm (hmade.trans hstate)
      · dsimp only at he
        rw [Function.update_of_ne hother] at he
        obtain ⟨hfree, m, hm, hrest⟩ := h.there other e he
        exact ⟨hfree, m, List.mem_cons_of_mem _ hm, hrest⟩
    · intro t ht
      obtain ⟨m, hm, hrest⟩ := h.taken t ht
      exact ⟨m, List.mem_cons_of_mem _ hm, hrest⟩

/-- Who made a state: those who had, or the one that puts it. -/
theorem made_put {m : MadeState τ} (h : m ∈ (keys.put i state verifier).made) :
    m ∈ keys.made ∨ m = ⟨state, i, verifier, keys.now⟩ := by
  unfold OAuthKeys.put at h
  split at h
  · exact (List.mem_cons.mp h).symm
  · exact .inl h

theorem put_taken (keys : OAuthKeys τ) (i : τ) (state verifier : String) :
    (keys.put i state verifier).taken = keys.taken := by
  unfold OAuthKeys.put
  split <;> rfl

theorem take_made (keys : OAuthKeys τ) (i : τ) (state : String) : (keys.take i state).2.made = keys.made := by
  unfold OAuthKeys.take
  split <;> rfl

/-- Deleting keys, and letting time pass. -/
theorem OAuthKeys.Ok.lose (h : keys.Ok) {keys' : OAuthKeys τ} (hnow : keys.now ≤ keys'.now) (hmade : keys'.made = keys.made)
    (htaken : keys'.taken = keys.taken) (hstates : ∀ state e, keys'.states state = some e → keys.states state = some e) :
    keys'.Ok where
  clock m hm := (h.clock m (hmade ▸ hm)).trans hnow
  there state e he := by
    rw [htaken, hmade]
    exact h.there state e (hstates state e he)
  once := by
    rw [htaken]
    exact h.once
  taken := by
    rw [htaken, hmade]
    exact h.taken

/-- **What `GETDEL` does**: nothing is found, or a state that was not taken yet is. -/
theorem take_cases (h : keys.Ok) (i : τ) (state : String) : (keys.take i state).2.Ok ∧
    ((keys.take i state).1 = none ∧ (keys.take i state).2.taken = keys.taken ∨
      ∃ verifier, (keys.take i state).1 = some verifier ∧
        (keys.take i state).2.taken = ⟨state, i, verifier, keys.now⟩ :: keys.taken) := by
  have hdelete : ∀ other e, Function.update keys.states state none other = some e → keys.states other = some e := by
    intro other e he
    by_cases hother : other = state
    · subst hother
      rw [Function.update_self] at he
      cases he
    · rwa [Function.update_of_ne hother] at he
  unfold OAuthKeys.take getDel
  cases hlive : live keys.now (keys.states state) with
  | none => exact ⟨h.lose (le_refl _) rfl rfl hdelete, .inl ⟨rfl, rfl⟩⟩
  | some e =>
    obtain ⟨hthere, hnow⟩ := live_eq_some.mp hlive
    obtain ⟨hfree, m, hm, hstate, hverifier, hexpires⟩ := h.there state e hthere
    refine ⟨⟨h.clock, fun other e' he => ?_, ?_, fun t ht => ?_⟩, .inr ⟨e.value, rfl, rfl⟩⟩
    · obtain ⟨hfree', hmade⟩ := h.there other e' (hdelete other e' he)
      refine ⟨fun t ht => ?_, hmade⟩
      rcases List.mem_cons.mp ht with rfl | ht
      · rintro rfl
        dsimp only [Option.map_some] at he
        rw [Function.update_self] at he
        cases he
      · exact hfree' t ht
    · refine List.nodup_cons.mpr ⟨fun hmem => ?_, h.once⟩
      obtain ⟨t, ht, hsame⟩ := List.mem_map.mp hmem
      exact hfree t ht hsame
    · rcases List.mem_cons.mp ht with rfl | ht
      · exact ⟨m, hm, hstate, hverifier, h.clock m hm, (liveAt_of_expiresAt hexpires).mp hnow⟩
      · exact h.taken t ht

end Keys

/-! ## Programs -/

section Runs

variable {τ : Type} {reqs : τ → LoginRequest} {i : τ} {S S' S'' : Shared (OAuthApp τ) τ}

/-- Thread `i` is a callback that presents this state and this code. -/
def Presents (reqs : τ → LoginRequest) (i : τ) (state code : String) : Prop :=
  ∃ req, reqs i = .callback req ∧ presented req.state = some state ∧ presented req.code = some code

/-- What is so in every state: states are made by their starts, codes are exchanged by those that took a state, once each,
and only these have committed. -/
structure Valid (reqs : τ → LoginRequest) (S : Shared (OAuthApp τ) τ) : Prop where
  keys : S.kv.Ok
  made : ∀ m ∈ S.kv.made, reqs m.owner = .start m.state m.verifier
  exchanged : ∀ p ∈ S.trace, Presents reqs p.1 p.2.state p.2.code ∧
    ∃ t ∈ S.kv.taken, t.owner = p.1 ∧ t.state = p.2.state ∧ t.verifier = p.2.verifier
  once : (S.trace.map Prod.fst).Nodup
  commits : ∀ j ∈ S.commits, j ∈ S.trace.map Prod.fst

/-- What others do, as thread `i` sees it. -/
structure LoginRely (reqs : τ → LoginRequest) (i : τ) (S S' : Shared (OAuthApp τ) τ) : Prop where
  valid : Valid reqs S → Valid reqs S'
  made : ∀ m ∈ S'.kv.made, m.owner = i → m ∈ S.kv.made
  taken : S.kv.taken ⊆ S'.kv.taken
  trace : i ∈ S'.trace.map Prod.fst ↔ i ∈ S.trace.map Prod.fst

/-- What a statement of thread `i` does. -/
structure LoginStep (reqs : τ → LoginRequest) (i : τ) (S S' : Shared (OAuthApp τ) τ) : Prop where
  valid : Valid reqs S → Valid reqs S'
  others : ∀ j, j ≠ i → LoginRely reqs j S S'

theorem LoginRely.refl (reqs : τ → LoginRequest) (i : τ) (S : Shared (OAuthApp τ) τ) : LoginRely reqs i S S :=
  ⟨id, fun _ hm _ => hm, List.Subset.refl _, Iff.rfl⟩

theorem LoginRely.trans (h : LoginRely reqs i S S') (h' : LoginRely reqs i S' S'') : LoginRely reqs i S S'' :=
  ⟨fun hv => h'.valid (h.valid hv), fun m hm hi => h.made m (h'.made m hm hi) hi, fun _ ht => h'.taken (h.taken ht),
    h'.trace.trans h.trace⟩

/-- How far a request has come. -/
inductive Stage
  | fresh
  | took (state verifier : String)
  | exchanged

/-- Where thread `i` is. -/
def Stage.At (i : τ) (S : Shared (OAuthApp τ) τ) : Stage → Prop
  | .fresh => i ∉ S.trace.map Prod.fst ∧ ∀ m ∈ S.kv.made, m.owner ≠ i
  | .took state verifier => i ∉ S.trace.map Prod.fst ∧
    ∃ t ∈ S.kv.taken, t.owner = i ∧ t.state = state ∧ t.verifier = verifier
  | .exchanged => i ∈ S.trace.map Prod.fst

theorem Stage.At.rely {stage : Stage} (h : stage.At i S) (hs : LoginRely reqs i S S') : stage.At i S' := by
  cases stage with
  | fresh => exact ⟨fun hi => h.1 (hs.trace.mp hi), fun m hm howner => h.2 m (hs.made m hm howner) howner⟩
  | took state verifier =>
    obtain ⟨hfirst, t, ht, hrest⟩ := h
    exact ⟨fun hi => hfirst (hs.trace.mp hi), t, hs.taken ht, hrest⟩
  | exchanged => exact hs.trace.mpr h

theorem steady_at (stage : Stage) :
    Steady (fun _ => LoginRely reqs i) fun _ S => Valid reqs S ∧ stage.At i S where
  rely _ _ _ h hs := ⟨hs.valid h.1, h.2.rely hs⟩
  lock _ _ _ h := h
  read _ _ _ h := h

/-- The commit of a thread that has exchanged its code. -/
theorem step_commit (h : i ∈ S.trace.map Prod.fst) (db : AuthDb) :
    LoginStep reqs i S { S with db := db, commits := S.commits ++ [i] } := by
  have hvalid : Valid reqs S → Valid reqs { S with db := db, commits := S.commits ++ [i] } := fun hv =>
    { hv with
      commits := fun j hj => (List.mem_append.mp hj).elim (hv.commits j) fun hj => List.mem_singleton.mp hj ▸ h }
  exact ⟨hvalid, fun j _ => ⟨hvalid, fun _ hm _ => hm, List.Subset.refl _, Iff.rfl⟩⟩

/-- **The part on the accounts**: no more is asked of it than of its commits. -/
theorem wp_accounts {α : Type} (p : Prog App α) (l : Local (OAuthApp τ)) (h : Valid reqs S ∧ Stage.At i S .exchanged) :
    wp (fun _ => LoginRely reqs i) (fun _ _ => LoginStep reqs i) i
      (fun _ _ S => Valid reqs S ∧ Stage.At i S .exchanged) (p.embed (accounts τ)) l S := by
  have hsteady : Steady (fun _ => LoginRely reqs i) fun _ S => Valid reqs S ∧ Stage.At i S .exchanged :=
    steady_at .exchanged
  induction p generalizing l S with
  | ret a => exact hsteady.wp_ret h fun S' h' => h'
  | throw e => exact hsteady.wp_throw h fun S' h' => h'
  | lock r k ih => exact hsteady.wp_lock h fun l' S' h' _ => ih l' h'
  | select t f k ih => exact hsteady.wp_select h fun l' S' h' => ih _ l' h'
  | write f k ih => exact hsteady.wp_write h fun S' h' => ih _ h'
  | commit k ih =>
    refine hsteady.wp_commit h fun S' h' => ?_
    have hstep : LoginStep reqs i S' _ := step_commit h'.2 (l.view S'.db)
    exact ⟨hstep, ih .idle ⟨hstep.valid h'.1, h'.2⟩⟩
  | kv f k ih =>
    refine hsteady.wp_kv h fun S' h' => ?_
    exact ⟨⟨id, fun j _ => .refl reqs j S'⟩, ih _ l h'⟩
  | emit e k ih => exact e.elim

theorem wp_signIn (settings : Settings) (answer : GithubAnswer) (req : CallbackRequest) (l : Local (OAuthApp τ))
    (h : Valid reqs S ∧ Stage.At i S .exchanged) :
    wp (fun _ => LoginRely reqs i) (fun _ _ => LoginStep reqs i) i (fun _ _ _ => True) (signIn settings answer req) l S := by
  refine wp_bind (fun _ => .refl reqs i) (wp_mono ?_ (wp_accounts _ l h))
  intro r l' S' _
  cases r with
  | error e => trivial
  | ok session => cases session <;> exact fun _ _ => trivial

/-- Keeping a new state. -/
theorem step_put {state verifier : String} (hdistinct : ∀ j v, reqs j = .start state v → j = i)
    (hreq : reqs i = .start state verifier) (hfresh : ∀ m ∈ S.kv.made, m.owner ≠ i) :
    LoginStep reqs i S { S with kv := S.kv.put i state verifier } := by
  have htaken := put_taken S.kv i state verifier
  have hvalid : Valid reqs S → Valid reqs { S with kv := S.kv.put i state verifier } := fun hv =>
    { keys := hv.keys.put fun m hm hstate => hfresh m hm (hdistinct m.owner m.verifier (hstate ▸ hv.made m hm))
      made := fun m hm => (made_put hm).elim (hv.made m) fun he => by rw [he]; exact hreq
      exchanged := fun p hp => by
        obtain ⟨hpresents, t, ht, hrest⟩ := hv.exchanged p hp
        exact ⟨hpresents, t, by rw [htaken]; exact ht, hrest⟩
      once := hv.once
      commits := hv.commits }
  refine ⟨hvalid, fun j hj => ⟨hvalid, fun m hm howner => ?_, fun t ht => by rw [htaken]; exact ht, Iff.rfl⟩⟩
  rcases made_put hm with hm | rfl
  · exact hm
  · exact absurd howner.symm hj

/-- Taking a state. -/
theorem step_take (hv : Valid reqs S) (state : String) :
    LoginStep reqs i S { S with kv := (S.kv.take i state).2 } := by
  obtain ⟨hok, hcases⟩ := take_cases hv.keys i state
  have hmade := take_made S.kv i state
  have hsub : S.kv.taken ⊆ (S.kv.take i state).2.taken := by
    rcases hcases with ⟨-, he⟩ | ⟨verifier, -, he⟩
    · rw [he]
      exact List.Subset.refl _
    · rw [he]
      exact List.subset_cons_self ..
  have hvalid : Valid reqs S → Valid reqs { S with kv := (S.kv.take i state).2 } := fun _ =>
    { keys := hok
      made := fun m hm => hv.made m (hmade ▸ hm)
      exchanged := fun p hp => by
        obtain ⟨hpresents, t, ht, hrest⟩ := hv.exchanged p hp
        exact ⟨hpresents, t, hsub ht, hrest⟩
      once := hv.once
      commits := hv.commits }
  exact ⟨hvalid, fun j _ => ⟨hvalid, fun m hm _ => hmade ▸ hm, hsub, Iff.rfl⟩⟩

/-- Exchanging a code with the verifier of the state that was taken. -/
theorem step_exchange {state code verifier : String} (hpresents : Presents reqs i state code)
    (hat : Stage.At i S (.took state verifier)) :
    LoginStep reqs i S { S with trace := S.trace ++ [(i, ⟨state, code, verifier⟩)] } := by
  obtain ⟨hfirst, htaken⟩ := hat
  have hmap : (S.trace ++ [(i, (⟨state, code, verifier⟩ : Exchanged))]).map Prod.fst = S.trace.map Prod.fst ++ [i] :=
    List.map_append
  have hvalid : Valid reqs S → Valid reqs { S with trace := S.trace ++ [(i, ⟨state, code, verifier⟩)] } := fun hv =>
    { keys := hv.keys
      made := hv.made
      exchanged := fun p hp => by
        rcases List.mem_append.mp hp with hp | hp
        · exact hv.exchanged p hp
        · rw [List.mem_singleton.mp hp]
          exact ⟨hpresents, htaken⟩
      once := by
        dsimp only
        rw [hmap, List.nodup_append]
        refine ⟨hv.once, List.nodup_singleton i, fun j hj j' hj' => ?_⟩
        rw [List.mem_singleton.mp hj']
        rintro rfl
        exact hfirst hj
      commits := fun j hj => by
        dsimp only
        rw [hmap]
        exact List.mem_append_left _ (hv.commits j hj) }
  refine ⟨hvalid, fun j hj => ⟨hvalid, fun _ hm _ => hm, List.Subset.refl _, ?_⟩⟩
  dsimp only
  rw [hmap, List.mem_append, List.mem_singleton]
  exact or_iff_left hj

/-- **Every request** keeps the states and exchanges in order. -/
theorem wp_request (settings : Settings) (github : String → String → Option GithubAnswer)
    (hdistinct : ∀ j j' state v v', reqs j = .start state v → reqs j' = .start state v' → j = j')
    (l : Local (OAuthApp τ)) (h : Valid reqs S ∧ Stage.At i S .fresh) :
    wp (fun _ => LoginRely reqs i) (fun _ _ => LoginStep reqs i) i (fun _ _ _ => True)
      ((reqs i).program settings github i) l S := by
  have hsteady : Steady (fun _ => LoginRely reqs i) fun _ S => Valid reqs S ∧ Stage.At i S .fresh := steady_at .fresh
  cases hreq : reqs i with
  | start state verifier =>
    refine hsteady.wp_kv h fun S₁ h₁ => ?_
    exact ⟨step_put (fun j v hj => hdistinct j i state v verifier hj hreq) hreq h₁.2.2, fun _ _ => trivial⟩
  | callback req =>
    show wp _ _ _ _ (githubCallback settings github i req) l S
    unfold githubCallback
    split
    · exact fun _ _ => trivial
    · split
      · rename_i code state hcode hstate
        refine hsteady.wp_kv h fun S₁ h₁ => ?_
        have hstep := step_take (i := i) h₁.1 state
        refine ⟨hstep, ?_⟩
        have hvalid := hstep.valid h₁.1
        obtain ⟨-, hcases⟩ := take_cases h₁.1.keys i state
        rcases hcases with ⟨hnone, -⟩ | ⟨verifier, hsome, htaken⟩
        · rw [hnone]
          exact fun _ _ => trivial
        · rw [hsome]
          have hat : Stage.At i { S₁ with kv := (S₁.kv.take i state).2 } (.took state verifier) :=
            ⟨h₁.2.1, _, htaken ▸ List.mem_cons_self .., rfl, rfl, rfl⟩
          refine (steady_at (.took state verifier)).wp_emit ⟨hvalid, hat⟩ fun S₂ h₂ => ?_
          have hexchange := step_exchange ⟨req, hreq, hstate, hcode⟩ h₂.2
          refine ⟨hexchange, ?_⟩
          cases github code verifier with
          | none => exact fun _ _ => trivial
          | some answer =>
            exact wp_signIn settings answer req l ⟨hexchange.valid h₂.1, by simp [Stage.At]⟩
      · exact fun _ _ => trivial

/-- Redis alone: time passes, and keys may be lost. -/
structure Outside (keys keys' : OAuthKeys τ) : Prop where
  now : keys.now ≤ keys'.now
  made : keys'.made = keys.made
  taken : keys'.taken = keys.taken
  states : ∀ state e, keys'.states state = some e → keys.states state = some e

theorem Valid.outside {keys : OAuthKeys τ} (h : Valid reqs S) (ho : Outside S.kv keys) :
    Valid reqs { S with kv := keys } where
  keys := h.keys.lose ho.now ho.made ho.taken ho.states
  made m hm := h.made m (ho.made ▸ hm)
  exchanged p hp := by
    dsimp only
    rw [ho.taken]
    exact h.exchanged p hp
  once := h.once
  commits := h.commits

theorem login_rules (settings : Settings) (github : String → String → Option GithubAnswer) (db : AuthDb)
    (hdistinct : ∀ j j' state v v', reqs j = .start state v → reqs j' = .start state v' → j = j') :
    Rules Outside (start settings github reqs db) (fun i _ => LoginRely reqs i) (fun i _ _ => LoginStep reqs i)
      fun _ _ _ => True where
  refl i _ := .refl reqs i
  trans _ _ _ _ _ := .trans
  outside _ _ S keys ho := ⟨fun hv => hv.outside ho, fun m hm _ => ho.made ▸ hm, fun t ht => by
    dsimp only
    rw [ho.taken]
    exact ht, Iff.rfl⟩
  compat _ _ j _ _ hj hG := hG.others j hj
  stable _ _ _ _ h _ := h
  start i := good_start (wp_request settings github hdistinct .idle
    ⟨⟨⟨by simp, by simp, List.nodup_nil, by simp⟩, by simp, by simp, List.nodup_nil, by simp⟩, by simp [Stage.At]⟩)

end Runs

/-! ## Results -/

section Results

variable {τ : Type} [DecidableEq τ] {reqs : τ → LoginRequest} {settings : Settings}
  {github : String → String → Option GithubAnswer} {db : AuthDb} {s : Sys (OAuthApp τ) τ Redirect}

theorem login_valid (hdistinct : ∀ j j' state v v', reqs j = .start state v → reqs j' = .start state v' → j = j')
    (h : Reach Outside anyCommit (start settings github reqs db) s) : Valid reqs s.shared :=
  Reach.inv (login_rules settings github db hdistinct) (J := Valid reqs)
    ⟨⟨by simp [start, Sys.start], by simp [start, Sys.start], List.nodup_nil, by simp [start, Sys.start]⟩,
      by simp [start, Sys.start], by simp [start, Sys.start], List.nodup_nil, by simp [start, Sys.start]⟩
    (fun _ _ _ _ hJ hG => hG.valid hJ) (fun _ _ _ _ _ hJ hG => hG.valid hJ) (fun _ _ ho hJ => hJ.outside ho) h

/-- **One login a state**: in every run of starts and callbacks whose states are new, whatever codes and states are
presented, a code is exchanged only by a callback that presents a state made less than ten minutes before it was taken,
with the verifier made with that state; no state serves twice; and only such a callback commits to the accounts. -/
theorem login_once (hdistinct : ∀ j j' state v v', reqs j = .start state v → reqs j' = .start state v' → j = j')
    (h : Reach Outside anyCommit (start settings github reqs db) s) :
    (s.shared.trace.map (·.2.state)).Nodup ∧
    (∀ i e, (i, e) ∈ s.shared.trace → Presents reqs i e.state e.code ∧
      ∃ m ∈ s.shared.kv.made, ∃ t ∈ s.shared.kv.taken, reqs m.owner = .start e.state e.verifier ∧ m.state = e.state ∧
        t.state = e.state ∧ t.owner = i ∧ m.since ≤ t.time ∧ t.time < m.since + oauthStateTtl) ∧
    ∀ i ∈ s.shared.commits, ∃ e, (i, e) ∈ s.shared.trace := by
  have hv := login_valid hdistinct h
  refine ⟨?_, fun i e he => ?_, fun i hi => ?_⟩
  · refine List.Nodup.map_on (fun p hp p' hp' hstate => ?_) (List.Nodup.of_map _ hv.once)
    obtain ⟨-, t, ht, howner, htstate, -⟩ := hv.exchanged p hp
    obtain ⟨-, t', ht', howner', htstate', -⟩ := hv.exchanged p' hp'
    have hsame : t = t' := List.inj_on_of_nodup_map hv.keys.once ht ht' (htstate.trans (hstate.trans htstate'.symm))
    exact List.inj_on_of_nodup_map hv.once hp hp' (howner ▸ howner' ▸ hsame ▸ rfl)
  · obtain ⟨hpresents, t, ht, howner, hstate, hverifier⟩ := hv.exchanged _ he
    obtain ⟨m, hm, hmstate, hmverifier, hsince, htime⟩ := hv.keys.taken t ht
    refine ⟨hpresents, m, hm, t, ht, ?_, hmstate.trans hstate, hstate, howner, hsince, htime⟩
    rw [hv.made m hm, hmstate, hstate, hmverifier, hverifier]
  · obtain ⟨⟨j, e⟩, he, rfl⟩ := List.mem_map.mp (hv.commits i hi)
    exact ⟨e, he⟩

/-! ### A state that is presented twice -/

/-- A start, and two callbacks that present its state. -/
def twoCallbacks : Fin 3 → LoginRequest
  | 0 => .start "state" "verifier"
  | 1 => .callback ⟨some "code", some "state", none, ⟨"raw", 0, none, none⟩, 1⟩
  | 2 => .callback ⟨some "stolen", some "state", none, ⟨"other", 0, none, none⟩, 2⟩

def betaSettings : Settings := ⟨false, 30 * 86400000000, id, id⟩

def octocat (_ _ : String) : Option GithubAnswer := some ⟨⟨"583231", "octocat", none, none⟩, "gho", none⟩

theorem login_once_two :
    let s := (start betaSettings octocat twoCallbacks ⟨[], [], [], []⟩).after anyCommit
      [0, 1, 1, 2, 2, 1, 1, 1, 1, 1, 1, 1, 1, 1, 1, 1]
    s.shared.commits = [1] ∧ s.shared.trace = [(1, ⟨"state", "code", "verifier"⟩)] ∧
      (s.shared.trace.map (·.2.state)).Nodup := by
  intro s
  have hreach : Reach Outside anyCommit (start betaSettings octocat twoCallbacks ⟨[], [], [], []⟩) s :=
    Reach.after (by decide +kernel)
  refine ⟨by decide +kernel, by decide +kernel, (login_once ?_ hreach).1⟩
  intro j j' state v v' hj hj'
  have hstart : ∀ k v, twoCallbacks k = .start state v → k = 0 := by
    intro k v hk
    match k with
    | 0 => rfl
    | 1 | 2 => cases hk
  rw [hstart j v hj, hstart j' v' hj']

end Results

end CodeReader.Auth.OAuth
