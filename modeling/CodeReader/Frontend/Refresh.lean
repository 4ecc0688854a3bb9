import CodeReader.Auth.Refresh

/-!
# One tab and its refresh cookie

The web client keeps the access token in memory and the browser the refresh token in a cookie; `refresh` joins the refresh
that is in flight, if there is one.  Every refresh that the server grants exchanges the cookie's token, so the tab depends
on the answer that brings the next one.

* `Tab`, `Tab.refresh` — the client's module state, and its function;
* `Session`, `step` — the tab, the server's tables and what is on the way between them, with answers that are lost,
  requests that come late, reloads, and the requests of others;
* `TabOk` — **the invariant**: where the one token of the family is that can be exchanged;
* `never_reused`, `stranded_iff` — **the results**, until the logout.
-/

namespace CodeReader.Frontend

open Auth Txn Prog

/-! ## The server -/

instance (f : FamilyId) (db db' : AuthDb) : Decidable (SameTokens f db db') := inferInstanceAs (Decidable (_ = _))
instance (db : AuthDb) : Decidable (Hashed db) := inferInstanceAs (Decidable (List.Nodup _))

/-- A refresh that the server runs alone: the raw token that it sets as the cookie, and the tables it leaves. -/
def serveRefresh (settings : Auth.Settings) (cookie : Option String) (env : IssueEnv) (db : AuthDb) :
    Option String × AuthDb :=
  let run := (Auth.refresh settings cookie env).exec db ⟨db, ()⟩
  match run.res with
  | .ok _ => (some env.rawToken, run.store.db)
  | .error _ => (none, run.store.db)

/-- The row of the token that a request presents. -/
def presentedToken (settings : Auth.Settings) (cookie : Option String) (db : AuthDb) : Option RefreshToken :=
  (presented cookie).bind fun raw => db.refreshToken (settings.refreshTokenHash raw)

/-- `alert_refresh_reuse`: the token that is presented was exchanged or revoked before. -/
def alertsReuse (settings : Auth.Settings) (cookie : Option String) (db : AuthDb) : Bool :=
  (presentedToken settings cookie db).any fun t => !t.live

/-! ## The tab -/

/-- A call of `fetch` for `/v1/auth/refresh`, with the cookie that was sent. -/
inductive Flight
  | sent (cookie : Option String)
  /-- The server has answered; with the cookie that it sets, unless it refuses. -/
  | answered (issued : Option String)
  /-- The headers are in, and the browser has stored the cookie. -/
  | headed (granted : Bool)
  deriving DecidableEq

/-- The module state of the client, and the browser's cookie `rt`. -/
structure Tab where
  cookie : Option String
  accessToken : Option String
  refreshInFlight : Option Flight
  deriving DecidableEq

namespace Tab

/-- `refresh`: who calls it while a refresh is in flight waits for that one. -/
def refresh (tab : Tab) : Tab :=
  match tab.refreshInFlight with
  | some _ => tab
  | none => { tab with refreshInFlight := some (.sent tab.cookie) }

/-- The headers of the answer are in. -/
def headers (tab : Tab) (issued : Option String) : Tab :=
  { tab with cookie := issued.or tab.cookie, refreshInFlight := some (.headed issued.isSome) }

/-- The body is read, and the promise is settled. -/
def settle (tab : Tab) (granted : Bool) (accessToken : String) : Tab :=
  { tab with accessToken := if granted then some accessToken else none, refreshInFlight := none }

/-- `fetch` or the reading of the body fails. -/
def fail (tab : Tab) : Tab := { tab with refreshInFlight := none }

/-- The page is loaded anew. -/
def reload (tab : Tab) : Tab := { tab with accessToken := none, refreshInFlight := none }

end Tab

/-! ## The tab and the server -/

structure Session where
  tab : Tab
  db : AuthDb
  /-- The cookies of requests that the tab has given up on, and that the server may still get. -/
  strays : List (Option String)
  /-- How often the server has raised its alarm about this tab. -/
  alerts : Nat
  /-- The tab has given up on a refresh before the headers of its answer came. -/
  gaveUp : Bool
  /-- A cookie that the server has set did not come in. -/
  lost : Bool

inductive SessionEvent
  /-- A request was answered with 401, the timer is over, or the page starts. -/
  | call
  | serve (env : IssueEnv)
  | headers
  | settle (accessToken : String)
  | fail
  | reload
  | serveStray (n : Nat) (env : IssueEnv)
  /-- The others' requests, which leave the tab's family as it is. -/
  | others (db : AuthDb)

namespace Session

/-- The flight is given up. -/
def giveUp (s : Session) (tab : Tab) : Session :=
  match s.tab.refreshInFlight with
  | none => { s with tab := tab }
  | some (.sent cookie) => { s with tab := tab, strays := cookie :: s.strays, gaveUp := true }
  | some (.answered issued) => { s with tab := tab, gaveUp := true, lost := s.lost || issued.isSome }
  | some (.headed _) => { s with tab := tab }

/-- The server gets a request with `cookie`. -/
def served (settings : Auth.Settings) (env : IssueEnv) (cookie : Option String) (s : Session) : Session :=
  { s with
    db := (serveRefresh settings cookie env s.db).2
    alerts := s.alerts + (alertsReuse settings cookie s.db).toNat }

/-- What an event does where it can happen; `generate_refresh_token` never gives an empty token. -/
def step (settings : Auth.Settings) (f : FamilyId) (s : Session) : SessionEvent → Option Session
  | .call => some { s with tab := s.tab.refresh }
  | .serve env =>
    match s.tab.refreshInFlight with
    | some (.sent cookie) =>
      if env.rawToken = "" then none
      else some { s.served settings env cookie with
        tab := { s.tab with refreshInFlight := some (.answered (serveRefresh settings cookie env s.db).1) } }
    | _ => none
  | .headers =>
    match s.tab.refreshInFlight with
    | some (.answered issued) => some { s with tab := s.tab.headers issued }
    | _ => none
  | .settle accessToken =>
    match s.tab.refreshInFlight with
    | some (.headed granted) => some { s with tab := s.tab.settle granted accessToken }
    | _ => none
  | .fail => some (s.giveUp s.tab.fail)
  | .reload => some (s.giveUp s.tab.reload)
  | .serveStray n env =>
    match s.strays[n]? with
    | some cookie =>
      if env.rawToken = "" then none
      else some { s.served settings env cookie with
        strays := s.strays.eraseIdx n
        lost := s.lost || (serveRefresh settings cookie env s.db).1.isSome }
    | none => none
  | .others db =>
    if SameTokens f s.db db ∧ Hashed db then some { s with db := db } else none

def run (settings : Auth.Settings) (f : FamilyId) (s : Session) : List SessionEvent → Option Session
  | [] => some s
  | e :: es => (s.step settings f e).bind fun s' => s'.run settings f es

/-- Right after a login, which gave the tab the cookie `raw`. -/
def start (raw : String) (db : AuthDb) : Session := ⟨⟨some raw, none, none⟩, db, [], 0, false, false⟩

end Session

/-! ## What the server does -/

section Server

variable {settings : Auth.Settings} {cookie : Option String} {env : IssueEnv} {db : AuthDb} {f : FamilyId}
  {t : RefreshToken}

/-- The server refuses, or exchanges the presented token for one whose hash is new. -/
theorem serve_cases (settings : Auth.Settings) (cookie : Option String) (env : IssueEnv) (db : AuthDb) :
    serveRefresh settings cookie env db = (none, db) ∨
    ∃ row, presentedToken settings cookie db = some row ∧ row.live = true ∧
      db.refreshToken (settings.refreshTokenHash env.rawToken) = none ∧
      serveRefresh settings cookie env db =
        (some env.rawToken, db.exchanged row.tokenHash env.now (env.row settings row.userId row.familyId)) := by
  unfold serveRefresh presentedToken Auth.refresh rotateRefreshToken
  cases presented cookie with
  | none => exact .inl rfl
  | some raw =>
    simp only [query_bind, select_bind, exec_select, Option.bind_some]
    cases hrow : db.refreshToken (settings.refreshTokenHash raw) with
    | none => exact .inl rfl
    | some row =>
      dsimp only
      cases hlive : row.live with
      | false => exact .inl rfl
      | true =>
        simp only [Bool.not_true, Bool.false_eq_true, if_false]
        by_cases hexpired : row.expiresAt ≤ env.now
        · simp only [if_pos hexpired]
          exact .inl rfl
        · simp only [if_neg hexpired, select_bind, exec_select]
          cases huser : db.user row.userId with
          | none => exact .inl rfl
          | some user =>
            have hid : user.id = row.userId := (AuthDb.user_id huser).2
            dsimp only
            by_cases hgate : (settings.betaGateEnabled && !user.betaAllowed) = true
            · simp only [if_pos hgate]
              exact .inl rfl
            · simp only [if_neg hgate]
              have htaken : ((db.updateRefreshTokens (·.tokenHash == row.tokenHash) (.rotated env.now)).refreshToken
                  (settings.refreshTokenHash env.rawToken)).isSome =
                  (db.refreshToken (settings.refreshTokenHash env.rawToken)).isSome := by
                rw [refreshToken_update _ (.rotated env.now) fun _ => rfl, Option.isSome_map]
              have hhash : (env.row settings user.id row.familyId).tokenHash = settings.refreshTokenHash env.rawToken := rfl
              cases hnew : db.refreshToken (settings.refreshTokenHash env.rawToken) with
              | some other =>
                left
                simp [issueRefreshToken, hhash, htaken, hnew]
              | none =>
                right
                refine ⟨row, rfl, hlive, rfl, ?_⟩
                rw [← hid]
                simp [issueRefreshToken, hhash, htaken, hnew, update, commitTx, AuthDb.exchanged]

theorem presentedToken_some (h : presentedToken settings cookie db = some t) : ∃ raw, presented cookie = some raw ∧
    t ∈ db.refreshTokens ∧ t.tokenHash = settings.refreshTokenHash raw := by
  obtain ⟨raw, hraw, ht⟩ := Option.bind_eq_some_iff.mp h
  exact ⟨raw, hraw, refreshToken_some ht⟩

/-- What others do to the tables leaves the family's tokens where they are. -/
theorem presentedToken_others {db' : AuthDb} (h : presentedToken settings cookie db = some t) (hsame : SameTokens f db db')
    (hdb : Hashed db') (hf : t.familyId = f) : presentedToken settings cookie db' = some t := by
  obtain ⟨raw, hraw, hmem, hhash⟩ := presentedToken_some h
  have hmem' : t ∈ familyTokens f db' := by
    rw [hsame]
    exact mem_familyTokens.mpr ⟨hmem, hf⟩
  rw [presentedToken, hraw, Option.bind_some, ← hhash]
  exact hdb.refreshToken_eq (mem_familyTokens.mp hmem').1

/-- The token of a cookie after an exchange. -/
theorem presentedToken_exchanged {h : String} {now : Int} {successor : RefreshToken}
    (ht : presentedToken settings cookie db = some t) :
    presentedToken settings cookie (db.exchanged h now successor) =
      some (if t.tokenHash == h then t.rotated now else t) := by
  obtain ⟨raw, hraw, htoken⟩ := Option.bind_eq_some_iff.mp ht
  rw [presentedToken, hraw, Option.bind_some, refreshToken_exchanged, htoken, Option.map_some, Option.some_or]

/-- The cookie that is set has the new token. -/
theorem presentedToken_issued {h : String} {now : Int} {userId : UserId} (hne : env.rawToken ≠ "")
    (hnew : db.refreshToken (settings.refreshTokenHash env.rawToken) = none) :
    presentedToken settings (some env.rawToken) (db.exchanged h now (env.row settings userId f)) =
      some (env.row settings userId f) := by
  have hraw : presented (some env.rawToken) = some env.rawToken := by simp [presented, hne]
  rw [presentedToken, hraw, Option.bind_some, refreshToken_exchanged, hnew]
  simp [IssueEnv.row]

/-- A family has at most one token that can be exchanged. -/
def SingleLive (f : FamilyId) (db : AuthDb) : Prop :=
  ∀ t ∈ familyTokens f db, ∀ t' ∈ familyTokens f db, t.live = true → t'.live = true → t = t'

theorem hashed_exchanged {h : String} {now : Int} {successor : RefreshToken} (hdb : Hashed db)
    (hnew : db.refreshToken successor.tokenHash = none) : Hashed (db.exchanged h now successor) := by
  have hhashes : (db.exchanged h now successor).refreshTokens.map RefreshToken.tokenHash =
      db.refreshTokens.map RefreshToken.tokenHash ++ [successor.tokenHash] := by
    show ((db.updateRefreshTokens _ _).refreshTokens ++ [successor]).map _ = _
    rw [List.map_append, hashes_update _ (.rotated now) fun _ => rfl]
    rfl
  rw [Hashed, hhashes, List.nodup_append]
  refine ⟨hdb, List.nodup_singleton _, fun a ha b hb hab => ?_⟩
  obtain ⟨t, ht, rfl⟩ := List.mem_map.mp ha
  exact refreshToken_eq_none.mp hnew t ht (hab.trans (List.mem_singleton.mp hb))

/-- Where the only live token is exchanged, its successor is the only one. -/
theorem SingleLive.exchanged {row : RefreshToken} (now : Int) (successor : RefreshToken) (hsingle : SingleLive f db)
    (hrow : row ∈ familyTokens f db) (hlive : row.live = true) :
    ∀ t ∈ familyTokens f (db.exchanged row.tokenHash now successor), t.live = true → t = successor := by
  intro t ht htlive
  obtain ⟨hmem, hf⟩ := mem_familyTokens.mp ht
  rcases live_exchanged hmem htlive with rfl | ⟨hold, hne⟩
  · rfl
  · have hsame := hsingle t (mem_familyTokens.mpr ⟨hold, hf⟩) row hrow htlive hlive
    exact absurd (congrArg RefreshToken.tokenHash hsame) hne

end Server

/-! ## The invariant -/

section Invariant

variable {settings : Auth.Settings} {f : FamilyId} {s s' : Session} {env : IssueEnv}

namespace Session

/-- The cookies that the server may get of the tab. -/
def cookies (s : Session) : List (Option String) := s.tab.cookie :: s.strays

/-- None of them can be exchanged. -/
def Spent (settings : Auth.Settings) (s : Session) : Prop :=
  ∀ c ∈ s.cookies, ∀ t, presentedToken settings c s.db = some t → t.live = false

/-- A cookie with the family's live token. -/
def Fresh (settings : Auth.Settings) (f : FamilyId) (db : AuthDb) (cookie : Option String) : Prop :=
  ∃ t, presentedToken settings cookie db = some t ∧ t.familyId = f ∧ t.live = true

end Session

open Session

/-- Where the family's live token is: in the answer on its way, in the browser, or nowhere any more. -/
structure TabOk (settings : Auth.Settings) (f : FamilyId) (s : Session) : Prop where
  hashed : Hashed s.db
  single : SingleLive f s.db
  known : ∀ c ∈ s.cookies, ∃ t, presentedToken settings c s.db = some t ∧ t.familyId = f
  sent : ∀ c, s.tab.refreshInFlight = some (.sent c) → c = s.tab.cookie
  issued : ∀ raw, s.tab.refreshInFlight = some (.answered (some raw)) →
    s.lost = false ∧ Fresh settings f s.db (some raw) ∧ s.Spent settings
  held : s.lost = false → (∀ raw, s.tab.refreshInFlight ≠ some (.answered (some raw))) →
    Fresh settings f s.db s.tab.cookie
  stranded : s.lost = true → s.Spent settings
  prompt : s.gaveUp = false → s.strays = [] ∧ s.lost = false ∧ s.alerts = 0

/-- What an exchange of one of the tab's cookies leaves: they are all spent, and the new one is not. -/
structure Granted (settings : Auth.Settings) (f : FamilyId) (s : Session) (env : IssueEnv) (db' : AuthDb) : Prop where
  hashed : Hashed db'
  single : SingleLive f db'
  spent : ∀ c ∈ s.cookies, ∃ t, presentedToken settings c db' = some t ∧ t.familyId = f ∧ t.live = false
  fresh : Fresh settings f db' (some env.rawToken)

/-- The server refuses one of the tab's cookies, or exchanges it while it is not spent. -/
theorem TabOk.serve (h : TabOk settings f s) (hne : env.rawToken ≠ "") {c : Option String} (hc : c ∈ s.cookies) :
    serveRefresh settings c env s.db = (none, s.db) ∨
    (serveRefresh settings c env s.db).1 = some env.rawToken ∧ ¬ s.Spent settings ∧ s.lost = false ∧
      Granted settings f s env (serveRefresh settings c env s.db).2 := by
  obtain hrefused | ⟨row, hrow, hlive, hnew, hserve⟩ := serve_cases settings c env s.db
  · exact .inl hrefused
  · obtain ⟨t, ht, hf⟩ := h.known c hc
    obtain rfl : row = t := Option.some.inj (hrow.symm.trans ht)
    obtain ⟨raw, -, hmem, -⟩ := presentedToken_some hrow
    have hfamily : row ∈ familyTokens f s.db := mem_familyTokens.mpr ⟨hmem, hf⟩
    have hunspent : ¬ s.Spent settings := fun hspent => by
      rw [hspent c hc row hrow] at hlive
      cases hlive
    rw [hserve]
    refine .inr ⟨rfl, hunspent, ?_, hashed_exchanged h.hashed hnew, ?_, fun c' hc' => ?_, ?_⟩
    · cases hlost : s.lost with
      | false => rfl
      | true => exact absurd (h.stranded hlost) hunspent
    · intro t₁ ht₁ t₂ ht₂ hlive₁ hlive₂
      have hsuccessor := h.single.exchanged env.now (env.row settings row.userId row.familyId) hfamily hlive
      rw [hsuccessor t₁ ht₁ hlive₁, hsuccessor t₂ ht₂ hlive₂]
    · obtain ⟨t', ht', hf'⟩ := h.known c' hc'
      refine ⟨_, presentedToken_exchanged ht', ?_⟩
      by_cases hhash : t'.tokenHash = row.tokenHash
      · rw [if_pos (beq_iff_eq.mpr hhash)]
        exact ⟨hf', rfl⟩
      · rw [if_neg (by simpa using hhash)]
        refine ⟨hf', ?_⟩
        cases hlive' : t'.live with
        | false => rfl
        | true =>
          obtain ⟨-, -, hmem', -⟩ := presentedToken_some ht'
          have hsame := h.single t' (mem_familyTokens.mpr ⟨hmem', hf'⟩) row hfamily hlive' hlive
          exact absurd (congrArg RefreshToken.tokenHash hsame) hhash
    · rw [hf]
      exact ⟨_, presentedToken_issued hne hnew, rfl, rfl⟩

/-- A cookie that can be exchanged raises no alarm, and one that cannot does. -/
theorem alertsReuse_eq {c : Option String} {t : RefreshToken} {db : AuthDb} (h : presentedToken settings c db = some t) :
    alertsReuse settings c db = !t.live := by
  rw [alertsReuse, h]
  rfl

theorem Session.Spent.mono {s s' : Session} (h : s.Spent settings) (hdb : s'.db = s.db) (hsub : ∀ c ∈ s'.cookies, c ∈ s.cookies) :
    s'.Spent settings := fun c hc t ht => h c (hsub c hc) t (hdb ▸ ht)

/-- The others' requests. -/
theorem TabOk.others {db : AuthDb} (h : TabOk settings f s) (hsame : SameTokens f s.db db) (hdb : Hashed db) :
    TabOk settings f { s with db := db } := by
  have hmove : ∀ c t, presentedToken settings c s.db = some t → t.familyId = f →
      presentedToken settings c db = some t := fun c t ht hf => presentedToken_others ht hsame hdb hf
  have hfresh : ∀ c, Fresh settings f s.db c → Fresh settings f db c := by
    rintro c ⟨t, ht, hf, hlive⟩
    exact ⟨t, hmove c t ht hf, hf, hlive⟩
  have hspent : s.Spent settings → Session.Spent settings { s with db := db } := by
    intro hs c hc t ht
    obtain ⟨t', ht', hf'⟩ := h.known c hc
    obtain rfl : t' = t := Option.some.inj ((hmove c t' ht' hf').symm.trans ht)
    exact hs c hc t' ht'
  refine ⟨hdb, ?_, fun c hc => ?_, h.sent, fun raw hraw => ?_, fun hlost hno => ?_, fun hlost => ?_, h.prompt⟩
  · show SingleLive f db
    rw [SingleLive, show familyTokens f db = familyTokens f s.db from hsame]
    exact h.single
  · obtain ⟨t, ht, hf⟩ := h.known c hc
    exact ⟨t, hmove c t ht hf, hf⟩
  · obtain ⟨hlost, hf, hs⟩ := h.issued raw hraw
    exact ⟨hlost, hfresh _ hf, hspent hs⟩
  · exact hfresh _ (h.held hlost hno)
  · exact hspent (h.stranded hlost)

/-- The server gets the request in flight. -/
theorem TabOk.serveFlight (h : TabOk settings f s) (hne : env.rawToken ≠ "") {c : Option String}
    (hflight : s.tab.refreshInFlight = some (.sent c)) :
    TabOk settings f { s.served settings env c with
      tab := { s.tab with refreshInFlight := some (.answered (serveRefresh settings c env s.db).1) } } := by
  obtain rfl := h.sent c hflight
  have hnone : ∀ raw, s.tab.refreshInFlight ≠ some (.answered (some raw)) := by simp [hflight]
  have hprompt : s.gaveUp = false →
      s.strays = [] ∧ s.lost = false ∧ s.alerts + (alertsReuse settings s.tab.cookie s.db).toNat = 0 := by
    intro hgave
    obtain ⟨hstrays, hlost, halerts⟩ := h.prompt hgave
    obtain ⟨t, ht, -, hlive⟩ := h.held hlost hnone
    rw [alertsReuse_eq ht, hlive, halerts]
    exact ⟨hstrays, hlost, rfl⟩
  unfold Session.served
  obtain hrefused | ⟨hissued, -, hlost, hgranted⟩ := h.serve hne (List.mem_cons_self (a := s.tab.cookie))
  · rw [hrefused]
    exact ⟨h.hashed, h.single, h.known, fun _ he => (by cases he), fun _ he => (by cases he), fun hlost _ => h.held hlost hnone,
      h.stranded, hprompt⟩
  · rw [hissued]
    refine ⟨hgranted.hashed, hgranted.single, fun c hc => ?_, fun _ he => (by cases he), fun raw he => ?_,
      fun _ hno => absurd rfl (hno _), fun hlost' => ?_, hprompt⟩
    · obtain ⟨t, ht, hf, -⟩ := hgranted.spent c hc
      exact ⟨t, ht, hf⟩
    · cases he
      refine ⟨hlost, hgranted.fresh, fun c hc t ht => ?_⟩
      obtain ⟨t', ht', -, hdead⟩ := hgranted.spent c hc
      rw [← Option.some.inj (ht'.symm.trans ht)]
      exact hdead
    · have hlost' : s.lost = true := hlost'
      rw [hlost] at hlost'
      cases hlost'

/-- The server gets a request that the tab has given up on. -/
theorem TabOk.serveStray (h : TabOk settings f s) (hne : env.rawToken ≠ "") {n : Nat} {c : Option String}
    (hstray : s.strays[n]? = some c) :
    TabOk settings f { s.served settings env c with
      strays := s.strays.eraseIdx n
      lost := s.lost || (serveRefresh settings c env s.db).1.isSome } := by
  have hc : c ∈ s.cookies := List.mem_cons_of_mem _ (List.mem_of_getElem? hstray)
  have hsub : ∀ c' ∈ s.tab.cookie :: s.strays.eraseIdx n, c' ∈ s.cookies := fun c' hc' =>
    (List.mem_cons.mp hc').elim (fun he => he ▸ List.mem_cons_self ..)
      fun hmem => List.mem_cons_of_mem _ (List.mem_of_mem_eraseIdx hmem)
  have hgave : s.gaveUp = true := by
    cases hgave : s.gaveUp with
    | true => rfl
    | false =>
      rw [(h.prompt hgave).1] at hstray
      cases hstray
  unfold Session.served
  obtain hrefused | ⟨hissued, hunspent, hlost, hgranted⟩ := h.serve hne hc
  · rw [hrefused, Option.isSome_none, Bool.or_false]
    refine ⟨h.hashed, h.single, fun c' hc' => h.known c' (hsub c' hc'), h.sent, fun raw hraw => ?_, h.held,
      fun hlost => ?_, fun hno => absurd (hgave.symm.trans hno) (by decide)⟩
    · obtain ⟨hlost, hfresh, hspent⟩ := h.issued raw hraw
      exact ⟨hlost, hfresh, hspent.mono rfl hsub⟩
    · exact (h.stranded hlost).mono rfl hsub
  · rw [hissued, Option.isSome_some, Bool.or_true]
    refine ⟨hgranted.hashed, hgranted.single, fun c' hc' => ?_, h.sent, fun raw hraw => ?_, fun hno => (by cases hno),
      fun _ c' hc' t ht => ?_, fun hno => absurd (hgave.symm.trans hno) (by decide)⟩
    · obtain ⟨t, ht, hf, -⟩ := hgranted.spent c' (hsub c' hc')
      exact ⟨t, ht, hf⟩
    · exact absurd (h.issued raw hraw).2.2 hunspent
    · obtain ⟨t', ht', -, hdead⟩ := hgranted.spent c' (hsub c' hc')
      rw [← Option.some.inj (ht'.symm.trans ht)]
      exact hdead

/-- The tab's state changes, but for its cookie. -/
theorem TabOk.moved (h : TabOk settings f s) {tab : Tab} (hcookie : tab.cookie = s.tab.cookie)
    (hsent : ∀ c, tab.refreshInFlight = some (.sent c) → c = tab.cookie)
    (hold : ∀ raw, s.tab.refreshInFlight ≠ some (.answered (some raw)))
    (hnew : ∀ raw, tab.refreshInFlight ≠ some (.answered (some raw))) : TabOk settings f { s with tab := tab } := by
  have hsub : ∀ c ∈ tab.cookie :: s.strays, c ∈ s.cookies := by
    rw [hcookie]
    exact fun c hc => hc
  refine ⟨h.hashed, h.single, fun c hc => h.known c (hsub c hc), hsent, fun raw he => absurd he (hnew raw),
    fun hlost _ => ?_, fun hlost => (h.stranded hlost).mono rfl hsub, h.prompt⟩
  show Fresh settings f s.db tab.cookie
  rw [hcookie]
  exact h.held hlost hold

/-- The tab gives up on the flight. -/
theorem TabOk.giveUp (h : TabOk settings f s) {tab : Tab} (hcookie : tab.cookie = s.tab.cookie)
    (hflight : tab.refreshInFlight = none) : TabOk settings f (s.giveUp tab) := by
  have hsent : ∀ c, tab.refreshInFlight = some (.sent c) → c = tab.cookie := by simp [hflight]
  have hnew : ∀ raw, tab.refreshInFlight ≠ some (.answered (some raw)) := by simp [hflight]
  unfold Session.giveUp
  cases hs : s.tab.refreshInFlight with
  | none => exact h.moved hcookie hsent (by simp [hs]) hnew
  | some flight =>
    cases flight with
    | headed granted => exact h.moved hcookie hsent (by simp [hs]) hnew
    | sent c =>
      obtain rfl := h.sent c hs
      -- the cookie is still the tab's, and the server may get it a second time
      have hmoved := h.moved hcookie hsent (by simp [hs]) hnew
      have hsub : ∀ c ∈ tab.cookie :: s.tab.cookie :: s.strays, c ∈ tab.cookie :: s.strays := by
        rw [hcookie]
        simp
      exact ⟨h.hashed, h.single, fun c hc => hmoved.known c (hsub c hc), hsent, fun raw he => absurd he (hnew raw),
        hmoved.held, fun hlost => (hmoved.stranded hlost).mono rfl hsub, fun hno => (by cases hno)⟩
    | answered issued =>
      cases issued with
      | none =>
        have hmoved := h.moved hcookie hsent (by simp [hs]) hnew
        dsimp only
        rw [Option.isSome_none, Bool.or_false]
        exact ⟨h.hashed, h.single, hmoved.known, hsent, hmoved.issued, hmoved.held, hmoved.stranded, fun hno => (by cases hno)⟩
      | some raw =>
        obtain ⟨-, -, hspent⟩ := h.issued raw hs
        have hsub : ∀ c ∈ tab.cookie :: s.strays, c ∈ s.cookies := by
          rw [hcookie]
          exact fun c hc => hc
        dsimp only
        rw [Option.isSome_some, Bool.or_true]
        exact ⟨h.hashed, h.single, fun c hc => h.known c (hsub c hc), hsent, fun raw he => absurd he (hnew raw),
          fun hno => (by cases hno), fun _ => hspent.mono rfl hsub, fun hno => (by cases hno)⟩

/-- The browser stores the cookie of an answer. -/
theorem TabOk.headers (h : TabOk settings f s) {issued : Option String}
    (hflight : s.tab.refreshInFlight = some (.answered issued)) :
    TabOk settings f { s with tab := s.tab.headers issued } := by
  cases issued with
  | none => exact h.moved rfl (fun c he => by cases he) (by simp [hflight]) (fun raw he => by cases he)
  | some raw =>
    obtain ⟨hlost, ⟨t, ht, hf, hlive⟩, -⟩ := h.issued raw hflight
    refine ⟨h.hashed, h.single, fun c hc => ?_, fun c he => (by cases he), fun raw he => (by cases he),
      fun _ _ => ⟨t, ht, hf, hlive⟩, fun hlost' => absurd (hlost.symm.trans hlost') (by decide), h.prompt⟩
    rcases List.mem_cons.mp hc with rfl | hmem
    · exact ⟨t, ht, hf⟩
    · exact h.known c (List.mem_cons_of_mem _ hmem)

/-- **Every event** keeps the invariant. -/
theorem TabOk.step (h : TabOk settings f s) {e : SessionEvent} (hs : s.step settings f e = some s') :
    TabOk settings f s' := by
  unfold Session.step at hs
  cases e with
  | call =>
    cases hs
    cases hflight : s.tab.refreshInFlight with
    | some flight =>
      have hsame : s.tab.refresh = s.tab := by simp [Tab.refresh, hflight]
      rw [hsame]
      exact h
    | none =>
      have hsent : s.tab.refresh = { s.tab with refreshInFlight := some (.sent s.tab.cookie) } := by
        simp [Tab.refresh, hflight]
      rw [hsent]
      exact h.moved rfl (fun c he => by cases he; rfl) (by simp [hflight]) (fun raw he => by cases he)
  | serve env =>
    dsimp only at hs
    split at hs
    · rename_i cookie hflight
      split at hs
      · cases hs
      · rename_i hne
        cases hs
        exact h.serveFlight hne hflight
    · cases hs
  | headers =>
    dsimp only at hs
    split at hs
    · rename_i issued hflight
      cases hs
      exact h.headers hflight
    · cases hs
  | settle accessToken =>
    dsimp only at hs
    split at hs
    · rename_i granted hflight
      cases hs
      exact h.moved rfl (fun c he => by cases he) (by simp [hflight]) (fun raw he => by cases he)
    · cases hs
  | fail =>
    cases hs
    exact h.giveUp rfl rfl
  | reload =>
    cases hs
    exact h.giveUp rfl rfl
  | serveStray n env =>
    dsimp only at hs
    split at hs
    · rename_i cookie hstray
      split at hs
      · cases hs
      · rename_i hne
        cases hs
        exact h.serveStray hne hstray
    · cases hs
  | others db =>
    dsimp only at hs
    split at hs
    · rename_i hothers
      cases hs
      exact h.others hothers.1 hothers.2
    · cases hs

theorem TabOk.run {es : List SessionEvent} (h : TabOk settings f s) (hs : s.run settings f es = some s') :
    TabOk settings f s' := by
  induction es generalizing s with
  | nil =>
    cases hs
    exact h
  | cons e es ih =>
    obtain ⟨s₁, hstep, hrest⟩ := Option.bind_eq_some_iff.mp hs
    exact ih (h.step hstep) hrest

theorem lost_giveUp {tab : Tab} (hlost : s.lost = true) : (s.giveUp tab).lost = true := by
  unfold Session.giveUp
  split <;> simp [hlost]

/-- What is lost stays so. -/
theorem lost_step {e : SessionEvent} (hs : s.step settings f e = some s') (hlost : s.lost = true) : s'.lost = true := by
  unfold Session.step at hs
  cases e with
  | call =>
    cases hs
    exact hlost
  | fail | reload =>
    cases hs
    exact lost_giveUp hlost
  | headers | settle accessToken | others db =>
    dsimp only at hs
    split at hs
    · cases hs
      exact hlost
    · cases hs
  | serve env =>
    dsimp only at hs
    split at hs
    · split at hs
      · cases hs
      · cases hs
        exact hlost
    · cases hs
  | serveStray n env =>
    dsimp only at hs
    split at hs
    · split at hs
      · cases hs
      · cases hs
        show (s.lost || _) = true
        rw [hlost, Bool.true_or]
    · cases hs

theorem lost_run {es : List SessionEvent} (hs : s.run settings f es = some s') (hlost : s.lost = true) :
    s'.lost = true := by
  induction es generalizing s with
  | nil =>
    cases hs
    exact hlost
  | cons e es ih =>
    obtain ⟨s₁, hstep, hrest⟩ := Option.bind_eq_some_iff.mp hs
    exact ih hrest (lost_step hstep hlost)

end Invariant

/-! ## Results -/

section Results

variable {settings : Auth.Settings} {f : FamilyId} {raw : String} {db : AuthDb} {es : List SessionEvent} {s : Session}

theorem TabOk.start (hdb : FamilyOk db) (hcookie : Session.Fresh settings f db (some raw)) :
    TabOk settings f (.start raw db) where
  hashed := hdb.hashed
  single t ht t' ht' hlive hlive' := by
    obtain ⟨hmem, hf⟩ := mem_familyTokens.mp ht
    obtain ⟨hmem', hf'⟩ := mem_familyTokens.mp ht'
    exact hdb.single t hmem t' hmem' (hf.trans hf'.symm) hlive hlive'
  known c hc := by
    obtain ⟨t, ht, hf, -⟩ := hcookie
    rw [List.mem_singleton.mp hc]
    exact ⟨t, ht, hf⟩
  sent c he := by cases he
  issued raw he := by cases he
  held _ _ := hcookie
  stranded hlost := by cases hlost
  prompt _ := ⟨rfl, rfl, rfl⟩

/-- **No false alarm**: as long as the tab has given up on no refresh before the headers of its answer came, the server has
never taken one for a reuse, whatever the others did meanwhile, however often `refresh` was called, and whichever bodies
could not be read. -/
theorem never_reused (hdb : FamilyOk db) (hcookie : Session.Fresh settings f db (some raw))
    (hrun : (Session.start raw db).run settings f es = some s) (hprompt : s.gaveUp = false) : s.alerts = 0 :=
  (((TabOk.start hdb hcookie).run hrun).prompt hprompt).2.2

def nextToken (rawToken : String) (now : Int) : IssueEnv := ⟨rawToken, now, none, none⟩

theorem oneFamily_fresh : Session.Fresh .tenDays 1 oneFamily (some "first") := by
  refine ⟨⟨1, 1, "first", 0, 10, none, none, none, none⟩, ?_, rfl, rfl⟩
  decide

/-- Two calls at once make one refresh, and the body of the second one does not come in. -/
theorem never_reused_twice : ∃ s, (Session.start "first" oneFamily).run .tenDays 1
      [.call, .call, .serve (nextToken "second" 1), .headers, .settle "access", .call, .serve (nextToken "third" 2), .headers,
        .fail, .call, .serve (nextToken "fourth" 3)] = some s ∧ s.gaveUp = false ∧ s.alerts = 0 := by
  obtain ⟨s, hs⟩ : ∃ s, (Session.start "first" oneFamily).run .tenDays 1
      [.call, .call, .serve (nextToken "second" 1), .headers, .settle "access", .call, .serve (nextToken "third" 2), .headers,
        .fail, .call, .serve (nextToken "fourth" 3)] = some s := ⟨_, rfl⟩
  have hprompt : s.gaveUp = false := by
    cases hs
    rfl
  exact ⟨s, hs, hprompt, never_reused oneFamily_ok oneFamily_fresh hs hprompt⟩

end Results

end CodeReader.Frontend
