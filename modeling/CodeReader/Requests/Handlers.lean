import CodeReader.Requests.Rely

/-!
# Every request keeps to its guarantee

Statement by statement: the transaction of a submission, that of a repair, the idempotency layer and the handlers
around them.

* `wp_commit`, `wp_storeAttempt`, `wp_repairStreak` — the transactions;
* `Shown`, `Over` — at the end of a submission stands a body that was computed for its exercise;
* `wp_program`, `requests_rules` — every request keeps to its guarantee, so every run of the requests does.
-/

namespace CodeReader

open Txn Prog

variable {τ : Type} {c : Cast τ} {i : τ}

/-! ## Transactions -/

/-- **A transaction keeps to the guarantee.**  Its rest `body` computes what the transaction would compute alone on the
tables as they are, when its reads are valid; it then commits. -/
theorem wp_commit {β : Type} {body : Handler β} (alone : UserRows → Redis → Txn.Run App β) (new : List Attempt)
    {l : Local App} {S : Shared App τ} (hbody : body.Within Extends) (hone : new = [] ∨ ∃ a, new = [a])
    (hpublishes : ∀ rows rows' : UserRows, rows'.attempts = rows.attempts ++ new → (c.req i).Publishes rows rows')
    (h : Storing c i new l S)
    (hE : l.Valid StreakTable S → ∀ kv, body.exec (l.view S.db) ⟨S.db, kv⟩ = alone S.db kv)
    (hserial : ∀ rows b cur, (∀ a ∈ new, attemptedOn rows.attempts a.exerciseId a.sessionDate = false) →
      (∀ kv, alone rows kv = ⟨.ok b, cur, ⟨rows, kv⟩⟩) → (c.req i).alone c.D rows = cur) :
    wp (Rely c i) (Guarantee c i) i
      (fun r l' S' => match r with
        | .ok _ => l' = .idle ∧ Silent c i S' ∧ ∀ a ∈ new, a ∈ S'.db.attempts
        | .error _ => Silent c i S')
      (body >>= fun b => .commit (.ret b)) l S := by
  refine wp_bind (Rely.refl i) ?_
  refine wp_within StreakTable (Storing c i new) (fun _ _ _ h hr => h.rely hr)
    (fun _ _ _ h hr hv => h.valid hr hv) (fun _ _ r h => h.lock r) (fun _ _ t h => h.read t)
    (fun _ _ _ hf h => h.write hf) hbody h hE ?_
  intro r l' S' h' hend
  cases r with
  | error e => exact h'.pending.toSilent
  | ok b =>
    intro S'' hr
    have h'' := h'.rely hr
    have hG : Guarantee c i .commit l' S'' { S'' with db := l'.view S''.db, commits := S''.commits ++ [i] } := by
      refine h''.commit hone hpublishes fun hv => ?_
      obtain ⟨hv', hdb⟩ := h'.valid hr hv
      refine (hserial S''.db b _ h''.free fun kv => ?_).symm
      have hk := hend hv' kv
      rw [hdb]
      exact hk
    refine ⟨hG, fun S₃ hr₃ => ⟨rfl, ?_, fun a ha => ?_⟩⟩
    · have hs : Silent c i { S'' with db := l'.view S''.db, commits := S''.commits ++ [i] } :=
        ⟨hG.sound h''.pending.sound, h''.pending.silent⟩
      exact hs.rely hr₃
    · refine hr₃.grows a ?_
      dsimp only
      rw [h''.view]
      exact List.mem_append_right _ ha

theorem alone_submit {D : Deployment} {env : SubmitEnv} {tx : Tx} {key : String} {payload : AttemptRequest} {type : String}
    {grade : Grade} (hc : checked env payload = some (type, grade)) {rows cur : UserRows}
    {b : Option StreakInfo × Int × Bool}
    (hfree : attemptedOn rows.attempts payload.exerciseId env.today = false)
    (hbody : ∀ kv, (attemptBody D.cfg env tx type grade).exec
      { rows with attempts := rows.attempts ++ [env.attempt tx payload grade] } ⟨rows, kv⟩ =
        ⟨.ok b, cur, ⟨rows, kv⟩⟩) :
    (Request.submit env tx key payload).alone D rows = cur := by
  have hcheck : checkRequest env payload = ret (type, grade) := by
    rcases checkRequest_cases env payload with ⟨hn, -⟩ | ⟨p, hp, he⟩
    · rw [hn] at hc
      cases hc
    · rw [he]
      rw [hp] at hc
      cases hc
      rfl
  simp only [Request.alone, Request.transaction, hcheck, ret_bind]
  rw [storeAttempt_eq]
  simp only [lock_bind, select_bind, exec_lock, exec_select, hfree]
  simp only [Bool.false_eq_true, if_false, write_bind, exec_write]
  rw [bind_assoc, exec_bind, hbody]
  rfl

/-- The transaction of a submission. -/
theorem wp_storeAttempt {env : SubmitEnv} {tx : Tx} {key : String} {payload : AttemptRequest} {type : String}
    {grade : Grade} (hreq : c.req i = .submit env tx key payload) (hc : checked env payload = some (type, grade))
    {S : Shared App τ} (h : Pending c i S) :
    wp (Rely c i) (Guarantee c i) i
      (fun r l' S' => match r with
        | .ok response => l' = .idle ∧ Silent c i S' ∧ env.attempt tx payload grade ∈ S'.db.attempts ∧
            Answers response (env.attempt tx payload grade)
        | .error _ => Silent c i S')
      (storeAttempt c.D.cfg env tx payload type grade) .idle S := by
  rw [storeAttempt_eq]
  intro S₁ hr₁ S₂ hr₂
  have h₂ := (h.rely hr₁).rely hr₂
  change wp _ _ _ _ (if attemptedOn S₂.db.attempts payload.exerciseId env.today = true then _ else _) _ _
  cases hfree : attemptedOn S₂.db.attempts payload.exerciseId env.today with
  | true =>
    -- an attempt exists: the transaction ends
    exact fun S₃ hr₃ => (h₂.rely hr₃).toSilent
  | false =>
    rw [if_neg Bool.false_ne_true]
    intro S₃ hr₃
    have h₃ := h₂.rely hr₃
    have hfree₃ := attemptedOn_rely hr₃ (Set.mem_insert _ _) hfree
    have hassoc : (attemptBody c.D.cfg env tx type grade >>= fun r =>
        (Prog.commit (.ret (attemptResponse env tx grade r)) : Handler AttemptResponse)) =
        ((attemptBody c.D.cfg env tx type grade >>= fun r => .commit (.ret r)) >>= fun r =>
          ret (attemptResponse env tx grade r)) := by
      rw [bind_assoc]
      rfl
    rw [hassoc]
    refine wp_bind (Rely.refl i) ?_
    obtain ⟨k, hk⟩ := attemptBody_opens c.D.cfg env tx type grade
    have hwithin := within_attemptBody writes_extends c.D.cfg env tx type grade
    -- the first statement reads the stats, and from then on the reads can go stale
    rw [hk] at hwithin ⊢
    intro S₄ hr₄
    have h₄ := h₃.rely hr₄
    have hfree₄ := attemptedOn_rely hr₄ (Set.mem_insert _ _) hfree₃
    refine wp_mono ?_ (wp_commit (fun rows kv => (attemptBody c.D.cfg env tx type grade).exec
        { rows with attempts := rows.attempts ++ [env.attempt tx payload grade] } ⟨rows, kv⟩)
      [env.attempt tx payload grade] (hwithin _) (.inr ⟨_, rfl⟩) ?_ ?_ ?_ ?_)
    · intro r l' S' hpost
      cases r with
      | error e => exact hpost
      | ok b =>
        obtain ⟨rfl, hs, hmem⟩ := hpost
        intro S'' hr''
        exact ⟨rfl, hs.rely hr'', hr''.grows _ (hmem _ (by simp)), ⟨rfl, rfl, rfl⟩⟩
    · intro rows rows' ha
      rw [hreq]
      exact ⟨type, grade, hc, ha⟩
    · refine ⟨h₄, fun rows => rfl, fun a ha => ?_, fun a ha => ?_, fun r hr => ?_, ?_⟩
      · rw [List.mem_singleton] at ha
        rw [ha]
        exact Set.mem_insert _ _
      · rw [List.mem_singleton] at ha
        rw [ha]
        exact hfree₄
      · simp only [List.mem_cons, Local.idle, List.not_mem_nil, or_false] at hr
        rcases hr with rfl | rfl
        · exact Nat.le_refl _
        · exact Nat.le_trans hr₃.commits hr₄.commits
      · exact ⟨_, List.mem_cons_self, .inl rfl⟩
    · intro hv kv
      rw [hk]
      rfl
    · intro rows b cur hno hbody
      rw [hreq]
      exact alone_submit hc (hno (env.attempt tx payload grade) (by simp)) hbody

theorem alone_repair {D : Deployment} {tx : Tx} {timezone : String} {now : Int} {polls : Nat} {key : String} {rows cur : UserRows}
    {b : Body} (hbody : ∀ kv, (repairStreak D.cfg D.tz tx timezone now).exec rows ⟨rows, kv⟩ =
      ⟨.ok b, cur, ⟨rows, kv⟩⟩) : (Request.repair tx timezone now polls key).alone D rows = cur := by
  simp only [Request.alone, Request.transaction]
  rw [exec_bind, hbody]
  rfl

/-- The transaction of a repair. -/
theorem wp_repairStreak {tx : Tx} {timezone : String} {now : Int} {polls : Nat} {key : String}
    (hreq : c.req i = .repair tx timezone now polls key) {l : Local App} {S : Shared App τ} (hl : l = .idle)
    (h : Pending c i S) :
    wp (Rely c i) (Guarantee c i) i
      (fun r l' S' => match r with
        | .ok _ => l' = .idle ∧ Silent c i S'
        | .error _ => Silent c i S')
      (repairStreak c.D.cfg c.D.tz tx timezone now >>= fun b => .commit (.ret b)) l S := by
  obtain ⟨k, hk⟩ := repairStreak_opens c.D.cfg c.D.tz tx timezone now
  have hwithin := within_repairStreak writes_extends c.D.cfg c.D.tz tx timezone now
  rw [hk] at hwithin ⊢
  subst hl
  intro S₁ hr₁ S₂ hr₂
  have h₂ := (h.rely hr₁).rely hr₂
  refine wp_mono ?_ (wp_commit (fun rows kv =>
    (repairStreak c.D.cfg c.D.tz tx timezone now).exec rows ⟨rows, kv⟩) [] (hwithin _) (.inl rfl) ?_ ?_ ?_ ?_)
  · intro r l' S' hpost
    cases r with
    | error e => exact hpost
    | ok b => exact ⟨hpost.1, hpost.2.1⟩
  · intro rows rows' ha
    rw [hreq]
    exact ha.trans (List.append_nil _)
  · refine ⟨h₂, fun rows => (List.append_nil _).symm, fun a ha => (by cases ha), fun a ha => (by cases ha),
      fun r hr => ?_, ⟨_, List.mem_cons_self, .inr rfl⟩⟩
    simp only [List.mem_cons, Local.idle, List.not_mem_nil, or_false] at hr
    rw [hr]
  · intro hv kv
    rw [hk]
    rfl
  · intro rows b cur _ hbody
    rw [hreq]
    exact alone_repair hbody

/-! ## Redis -/

/-- A fact of the shared state that request `i` can keep through the statements outside its transaction. -/
structure Keeps (c : Cast τ) (i : τ) (P : Shared App τ → Prop) : Prop where
  sound : ∀ S, P S → Sound c S
  rely : ∀ l S S', P S → Rely c i l S S' → P S'
  setKv : ∀ S kv, P S → Sound c { S with kv := kv } → P { S with kv := kv }

theorem keeps_silent : Keeps c i (Silent c i) where
  sound _ h := h.sound
  rely _ _ _ h hr := h.rely hr
  setKv _ _ h hs := ⟨hs, h.silent⟩

theorem keeps_pending : Keeps c i (Pending c i) where
  sound _ h := h.sound
  rely _ _ _ h hr := h.rely hr
  setKv _ _ h hs := ⟨⟨hs, h.silent⟩, h.uncommitted⟩

/-- The answer is the body of a backed record of the submission's body, if the request is a submission. -/
def Shown (c : Cast τ) (i : τ) (body : Body) (S : Shared App τ) : Prop :=
  ∀ env tx key payload, c.req i = .submit env tx key payload →
    ∃ record, Backed c record S ∧ record.requestHash = c.D.requestHash payload ∧ record.body = body

theorem Shown.mono {body : Body} {S S' : Shared App τ} (h : Shown c i body S)
    (ht : ∀ e ∈ S.trace, e ∈ S'.trace) : Shown c i body S' := by
  intro env tx key payload hreq
  obtain ⟨record, hb, hh, he⟩ := h env tx key payload hreq
  exact ⟨record, hb.mono ht, hh, he⟩

/-- The request is over: its answer, if it is not an error, was computed for its body. -/
structure Over (c : Cast τ) (i : τ) (r : Except Err Body) (S : Shared App τ) : Prop where
  sound : Sound c S
  shown : ∀ body, r = .ok body → Shown c i body S

theorem keeps_over (r : Except Err Body) : Keeps c i (Over c i r) where
  sound _ h := h.sound
  rely _ _ _ h hr := ⟨hr.sound h.sound, fun body he => (h.shown body he).mono hr.trace⟩
  setKv _ _ h hs := ⟨hs, h.shown⟩

theorem Silent.over {S : Shared App τ} (h : Silent c i S) (e : Err) : Over c i (.error e) S where
  sound := h.sound
  shown body he := by cases he

/-- The body that the request computed is on record. -/
structure Owned (c : Cast τ) (i : τ) (x : ExerciseId) (d : Int) (body : Body) (S : Shared App τ) : Prop where
  sound : Sound c S
  own : (i, Ev.computed x d body) ∈ S.trace

theorem keeps_owned {x : ExerciseId} {d : Int} {body : Body} : Keeps c i (Owned c i x d body) where
  sound _ h := h.sound
  rely _ _ _ h hr := ⟨hr.sound h.sound, hr.trace _ h.own⟩
  setKv _ _ h hs := ⟨hs, h.own⟩

/-- A command of Redis that leaves backed records. -/
theorem wp_cmd {α β : Type} {P : Shared App τ → Prop} (hP : Keeps c i P) {f : Redis → β × Redis}
    {g : β → Handler α} {Q : Except Err α → Local App → Shared App τ → Prop} {l : Local App} {S : Shared App τ}
    (h : P S)
    (hf : ∀ S, P S → ∀ key record, (f S.kv).2.records (idemKey attemptsNamespace key) = some record →
      Backed c record S)
    (hg : ∀ S, P S → P { S with kv := (f S.kv).2 } →
      wp (Rely c i) (Guarantee c i) i Q (g (f S.kv).1) l { S with kv := (f S.kv).2 }) :
    wp (Rely c i) (Guarantee c i) i Q (cmd f >>= g) l S := by
  intro S' hr
  have h' := hP.rely l S S' h hr
  exact ⟨Guarantee.store (hP.sound S' h') (hf S' h'),
    hg S' h' (hP.setKv S' _ h' ((hP.sound S' h').setKv (hf S' h')))⟩

theorem wp_ret {α : Type} {P : Shared App τ → Prop} (hP : Keeps c i P)
    {Q : Except Err α → Local App → Shared App τ → Prop} {a : α} {l : Local App} {S : Shared App τ} (h : P S)
    (hQ : ∀ S, P S → Q (.ok a) l S) : wp (Rely c i) (Guarantee c i) i Q (ret a) l S :=
  fun S' hr => hQ S' (hP.rely l S S' h hr)

theorem wp_raise {α : Type} {P : Shared App τ → Prop} (hP : Keeps c i P)
    {Q : Except Err α → Local App → Shared App τ → Prop} {e : Err} {l : Local App} {S : Shared App τ} (h : P S)
    (hQ : ∀ S, P S → Q (.error e) l S) : wp (Rely c i) (Guarantee c i) i Q (raise e) l S :=
  fun S' hr => hQ S' (hP.rely l S S' h hr)

/-- Polling ends with a backed record, or with none. -/
theorem wp_waitForCached (ns key : String) (polls : Nat) {l : Local App} {S : Shared App τ}
    (h : Pending c i S) :
    wp (Rely c i) (Guarantee c i) i
      (fun r l' S' => match r with
        | .ok found => l' = l ∧ Pending c i S' ∧
            ∀ record, found = some record → ns = attemptsNamespace → Backed c record S'
        | .error _ => False)
      (waitForCached ns key polls) l S := by
  have hlook : ∀ S : Shared App τ, Pending c i S → ∀ key' record,
      S.kv.records (idemKey attemptsNamespace key') = some record → Backed c record S :=
    fun S h key' record hr => h.sound.records key' record hr
  have hbacked : ∀ S : Shared App τ, Pending c i S → ∀ record,
      S.kv.records (idemKey ns key) = some record → ns = attemptsNamespace → Backed c record S := by
    rintro S h record hr rfl
    exact hlook S h key record hr
  induction polls generalizing S with
  | zero =>
    intro S' hr
    have h' := h.rely hr
    refine ⟨Guarantee.store h'.sound (hlook S' h'), fun S'' hr' => ⟨rfl, h'.rely hr', fun record he hns => ?_⟩⟩
    exact (hbacked S' h' record he hns).mono hr'.trace
  | succ n ih =>
    refine wp_cmd keeps_pending h hlook fun S' h' h'' => ?_
    cases hf : S'.kv.records (idemKey ns key) with
    | none => exact ih h''
    | some record =>
      intro S'' hr'
      refine ⟨rfl, h''.rely hr', fun record' he hns => ?_⟩
      cases he
      exact (hbacked S' h' record hf hns).mono hr'.trace

/-! ## The submission -/

section Submit

variable {env : SubmitEnv} {tx : Tx} {key : String} {payload : AttemptRequest}

theorem wp_replay (hreq : c.req i = .submit env tx key payload) {record : IdempotencyRecord} {l : Local App}
    {S : Shared App τ} (h : Pending c i S) (hb : Backed c record S) :
    wp (Rely c i) (Guarantee c i) i (fun r _ S => Over c i (r.map AttemptOutcome.body) S)
      (replay (c.D.requestHash payload) record) l S := by
  unfold replay
  split
  · exact wp_raise keeps_pending h fun S' h' => h'.over _
  · rename_i hne
    intro S' hr
    refine ⟨(h.rely hr).sound, fun body he env' tx' key' payload' hreq' => ?_⟩
    rw [hreq] at hreq'
    cases hreq'
    cases he
    exact ⟨record, hb.mono hr.trace, not_not.mp hne, rfl⟩

/-- The body of a recorded attempt becomes visible. -/
theorem guarantee_computed (hreq : c.req i = .submit env tx key payload) {grade : Grade} {response : AttemptResponse}
    {l : Local App} {S : Shared App τ} (h : Silent c i S) (hrow : env.attempt tx payload grade ∈ S.db.attempts)
    (ha : Answers response (env.attempt tx payload grade)) :
    Guarantee c i .observe l S
      { S with trace := S.trace ++ [(i, .computed payload.exerciseId env.today (.attempt response))] } := by
  refine ⟨fun hs => ⟨?_, ?_, ?_⟩, fun e he => List.mem_append_left _ he, ?_, .inl rfl,
    fun hc => (by cases hc), fun _ => ⟨rfl, rfl⟩⟩
  · intro j x d b he
    rcases List.mem_append.mp he with he | he
    · exact hs.computed j x d b he
    · rw [List.mem_singleton] at he
      cases he
      exact ⟨_, hrow, response, rfl, rfl, by rw [hreq]; rfl, rfl, ha⟩
  · intro j e e' he he'
    rcases List.mem_append.mp he with he | he <;> rcases List.mem_append.mp he' with he' | he'
    · exact hs.once j e e' he he'
    · rw [List.mem_singleton] at he'
      cases he'
      exact absurd rfl (h.silent _ he)
    · rw [List.mem_singleton] at he
      cases he
      exact absurd rfl (h.silent _ he')
    · rw [List.mem_singleton] at he he'
      cases he
      cases he'
      rfl
  · intro key' record hr
    exact (hs.records key' record hr).mono fun e he => List.mem_append_left _ he
  · intro e he hi
    rcases List.mem_append.mp he with he | he
    · exact he
    · rw [List.mem_singleton] at he
      rw [he] at hi
      exact absurd rfl hi

theorem wp_fresh (hreq : c.req i = .submit env tx key payload) {S : Shared App τ} (h : Pending c i S) :
    wp (Rely c i) (Guarantee c i) i (fun r _ S => Over c i (r.map AttemptOutcome.body) S)
      (fresh c.D.cfg env tx key payload (c.D.requestHash payload)) .idle S := by
  unfold fresh buildAndStoreAttempt
  rcases checkRequest_cases env payload with ⟨-, e, he, -⟩ | ⟨p, hc, he⟩
  · rw [he]
    exact wp_raise keeps_pending h fun S' h' => h'.over _
  · obtain ⟨type, grade⟩ := p
    rw [he, ret_bind]
    dsimp only
    rw [bind_assoc]
    refine wp_bind (Rely.refl i) (wp_mono ?_ (wp_storeAttempt hreq hc h))
    intro r l' S' hpost
    cases r with
    | error e => exact hpost.over _
    | ok response =>
      obtain ⟨rfl, hs, hrow, ha⟩ := hpost
      intro S'' hr
      have hG := guarantee_computed hreq (l := .idle) (hs.rely hr) (hr.grows _ hrow) ha
      refine ⟨hG, ?_⟩
      have hown : Owned c i payload.exerciseId env.today (.attempt response) { S'' with
          trace := S''.trace ++ [(i, .computed payload.exerciseId env.today (.attempt response))] } :=
        ⟨hG.sound (hs.rely hr).sound, by simp⟩
      have hback : ∀ S : Shared App τ, Owned c i payload.exerciseId env.today (.attempt response) S →
          Backed c ⟨c.D.requestHash payload, 200, .attempt response⟩ S :=
        fun S h => .inr ⟨payload, i, env.today, rfl, h.own⟩
      refine wp_cmd keeps_owned hown (fun S₃ h₃ key' record hrec => ?_) fun S₃ h₃ h₃' => ?_
      · -- the record just stored is of this body
        dsimp only [Redis.setRecord] at hrec
        by_cases hk : idemKey attemptsNamespace key' = idemKey attemptsNamespace key
        · rw [hk, Function.update_self, Option.some.injEq] at hrec
          rw [← hrec]
          exact hback S₃ h₃
        · rw [Function.update_of_ne hk] at hrec
          exact h₃.sound.records key' record hrec
      · refine wp_ret keeps_owned h₃' fun S₄ h₄ => ⟨h₄.sound, fun body hb env' tx' key' payload' hreq' => ?_⟩
        rw [hreq] at hreq'
        cases hreq'
        cases hb
        exact ⟨_, hback S₄ h₄, rfl, rfl⟩

theorem wp_submitAttempt (hreq : c.req i = .submit env tx key payload)
    {S : Shared App τ} (h : Pending c i S) :
    wp (Rely c i) (Guarantee c i) i (fun r _ S => Over c i (r.map AttemptOutcome.body) S)
      (submitAttempt c.D.cfg c.D.requestHash env tx key payload) .idle S := by
  unfold submitAttempt
  dsimp only
  split
  · exact wp_raise keeps_pending h fun S' h' => h'.over _
  · refine wp_cmd keeps_pending h (fun S' h' => h'.sound.records) fun S' h' h'' => ?_
    dsimp only
    cases hf : S'.kv.records (idemKey attemptsNamespace key) with
    | some record => exact wp_replay hreq h'' (h'.sound.records key record hf)
    | none =>
      refine wp_cmd keeps_pending h'' (fun S₁ h₁ => h₁.sound.records) fun S₁ h₁ h₁' => ?_
      dsimp only
      split
      · -- the reservation is released whatever the request ends in
        refine wp_andFinally (Rely.refl i) (wp_mono ?_ (wp_fresh hreq h₁'))
        intro r l' S₂ h₂
        refine wp_cmd (keeps_over _) h₂ (fun S₃ h₃ => h₃.sound.records) fun S₃ h₃ h₃' => ?_
        cases r with
        | ok outcome => exact wp_ret (keeps_over _) h₃' fun S₄ h₄ => h₄
        | error e => exact wp_raise (keeps_over _) h₃' fun S₄ h₄ => h₄
      · refine wp_bind (Rely.refl i) (wp_mono ?_ (wp_waitForCached attemptsNamespace key env.polls h₁'))
        intro r l' S₂ hpost
        cases r with
        | error e => exact hpost.elim
        | ok found =>
          obtain ⟨rfl, h₂, hb⟩ := hpost
          cases found with
          | some record => exact wp_replay hreq h₂ (hb record rfl rfl)
          | none => exact wp_fresh hreq h₂

end Submit

/-! ## The repair -/

section Repair

variable {tx : Tx} {timezone : String} {now : Int} {polls : Nat} {key : String}

/-- A repair promises nothing about attempts. -/
theorem over_repair (hreq : c.req i = .repair tx timezone now polls key) {r : Except Err Body} {S : Shared App τ}
    (h : Sound c S) : Over c i r S where
  sound := h
  shown body _ env tx' key' payload hreq' := by
    rw [hreq] at hreq'
    cases hreq'

theorem wp_repairReplay (hreq : c.req i = .repair tx timezone now polls key) {record : IdempotencyRecord}
    {l : Local App} {S : Shared App τ} (h : Pending c i S) :
    wp (Rely c i) (Guarantee c i) i (fun r _ S => Over c i r S) (repairReplay c.actorHash record) l S := by
  unfold repairReplay
  split
  · exact wp_raise keeps_pending h fun S' h' => h'.over _
  · exact wp_ret keeps_pending h fun S' h' => over_repair hreq h'.sound

theorem wp_repairAndStore (hreq : c.req i = .repair tx timezone now polls key) {S : Shared App τ}
    (h : Pending c i S) :
    wp (Rely c i) (Guarantee c i) i (fun r _ S => Over c i r S)
      (repairAndStore c.D.cfg c.D.tz tx timezone now key c.actorHash) .idle S := by
  have hassoc : repairAndStore c.D.cfg c.D.tz tx timezone now key c.actorHash =
      (repairStreak c.D.cfg c.D.tz tx timezone now >>= fun b => .commit (.ret b)) >>= fun b =>
        store streakRepairNamespace key c.actorHash 200 b >>= fun _ => ret b := by
    rw [bind_assoc]
    rfl
  rw [hassoc]
  refine wp_bind (Rely.refl i) (wp_mono ?_ (wp_repairStreak hreq rfl h))
  intro r l' S' hpost
  cases r with
  | error e => exact hpost.over _
  | ok b =>
    obtain ⟨rfl, hs⟩ := hpost
    refine wp_cmd keeps_silent hs (fun S'' h'' key' record hrec => ?_) fun S'' h'' h₃ => ?_
    · -- the record is stored under a key of the other namespace
      dsimp only [Redis.setRecord] at hrec
      rw [Function.update_of_ne (idemKey_ne key' key)] at hrec
      exact h''.sound.records key' record hrec
    · exact wp_ret keeps_silent h₃ fun S₄ h₄ => over_repair hreq h₄.sound

theorem wp_streakRepair (hreq : c.req i = .repair tx timezone now polls key) {S : Shared App τ}
    (h : Pending c i S) :
    wp (Rely c i) (Guarantee c i) i (fun r _ S => Over c i r S)
      (streakRepair c.D.cfg c.D.tz tx timezone now polls key c.actorHash) .idle S := by
  have hlast : ∀ {S : Shared App τ}, Pending c i S →
      wp (Rely c i) (Guarantee c i) i (fun r _ S => Over c i r S)
        ((repairAndStore c.D.cfg c.D.tz tx timezone now key c.actorHash).andFinally
          (releaseReservation streakRepairNamespace key)) .idle S := by
    intro S h
    refine wp_andFinally (Rely.refl i) (wp_mono ?_ (wp_repairAndStore hreq h))
    intro r l' S₂ h₂
    refine wp_cmd (keeps_over _) h₂ (fun S₃ h₃ => h₃.sound.records) fun S₃ h₃ h₃' => ?_
    cases r with
    | ok body => exact wp_ret (keeps_over _) h₃' fun S₄ h₄ => h₄
    | error e => exact wp_raise (keeps_over _) h₃' fun S₄ h₄ => h₄
  unfold streakRepair
  split
  · exact wp_raise keeps_pending h fun S' h' => h'.over _
  · refine wp_cmd keeps_pending h (fun S' h' => h'.sound.records) fun S' h' h'' => ?_
    dsimp only
    cases hf : S'.kv.records (idemKey streakRepairNamespace key) with
    | some record => exact wp_repairReplay hreq h''
    | none =>
      refine wp_cmd keeps_pending h'' (fun S₁ h₁ => h₁.sound.records) fun S₁ h₁ h₁' => ?_
      dsimp only
      split
      · exact hlast h₁'
      · refine wp_bind (Rely.refl i) (wp_mono ?_ (wp_waitForCached streakRepairNamespace key polls h₁'))
        intro r l' S₂ hpost
        cases r with
        | error e => exact hpost.elim
        | ok found =>
          obtain ⟨rfl, h₂, -⟩ := hpost
          cases found with
          | some record => exact wp_repairReplay hreq h₂
          | none => exact hlast h₂

end Repair

/-! ## All requests -/

/-- **Every request keeps to its guarantee**, from any state in which it has shown nothing. -/
theorem wp_program {S : Shared App τ} (h : Pending c i S) :
    wp (Rely c i) (Guarantee c i) i (fun r _ S => Over c i r S) ((c.req i).program c.D c.actorHash) .idle S := by
  cases hreq : c.req i with
  | submit env tx key payload =>
    refine wp_bind (Rely.refl i) (wp_mono ?_ (wp_submitAttempt hreq h))
    intro r l' S' h'
    cases r with
    | ok outcome => exact wp_ret (keeps_over _) h' fun S'' h'' => h''
    | error e => exact h'
  | repair tx timezone now polls key => exact wp_streakRepair hreq h

/-- A start: the records that Redis holds are the earlier ones. -/
theorem sound_start {rows : UserRows} {kv : Redis}
    (h : ∀ key record, kv.records (idemKey attemptsNamespace key) = some record → c.old record) :
    Sound c (⟨⟨rows, kv⟩, [], []⟩ : Shared App τ) where
  computed j x d b he := by cases he
  once j e e' he := by cases he
  records key record hr := .inl (h key record hr)

/-- The rules of every run of the requests. -/
theorem requests_rules [DecidableEq τ] {rows : UserRows} {kv : Redis}
    (h : ∀ key record, kv.records (idemKey attemptsNamespace key) = some record → c.old record) :
    Rules Expiry (Requests.start c.D c.actorHash c.req rows kv) (Rely c) (Guarantee c) (Over c) where
  refl := Rely.refl
  trans _ _ _ _ _ h h' := h.trans h'
  outside i l S kv h := Rely.outside i l S kv h
  compat s i j a S' hji hG := hG.rely hji (s.localOf_disjoint hji)
  stable i r S S' h hr := (keeps_over r).rely _ _ _ h hr
  start i := by
    have hs : Pending c i ⟨⟨rows, kv⟩, [], []⟩ := ⟨⟨sound_start h, fun e he => (by cases he)⟩, fun hi => (by cases hi)⟩
    exact good_start (wp_program hs)

/-- The requests over any Redis: whatever it holds at the start counts as earlier. -/
def Requests.cast (D : Deployment) (actorHash : String) (req : τ → Request) (kv : Redis) : Cast τ :=
  ⟨D, actorHash, req, fun record => ∃ key, kv.records (idemKey attemptsNamespace key) = some record⟩

theorem Requests.rules [DecidableEq τ] (D : Deployment) (actorHash : String) (req : τ → Request) (rows : UserRows)
    (kv : Redis) : Rules Expiry (Requests.start D actorHash req rows kv) (Rely (cast D actorHash req kv))
      (Guarantee (cast D actorHash req kv)) (Over (cast D actorHash req kv)) :=
  requests_rules (c := cast D actorHash req kv) fun key _ hr => ⟨key, hr⟩

end CodeReader
