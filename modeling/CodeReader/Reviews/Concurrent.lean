import CodeReader.Reviews.Service
import CodeReader.Txn.Commits
import Mathlib.Data.Fintype.Basic

/-!
# Reviews under concurrent requests

Any number of requests of one user, run statement by statement.  The unique index and the locks of the rows put their
writes one after the other, but a request has looked before whether there is a review.

* `ReviewCall`, `ReviewCall.start` — the requests;
* `unraced` — a request looks for a review, and there is none, only while no other one is between its look and its end;
* `Upserts` — all that a commit does, `wp_upsertReview`;
* `Converged` — the review is the last one of the history, which has a row for each commit;
* `upserts_converge` — **the result**, in every run of such requests;
* `first_reviews_race` — what happens otherwise.
-/

namespace CodeReader.Reviews

open Txn Prog

/-! ## Requests -/

/-- A request, and the time at which its transaction begins. -/
structure ReviewCall where
  payload : ReviewRequest
  now : Int

variable {τ : Type}

/-- The requests of a user at their start. -/
def ReviewCall.start (user : UserId) (call : τ → ReviewCall) (db : ReviewDb) (seqs : Sequences) :
    Sys App τ ReviewResponse :=
  .start db seqs fun i => upsertReview user (call i).payload (call i).now

/-- Others may draw numbers from the sequences. -/
def Drawn (seqs seqs' : Sequences) : Prop := seqs.reviewHistory ≤ seqs'.reviewHistory

/-- When a request is about to look and there is no review of the user, no other one has looked and not ended. -/
def unraced (user : UserId) (s : Sys App τ ReviewResponse) (i : τ) : Prop :=
  (s.localOf i).reads = [] → s.shared.db.reviewsOf user = [] → ∀ j, j ≠ i → (s.localOf j).reads = []

instance [Fintype τ] [DecidableEq τ] (user : UserId) (s : Sys App τ ReviewResponse) (i : τ) :
    Decidable (unraced user s i) :=
  inferInstanceAs (Decidable ((s.localOf i).reads = [] → s.shared.db.reviewsOf user = [] →
    ∀ j, j ≠ i → (s.localOf j).reads = []))

/-- The user has one review; it is the last one of the history, by id. -/
def LastReview (user : UserId) (db : ReviewDb) : Prop :=
  ∃ r h, db.reviewsOf user = [r] ∧ h ∈ db.historyOf user ∧ (∀ h' ∈ db.historyOf user, h' = h ∨ h'.id < h.id) ∧
    r.rating = h.rating ∧ r.body = h.body

/-- What the history says, in the order of its rows. -/
def contents (user : UserId) (db : ReviewDb) : List ReviewRequest := (db.historyOf user).map ReviewHistory.content

/-! ## What the commits do -/

/-- All that a commit does: the review is written, and a row with the largest id is added to the history. -/
structure Upserts (user : UserId) (call : τ → ReviewCall) (i : τ) (l : Local App) (S : Shared App τ) (db' : ReviewDb) :
    Prop where
  ok : S.db.Ok S.kv
  held : ReviewLock.review user ∈ l.held
  looked : l.reads ≠ []
  once : i ∉ S.commits
  written : ∃ db₁ id, WritesReview user (call i).payload (call i).now S.db db₁ ∧
    (∀ h ∈ S.db.reviewHistory, h.id < id) ∧ id ≤ S.kv.reviewHistory ∧
    db' = db₁.insertHistory id user (call i).payload (call i).now

/-- What the others do while a request knows `l` of its transaction. -/
structure ReviewRely (user : UserId) (i : τ) (l : Local App) (S S' : Shared App τ) : Prop where
  own : i ∈ S'.commits → i ∈ S.commits
  commits : ∀ j ∈ S.commits, j ∈ S'.commits
  seqs : Drawn S.kv S'.kv
  ok : S.db.Ok S.kv → S'.db.Ok S'.kv
  rows : RowsStay S.db S'.db
  locked : ReviewLock.review user ∈ l.held → S'.db = S.db
  alone : l.reads ≠ [] → S.db.reviewsOf user = [] → S'.db = S.db

/-- What a statement of request `i` does. -/
structure Guarantees (user : UserId) (call : τ → ReviewCall) (i : τ) (a : Act) (l : Local App) (S S' : Shared App τ) :
    Prop where
  commits : Commits (Upserts user call i) i a l S S'
  seqs : Drawn S.kv S'.kv

section Rely

variable {user : UserId} {call : τ → ReviewCall} {i : τ} {l l' : Local App} {S S' : Shared App τ} {db' : ReviewDb}

theorem ReviewDb.Ok.drawn {db : ReviewDb} {seqs seqs' : Sequences} (h : db.Ok seqs) (hs : Drawn seqs seqs') :
    db.Ok seqs' := ⟨h.unique, fun r hr => (h.numbered r hr).trans hs⟩

theorem reviewsOf_insertHistory {db : ReviewDb} {id : Nat} {payload : ReviewRequest} {now : Int} (v : UserId) :
    (db.insertHistory id user payload now).reviewsOf v = db.reviewsOf v := rfl

theorem historyOf_insertHistory {db : ReviewDb} {id : Nat} {payload : ReviewRequest} {now : Int} :
    (db.insertHistory id user payload now).historyOf user =
      db.historyOf user ++ [⟨id, user, payload.rating, payload.body, now⟩] := by
  simp [ReviewDb.historyOf, ReviewDb.insertHistory, List.filter_append]

theorem Upserts.rows (h : Upserts user call i l S db') : RowsStay S.db db' := by
  obtain ⟨db₁, id, hw, -, -, rfl⟩ := h.written
  exact (hw.written (h.ok.unique user)).rows

theorem Upserts.ok_after (h : Upserts user call i l S db') : db'.Ok S.kv := by
  obtain ⟨db₁, id, hw, -, hid, rfl⟩ := h.written
  have hwritten := hw.written (h.ok.unique user)
  refine ⟨fun v => ?_, fun r hr => ?_⟩
  · rw [reviewsOf_insertHistory]
    by_cases hv : v = user
    · obtain ⟨r, hr, -⟩ := hwritten.review
      rw [hv, hr]
      exact le_rfl
    · rw [hwritten.others v hv]
      exact h.ok.unique v
  · obtain hr | hr := List.mem_append.mp hr
    · rw [hwritten.history] at hr
      exact h.ok.numbered r hr
    · rw [List.mem_singleton.mp hr]
      exact hid

theorem ReviewRely.refl (l : Local App) (S : Shared App τ) : ReviewRely user i l S S :=
  ⟨id, fun _ => id, le_rfl, id, .refl _, fun _ => rfl, fun _ _ => rfl⟩

theorem ReviewRely.trans {S₁ S₂ S₃ : Shared App τ} (h : ReviewRely user i l S₁ S₂) (h' : ReviewRely user i l S₂ S₃) :
    ReviewRely user i l S₁ S₃ where
  own := h.own ∘ h'.own
  commits j := h'.commits j ∘ h.commits j
  seqs := Nat.le_trans h.seqs h'.seqs
  ok := h'.ok ∘ h.ok
  rows := h.rows.trans h'.rows
  locked hl := (h'.locked hl).trans (h.locked hl)
  alone hl hnone := by
    have hdb := h.alone hl hnone
    exact (h'.alone hl (hdb ▸ hnone)).trans hdb

/-- Only the sequences move. -/
theorem ReviewRely.draw {seqs : Sequences} (h : Drawn S.kv seqs) : ReviewRely user i l S { S with kv := seqs } :=
  ⟨id, fun _ => id, h, fun hok => hok.drawn h, .refl _, fun _ => rfl, fun _ _ => rfl⟩

/-- A request that has looked and not committed. -/
structure Looked (i : τ) (l : Local App) (S : Shared App τ) : Prop where
  ok : S.db.Ok S.kv
  once : i ∉ S.commits
  looked : l.reads ≠ []

theorem Looked.steady (user : UserId) (i : τ) : Steady (ReviewRely user i) (Looked i) where
  rely _ _ _ h hr := ⟨hr.ok h.ok, fun hi => h.once (hr.own hi), h.looked⟩
  lock _ _ _ h := ⟨h.ok, h.once, h.looked⟩
  read _ _ _ h := ⟨h.ok, h.once, List.cons_ne_nil _ _⟩

theorem steady_view (user : UserId) (i : τ) (v : ReviewDb → ReviewDb) :
    Steady (ReviewRely user i) fun (l : Local App) (_ : Shared App τ) => l.view = v :=
  ⟨fun _ _ _ h _ => h, fun _ _ _ h => h, fun _ _ _ h => h⟩

/-- While a request has looked and there is no review, the others leave the tables. -/
theorem steady_none (user : UserId) (i : τ) : Steady (ReviewRely user i) fun (l : Local App) (S : Shared App τ) =>
    Looked i l S ∧ S.db.reviewsOf user = [] where
  rely l S S' h hr := ⟨(Looked.steady user i).rely l S S' h.1 hr, hr.alone h.1.looked h.2 ▸ h.2⟩
  lock l S r h := ⟨(Looked.steady user i).lock l S r h.1, h.2⟩
  read l S t h := ⟨(Looked.steady user i).read l S t h.1, h.2⟩

/-- A row that is there stays. -/
theorem steady_row (user : UserId) (i : τ) (id : Nat) :
    Steady (ReviewRely user i) fun (_ : Local App) (S : Shared App τ) =>
      ∃ r ∈ S.db.reviews, r.id = id ∧ r.userId = user where
  rely l S S' h hr := by
    obtain ⟨r, hmem, hid, hu⟩ := h
    obtain ⟨r', hmem', hid', hu'⟩ := hr.rows r hmem
    exact ⟨r', hmem', hid'.trans hid, hu'.trans hu⟩
  lock _ _ _ h := h
  read _ _ _ h := h

end Rely

/-! ## The request -/

section Programs

variable {user : UserId} {call : τ → ReviewCall} {i : τ} {l : Local App} {S : Shared App τ}

/-- A request ends with a response, after its commit. -/
def Answered (i : τ) (r : Except ReviewError ReviewResponse) (S : Shared App τ) : Prop :=
  (∃ response, r = .ok response) ∧ i ∈ S.commits

theorem wp_refreshReview {id : Nat} (hi : i ∈ S.commits) (hrow : ∃ r ∈ S.db.reviews, r.id = id) :
    wp (ReviewRely user i) (Guarantees user call i) i (fun r _ S => Answered i r S) (refreshReview id) .idle S := by
  simp only [refreshReview, query_bind]
  intro S₁ hr₁
  cases hfound : S₁.db.reviewById id with
  | none =>
    obtain ⟨r, hr, hid⟩ := hrow
    obtain ⟨r', hr', hid', -⟩ := hr₁.rows r hr
    exact absurd hfound (reviewById_ne_none ⟨r', hr', hid'.trans hid⟩)
  | some review =>
    simp only [Local.idle, id_eq, hfound]
    exact fun S₂ hr₂ => ⟨⟨_, rfl⟩, hr₂.commits i (hr₁.commits i hi)⟩

/-- From the write of the review, under the lock, to the end. -/
theorem wp_commitHistory {id : Nat} (hl : Looked i l S) (hheld : ReviewLock.review user ∈ l.held)
    (hwrites : WritesReview user (call i).payload (call i).now S.db (l.view S.db))
    (hrow : ∃ r ∈ (l.view S.db).reviews, r.id = id) :
    wp (ReviewRely user i) (Guarantees user call i) i (fun r _ S => Answered i r S) (do
      commitHistory user (call i).payload (call i).now
      refreshReview id) l S := by
  simp only [commitHistory, cmd_bind, kv_bind, update_bind, write_bind, commitTx_bind]
  intro S₁ hr₁
  have hl₁ := (Looked.steady user i).rely _ _ _ hl hr₁
  have hdrawn : Drawn S₁.kv (nextHistoryId S₁.kv).2 := Nat.le_succ _
  refine ⟨⟨.store _ _ _ _ _, hdrawn⟩, fun S₂ hr₂ S₃ hr₃ => ?_⟩
  -- under the lock the tables are what they were
  have hdb₁ : S₁.db = S.db := hr₁.locked hheld
  have hdb₂ : S₂.db = S.db := (hr₂.locked hheld).trans hdb₁
  have hdb₃ : S₃.db = S.db := (hr₃.locked hheld).trans hdb₂
  have hl₂ := (Looked.steady user i).rely _ _ _ ((Looked.steady user i).rely _ _ _ hl₁ (.draw hdrawn)) hr₂
  have hwritten : Looked i { l with view := (fun db : ReviewDb => db.insertHistory (nextHistoryId S₁.kv).1 user
      (call i).payload (call i).now) ∘ l.view } S₂ := ⟨hl₂.ok, hl₂.once, hl₂.looked⟩
  have hl₃ := (Looked.steady user i).rely _ _ _ hwritten hr₃
  refine ⟨⟨.commit ⟨hl₃.ok, hheld, hl₃.looked, hl₃.once, _, _, hdb₃ ▸ hwrites, fun h hh => ?_,
    hr₂.seqs.trans hr₃.seqs, rfl⟩, le_rfl⟩, ?_⟩
  · rw [hdb₃, ← hdb₁] at hh
    exact Nat.lt_succ_of_le (hl₁.ok.numbered h hh)
  refine wp_refreshReview (List.mem_append_right _ (List.mem_singleton_self _)) ?_
  rw [hdb₃]
  exact hrow

theorem wp_upsertReview (hok : S.db.Ok S.kv) (hi : i ∉ S.commits) :
    wp (ReviewRely user i) (Guarantees user call i) i (fun r _ S => Answered i r S)
      (upsertReview user (call i).payload (call i).now) .idle S := by
  simp only [upsertReview, query_bind]
  intro S₁ hr₁
  have hlooked : Looked i (⟨∅, [⟨.reviews, S₁.commits.length⟩], id⟩ : Local App) S₁ :=
    ⟨hr₁.ok hok, fun h => hi (hr₁.own h), List.cons_ne_nil _ _⟩
  cases hreview : S₁.db.review user with
  | none =>
    simp only [Local.idle, id_eq, hreview, flushReview, cmd_bind, kv_bind, lockOn_bind, lock_bind, query_bind, select_bind]
    have hsteady := (steady_none user i).and (steady_view user i id)
    refine hsteady.wp_kv ⟨⟨hlooked, review_eq_none.mp hreview⟩, rfl⟩ fun S₂ hl => ?_
    have hdrawn : Drawn S₂.kv (nextReviewId S₂.kv).2 := Nat.le_refl _
    refine ⟨⟨.store _ _ _ _ _, hdrawn⟩, ?_⟩
    refine hsteady.wp_lock (hsteady.rely _ _ _ hl (.draw hdrawn)) fun l S₃ hl hheld => ?_
    refine (hsteady.and Steady.held).wp_select ⟨hl, hheld⟩ fun l S₄ hl => ?_
    obtain ⟨⟨⟨hl, hnone⟩, hview⟩, hheld⟩ := hl
    have hfree : (l.view S₄.db).review user = none := by
      rw [hview]
      exact review_eq_none.mpr hnone
    simp only [hfree, Option.isSome_none, Bool.false_eq_true, if_false, update_bind, write_bind, pure_eq, ret_bind]
    refine (hsteady.and Steady.held).wp_write ⟨⟨⟨hl, hnone⟩, hview⟩, hheld⟩ fun S₅ hl => ?_
    obtain ⟨⟨⟨hl, hnone⟩, -⟩, hheld⟩ := hl
    refine wp_commitHistory ⟨hl.ok, hl.once, hl.looked⟩ hheld ?_ ?_
    · simp only [Function.comp_apply, hview, id_eq]
      exact .insert _ hnone
    · exact ⟨_, List.mem_append_right _ (List.mem_singleton_self _), rfl⟩
  | some review =>
    simp only [Local.idle, id_eq, hreview, lockOn_bind, update_bind]
    obtain ⟨hmem, hu⟩ := review_some hreview
    have hsteady := ((Looked.steady user i).and (steady_row user i review.id)).and (steady_view user i id)
    refine hsteady.wp_lock ⟨⟨hlooked, review, hmem, rfl, hu⟩, rfl⟩ fun l S₂ hl hheld => ?_
    refine (hsteady.and Steady.held).wp_write ⟨hl, hheld⟩ fun S₃ hl => ?_
    obtain ⟨⟨⟨hl, r, hr, hid, hu⟩, hview⟩, hheld⟩ := hl
    refine wp_commitHistory ⟨hl.ok, hl.once, hl.looked⟩ hheld ?_ ?_
    · simp only [Function.comp_apply, hview, id_eq]
      exact .update (List.ne_nil_of_mem (mem_reviewsOf.mpr ⟨hr, hu⟩))
    · simp only [Function.comp_apply, hview, id_eq]
      refine ⟨_, List.mem_map_of_mem hr, ?_⟩
      split <;> exact hid

end Programs

/-! ## Whole runs -/

/-- What holds of the tables, when those at the start were `db₀`. -/
structure Converged (user : UserId) (call : τ → ReviewCall) (db₀ : ReviewDb) (S : Shared App τ) : Prop where
  ok : S.db.Ok S.kv
  once : S.commits.Nodup
  /-- One row for each commit, in their order. -/
  history : contents user S.db = contents user db₀ ++ S.commits.map fun i => (call i).payload
  last : S.commits ≠ [] → LastReview user S.db

/-- While there is no review of the user, at most one request has looked and not ended. -/
structure Apart (user : UserId) (call : τ → ReviewCall) (db₀ : ReviewDb) (s : Sys App τ ReviewResponse) : Prop where
  alone : s.shared.db.reviewsOf user = [] → ∀ i j, (s.localOf i).reads ≠ [] → (s.localOf j).reads ≠ [] → i = j
  converged : Converged user call db₀ s.shared

section Runs

variable {user : UserId} {call : τ → ReviewCall} {i j : τ} {l l' : Local App} {S S' : Shared App τ}
  {db₀ db' : ReviewDb} {seqs : Sequences}

theorem Upserts.lastReview (h : Upserts user call i l S db') : LastReview user db' := by
  obtain ⟨db₁, id, hw, hlt, -, rfl⟩ := h.written
  have hwritten := hw.written (h.ok.unique user)
  obtain ⟨r, hr, hcontent⟩ := hwritten.review
  have hrating : r.rating = (call i).payload.rating := congrArg ReviewRequest.rating hcontent
  have hbody : r.body = (call i).payload.body := congrArg ReviewRequest.body hcontent
  refine ⟨r, ⟨id, user, (call i).payload.rating, (call i).payload.body, (call i).now⟩, hr, ?_, fun h' hh' => ?_,
    hrating, hbody⟩
  · rw [historyOf_insertHistory]
    exact List.mem_append_right _ (List.mem_singleton_self _)
  · rw [historyOf_insertHistory, List.mem_append, List.mem_singleton] at hh'
    refine hh'.symm.imp_right fun hold => ?_
    have hmem : h' ∈ db₁.reviewHistory := List.mem_of_mem_filter hold
    exact hlt h' (hwritten.history ▸ hmem)

theorem Upserts.contents_eq (h : Upserts user call i l S db') :
    contents user db' = contents user S.db ++ [(call i).payload] := by
  obtain ⟨db₁, id, hw, -, -, rfl⟩ := h.written
  have hwritten := hw.written (h.ok.unique user)
  rw [contents, historyOf_insertHistory, List.map_append, contents, ReviewDb.historyOf, ReviewDb.historyOf,
    hwritten.history]
  rfl

/-- A statement keeps what holds of the tables. -/
theorem Guarantees.converged {a : Act} (h : Guarantees user call i a l S S') (hS : Converged user call db₀ S) :
    Converged user call db₀ S' := by
  by_cases ha : a = .commit
  · obtain ⟨hc, hups⟩ := h.commits.1 ha
    refine ⟨hups.ok_after.drawn h.seqs, ?_, ?_, fun _ => hups.lastReview⟩
    · rw [hc]
      exact List.nodup_append.mpr ⟨hS.once, List.nodup_singleton i, fun x hx y hy he =>
        hups.once (List.mem_singleton.mp hy ▸ he ▸ hx)⟩
    · rw [hups.contents_eq, hS.history, hc, List.map_append, List.append_assoc]
      rfl
  · obtain ⟨hc, hdb⟩ := h.commits.2 ha
    exact ⟨hdb ▸ hS.ok.drawn h.seqs, hc ▸ hS.once, by rw [hc, hdb, hS.history], hc ▸ hdb ▸ hS.last⟩

/-- A statement keeps the rows. -/
theorem Guarantees.rows {a : Act} (h : Guarantees user call i a l S S') : RowsStay S.db S'.db :=
  h.commits.keeps RowsStay.refl fun _ => Upserts.rows

/-- What one request guarantees is what the others rely on, if no two have looked while there is no review. -/
theorem Guarantees.rely {a : Act} (h : Guarantees user call i a l S S') (hj : j ≠ i)
    (hheld : ∀ r ∈ l.held, r ∉ l'.held) (halone : S.db.reviewsOf user = [] → l.reads ≠ [] → l'.reads = []) :
    ReviewRely user j l' S S' := by
  by_cases ha : a = .commit
  · obtain ⟨hc, hups⟩ := h.commits.1 ha
    refine ⟨fun hmem => ?_, fun k hk => hc ▸ List.mem_append_left _ hk, h.seqs, fun _ => hups.ok_after.drawn h.seqs,
      h.rows, fun hl' => absurd hl' (hheld _ hups.held), fun hreads hnone => absurd (halone hnone hups.looked) hreads⟩
    rw [hc, List.mem_append, List.mem_singleton] at hmem
    exact hmem.resolve_right hj
  · obtain ⟨hc, hdb⟩ := h.commits.2 ha
    exact ⟨hc ▸ id, fun _ => hc ▸ id, h.seqs, fun hok => hdb ▸ hok.drawn h.seqs, h.rows, fun _ => hdb, fun _ _ => hdb⟩

variable [DecidableEq τ] {s s' : Sys App τ ReviewResponse}

omit [DecidableEq τ] in
theorem Apart.step (hV : Apart user call db₀ s) (hC : unraced user s i)
    (hstep : StepSpec (ReviewRely user) (Guarantees user call) Answered s s' i) : Apart user call db₀ s' := by
  have hG : s'.shared = s.shared ∨ ∃ a, Guarantees user call i a (s.localOf i) s.shared s'.shared := by
    obtain he | ⟨-, hG⟩ | ⟨a, -, hG⟩ := hstep.shared
    · exact .inl he
    · exact .inr ⟨_, hG⟩
    · exact .inr ⟨a, hG⟩
  have hrows : RowsStay s.shared.db s'.shared.db := by
    obtain he | ⟨a, hG⟩ := hG
    · rw [he]
      exact .refl _
    · exact hG.rows
  have hreads : ∀ k, k ≠ i → (s'.localOf k).reads = (s.localOf k).reads := by
    intro k hk
    unfold Sys.localOf
    rw [hstep.threads k hk]
    split <;> rfl
  refine ⟨fun hnone => ?_, ?_⟩
  · have hbefore : s.shared.db.reviewsOf user = [] := by
      by_contra hsome
      exact hrows.reviewsOf_ne_nil hsome hnone
    -- whether `i` looks now or has looked, no other one has
    have hothers : ∀ k, k ≠ i → (s'.localOf k).reads = [] := by
      intro k hk
      rw [hreads k hk]
      by_contra hlooked
      by_cases hi : (s.localOf i).reads = []
      · exact hlooked (hC hi hbefore k hk)
      · exact hk (hV.alone hbefore k i hlooked hi)
    have hself : ∀ k, (s'.localOf k).reads ≠ [] → k = i := fun k hk => by_contra fun hne => hk (hothers k hne)
    exact fun j k hj hk => (hself j hj).trans (hself k hk).symm
  · obtain he | ⟨a, hG⟩ := hG
    · rw [he]
      exact hV.converged
    · exact hG.converged hV.converged

theorem upserts_rules (hdb : db₀.Ok seqs) :
    RulesWhen Drawn (unraced user) (Apart user call db₀) (ReviewCall.start user call db₀ seqs)
      (ReviewRely user) (Guarantees user call) Answered where
  refl _ := .refl
  trans _ _ _ _ _ := .trans
  outside _ _ _ _ hs := .draw hs
  compat s i j a S' hV hj hG := by
    refine hG.rely hj (Sys.localOf_disjoint s hj) fun hnone hi => ?_
    by_contra hlooked
    exact hj (hV.alone hnone j i hlooked hi)
  stable i r S S' hQ hr := ⟨hQ.1, hr.commits i hQ.2⟩
  start i := good_start (wp_upsertReview hdb List.not_mem_nil)
  valid_start := by
    exact ⟨fun _ j _ hj => absurd rfl hj, hdb, List.nodup_nil, (List.append_nil _).symm, fun h => absurd rfl h⟩
  valid_step s i s' hV hC _ hstep := hV.step hC hstep
  valid_crash s i hV := by
    refine ⟨fun hnone => ?_, hV.converged⟩
    have hlooked : ∀ k, ((s.crash i).localOf k).reads ≠ [] → (s.localOf k).reads ≠ [] := by
      intro k hk
      by_cases hki : k = i
      · subst hki
        exact absurd (by simp [Sys.localOf, Sys.crash]) hk
      · have hthread : (s.crash i).threads k = s.threads k := Sys.setThread_ne _ _ hki
        unfold Sys.localOf at hk ⊢
        rw [hthread] at hk
        split <;> simp_all
    exact fun j k hj hk => hV.alone hnone j k (hlooked j hj) (hlooked k hk)
  valid_outside s kv hV hs :=
    ⟨hV.alone, hV.converged.ok.drawn hs, hV.converged.once, hV.converged.history, hV.converged.last⟩

/-- **Upserts converge**: in every run in which a request finds no review of the user only while no other one has looked
and not ended, no request fails; each one that has answered has committed, and commits once; the history has a row for
each commit, in their order; and after a commit the user has one review, which is the last one of the history. -/
theorem upserts_converge (hdb : db₀.Ok seqs)
    (h : ReachWhen Drawn (unraced user) (ReviewCall.start user call db₀ seqs) s) :
    (∀ i e, s.threads i ≠ .done (.error e)) ∧ (∀ i response, s.threads i = .done (.ok response) → i ∈ s.shared.commits) ∧
      s.shared.commits.Nodup ∧
      contents user s.shared.db = contents user db₀ ++ s.shared.commits.map (fun i => (call i).payload) ∧
      (s.shared.commits ≠ [] → LastReview user s.shared.db) := by
  obtain ⟨hV, hgood⟩ := h.good (upserts_rules hdb)
  refine ⟨fun i e he => ?_, fun i response hr => ?_, hV.converged.once, hV.converged.history, hV.converged.last⟩
  · have hi := hgood i
    simp only [Good, he] at hi
    obtain ⟨response, hr⟩ := hi.2.1
    cases hr
  · have hi := hgood i
    simp only [Good, hr] at hi
    exact hi.2.2

end Runs

/-! ### Two first reviews -/

def ReviewDb.empty : ReviewDb := ⟨[], []⟩

theorem ReviewDb.empty_ok : ReviewDb.empty.Ok ⟨0, 0⟩ := ⟨fun _ => Nat.zero_le 1, fun _ h => nomatch h⟩

def Rating.four : Rating := ⟨4, Nat.le_add_left 1 3, Nat.le_succ 4⟩

def Rating.five : Rating := ⟨5, Nat.le_add_left 1 4, Nat.le_refl 5⟩

/-- Two requests of one user. -/
def twoCalls : Bool → ReviewCall
  | false => ⟨⟨.four, none⟩, 1⟩
  | true => ⟨⟨.five, some "better"⟩, 2⟩

/-- One after the other. -/
def oneByOne : List Bool := List.replicate 10 false ++ List.replicate 8 true

theorem upserts_converge_two :
    let s := (ReviewCall.start 7 twoCalls .empty ⟨0, 0⟩).afterWhen (unraced 7) oneByOne
    s.shared.commits = [false, true] ∧ LastReview 7 s.shared.db := by
  intro s
  have hcommits : s.shared.commits = [false, true] := by decide +kernel
  have hreach : ReachWhen Drawn (unraced 7) (ReviewCall.start 7 twoCalls .empty ⟨0, 0⟩) s :=
    ReachWhen.after (by decide +kernel)
  refine ⟨hcommits, (upserts_converge ReviewDb.empty_ok hreach).2.2.2.2 ?_⟩
  rw [hcommits]
  exact List.cons_ne_nil _ _

/-- Both look before either of them writes. -/
def together : List Bool := [false, true] ++ List.replicate 9 false ++ List.replicate 4 true

/-- **First reviews race**: of two requests that find no review, the second one fails. -/
theorem first_reviews_race :
    ∃ s, Reach Drawn anyCommit (ReviewCall.start 7 twoCalls .empty ⟨0, 0⟩) s ∧
      s.threads true = .done (.error (.integrity "reviews_user_id_key")) := by
  refine ⟨(ReviewCall.start 7 twoCalls .empty ⟨0, 0⟩).after anyCommit together, Reach.after (by decide +kernel), ?_⟩
  rfl

end CodeReader.Reviews
