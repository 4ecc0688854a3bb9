import CodeReader.Requests.Frame
import CodeReader.Requests.System
import CodeReader.Runs.Freezes
import CodeReader.Txn.Commits

/-!
# Submissions and outages

A returning submission reads which missed dates have a freeze row, and pays for the others; the statement of an
outage inserts a row where it sees none.  Neither waits for the other, so each can insert a row that the other does
not see.

* `Party`, `Parties.start` — submissions and outages of one user, any number of them, at any statement;
* `Covering` — a transaction that is about to cover dates: no date that had a row when it read the ledger;
* `outage_covers_once` — **no date gets a second row**, when every commit is of a current ledger;
* `outage_covers_twice` — a date that is credited and paid for.
-/

namespace CodeReader

open Txn Prog

variable {τ : Type}

/-! ## The system -/

/-- A submission, or an outage of a date. -/
inductive Party
  | submit (s : Submission)
  | outage (tx : Tx) (localDate : Int)

def Party.program (D : Deployment) : Party → Handler Unit
  | .submit s => do
    let _ ← submitAttempt D.cfg D.requestHash s.env s.tx s.idempotencyKey s.payload
    ret ()
  | .outage tx localDate => outageFreeze tx localDate

/-- The parties at their start, over the rows and the Redis they find. -/
def Parties.start (D : Deployment) (party : τ → Party) (rows : UserRows) (kv : Redis) : Sys App τ Unit :=
  .start rows kv fun i => (party i).program D

/-- A commit of a current ledger: nothing was committed since the transaction read it. -/
abbrev CurrentLedger (l : Local App) (S : Shared App τ) : Prop := l.Valid (· = Tbl.streakEvents) S

instance (l : Local App) (S : Shared App τ) : Decidable (CurrentLedger l S) :=
  inferInstanceAs (Decidable (∀ r ∈ l.reads, r.tbl = Tbl.streakEvents → r.since = S.commits.length))

/-- The commit gives no date a second freeze row. -/
def CoversOnce (rows rows' : UserRows) : Prop := ∀ d, freezeRows rows'.events d ≤ max 1 (freezeRows rows.events d)

/-! ## A transaction that covers dates -/

/-- The transaction has inserted the rows `written`, and the freeze rows among `evs` (inserted or not) are of dates
without one in the ledger it has read. -/
structure Covering (evs : List NewEvent) (written : List StreakEvent) (l : Local App) (S : Shared App τ) : Prop where
  view : ∀ rows, (l.view rows).events = rows.events ++ written
  bounded : ∀ r ∈ l.reads, r.since ≤ S.commits.length
  reading : (∀ d, newlyCovered evs d = 0) ∨ ∃ r ∈ l.reads, r.tbl = .streakEvents
  fresh : CurrentLedger l S → ∀ d, newlyCovered evs d ≤ if freezeUsedOn S.db.events d then 0 else 1

namespace Covering

variable {evs : List NewEvent} {written : List StreakEvent} {l : Local App} {S S' : Shared App τ}

/-- No freeze row is planned. -/
theorem of_none (hview : ∀ rows, (l.view rows).events = rows.events ++ written)
    (hbounded : ∀ r ∈ l.reads, r.since ≤ S.commits.length) (hnone : ∀ d, newlyCovered evs d = 0) :
    Covering evs written l S where
  view := hview
  bounded := hbounded
  reading := .inl hnone
  fresh _ d := by
    rw [hnone]
    exact Nat.zero_le _

/-- The same freeze rows. -/
theorem congr {evs' : List NewEvent} (h : Covering evs written l S)
    (he : ∀ d, newlyCovered evs' d = newlyCovered evs d) : Covering evs' written l S where
  view := h.view
  bounded := h.bounded
  reading := h.reading.imp_left fun hnone d => (he d).trans (hnone d)
  fresh hv d := by
    rw [he]
    exact h.fresh hv d

theorem others (h : Covering evs written l S) (ho : Others S S') : Covering evs written l S' where
  view := h.view
  bounded r hr := Nat.le_trans (h.bounded r hr) ho.commits.length_le
  reading := h.reading
  fresh hv := by
    rcases h.reading with hnone | ⟨r, hr, ht⟩
    · intro d
      rw [hnone]
      exact Nat.zero_le _
    · -- the ledger is current, so nothing was committed
      have hsince := hv r hr ht
      have hlen : S'.commits.length = S.commits.length := by
        have := h.bounded r hr
        have := ho.commits.length_le
        omega
      rw [ho.same hlen]
      exact h.fresh fun r' hr' ht' => (hv r' hr' ht').trans hlen

theorem lock (h : Covering evs written l S) (r : Lock) : Covering evs written { l with held := insert r l.held } S :=
  ⟨h.view, h.bounded, h.reading, h.fresh⟩

theorem read (h : Covering evs written l S) (t : Tbl) :
    Covering evs written { l with reads := ⟨t, S.commits.length⟩ :: l.reads } S where
  view := h.view
  bounded r hr := by
    rcases List.mem_cons.mp hr with rfl | hr
    · exact Nat.le_refl _
    · exact h.bounded r hr
  reading := h.reading.imp_right fun ⟨r, hr, ht⟩ => ⟨r, List.mem_cons_of_mem _ hr, ht⟩
  fresh hv := h.fresh fun r hr => hv r (List.mem_cons_of_mem _ hr)

/-- A write of other tables. -/
theorem write (h : Covering evs written l S) {f : UserRows → UserRows} (hf : ∀ rows, (f rows).events = rows.events) :
    Covering evs written { l with view := f ∘ l.view } S :=
  ⟨fun rows => (hf _).trans (h.view rows), h.bounded, h.reading, h.fresh⟩

/-- The rows are inserted, and with them no other freeze row. -/
theorem insert (h : Covering evs [] l S) (new : List StreakEvent) :
    Covering evs new { l with view := (fun rows => { rows with events := rows.events ++ new }) ∘ l.view } S :=
  ⟨fun rows => by simp [h.view rows], h.bounded, h.reading, h.fresh⟩

/-- The commit of the rows. -/
theorem coversOnce {tx : Tx} (h : Covering evs (NewEvent.toRows tx evs) l S) (hv : CurrentLedger l S) :
    CoversOnce S.db (l.view S.db) := by
  intro d
  rw [h.view, freezeRows_append]
  have hfresh := h.fresh hv d
  split at hfresh
  · omega
  · rename_i hused
    rw [Bool.not_eq_true, ← freezeRows_eq_zero] at hused
    omega

end Covering

/-! ## The rules -/

/-- What a commit does to the freeze rows. -/
abbrev OnceSpec (l : Local App) (S : Shared App τ) (rows' : UserRows) : Prop := CurrentLedger l S → CoversOnce S.db rows'

section Wp

variable {i : τ} {l : Local App} {S : Shared App τ} {cfg : Settings} {env : SubmitEnv} {tx : Tx}

/-- A part of the transaction that inserts nothing into the ledger. -/
theorem wp_aside {α : Type} {evs : List NewEvent} {written : List StreakEvent} {p : Handler α} (hp : p.Within Aside)
    (h : Covering evs written l S) :
    wp (fun _ => Others) (Commits OnceSpec i) i (fun _ l S => Covering evs written l S) p l S :=
  wp_part (Covering evs written) (fun _ _ _ h ho => h.others ho) (fun _ _ r h => h.lock r) (fun _ _ t h => h.read t)
    (fun _ _ _ hf h => h.write hf.events) hp h

theorem wp_tryCoverGap (o : StatsObject) (lastActive today : Int) (h : Covering [] [] l S) :
    wp (fun _ => Others) (Commits OnceSpec i) i
      (fun r l S => match r with
        | .ok (_, some spent) => Covering spent [] l S
        | _ => Covering [] [] l S)
      (tryCoverGap cfg o lastActive today) l S := by
  unfold tryCoverGap
  dsimp only
  split
  · exact fun S' ho => h.others ho
  · rename_i hmissed
    rw [coveredDates, if_neg hmissed, bind_assoc]
    refine wp_bind (fun _ => Others.refl) (wp_mono ?_ (wp_aside (within_flushUserStats asideWrites_aside o) h))
    intro r l₁ S₁ h₁
    cases r with
    | error e => exact h₁
    | ok o' =>
      intro S₂ ho
      have h₂ := (h₁.others ho).read .streakEvents
      change wp _ _ _ _ (if _ then _ else _) _ _
      split
      · exact fun S₃ ho₃ => h₂.others ho₃
      · refine fun S₃ ho₃ => Covering.others ⟨h₂.view, h₂.bounded, .inr ⟨_, List.mem_cons_self, rfl⟩, fun _ d => ?_⟩ ho₃
        have hview : (l₁.view S₂.db).events = S₂.db.events := (h₁.view _).trans (List.append_nil _)
        have huncovered := missedDates_filter_notMem (l₁.view S₂.db).events lastActive today
        refine Nat.le_trans (Nat.le_of_eq (spent_newlyCovered _ _ d)) ?_
        rw [← hview]
        exact Nat.le_trans (Nat.le_of_eq (congrArg (List.count d) huncovered)) (uncoveredDates_count ..)

theorem wp_insertStreakEvents {evs : List NewEvent} (h : Covering evs [] l S) :
    wp (fun _ => Others) (Commits OnceSpec i) i
      (fun r l S => ∀ a, r = .ok a → Covering evs (NewEvent.toRows tx evs) l S) (insertStreakEvents tx evs) l S := by
  intro S₁ ho₁
  have h₁ := (h.others ho₁).read .streakEvents
  change wp _ _ _ _ (if _ then _ else _) _ _
  split
  · exact fun S₂ _ a ha => nomatch ha
  · exact fun S₂ ho₂ S₃ ho₃ a _ => ((h₁.others ho₂).insert _).others ho₃

theorem wp_recordTransition (o : StatsObject) {spent : List NewEvent} {event : StreakEventKind}
    (hevent : event.isTransition) (fromValue toValue today : Int) (h : Covering spent [] l S) :
    wp (fun _ => Others) (Commits OnceSpec i) i
      (fun r l S => ∀ a, r = .ok a → ∃ evs, Covering evs (NewEvent.toRows tx evs) l S)
      (recordTransition cfg tx o spent event fromValue toValue today) l S := by
  obtain ⟨stats, earned, hpair, hearned⟩ : ∃ stats earned, (if event = .extended then
      accrueFreezeIfEarned cfg (transitionStats o.current toValue today) today
      else (transitionStats o.current toValue today, [])) = (stats, earned) ∧ ∀ d, newlyCovered earned d = 0 := by
    split
    · exact ⟨_, _, rfl, (accrueFreezeIfEarned_freezes cfg _ today).2.2.2⟩
    · exact ⟨_, _, rfl, fun _ => rfl⟩
  have hcovered : ∀ d, newlyCovered (spent ++ [⟨event, fromValue, toValue, today, none⟩] ++ earned) d =
      newlyCovered spent d := by
    intro d
    have hown : newlyCovered [⟨event, fromValue, toValue, today, none⟩] d = 0 := by
      cases event with
      | extended => rfl
      | reset => rfl
      | freezeUsed => cases hevent
      | repaired => cases hevent
      | adjusted => cases hevent
    have happ : ∀ evs evs', newlyCovered (evs ++ evs') d = newlyCovered evs d + newlyCovered evs' d :=
      fun _ _ => List.countP_append
    rw [happ, happ, hearned, hown]
    rfl
  unfold recordTransition
  dsimp only
  rw [hpair]
  refine wp_bind (fun _ => Others.refl) (wp_mono ?_ (wp_aside (within_flushUserStats asideWrites_aside _) h))
  intro r l₁ S₁ h₁
  cases r with
  | error e => exact fun a ha => nomatch ha
  | ok o' =>
    refine wp_bind (fun _ => Others.refl) (wp_mono ?_ (wp_insertStreakEvents (h₁.congr hcovered)))
    intro r l₂ S₂ h₂
    cases r with
    | error e => exact fun a ha => nomatch ha
    | ok _ => exact fun S₃ ho₃ a _ => ⟨_, (h₂ () rfl).others ho₃⟩

theorem wp_updateStreakAndAttemptCount (held : Option StatsObject) (today : Int) (h : Covering [] [] l S) :
    wp (fun _ => Others) (Commits OnceSpec i) i
      (fun r l S => ∀ a, r = .ok a → ∃ evs, Covering evs (NewEvent.toRows tx evs) l S)
      (updateStreakAndAttemptCount cfg tx held today) l S := by
  unfold updateStreakAndAttemptCount
  refine wp_bind (fun _ => Others.refl) (wp_mono ?_ (wp_aside (within_getOrCreateUserStats asideWrites_aside cfg held) h))
  intro r l₁ S₁ h₁
  cases r with
  | error e => exact fun a ha => nomatch ha
  | ok o =>
    dsimp only
    split
    · refine wp_bind (fun _ => Others.refl) (wp_mono ?_ (wp_aside (within_flushUserStats asideWrites_aside _) h₁))
      intro r l₂ S₂ h₂
      cases r with
      | error e => exact fun a ha => nomatch ha
      | ok _ => exact fun S₃ ho₃ a _ => ⟨[], h₂.others ho₃⟩
    · split
      · exact wp_recordTransition _ rfl _ _ _ h₁
      · split
        · exact wp_recordTransition _ rfl _ _ _ h₁
        · refine wp_bind (fun _ => Others.refl) (wp_mono ?_ (wp_tryCoverGap _ _ _ h₁))
          intro r l₂ S₂ h₂
          match r with
          | .error e => exact fun a ha => nomatch ha
          | .ok (o', some spent) => exact wp_recordTransition _ rfl _ _ _ h₂
          | .ok (o', none) => exact wp_recordTransition _ rfl _ _ _ h₂

theorem wp_attemptBody (type : String) (grade : Grade) (h : Covering [] [] l S) :
    wp (fun _ => Others) (Commits OnceSpec i) i
      (fun r l S => ∀ a, r = .ok a → ∃ evs, Covering evs (NewEvent.toRows tx evs) l S)
      (attemptBody cfg env tx type grade) l S := by
  refine wp_bind (fun _ => Others.refl) (wp_mono ?_ (wp_aside (within_recordVerdict asideWrites_aside cfg type grade) h))
  intro r l₁ S₁ h₁
  cases r with
  | error e => exact fun a ha => nomatch ha
  | ok held =>
    refine wp_bind (fun _ => Others.refl) (wp_mono ?_ (wp_updateStreakAndAttemptCount held env.today h₁))
    intro r l₂ S₂ h₂
    cases r with
    | error e => exact fun a ha => nomatch ha
    | ok streak =>
      obtain ⟨evs, hevs⟩ := h₂ streak rfl
      refine wp_bind (fun _ => Others.refl) (wp_mono ?_ (wp_aside (within_remainingCount ..) hevs))
      intro r l₃ S₃ h₃
      cases r with
      | error e => exact fun a ha => nomatch ha
      | ok remaining =>
        refine wp_bind (fun _ => Others.refl) (wp_mono ?_ (wp_aside (within_completeSession asideWrites_aside ..) h₃))
        intro r l₄ S₄ h₄
        cases r with
        | error e => exact fun a ha => nomatch ha
        | ok first => exact fun S₅ ho₅ a _ => ⟨evs, h₄.others ho₅⟩

/-- The commit of a transaction whose freeze rows cover uncovered dates. -/
theorem commits_once {evs : List NewEvent} (h : Covering evs (NewEvent.toRows tx evs) l S) :
    Commits OnceSpec i .commit l S { S with db := l.view S.db, commits := S.commits ++ [i] } :=
  ⟨fun _ => ⟨rfl, fun hv => h.coversOnce hv⟩, fun hne => absurd rfl hne⟩

/-- The transaction of a submission gives no date a second freeze row when its ledger is current. -/
theorem wp_storeAttempt_once (payload : AttemptRequest) (type : String) (grade : Grade) (S : Shared App τ) :
    wp (fun _ => Others) (Commits OnceSpec i) i (fun r l _ => ∀ a, r = .ok a → l = .idle)
      (storeAttempt cfg env tx payload type grade) .idle S := by
  have h : Covering [] [] (.idle : Local App) S :=
    .of_none (fun _ => (List.append_nil _).symm) (fun r hr => nomatch hr) fun _ => rfl
  rw [storeAttempt_eq]
  intro S₁ ho₁ S₂ ho₂
  have h₂ := (((h.others ho₁).lock (.advisory (isoformat env.today))).others ho₂).read .attempts
  change wp _ _ _ _ (if _ then _ else _) _ _
  split
  · exact fun S₃ _ a ha => nomatch ha
  · intro S₃ ho₃
    refine wp_bind (fun _ => Others.refl) (wp_mono ?_ (wp_attemptBody type grade ((h₂.others ho₃).write fun _ => rfl)))
    intro r l₄ S₄ h₄
    cases r with
    | error e => exact fun a ha => nomatch ha
    | ok b =>
      obtain ⟨evs, hevs⟩ := h₄ b rfl
      exact fun S₅ ho₅ => ⟨commits_once (hevs.others ho₅), fun S₆ _ a _ => rfl⟩

end Wp

/-! ### Around the transaction -/

section Around

variable {P : Local App → Shared App τ → UserRows → Prop} {i : τ}

/-- A statement that leaves the tables. -/
theorem commits_other {a : Act} {l : Local App} {S S' : Shared App τ} (ha : a ≠ .commit) (hc : S'.commits = S.commits)
    (hdb : S'.db = S.db) : Commits P i a l S S' := ⟨fun he => absurd he ha, fun _ => ⟨hc, hdb⟩⟩

theorem wp_cmd_others {α β : Type} {f : Redis → β × Redis} {g : β → Handler α}
    {Q : Except Err α → Local App → Shared App τ → Prop} {l : Local App} {S : Shared App τ}
    (hg : ∀ b S, wp (fun _ => Others) (Commits P i) i Q (g b) l S) :
    wp (fun _ => Others) (Commits P i) i Q (cmd f >>= g) l S :=
  fun _ _ => ⟨commits_other (by decide) rfl rfl, hg _ _⟩

theorem wp_waitForCached_idle (ns key : String) (polls : Nat) (S : Shared App τ) :
    wp (fun _ => Others) (Commits P i) i (fun r l _ => ∀ a, r = .ok a → l = .idle)
      (waitForCached ns key polls) .idle S := by
  induction polls generalizing S with
  | zero => exact fun S₁ _ => ⟨commits_other (by decide) rfl rfl, fun S₂ _ a _ => rfl⟩
  | succ n ih =>
    refine wp_cmd_others fun found S₁ => ?_
    cases found with
    | none => exact ih S₁
    | some record => exact fun S₂ _ a _ => rfl

theorem wp_replay_idle (hash : String) (record : IdempotencyRecord) (l : Local App) (S : Shared App τ) :
    wp (fun _ => Others) (Commits P i) i (fun _ _ _ => True) (replay hash record) l S := by
  unfold replay
  split <;> exact fun S' _ => trivial

/-- Around the transaction of a submission stand its checks and commands of Redis: it keeps to what its transaction
keeps to. -/
theorem wp_submitAttempt_around {cfg : Settings} {requestHash : AttemptRequest → String} {env : SubmitEnv} {tx : Tx}
    {key : String} {payload : AttemptRequest}
    (hstore : ∀ type grade S, wp (fun _ => Others) (Commits P i) i (fun r l _ => ∀ a, r = .ok a → l = .idle)
      (storeAttempt cfg env tx payload type grade) .idle S) (S : Shared App τ) :
    wp (fun _ => Others) (Commits P i) i (fun _ _ _ => True) (submitAttempt cfg requestHash env tx key payload)
      .idle S := by
  have hfresh : ∀ S, wp (fun _ => Others) (Commits P i) i (fun _ _ _ => True)
      (fresh cfg env tx key payload (requestHash payload)) .idle S := by
    intro S
    unfold fresh buildAndStoreAttempt
    rcases checkRequest_cases env payload with ⟨-, e, he, -⟩ | ⟨p, -, he⟩
    · rw [he]
      exact fun S' _ => trivial
    · rw [he, ret_bind, bind_assoc]
      refine wp_bind (fun _ => Others.refl) (wp_mono ?_ (hstore _ _ S))
      intro r l S₁ hl
      cases r with
      | error e => trivial
      | ok response =>
        -- the observation, the record, and the answer
        exact fun S₂ _ => ⟨commits_other (by decide) rfl rfl, fun S₃ _ =>
          ⟨commits_other (by decide) rfl rfl, fun S₄ _ => trivial⟩⟩
  unfold submitAttempt
  dsimp only
  split
  · exact fun S' _ => trivial
  · refine wp_cmd_others fun found S₁ => ?_
    cases found with
    | some record => exact wp_replay_idle _ record _ _
    | none =>
      refine wp_cmd_others fun reserved S₂ => ?_
      cases reserved with
      | true =>
        refine wp_andFinally (fun _ => Others.refl) (wp_mono ?_ (hfresh S₂))
        intro r l S₃ _
        refine wp_cmd_others fun _ S₄ => ?_
        cases r <;> exact fun S₅ _ => trivial
      | false =>
        refine wp_bind (fun _ => Others.refl) (wp_mono ?_ (wp_waitForCached_idle _ key env.polls S₂))
        intro r l S₃ hl
        match r with
        | .error e => trivial
        | .ok (some record) => exact wp_replay_idle _ record _ _
        | .ok none =>
          rw [hl none rfl]
          exact hfresh S₃

end Around

/-! ## The result -/

/-- An outage covers its date, if nothing covers it. -/
theorem outageFills_covered (localDate : Int) (rows : UserRows) (d : Int) :
    newlyCovered (outageFills localDate rows) d ≤ if freezeUsedOn rows.events d then 0 else 1 := by
  unfold outageFills
  split
  · exact Nat.zero_le _
  · split
    · exact Nat.zero_le _
    · rename_i hcovered
      by_cases hd : localDate = d
      · rw [not_or, Bool.not_eq_true] at hcovered
        rw [← hd, hcovered.2]
        exact List.countP_le_length
      · simp [newlyCovered, hd]

theorem wp_party (D : Deployment) (party : Party) (i : τ) (S : Shared App τ) :
    wp (fun _ => Others) (Commits OnceSpec i) i (fun _ _ _ => True) (party.program D) .idle S := by
  cases party with
  | submit s =>
    refine wp_bind (fun _ => Others.refl) (wp_mono ?_ (wp_submitAttempt_around (wp_storeAttempt_once _) S))
    intro r l S' _
    cases r with
    | error e => trivial
    | ok outcome => exact fun S'' _ => trivial
  | outage tx localDate =>
    intro S₁ ho₁
    -- the statement reads the ledger, and inserts a row where it sees none
    have h₁ : Covering (outageFills localDate S₁.db) [] (⟨∅, [⟨.streakEvents, S₁.commits.length⟩], id⟩ : Local App)
        S₁ := by
      refine ⟨fun _ => (List.append_nil _).symm, fun r hr => ?_, .inr ⟨_, List.mem_cons_self, rfl⟩, fun _ d => ?_⟩
      · rw [List.mem_singleton.mp hr]
      · exact outageFills_covered localDate S₁.db d
    exact fun S₂ ho₂ S₃ ho₃ => ⟨commits_once (((h₁.others ho₂).insert _).others ho₃), fun S₄ _ => trivial⟩

/-- A date with two rows of some kind has two rows. -/
theorem eq_of_countP_le_one {α : Type} {p : α → Bool} {l : List α} (h : l.countP p ≤ 1) {x y : α} (hx : x ∈ l)
    (hy : y ∈ l) (hpx : p x = true) (hpy : p y = true) : x = y := by
  rw [List.countP_eq_length_filter] at h
  have hx' := List.mem_filter.mpr ⟨hx, hpx⟩
  have hy' := List.mem_filter.mpr ⟨hy, hpy⟩
  match hf : l.filter p with
  | [] =>
    rw [hf] at hx'
    cases hx'
  | [z] =>
    rw [hf, List.mem_singleton] at hx' hy'
    rw [hx', hy']
  | _ :: _ :: _ =>
    rw [hf] at h
    simp at h

/-- An outage row covers the date. -/
def CreditedOn (events : List StreakEvent) (d : Int) : Prop :=
  ∃ e ∈ events, e.event = .freezeUsed ∧ e.localDate = d ∧ e.note = some "outage"

/-- A freeze was spent on the date. -/
def PaidOn (events : List StreakEvent) (d : Int) : Prop :=
  ∃ e ∈ events, e.event = .freezeUsed ∧ e.localDate = d ∧ e.note ≠ some "outage"

theorem not_credited_and_paid {events : List StreakEvent} {d : Int} (h : freezeRows events d ≤ 1) :
    ¬ (CreditedOn events d ∧ PaidOn events d) := by
  rintro ⟨⟨e, he, hk, hd, hn⟩, e', he', hk', hd', hn'⟩
  have hsame := eq_of_countP_le_one h he he' (by simp [hk, hd]) (by simp [hk', hd'])
  rw [← hsame] at hn'
  exact hn' hn

/-- **Submissions and outages cover no date twice** in every run, of any number of them over any rows with at most one
freeze row for each date, in which each commit is of a current ledger. -/
theorem outage_covers_once [DecidableEq τ] {D : Deployment} {party : τ → Party} {rows : UserRows} {kv : Redis}
    (hrows : ∀ d, freezeRows rows.events d ≤ 1) {s : Sys App τ Unit}
    (h : Reach (fun _ _ => True) (fun _ l S => CurrentLedger l S) (Parties.start D party rows kv) s) (d : Int) :
    freezeRows s.shared.db.events d ≤ 1 ∧ ¬ (CreditedOn s.shared.db.events d ∧ PaidOn s.shared.db.events d) := by
  have honce : ∀ d, freezeRows s.shared.db.events d ≤ 1 := by
    refine Reach.tables (J := fun rows : UserRows => ∀ d, freezeRows rows.events d ≤ 1)
      (fun i S => wp_party D (party i) i S) hrows (fun i l S rows' hA hP hS d => ?_) h
    have hd := hP hA d
    have := hS d
    omega
  exact ⟨honce d, not_credited_and_paid (honce d)⟩

/-! ### A submission and an outage -/

/-- A user who was active on day 0, back on day 2; and an outage of day 1. -/
def backFromGap : Bool → Party
  | false => .submit (.small 2 2 2 "back")
  | true => .outage ⟨2 * microsPerDay, fun k => 500 + k, 5⟩ 1

def gapRows : UserRows := (Call.smallSubmit 1 0).after (.small fun _ => 0) (.created "UTC")

def backFromGapStart : Sys App Bool Unit := Parties.start (.small fun _ => 0) backFromGap gapRows .empty

/-- The outage between the reads of the stats and of the ledger: the submission sees its row. -/
theorem outage_covers_once_between :
    let s := backFromGapStart.after (fun _ l S => CurrentLedger l S)
      (List.replicate 7 false ++ List.replicate 4 true ++ List.replicate 13 false)
    s.shared.commits = [true, false] ∧ freezeRows s.shared.db.events 1 ≤ 1 ∧
      ¬ (CreditedOn s.shared.db.events 1 ∧ PaidOn s.shared.db.events 1) := by
  intro s
  have hreach : Reach (fun _ _ => True) (fun _ l S => CurrentLedger l S) backFromGapStart s :=
    Reach.after (by decide +kernel)
  have hrows : ∀ d, freezeRows gapRows.events d ≤ 1 := by
    intro d
    have hnone : gapRows.events.countP (·.event == .freezeUsed) = 0 := by decide +kernel
    refine Nat.le_trans (List.countP_mono_left fun e _ he => ?_) (Nat.le_trans (Nat.le_of_eq hnone) (Nat.zero_le 1))
    exact (Bool.and_eq_true _ _ ▸ he).1
  exact ⟨by decide +kernel, outage_covers_once hrows hreach 1⟩

instance (events : List StreakEvent) (d : Int) : Decidable (CreditedOn events d) :=
  inferInstanceAs (Decidable (∃ e ∈ events, _))

instance (events : List StreakEvent) (d : Int) : Decidable (PaidOn events d) :=
  inferInstanceAs (Decidable (∃ e ∈ events, _))

/-- **A date is credited and paid for.**  The submission reads which dates are covered, the outage commits its row, and
the submission commits the row of the freeze it spends. -/
theorem outage_covers_twice : Run (.small fun _ => 0) (fun _ _ => True) (.created "UTC") [Call.smallSubmit 1 0] gapRows ∧
    ∃ s, Reach (fun _ _ => True) anyCommit backFromGapStart s ∧ (∀ i, s.threads i = .done (.ok ())) ∧
      freezeRows s.shared.db.events 1 = 2 ∧ CreditedOn s.shared.db.events 1 ∧ PaidOn s.shared.db.events 1 := by
  have hrun : Run (.small fun _ => 0) (fun _ _ => True) (.created "UTC") [Call.smallSubmit 1 0] gapRows :=
    Run.nil.call (by simp) ⟨Call.small_increasing _ _ _, by simp [UserRows.created], by simp [UserRows.created]⟩ trivial
  let s := backFromGapStart.after anyCommit (List.replicate 9 false ++ List.replicate 4 true ++ List.replicate 11 false)
  have hdone : ∀ i, (s.threads i).answered.isSome = true := by decide +kernel
  refine ⟨hrun, s, Reach.after (by decide +kernel), fun i => ?_, by decide +kernel, by decide +kernel, by decide +kernel⟩
  obtain ⟨answer, hanswer⟩ := Option.isSome_iff_exists.mp (hdone i)
  exact Thread.done_of_answered hanswer

end CodeReader
