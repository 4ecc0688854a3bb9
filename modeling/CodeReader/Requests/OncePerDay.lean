import CodeReader.Requests.Handlers
import Mathlib.Data.List.Pairwise

/-!
# At most one graded submission per exercise and day

Reservations expire, owners die, cached responses vanish; the lock of the day and the check under it keep the
attempts unique, and the records only ever hold bodies that were computed for an attempt.

* `onePerDay_run` — every reachable state is sound, and its attempts are unique;
* `one_attempt_per_day` — **the result**.
-/

namespace CodeReader

open Txn Prog

variable {τ : Type} {c : Cast τ}

/-- No two of the attempts are for one exercise on one day. -/
def OnePerDay (attempts : List Attempt) : Prop :=
  ∀ x d, (attempts.filter fun a => a.exerciseId == x && a.sessionDate == d).length ≤ 1

theorem onePerDay_iff {attempts : List Attempt} : OnePerDay attempts ↔
    attempts.Pairwise fun a b => ¬ (a.exerciseId = b.exerciseId ∧ a.sessionDate = b.sessionDate) := by
  induction attempts with
  | nil => simp [OnePerDay]
  | cons a l ih =>
    rw [List.pairwise_cons, ← ih]
    constructor
    · intro h
      refine ⟨fun b hb hab => ?_, fun x d => ?_⟩
      · -- both would be counted
        have hcount := h a.exerciseId a.sessionDate
        rw [List.filter_cons_of_pos (by simp), List.length_cons] at hcount
        have hb' : b ∈ l.filter fun c => c.exerciseId == a.exerciseId && c.sessionDate == a.sessionDate := by
          rw [List.mem_filter]
          exact ⟨hb, by simp [hab]⟩
        have hpos := List.length_pos_of_mem hb'
        omega
      · have hcount := h x d
        rw [List.filter_cons] at hcount
        split at hcount
        · rw [List.length_cons] at hcount
          omega
        · exact hcount
    · rintro ⟨ha, h⟩ x d
      rw [List.filter_cons]
      split
      · rename_i hxd
        have hnil : (l.filter fun c => c.exerciseId == x && c.sessionDate == d) = [] := by
          rw [List.filter_eq_nil_iff]
          intro b hb hb'
          simp only [Bool.and_eq_true, beq_iff_eq] at hxd hb'
          exact ha b hb ⟨hxd.1.trans hb'.1.symm, hxd.2.trans hb'.2.symm⟩
        rw [hnil]
        exact Nat.le_refl 1
      · exact h x d

/-- The attempts that a commit publishes stay unique. -/
theorem AddsAttempt.onePerDay {l : Local App} {S S' : Shared App τ} (h : AddsAttempt l S S')
    (hone : OnePerDay S.db.attempts) : OnePerDay S'.db.attempts := by
  rcases h with he | ⟨a, -, hfree, he⟩
  · rw [he]
    exact hone
  · rw [onePerDay_iff] at hone ⊢
    rw [he, List.pairwise_append]
    refine ⟨hone, List.pairwise_singleton _ _, fun b hb a' ha' hab => ?_⟩
    rw [List.mem_singleton] at ha'
    subst ha'
    exact attemptedOn_eq_false.mp hfree b hb hab

/-- In every reachable state the attempts are unique, as they were at the start. -/
theorem onePerDay_run [DecidableEq τ] {rows : UserRows} {kv : Redis}
    (hkv : ∀ key record, kv.records (idemKey attemptsNamespace key) = some record → c.old record)
    (hrows : OnePerDay rows.attempts) {A : τ → Local App → Shared App τ → Prop} {s : Sys App τ Body}
    (h : Reach Expiry A (Requests.start c.D c.actorHash c.req rows kv) s) :
    Sound c s.shared ∧ OnePerDay s.shared.db.attempts :=
  Reach.inv (J := fun S => Sound c S ∧ OnePerDay S.db.attempts) (requests_rules hkv) ⟨sound_start hkv, hrows⟩
    (fun _ _ _ _ hs hG => ⟨hG.sound hs.1, hG.attempts.onePerDay hs.2⟩)
    (fun _ _ _ _ _ hs hG => ⟨hG.sound hs.1, hG.attempts.onePerDay hs.2⟩)
    (fun _ _ he hs => ⟨hs.1.expire he, hs.2⟩) h

/-- The bodies computed for an exercise and a day are one, by one request. -/
theorem Sound.computed_unique {S : Shared App τ} (h : Sound c S) (hone : OnePerDay S.db.attempts)
    (hids : ∀ i j, (c.req i).tx.attemptId = (c.req j).tx.attemptId → i = j) {i j : τ} {x : ExerciseId} {d : Int}
    {b b' : Body} (hi : (i, Ev.computed x d b) ∈ S.trace) (hj : (j, Ev.computed x d b') ∈ S.trace) :
    i = j ∧ b = b' := by
  obtain ⟨a, ha, r, hx, hd, hid, -, -⟩ := h.computed i x d b hi
  obtain ⟨a', ha', r', hx', hd', hid', -, -⟩ := h.computed j x d b' hj
  have hsame : a = a' := by
    by_contra hne
    have : Std.Symm fun a b : Attempt => ¬ (a.exerciseId = b.exerciseId ∧ a.sessionDate = b.sessionDate) :=
      ⟨fun b c hbc hcb => hbc ⟨hcb.1.symm, hcb.2.symm⟩⟩
    exact (onePerDay_iff.mp hone).forall ha ha' hne ⟨hx.trans hx'.symm, hd.trans hd'.symm⟩
  have hij : i = j := hids i j (by rw [← hid, ← hid', hsame])
  subst hij
  have he := h.once i _ _ hi hj
  cases he
  exact ⟨rfl, rfl⟩

/-- **At most one graded submission per exercise and day**: in every state that any number of submissions (and
repairs) of a user reach, in any order of their statements, while reservations and cached responses vanish and
requests die, there is at most one attempt for an exercise on a day; and the body that a submission answers was
computed for the one attempt of its exercise on some day, as the only body for it. -/
theorem one_attempt_per_day [DecidableEq τ] {D : Deployment} {actorHash : String} {req : τ → Request}
    (hhash : Function.Injective D.requestHash)
    (hids : ∀ i j, (req i).tx.attemptId = (req j).tx.attemptId → i = j) {rows : UserRows} {kv : Redis}
    (hrows : OnePerDay rows.attempts) (hkv : ∀ key, kv.records (idemKey attemptsNamespace key) = none)
    {s : Sys App τ Body}
    (h : Reach Expiry anyCommit (Requests.start D actorHash req rows kv) s) :
    OnePerDay s.shared.db.attempts ∧
    ∀ i env tx key payload body, req i = .submit env tx key payload → s.threads i = .done (.ok body) →
      ∃ d j, (j, Ev.computed payload.exerciseId d body) ∈ s.shared.trace ∧
        (∃ a ∈ s.shared.db.attempts, ∃ r, a.exerciseId = payload.exerciseId ∧ a.sessionDate = d ∧
          body = .attempt r ∧ Answers r a) ∧
        ∀ j' body', (j', Ev.computed payload.exerciseId d body') ∈ s.shared.trace → j' = j ∧ body' = body := by
  let c : Cast τ := ⟨D, actorHash, req, fun _ => False⟩
  have hold : ∀ key record, kv.records (idemKey attemptsNamespace key) = some record → c.old record := by
    intro key record hr
    rw [hkv] at hr
    cases hr
  obtain ⟨hs, hone⟩ := onePerDay_run (c := c) hold hrows h
  refine ⟨hone, fun i env tx key payload body hreq hdone => ?_⟩
  have hgood := Reach.good (requests_rules (c := c) hold) h i
  rw [Good, hdone] at hgood
  obtain ⟨record, hback, hhashes, hbody⟩ := hgood.2.shown body rfl env tx key payload hreq
  -- no record is from before the run, so this one is of a computed body
  obtain ⟨payload', j, d, hh, hm⟩ := hback.resolve_left id
  have hpayload : payload' = payload := hhash (hh.symm.trans hhashes)
  rw [hpayload, hbody] at hm
  obtain ⟨a, ha, r, hx, hd, -, hb, hans⟩ := hs.computed j _ _ _ hm
  exact ⟨d, j, hm, ⟨a, ha, r, hx, hd, hb, hans⟩, fun j' body' hm' => hs.computed_unique hone hids hm' hm⟩

/-! ### A retry -/

/-- Two requests with one key and one body. -/
def retry : Bool → Request
  | false => .small 1 1 0 "key"
  | true => .small 2 1 0 "key"

/-- The second one finds the reservation taken, waits, and finds the record. -/
def retrySchedule : List Bool := [false, true, false, true] ++ List.replicate 18 false ++ [true, true]

/-- The retry is answered with the body of the one attempt. -/
theorem one_attempt_per_day_retry :
    let s := (Requests.small retry (.created "UTC")).after anyCommit retrySchedule
    OnePerDay s.shared.db.attempts ∧ ∃ body, s.threads true = .done (.ok body) ∧
      ∃ d j, (j, Ev.computed 1 d body) ∈ s.shared.trace := by
  intro s
  have hreach : Reach Expiry anyCommit (Requests.small retry (.created "UTC")) s :=
    Reach.after (by decide +kernel)
  have hids : ∀ i j : Bool, (retry i).tx.attemptId = (retry j).tx.attemptId → i = j := by decide
  obtain ⟨hone, hanswers⟩ := one_attempt_per_day plainHash_injective hids
    (onePerDay_iff.mpr List.Pairwise.nil) (fun _ => rfl) hreach
  have hsome : (s.threads true).answered.isSome = true := by decide +kernel
  obtain ⟨body, hbody⟩ := Option.isSome_iff_exists.mp hsome
  have hdone := Thread.done_of_answered hbody
  obtain ⟨d, j, hm, -⟩ := hanswers true _ _ _ _ body rfl hdone
  exact ⟨hone, body, hdone, d, j, hm⟩

end CodeReader
