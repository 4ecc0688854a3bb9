import CodeReader.Requests.Serializable
import CodeReader.Runs.LedgerStep

/-!
# Submissions around midnight

Submissions of two days hold two locks, so they do not wait for each other, though both read and write the one row
of stats.

* `NothingLost` — every attempt is counted, the last active day is the latest day, and no day after a submitted one
  gets a reset;
* `midnight_loses_nothing` — **the result**, when commits are of current reads and in the order of their days;
* `midnight_loses` — a lost attempt, and a last active day that goes back.
-/

namespace CodeReader

open Txn Prog

variable {τ : Type}

/-- `user_stats.total_attempts`, 0 without a row. -/
def totalAttempts (stats : Option UserStats) : Int := (stats.map (·.totalAttempts)).getD 0

/-- What submissions around midnight leave when nothing is lost. -/
structure NothingLost (sub : τ → Submission) (rows₀ : UserRows) (S : Shared App τ) : Prop where
  inserted : S.db.attempts.length = rows₀.attempts.length + S.commits.length
  counted : totalAttempts S.db.stats - totalAttempts rows₀.stats = S.db.attempts.length - rows₀.attempts.length
  lastActive : S.commits ≠ [] → ∃ i ∈ S.commits, lastActive S.db.stats = some (sub i).day ∧
    ∀ j ∈ S.commits, (sub j).day ≤ (sub i).day
  resets : ∀ e ∈ S.db.events, e.event = .reset → e ∈ rows₀.events ∨
    (∃ i ∈ S.commits, (sub i).day = e.localDate) ∧ ∀ j ∈ S.commits, (sub j).day ≠ e.localDate - 1

/-- A commit of current reads, behind no commit of a later day. -/
abbrev InOrder (sub : τ → Submission) : τ → Local App → Shared App τ → Prop := fun i l S =>
  l.Valid StreakTable S ∧ ∀ j ∈ S.commits, (sub j).day ≤ (sub i).day

/-! ## One submission -/

theorem gradedStats_totalAttempts (cfg : Settings) (type : String) (grade : Grade) (stats : Option UserStats) :
    (gradedStats cfg type grade stats).totalAttempts = totalAttempts stats := by
  unfold gradedStats
  cases grade.isCorrect <;> cases stats <;> rfl

/-- The transaction of a submission alone: nothing, or the rows of the submission. -/
theorem Submission.alone_cases (D : Deployment) (s : Submission) (rows : UserRows) :
    s.request.alone D rows = rows ∨ ∃ type grade, s.request.alone D rows =
      submittedRows D.cfg s.env s.tx s.payload type grade rows := by
  simp only [Submission.request, Request.alone, Request.transaction]
  rcases checkRequest_cases s.env s.payload with ⟨-, e, he, -⟩ | ⟨⟨type, grade⟩, hc, he⟩
  · rw [he]
    exact .inl rfl
  · rw [he, ret_bind]
    dsimp only
    rw [exec_bind, exec_storeAttempt]
    split
    · exact .inl rfl
    · dsimp only
      split
      · exact .inl rfl
      · exact .inr ⟨type, grade, rfl⟩

/-- A submission that is recorded alone counts its attempt, makes its day the last active one, and resets only after a
gap. -/
theorem Submission.alone_recorded {D : Deployment} {s : Submission} {rows : UserRows}
    (h : (s.request.alone D rows).attempts ≠ rows.attempts) :
    totalAttempts (s.request.alone D rows).stats = totalAttempts rows.stats + 1 ∧
      CodeReader.lastActive (s.request.alone D rows).stats = some s.day ∧
      ∀ e ∈ (s.request.alone D rows).events, e.event = .reset → e ∈ rows.events ∨ e.localDate = s.day ∧
        ∃ la, CodeReader.lastActive rows.stats = some la ∧ (s.day < la ∨ la < s.day - 1) := by
  rcases s.alone_cases D rows with he | ⟨type, grade, he⟩
  · exact absurd (congrArg UserRows.attempts he) h
  · rw [he]
    refine ⟨?_, ?_, fun e hmem hreset => ?_⟩
    · exact (countSubmission_totalAttempts ..).trans (by rw [gradedStats_totalAttempts])
    · exact countSubmission_lastActive ..
    · rcases List.mem_append.mp hmem with hold | hnew
      · exact .inl hold
      · -- the reset row is one of the submission's own
        obtain ⟨k, hk, rfl⟩ := mem_toRows.mp hnew
        obtain ⟨⟨la, hla, hgap⟩, hday⟩ := countSubmission_reset (List.getElem_mem hk) hreset
        rw [gradedStats_lastActive] at hla
        exact .inr ⟨hday, la, hla, hgap.imp_right And.left⟩

/-! ## The run -/

theorem NothingLost.start (sub : τ → Submission) (rows : UserRows) (kv : Redis) :
    NothingLost sub rows (⟨⟨rows, kv⟩, [], []⟩ : Shared App τ) where
  inserted := rfl
  counted := by simp
  lastActive h := absurd rfl h
  resets e he _ := .inl he

/-- A commit in order loses nothing. -/
theorem NothingLost.commit {sub : τ → Submission} {D : Deployment} {rows₀ : UserRows} {S S' : Shared App τ} {i : τ}
    (h : NothingLost sub rows₀ S) (horder : ∀ j ∈ S.commits, (sub j).day ≤ (sub i).day)
    (hc : S'.commits = S.commits ++ [i]) (hdb : S'.db = (sub i).request.alone D S.db)
    (hpub : (sub i).request.Publishes S.db S'.db) : NothingLost sub rows₀ S' := by
  obtain ⟨type, grade, -, hattempts⟩ := hpub
  have hlen : S'.db.attempts.length = S.db.attempts.length + 1 := by
    rw [hattempts, List.length_append, List.length_singleton]
  have hmem : ∀ j, j ∈ S'.commits ↔ j ∈ S.commits ∨ j = i := by
    intro j
    rw [hc, List.mem_append, List.mem_singleton]
  have hnew : ((sub i).request.alone D S.db).attempts ≠ S.db.attempts := by
    rw [← hdb]
    intro he
    rw [he] at hlen
    omega
  obtain ⟨htotal, hlast, hresets⟩ := Submission.alone_recorded hnew
  rw [← hdb] at htotal hlast hresets
  refine ⟨?_, ?_, fun _ => ⟨i, (hmem i).mpr (.inr rfl), hlast, fun j hj => ?_⟩, fun e he hreset => ?_⟩
  · have hinserted := h.inserted
    rw [hc, List.length_append, List.length_singleton]
    omega
  · have hcounted := h.counted
    omega
  · rcases (hmem j).mp hj with hj | rfl
    · exact horder j hj
    · omega
  · rcases hresets e he hreset with hold | ⟨hday, la, hla, hgap⟩
    · rcases h.resets e hold hreset with h₀ | ⟨⟨k, hk, hke⟩, hprev⟩
      · exact .inl h₀
      · -- an earlier reset: its day is not after this one
        refine .inr ⟨⟨k, (hmem k).mpr (.inl hk), hke⟩, fun j hj => ?_⟩
        rcases (hmem j).mp hj with hj | rfl
        · exact hprev j hj
        · have hkj := horder k hk
          omega
    · -- a reset of this submission: the last active day is before its previous day
      refine .inr ⟨⟨i, (hmem i).mpr (.inr rfl), hday.symm⟩, fun j hj => ?_⟩
      rcases (hmem j).mp hj with hj | rfl
      · obtain ⟨k, hk, hlk, hmax⟩ := h.lastActive (List.ne_nil_of_mem hj)
        rw [hlk, Option.some.injEq] at hla
        have hjk := hmax j hj
        have hki := horder k hk
        omega
      · omega

/-- **Submissions around midnight lose nothing** in every run, of any number of them on any days, in which each commit
is of current reads and no submission of a later day has committed before it. -/
theorem midnight_loses_nothing [DecidableEq τ] {D : Deployment} {actorHash : String} {sub : τ → Submission}
    {rows : UserRows} {kv : Redis} {s : Sys App τ Body}
    (h : Reach Expiry (InOrder sub) (Requests.start D actorHash (fun i => (sub i).request) rows kv) s) :
    NothingLost sub rows s.shared := by
  refine Reach.inv (J := NothingLost sub rows) (Requests.rules D actorHash _ rows kv) (.start sub rows kv) ?_ ?_ ?_ h
  · intro s i S' hA hinv hG
    obtain ⟨-, hc, hpub, hdb⟩ := hG.commit rfl
    exact hinv.commit hA.2 hc (hdb hA.1) hpub
  · intro s i a S' ha hinv hG
    obtain ⟨hc, hdb⟩ := hG.other ha
    exact ⟨by rw [hc, hdb]; exact hinv.inserted, by rw [hdb]; exact hinv.counted,
      by rw [hc, hdb]; exact hinv.lastActive, by rw [hc, hdb]; exact hinv.resets⟩
  · exact fun S kv _ hinv => ⟨hinv.inserted, hinv.counted, hinv.lastActive, hinv.resets⟩

/-! ### Two submissions -/

/-- A submission on the fifth day, and one on the sixth. -/
def midnight : Bool → Submission
  | false => .small 5 5 5 "before"
  | true => .small 6 6 6 "after"

/-- The rows of a user who was active on the fourth day. -/
def beforeMidnight : UserRows := (Call.smallSubmit 4 (4 * microsPerDay)).after (.small fun _ => 0) (.created "UTC")

def midnightStart : Sys App Bool Body := Requests.small (fun i => (midnight i).request) beforeMidnight

/-- The two look for their keys in turn, and then commit in turn. -/
theorem midnight_loses_nothing_in_turn :
    let s := midnightStart.after (InOrder midnight) ([false, true, false, true] ++ List.replicate 15 false ++
      List.replicate 14 true)
    s.shared.commits = [false, true] ∧ NothingLost midnight beforeMidnight s.shared ∧
      totalAttempts s.shared.db.stats = 3 := by
  intro s
  have hreach : Reach Expiry (InOrder midnight) midnightStart s := Reach.after (by decide +kernel)
  exact ⟨by decide +kernel, midnight_loses_nothing hreach, by decide +kernel⟩

/-- Both read the stats, and then commit in turn. -/
def bothRead : List Bool :=
  List.replicate 6 false ++ List.replicate 6 true ++ List.replicate 11 false ++ List.replicate 14 true

/-- The later day first. -/
def laterFirst : List Bool := List.replicate 20 true ++ List.replicate 17 false

/-- **Submissions around midnight lose an attempt, or the last active day.**  When both read the stats before either
commits, one of the two attempts is not counted; when the later day commits first, the last active day goes back. -/
theorem midnight_loses :
    (∃ s, Reach Expiry anyCommit midnightStart s ∧ s.shared.commits = [false, true] ∧
      s.shared.db.attempts.length = beforeMidnight.attempts.length + 2 ∧
      totalAttempts s.shared.db.stats = totalAttempts beforeMidnight.stats + 1 ∧
      ¬ NothingLost midnight beforeMidnight s.shared) ∧
    ∃ s, Reach Expiry anyCommit midnightStart s ∧ s.shared.commits = [true, false] ∧
      lastActive s.shared.db.stats = some 5 ∧ ¬ NothingLost midnight beforeMidnight s.shared := by
  refine ⟨⟨midnightStart.after anyCommit bothRead, Reach.after (by decide +kernel), by decide +kernel,
    by decide +kernel, by decide +kernel, fun h => ?_⟩, midnightStart.after anyCommit laterFirst,
    Reach.after (by decide +kernel), by decide +kernel, by decide +kernel, fun h => ?_⟩
  · exact absurd h.counted (by decide +kernel)
  · obtain ⟨i, -, hlast, hmax⟩ := h.lastActive (by decide +kernel)
    have hday : lastActive (midnightStart.after anyCommit laterFirst).shared.db.stats = some 5 := by decide +kernel
    rw [hday, Option.some.injEq] at hlast
    have hsix := hmax true (by decide +kernel)
    rw [← hlast] at hsix
    exact absurd hsix (by decide)

end CodeReader
