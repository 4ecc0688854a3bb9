import CodeReader.Core.Calendar
import CodeReader.Txn.Prog
import Mathlib.Data.List.Infix

/-!
# The rows of one user

* `Settings` — the streak settings;
* `UserStats`, `StreakEvent`, `Attempt`, `DailySession` — the rows of one user in the tables of these names;
* `UserRows` — all of them, with the user's own time zone;
* `Redis` — the idempotency records and reservations;
* `App`, `Handler` — programs over these.

Rows of a table stand in the order of their inserts.
-/

namespace CodeReader

open Txn

/-- `Settings`: the streak safety net and the repair window. -/
structure Settings where
  streakFreezeStart : Int
  streakFreezeMax : Int
  streakFreezeEarnEvery : Int
  streakRepairWindowH : Int

/-- The settings' defaults. -/
def Settings.default : Settings := ⟨2, 2, 10, 48⟩

/-! ## Tables -/

/-- One exercise type's entry of `accuracy_by_type`. -/
structure TypeCounts where
  attempts : Int
  correct : Int
  deriving DecidableEq

/-- A row of `user_stats`. -/
structure UserStats where
  currentStreak : Int
  longestStreak : Int
  lastActiveLocalDate : Option Int
  streakFreezes : Int
  totalAttempts : Int
  totalCorrect : Int
  accuracyByType : List (String × TypeCounts)
  deriving DecidableEq

/-- The values of `streak_events.event`. -/
inductive StreakEventKind
  | extended | reset | freezeUsed | repaired | adjusted
  deriving DecidableEq

/-- `event IN ('extended', 'reset')`. -/
def StreakEventKind.isTransition : StreakEventKind → Bool
  | .extended | .reset => true
  | _ => false

/-- A row of `streak_events`. -/
structure StreakEvent where
  id : Nat
  event : StreakEventKind
  fromValue : Int
  toValue : Int
  localDate : Int
  note : Option String
  createdAt : Int
  deriving DecidableEq

/-- The values of `attempts.status`. -/
inductive AttemptStatus
  | graded | gradingPending | gradingFailed | skipped
  deriving DecidableEq

abbrev ExerciseId := Nat

/-- A row of `attempts`. -/
structure Attempt where
  id : Nat
  exerciseId : ExerciseId
  exerciseVersion : Int
  sessionDate : Int
  answer : String
  gradingMode : String
  status : AttemptStatus
  isCorrect : Option Bool
  timeTakenMs : Option Int
  createdAt : Int
  gradedAt : Option Int
  deriving DecidableEq

/-- A row of `daily_sessions`. -/
structure DailySession where
  sessionDate : Int
  completedAt : Option Int
  deriving DecidableEq

/-- The rows of one user. -/
structure UserRows where
  timezone : String
  stats : Option UserStats
  events : List StreakEvent
  attempts : List Attempt
  sessions : List DailySession
  deriving DecidableEq

/-- A user just created: no row but the user's own. -/
def UserRows.created (timezone : String) : UserRows := ⟨timezone, none, [], [], []⟩

/-- The transition rows of a date, the ones the unique index is about. -/
def transitionOn (events : List StreakEvent) (d : Int) : Bool :=
  events.any fun e => e.event.isTransition && e.localDate == d

/-- `note LIKE '%' || s || '%'`, for an `s` without wildcards. -/
def noteContains (note : Option String) (s : String) : Bool :=
  match note with
  | some text => decide (s.toList <:+: text.toList)
  | none => false

/-! ## Responses, records, failures -/

/-- `StreakInfo`. -/
structure StreakInfo where
  current : Int
  event : StreakEventKind
  deriving DecidableEq

/-- `AttemptResponse`; `detail` stands for the reveal, the score, the grader's output and the percentile. -/
structure AttemptResponse where
  attemptId : Nat
  status : AttemptStatus
  isCorrect : Option Bool
  streak : Option StreakInfo
  completed : Bool
  remaining : Int
  firstCompletedSession : Bool
  detail : String
  deriving DecidableEq

/-- The bodies the two routes answer with and cache. -/
inductive Body
  | attempt (r : AttemptResponse)
  | repair (currentStreak : Int)
  deriving DecidableEq

structure IdempotencyRecord where
  requestHash : String
  statusCode : Nat
  body : Body
  deriving DecidableEq

/-- Redis, as the idempotency layer uses it: records under `_key`, reservations under `_reservation_key`. -/
structure Redis where
  records : String → Option IdempotencyRecord
  reservations : String → Bool

/-- What a request fails with: an `ApiError`, or a violated unique constraint. -/
inductive Err
  | api (status : Nat) (code message : String)
  | integrity (constraint : String)
  deriving DecidableEq

/-- The locks of a user's transactions: advisory locks by `lock_b` (`lock_a` is the user, and `hashtext` has no
collisions), and the row locks of statements that write. -/
inductive Lock
  | advisory (lockB : String)
  | userStatsRow
  | dailySessionRow (d : Int)
  deriving DecidableEq

/-- The tables. -/
inductive Tbl
  | users | userStats | streakEvents | attempts | dailySessions
  deriving DecidableEq

/-- What a run shows besides the tables: the success body computed for an attempt row. -/
inductive Ev
  | computed (exerciseId : ExerciseId) (sessionDate : Int) (body : Body)
  deriving DecidableEq

abbrev App : Iface where
  Db := UserRows
  Kv := Redis
  Lock := Lock
  Tbl := Tbl
  Ev := Ev
  Err := Err

abbrev Handler := Prog App

/-- What the database gives a transaction: its start, the `now()` of every `created_at`, and the values it draws
from the identity sequences of `streak_events` and `attempts`. -/
structure Tx where
  startedAt : Int
  eventId : Nat → Nat
  attemptId : Nat

end CodeReader
