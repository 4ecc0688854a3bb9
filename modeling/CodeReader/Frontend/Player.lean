import CodeReader.Frontend.Signature
import Mathlib.Data.List.Nodup

/-!
# The session player

`Session.tsx`, from the moment the session has loaded: one exercise after another is answered, submitted, graded (at
once or by polling), shown, and left.

* `Player`, `Activity` — the component's state, and what it waits for;
* `Player.step` — every event: what the user does, what the server answers, timers, and the way out of a rendering error;
* `Player.Ok` — **the invariant**: at most one activity, for the exercise that is shown;
* `player_sound`, `player_complete`, `player_moves_on` — **the results**, for runs of any events in any order;
* `skip_freezes` — what skipping an exercise whose answer is under way comes to.

The two arrangements of the page (narrow and wide) show the same controls, and are left out.
-/

namespace CodeReader.Frontend

/-! ## State -/

inductive ExerciseType
  | spotTheBug | trace | predictTheFix | summarize
  deriving DecidableEq

/-- What the player reads of a `SessionExercise`. -/
structure SessionExercise where
  exerciseId : String
  version : Int
  type : ExerciseType
  maxWords : Option Int
  attempted : Bool
  deriving DecidableEq

inductive Answer
  | line (line : Nat) (reasonId : String)
  | choice (choiceId : String)
  | text (text : List Char)
  | skipped
  deriving DecidableEq

inductive AttemptStatus
  | graded | skipped | gradingPending | gradingFailed
  deriving DecidableEq

/-- What the player reads of an `AttemptResponse`. -/
structure AttemptResponse where
  attemptId : Nat
  status : AttemptStatus
  isCorrect : Option Bool
  deriving DecidableEq

inductive Phase
  | answering | submitting | gradingPending | revealed | gradingFailed | gradingTimeout
  deriving DecidableEq

structure Position where
  line : Nat
  col : Nat
  deriving DecidableEq

structure CodeRange where
  start : Position
  stop : Position
  deriving DecidableEq

/-- The answer as far as it is given. -/
structure Draft where
  selection : Option CodeRange
  selectedReasonId : Option String
  selectedChoiceId : Option String
  summaryText : List Char
  deriving DecidableEq

def Draft.empty : Draft := ⟨none, none, none, []⟩

/-- The body of `POST /attempts`. -/
structure AttemptRequest where
  exerciseId : String
  exerciseVersion : Int
  answer : Answer
  timeTakenMs : Int
  deriving DecidableEq

/-- What the player waits for. -/
inductive Activity
  | post (idempotencyKey : String) (body : AttemptRequest)
  | timer (attemptId : Nat) (due : Int)
  | poll (attemptId : Nat)
  deriving DecidableEq

/-- The state of the component, with its activities, each with the exercise it was started for; the submissions that were
sent, the responses to them, and the exercises that were skipped after an error, in order. -/
structure Player where
  exercises : List SessionExercise
  currentIndex : Nat
  phase : Phase
  attempt : Option AttemptResponse
  userAnswer : Option Answer
  correctCount : Nat
  attemptedThisLoad : Nat
  submitError : Option String
  draft : Draft
  startTime : Int
  pollStart : Int
  now : Int
  keysByExercise : String → Option String
  activities : List (Nat × Activity)
  sent : List (String × AttemptRequest)
  accepted : List (Nat × AttemptResponse)
  skipped : List Nat

/-- `DEFAULT_POLL_SECONDS`. -/
def defaultPollSeconds : Nat := 3

/-- `MAX_POLL_MS`. -/
def maxPollMs : Int := 2 * 60 * 1000

/-- `body.exercises.findIndex((e) => !e.attempted)`, or the length. -/
def firstUnattempted (exercises : List SessionExercise) : Nat := exercises.findIdx fun e => !e.attempted

/-- The words of a trimmed text. -/
def wordCount (text : List Char) : Nat := ((text.splitOnP isSpaceJs).filter (· ≠ [])).length

namespace Player

/-- The session has loaded. -/
def load (exercises : List SessionExercise) (keysByExercise : String → Option String) (now : Int) : Player where
  exercises := exercises
  currentIndex := firstUnattempted exercises
  phase := .answering
  attempt := none
  userAnswer := none
  correctCount := 0
  attemptedThisLoad := 0
  submitError := none
  draft := .empty
  startTime := now
  pollStart := 0
  now := now
  keysByExercise := keysByExercise
  activities := []
  sent := []
  accepted := []
  skipped := []

def exercise (p : Player) : Option SessionExercise := p.exercises[p.currentIndex]?

/-- `isValid`. -/
def isValid (e : SessionExercise) (d : Draft) : Bool :=
  match e.type with
  | .spotTheBug => d.selection.isSome && d.selectedReasonId.isSome
  | .trace | .predictTheFix => d.selectedChoiceId.isSome
  | .summarize => trimJs d.summaryText ≠ [] && wordCount (trimJs d.summaryText) ≤ e.maxWords.getD 60

/-- The answer that `handleSubmit` makes of a draft; there is one if the draft is valid. -/
def answerOf (e : SessionExercise) (d : Draft) : Option Answer :=
  match e.type with
  | .spotTheBug => d.selection.bind fun range => d.selectedReasonId.map fun reasonId => .line range.start.line reasonId
  | .trace | .predictTheFix => d.selectedChoiceId.map .choice
  | .summarize => some (.text (trimJs d.summaryText))

/-- `submitAnswer`, up to the request; `uuid` is what `crypto.randomUUID` gives. -/
def submitAnswer (p : Player) (e : SessionExercise) (answer : Answer) (uuid : String) : Player :=
  let key := (p.keysByExercise e.exerciseId).getD uuid
  let body := ⟨e.exerciseId, e.version, answer, p.now - p.startTime⟩
  { p with
    userAnswer := some answer
    phase := .submitting
    submitError := none
    keysByExercise := Function.update p.keysByExercise e.exerciseId (some key)
    activities := (p.currentIndex, .post key body) :: p.activities
    sent := p.sent ++ [(key, body)] }

/-- `applyGraded`. -/
def applyGraded (p : Player) (response : AttemptResponse) : Player :=
  match response.status with
  | .graded => { p with
      attempt := some response
      correctCount := if response.isCorrect = some true then p.correctCount + 1 else p.correctCount
      attemptedThisLoad := p.attemptedThisLoad + 1
      phase := .revealed }
  | .skipped => { p with attempt := some response, attemptedThisLoad := p.attemptedThisLoad + 1, phase := .revealed }
  | .gradingPending => { p with attempt := some response, phase := .gradingPending }
  | .gradingFailed =>
    { p with attempt := some response, attemptedThisLoad := p.attemptedThisLoad + 1, phase := .gradingFailed }

/-- `stopPollingForThisSitting`. -/
def stopPolling (p : Player) : Player := { p with attemptedThisLoad := p.attemptedThisLoad + 1, phase := .gradingTimeout }

/-- `pollAttempt`: the timer is set. -/
def pollAttempt (p : Player) (index attemptId delaySeconds : Nat) : Player :=
  { p with activities := (index, .timer attemptId (p.now + delaySeconds * 1000)) :: p.activities }

/-- `handleNext`. -/
def handleNext (p : Player) : Player :=
  { p with
    draft := .empty
    submitError := none
    startTime := p.now
    attempt := none
    userAnswer := none
    phase := .answering
    currentIndex := p.currentIndex + 1 }

/-- The response to a submission. -/
def posted (p : Player) (index : Nat) (response : AttemptResponse) : Player :=
  let p := { p with accepted := p.accepted ++ [(index, response)] }.applyGraded response
  if response.status = .gradingPending then
    { p with pollStart := p.now }.pollAttempt index response.attemptId defaultPollSeconds
  else p

/-- The timer of an attempt is over. -/
def timerOver (p : Player) (index attemptId : Nat) : Player :=
  if maxPollMs ≤ p.now - p.pollStart then p.stopPolling
  else { p with activities := (index, .poll attemptId) :: p.activities }

/-- The answer to a poll. -/
def polled (p : Player) (index : Nat) (response : AttemptResponse) (retryAfterSeconds : Option Nat) : Player :=
  if response.status = .gradingPending then
    p.pollAttempt index response.attemptId (retryAfterSeconds.getD defaultPollSeconds)
  else p.applyGraded response

end Player

inductive PlayerEvent
  /-- A line is selected; this can be done until the answer is shown. -/
  | select (range : CodeRange)
  | edit (selectedReasonId selectedChoiceId : Option String) (summaryText : List Char)
  | submit (uuid : String)
  | skip (uuid : String)
  | next
  /-- "Skip this exercise", where showing it has failed. -/
  | skipBroken
  | wait (ms : Nat)
  | accept (index : Nat) (response : AttemptResponse)
  | refuse (index : Nat) (message : String)
  | timer (index : Nat)
  | polled (index : Nat) (status : AttemptStatus) (isCorrect : Option Bool) (retryAfterSeconds : Option Nat)
  | pollFailed (index : Nat)
  deriving DecidableEq

namespace Player

/-- The page shows a button to go on. -/
def canGoOn (p : Player) : Bool :=
  match p.phase with
  | .revealed => p.attempt.isSome && p.userAnswer.isSome
  | .gradingFailed | .gradingTimeout => true
  | .answering | .submitting | .gradingPending => false

/-- Takes the activity at a place from those there are. -/
def take (p : Player) (n : Nat) : Option (Nat × Activity × Player) :=
  p.activities[n]?.map fun a => (a.1, a.2, { p with activities := p.activities.eraseIdx n })

/-- **Every event** of the page; `none` where it cannot happen.  On the last page there are no controls. -/
def step (p : Player) : PlayerEvent → Option Player
  | .select range =>
    if p.phase = .revealed then none
    else p.exercise.bind fun e =>
      if e.type = .spotTheBug then some { p with draft := { p.draft with selection := some range } } else none
  | .edit selectedReasonId selectedChoiceId summaryText =>
    if p.phase = .answering ∨ p.phase = .submitting then
      p.exercise.map fun _ => { p with draft := ⟨p.draft.selection, selectedReasonId, selectedChoiceId, summaryText⟩ }
    else none
  | .submit uuid =>
    if p.phase = .answering then
      p.exercise.bind fun e => if isValid e p.draft then (answerOf e p.draft).map fun a => p.submitAnswer e a uuid else none
    else none
  | .skip uuid =>
    if p.phase = .answering then
      p.exercise.bind fun e => if e.type = .summarize then none else some (p.submitAnswer e .skipped uuid)
    else none
  | .next => if p.canGoOn then p.exercise.map fun _ => p.handleNext else none
  | .skipBroken => p.exercise.map fun _ => { p.handleNext with skipped := p.skipped ++ [p.currentIndex] }
  | .wait ms => some { p with now := p.now + ms }
  | .accept n response =>
    match p.take n with
    | some (index, .post _ _, p) => some (p.posted index response)
    | _ => none
  | .refuse n message =>
    match p.take n with
    | some (_, .post _ _, p) => some { p with submitError := some message, phase := .answering }
    | _ => none
  | .timer n =>
    match p.take n with
    | some (index, .timer attemptId due, p) => if due ≤ p.now then some (p.timerOver index attemptId) else none
    | _ => none
  | .polled n status isCorrect retryAfterSeconds =>
    match p.take n with
    | some (index, .poll attemptId, p) => some (p.polled index ⟨attemptId, status, isCorrect⟩ retryAfterSeconds)
    | _ => none
  | .pollFailed n =>
    match p.take n with
    | some (index, .poll attemptId, p) => some (p.pollAttempt index attemptId defaultPollSeconds)
    | _ => none

end Player

/-! ## The invariant -/

section Invariant

variable {p p' : Player} {r : AttemptResponse} {first : Nat} {e : SessionExercise}

/-- The response that is shown is about the submission of the exercise that is shown. -/
structure Player.Shows (p : Player) (r : AttemptResponse) : Prop where
  attempt : p.attempt = some r
  userAnswer : p.userAnswer.isSome = true
  exercise : p.exercise.isSome = true
  submission : ∃ response, p.accepted.getLast? = some (p.currentIndex, response) ∧ response.attemptId = r.attemptId

/-- The one activity of a pending attempt. -/
def Player.Polls (p : Player) (attemptId : Nat) : Prop :=
  (∃ due, p.activities = [(p.currentIndex, .timer attemptId due)]) ∨ p.activities = [(p.currentIndex, .poll attemptId)]

/-- What is so in each phase. -/
def Player.At (p : Player) : Phase → Prop
  | .answering => p.activities = [] ∧ p.attempt = none
  | .submitting => (∃ key body, p.activities = [(p.currentIndex, .post key body)]) ∧ p.attempt = none ∧
    p.userAnswer.isSome = true ∧ p.exercise.isSome = true
  | .gradingPending => ∃ r, p.Shows r ∧ r.status = .gradingPending ∧ p.Polls r.attemptId
  | .revealed => p.activities = [] ∧ ∃ r, p.Shows r ∧ (r.status = .graded ∨ r.status = .skipped)
  | .gradingFailed => p.activities = [] ∧ ∃ r, p.Shows r ∧ r.status = .gradingFailed
  | .gradingTimeout => p.activities = [] ∧ ∃ r, p.Shows r ∧ r.status = .gradingPending

/-- The submission of the exercise that is shown was accepted. -/
def Phase.accepted : Phase → Bool
  | .answering | .submitting => false
  | .gradingPending | .revealed | .gradingFailed | .gradingTimeout => true

/-- The exercises whose submissions were accepted: in order, each once, and all that were passed but those skipped. -/
structure Player.Passed (first : Nat) (p : Player) : Prop where
  order : (p.accepted.map Prod.fst).Pairwise (· < ·)
  lower : first ≤ p.currentIndex
  range : ∀ i ∈ p.accepted.map Prod.fst, first ≤ i ∧ (i < p.currentIndex ∨ i = p.currentIndex ∧ p.phase.accepted = true)
  all : ∀ i, first ≤ i → i < p.currentIndex → i ∈ p.accepted.map Prod.fst ∨ i ∈ p.skipped

/-- The counts of the sitting. -/
structure Player.Counted (p : Player) : Prop where
  attempted : p.attemptedThisLoad + (if p.phase = .gradingPending then 1 else 0) = p.accepted.length
  correct : p.correctCount ≤ p.attemptedThisLoad

/-- An answer that the page can give to an exercise. -/
def Givable (e : SessionExercise) (answer : Answer) : Prop :=
  (e.type ≠ .summarize ∧ answer = .skipped) ∨ ∃ d, Player.isValid e d = true ∧ Player.answerOf e d = some answer

/-- What was sent: under the key of its exercise, with an answer that the page can give. -/
def Player.Sent (p : Player) : Prop :=
  ∀ s ∈ p.sent, p.keysByExercise s.2.exerciseId = some s.1 ∧
    ∃ e ∈ p.exercises, e.exerciseId = s.2.exerciseId ∧ e.version = s.2.exerciseVersion ∧ Givable e s.2.answer

structure Player.Ok (first : Nat) (p : Player) : Prop where
  phase : p.At p.phase
  passed : p.Passed first
  counted : p.Counted
  sent : p.Sent

/-- No exercise is skipped after an error while its answer is under way. -/
def Calm (p : Player) : PlayerEvent → Prop
  | .skipBroken => p.activities = []
  | _ => True

/-- The one activity is taken, and nothing is left. -/
theorem take_single {a : Nat × Activity} {n : Nat} {taken : Nat × Activity × Player} (ha : p.activities = [a])
    (h : p.take n = some taken) : taken = (a.1, a.2, { p with activities := [] }) := by
  unfold Player.take at h
  rw [ha] at h
  cases n with
  | zero => exact (Option.some.inj h).symm
  | succ n => cases h

theorem take_nil {n : Nat} (h : p.activities = []) : p.take n = none := by
  unfold Player.take
  rw [h]
  rfl

/-! ### Submissions -/

theorem Player.Ok.submitAnswer {answer : Answer} (h : p.Ok first) (hphase : p.phase = .answering) (he : p.exercise = some e)
    (hgiv : Givable e answer) (uuid : String) : (p.submitAnswer e answer uuid).Ok first := by
  have hat := h.phase
  rw [hphase] at hat
  obtain ⟨hnone, hattempt⟩ := hat
  have hmem : e ∈ p.exercises := List.mem_of_getElem? he
  refine ⟨⟨⟨_, _, congrArg _ hnone⟩, hattempt, rfl, ?_⟩, ⟨h.passed.order, h.passed.lower, ?_, h.passed.all⟩,
    ⟨?_, h.counted.correct⟩, ?_⟩
  · show p.exercise.isSome = true
    rw [he]
    rfl
  · intro i hi
    obtain ⟨hlower, hlt | ⟨-, haccepted⟩⟩ := h.passed.range i hi
    · exact ⟨hlower, .inl hlt⟩
    · rw [hphase] at haccepted
      cases haccepted
  · have hcounted := h.counted.attempted
    rw [hphase] at hcounted
    exact hcounted
  · intro s hs
    rcases List.mem_append.mp hs with hs | hs
    · obtain ⟨hkey, hsource⟩ := h.sent s hs
      refine ⟨?_, hsource⟩
      show Function.update p.keysByExercise e.exerciseId _ s.2.exerciseId = some s.1
      by_cases hsame : s.2.exerciseId = e.exerciseId
      · rw [hsame, Function.update_self]
        rw [hsame] at hkey
        rw [hkey]
        rfl
      · rw [Function.update_of_ne hsame]
        exact hkey
    · rw [List.mem_singleton.mp hs]
      exact ⟨Function.update_self .., e, hmem, rfl, rfl, hgiv⟩

/-! ### Responses -/

/-- What a response that is applied leaves as it is. -/
theorem applyGraded_same (p : Player) (r : AttemptResponse) :
    (p.applyGraded r).exercises = p.exercises ∧ (p.applyGraded r).currentIndex = p.currentIndex ∧
    (p.applyGraded r).userAnswer = p.userAnswer ∧ (p.applyGraded r).activities = p.activities ∧
    (p.applyGraded r).accepted = p.accepted ∧ (p.applyGraded r).skipped = p.skipped ∧ (p.applyGraded r).sent = p.sent ∧
    (p.applyGraded r).keysByExercise = p.keysByExercise ∧ (p.applyGraded r).attempt = some r := by
  unfold Player.applyGraded
  split <;> exact ⟨rfl, rfl, rfl, rfl, rfl, rfl, rfl, rfl, rfl⟩

theorem applyGraded_phase (p : Player) (r : AttemptResponse) : (p.applyGraded r).phase =
    match r.status with
    | .graded | .skipped => .revealed
    | .gradingPending => .gradingPending
    | .gradingFailed => .gradingFailed := by
  unfold Player.applyGraded
  split <;> rfl

theorem applyGraded_accepted (p : Player) (r : AttemptResponse) : (p.applyGraded r).phase.accepted = true := by
  rw [applyGraded_phase]
  cases r.status <;> rfl

theorem applyGraded_counts (p : Player) (r : AttemptResponse) :
    (p.applyGraded r).attemptedThisLoad + (if (p.applyGraded r).phase = .gradingPending then 1 else 0) =
      p.attemptedThisLoad + 1 ∧
    (p.correctCount ≤ p.attemptedThisLoad → (p.applyGraded r).correctCount ≤ (p.applyGraded r).attemptedThisLoad) := by
  unfold Player.applyGraded
  split
  · refine ⟨rfl, fun hle => ?_⟩
    show (if r.isCorrect = some true then p.correctCount + 1 else p.correctCount) ≤ p.attemptedThisLoad + 1
    split
    · exact Nat.succ_le_succ hle
    · exact Nat.le_succ_of_le hle
  · exact ⟨rfl, fun hle => Nat.le_succ_of_le hle⟩
  · exact ⟨rfl, id⟩
  · exact ⟨rfl, fun hle => Nat.le_succ_of_le hle⟩

/-- The page after a response about the submission of the exercise that is shown. -/
theorem applyGraded_shows {q : Player} (huser : q.userAnswer.isSome = true) (hexercise : q.exercise.isSome = true)
    (hsubmission : ∃ response, q.accepted.getLast? = some (q.currentIndex, response) ∧ response.attemptId = r.attemptId) :
    (q.applyGraded r).Shows r := by
  obtain ⟨hexercises, hindex, hanswer, -, haccepted, -, -, -, hattempt⟩ := applyGraded_same q r
  refine ⟨hattempt, by rw [hanswer]; exact huser, ?_, by rw [haccepted, hindex]; exact hsubmission⟩
  show ((q.applyGraded r).exercises[(q.applyGraded r).currentIndex]?).isSome = true
  rw [hexercises, hindex]
  exact hexercise

theorem applyGraded_at {q : Player} (hactivities : q.activities = []) (hstatus : r.status ≠ .gradingPending)
    (hshows : (q.applyGraded r).Shows r) : (q.applyGraded r).At (q.applyGraded r).phase := by
  have hnone : (q.applyGraded r).activities = [] := (applyGraded_same q r).2.2.2.1.trans hactivities
  rw [applyGraded_phase]
  cases hr : r.status with
  | graded => exact ⟨hnone, r, hshows, .inl hr⟩
  | skipped => exact ⟨hnone, r, hshows, .inr hr⟩
  | gradingPending => exact absurd hr hstatus
  | gradingFailed => exact ⟨hnone, r, hshows, hr⟩

/-- A player whose accepted submissions are the same, and that of the exercise that is shown is among them as before. -/
theorem Player.Passed.congr (h : p.Passed first) (haccepted : p'.accepted = p.accepted) (hindex : p'.currentIndex = p.currentIndex)
    (hskipped : p'.skipped = p.skipped) (hphase : p'.phase.accepted = p.phase.accepted) : p'.Passed first := by
  constructor
  · rw [haccepted]
    exact h.order
  · rw [hindex]
    exact h.lower
  · rw [haccepted, hindex, hphase]
    exact h.range
  · rw [haccepted, hindex, hskipped]
    exact h.all

theorem Player.Sent.congr (h : p.Sent) (hsent : p'.sent = p.sent) (hkeys : p'.keysByExercise = p.keysByExercise)
    (hexercises : p'.exercises = p.exercises) : p'.Sent := by
  unfold Player.Sent
  rw [hsent, hkeys, hexercises]
  exact h

/-- A timer that is set, where there is no activity. -/
theorem polls_pollAttempt {index : Nat} (hactivities : p.activities = []) (hindex : p.currentIndex = index)
    (attemptId delaySeconds : Nat) : (p.pollAttempt index attemptId delaySeconds).Polls attemptId := by
  subst hindex
  exact .inl ⟨_, congrArg _ hactivities⟩

/-- A response to the submission. -/
theorem Player.Ok.posted (h : p.Ok first) (hphase : p.phase = .submitting) (r : AttemptResponse) :
    (Player.posted { p with activities := [] } p.currentIndex r).Ok first := by
  have hat := h.phase
  rw [hphase] at hat
  obtain ⟨-, -, huser, hexercise⟩ := hat
  let q : Player := { p with activities := [], accepted := p.accepted ++ [(p.currentIndex, r)] }
  obtain ⟨hexercises, hindex, -, hactivities, haccepted, hskipped, hsent, hkeys, -⟩ := applyGraded_same q r
  have hshows : (q.applyGraded r).Shows r := applyGraded_shows huser hexercise ⟨r, List.getLast?_concat, rfl⟩
  have hearlier : ∀ i ∈ p.accepted.map Prod.fst, first ≤ i ∧ i < p.currentIndex := by
    intro i hi
    obtain ⟨hlower, hlt | ⟨-, haccept⟩⟩ := h.passed.range i hi
    · exact ⟨hlower, hlt⟩
    · rw [hphase] at haccept
      cases haccept
  have hmap : (q.applyGraded r).accepted.map Prod.fst = p.accepted.map Prod.fst ++ [p.currentIndex] := by
    rw [haccepted]
    exact List.map_append
  have hpassed : (q.applyGraded r).Passed first := by
    refine ⟨?_, ?_, ?_, ?_⟩
    · rw [hmap, List.pairwise_append]
      refine ⟨h.passed.order, List.pairwise_singleton _ _, fun i hi j hj => ?_⟩
      rw [List.mem_singleton.mp hj]
      exact (hearlier i hi).2
    · rw [hindex]
      exact h.passed.lower
    · intro i hi
      rw [hmap, List.mem_append, List.mem_singleton] at hi
      rw [hindex, applyGraded_accepted]
      rcases hi with hi | rfl
      · exact ⟨(hearlier i hi).1, .inl (hearlier i hi).2⟩
      · exact ⟨h.passed.lower, .inr ⟨rfl, rfl⟩⟩
    · intro i hlower hi
      rw [hindex] at hi
      rw [hmap, hskipped]
      exact (h.passed.all i hlower hi).imp_left (List.mem_append_left _)
  have hcounted : (q.applyGraded r).Counted := by
    obtain ⟨hattempted, hcorrect⟩ := applyGraded_counts q r
    refine ⟨?_, hcorrect h.counted.correct⟩
    have hbefore := h.counted.attempted
    rw [hphase] at hbefore
    rw [hattempted, haccepted, List.length_append, ← hbefore]
    rfl
  have hsent' : (q.applyGraded r).Sent := Player.Sent.congr h.sent hsent hkeys hexercises
  show (if r.status = .gradingPending then _ else _ : Player).Ok first
  split
  · rename_i hstatus
    have hpending : (q.applyGraded r).phase = .gradingPending := by
      rw [applyGraded_phase, hstatus]
    refine ⟨?_, Player.Passed.congr hpassed rfl rfl rfl rfl, ⟨hcounted.attempted, hcounted.correct⟩, hsent'⟩
    show Player.At _ (q.applyGraded r).phase
    rw [hpending]
    refine ⟨r, ⟨hshows.attempt, hshows.userAnswer, hshows.exercise, hshows.submission⟩, hstatus, ?_⟩
    exact polls_pollAttempt hactivities hindex _ _
  · rename_i hstatus
    exact ⟨applyGraded_at rfl hstatus hshows, hpassed, hcounted, hsent'⟩

/-- A response about the pending attempt, with what it changes. -/
theorem Player.Ok.polled {attemptId : Nat} (h : p.Ok first) (hphase : p.phase = .gradingPending)
    (hactivity : p.activities = [(p.currentIndex, .poll attemptId)]) (status : AttemptStatus) (isCorrect : Option Bool)
    (retryAfterSeconds : Option Nat) :
    (Player.polled { p with activities := [] } p.currentIndex ⟨attemptId, status, isCorrect⟩ retryAfterSeconds).Ok first := by
  have hat := h.phase
  rw [hphase] at hat
  obtain ⟨shown, hshows, hpending, hpolls⟩ := hat
  have hid : shown.attemptId = attemptId := by
    rcases hpolls with ⟨due, hpolls⟩ | hpolls
    · rw [hactivity] at hpolls
      cases hpolls
    · rw [hactivity] at hpolls
      cases hpolls
      rfl
  subst hid
  unfold Player.polled
  split
  · refine ⟨?_, Player.Passed.congr h.passed rfl rfl rfl rfl, ⟨h.counted.attempted, h.counted.correct⟩,
      Player.Sent.congr h.sent rfl rfl rfl⟩
    show Player.At _ p.phase
    rw [hphase]
    exact ⟨shown, ⟨hshows.attempt, hshows.userAnswer, hshows.exercise, hshows.submission⟩, hpending,
      polls_pollAttempt rfl rfl _ _⟩
  · rename_i hstatus
    let q : Player := { p with activities := [] }
    let r : AttemptResponse := ⟨shown.attemptId, status, isCorrect⟩
    obtain ⟨hexercises, hindex, -, -, haccepted, hskipped, hsent, hkeys, -⟩ := applyGraded_same q r
    have hshows' : (q.applyGraded r).Shows r := applyGraded_shows hshows.userAnswer hshows.exercise hshows.submission
    obtain ⟨hattempted, hcorrect⟩ := applyGraded_counts q r
    refine ⟨applyGraded_at rfl hstatus hshows', Player.Passed.congr h.passed haccepted hindex hskipped ?_,
      ⟨?_, hcorrect h.counted.correct⟩, Player.Sent.congr h.sent hsent hkeys hexercises⟩
    · show (q.applyGraded r).phase.accepted = p.phase.accepted
      rw [applyGraded_accepted, hphase]
      rfl
    · have hbefore := h.counted.attempted
      rw [hphase] at hbefore
      show (q.applyGraded r).attemptedThisLoad + _ = (q.applyGraded r).accepted.length
      rw [hattempted, haccepted]
      exact hbefore

/-- The timer of the pending attempt. -/
theorem Player.Ok.timerOver {attemptId : Nat} {due : Int} (h : p.Ok first) (hphase : p.phase = .gradingPending)
    (hactivity : p.activities = [(p.currentIndex, .timer attemptId due)]) :
    (Player.timerOver { p with activities := [] } p.currentIndex attemptId).Ok first := by
  have hat := h.phase
  rw [hphase] at hat
  obtain ⟨shown, hshows, hpending, hpolls⟩ := hat
  have hid : shown.attemptId = attemptId := by
    rcases hpolls with ⟨due', hpolls⟩ | hpolls
    · rw [hactivity] at hpolls
      cases hpolls
      rfl
    · rw [hactivity] at hpolls
      cases hpolls
  subst hid
  have hshown : ∀ q : Player, q.attempt = p.attempt → q.userAnswer = p.userAnswer → q.exercise = p.exercise →
      q.accepted = p.accepted → q.currentIndex = p.currentIndex → q.Shows shown := by
    intro q hattempt huser hexercise haccepted hindex
    exact ⟨hattempt.trans hshows.attempt, huser ▸ hshows.userAnswer, hexercise ▸ hshows.exercise,
      haccepted ▸ hindex ▸ hshows.submission⟩
  unfold Player.timerOver
  split
  · refine ⟨⟨rfl, shown, hshown _ rfl rfl rfl rfl rfl, hpending⟩,
      Player.Passed.congr h.passed rfl rfl rfl (by rw [hphase]; rfl), ⟨?_, ?_⟩,
      Player.Sent.congr h.sent rfl rfl rfl⟩
    · have hbefore := h.counted.attempted
      rw [hphase] at hbefore
      exact hbefore
    · exact Nat.le_succ_of_le h.counted.correct
  · refine ⟨?_, Player.Passed.congr h.passed rfl rfl rfl rfl, ⟨h.counted.attempted, h.counted.correct⟩,
      Player.Sent.congr h.sent rfl rfl rfl⟩
    show Player.At _ p.phase
    rw [hphase]
    exact ⟨shown, hshown _ rfl rfl rfl rfl rfl, hpending, .inr rfl⟩

/-- A refusal of the submission. -/
theorem Player.Ok.refused (h : p.Ok first) (hphase : p.phase = .submitting) (message : String) :
    Player.Ok first { p with activities := [], submitError := some message, phase := .answering } := by
  have hat := h.phase
  have hbefore := h.counted.attempted
  rw [hphase] at hat hbefore
  exact ⟨⟨rfl, hat.2.1⟩, Player.Passed.congr h.passed rfl rfl rfl (by rw [hphase]; rfl), ⟨hbefore, h.counted.correct⟩, h.sent⟩

/-- Going on to the next exercise, the one before being accepted or skipped. -/
theorem Player.Ok.handleNext {skipped : List Nat} (h : p.Ok first) (hactivities : p.activities = [])
    (hdone : p.currentIndex ∈ p.accepted.map Prod.fst ∨ p.currentIndex ∈ skipped) (hskipped : p.skipped ⊆ skipped) :
    Player.Ok first { p.handleNext with skipped := skipped } := by
  refine ⟨⟨hactivities, rfl⟩, ⟨h.passed.order, Nat.le_succ_of_le h.passed.lower, ?_, ?_⟩, ⟨?_, h.counted.correct⟩, h.sent⟩
  · intro i hi
    obtain ⟨hlower, hlt | ⟨rfl, -⟩⟩ := h.passed.range i hi
    · exact ⟨hlower, .inl (Nat.lt_succ_of_lt hlt)⟩
    · exact ⟨hlower, .inl (Nat.lt_succ_self _)⟩
  · intro i hlower hi
    rcases Nat.lt_succ_iff_lt_or_eq.mp hi with hlt | rfl
    · exact (h.passed.all i hlower hlt).imp_right fun hmem => hskipped hmem
    · exact hdone
  · have hbefore := h.counted.attempted
    have hat := h.phase
    cases hphase : p.phase with
    | gradingPending =>
      rw [hphase] at hat
      obtain ⟨_, -, -, ⟨_, hpolls⟩ | hpolls⟩ := hat
      · rw [hactivities] at hpolls
        cases hpolls
      · rw [hactivities] at hpolls
        cases hpolls
    | answering | submitting | revealed | gradingFailed | gradingTimeout =>
      rw [hphase] at hbefore
      exact hbefore

/-- Where the page lets the user go on, the submission of the exercise that is shown was accepted. -/
theorem Player.Ok.goOn (h : p.Ok first) (hgo : p.canGoOn = true) :
    p.activities = [] ∧ p.currentIndex ∈ p.accepted.map Prod.fst := by
  have hshown : ∀ r, p.Shows r → p.currentIndex ∈ p.accepted.map Prod.fst := by
    intro r hshows
    obtain ⟨response, hlast, -⟩ := hshows.submission
    exact List.mem_map_of_mem (List.mem_of_getLast? hlast)
  have hat := h.phase
  unfold Player.canGoOn at hgo
  cases hphase : p.phase with
  | answering | submitting | gradingPending =>
    rw [hphase] at hgo
    cases hgo
  | revealed | gradingFailed | gradingTimeout =>
    rw [hphase] at hat
    obtain ⟨hnone, r, hshows, -⟩ := hat
    exact ⟨hnone, hshown r hshows⟩

/-! ### Every event -/

theorem answerOf_givable {a : Answer} {d : Draft} (hvalid : Player.isValid e d = true) (ha : Player.answerOf e d = some a) :
    Givable e a := .inr ⟨d, hvalid, ha⟩

/-- What kind of activity there is says which phase it is. -/
theorem Player.Ok.activity {n : Nat} {taken : Nat × Activity × Player} (h : p.Ok first) (htake : p.take n = some taken) :
    taken.1 = p.currentIndex ∧ taken.2.2 = { p with activities := [] } ∧ p.activities = [(p.currentIndex, taken.2.1)] ∧
      match taken.2.1 with
      | .post _ _ => p.phase = .submitting
      | .timer _ _ | .poll _ => p.phase = .gradingPending := by
  have hcase : ∀ a, p.activities = [(p.currentIndex, a)] → taken.1 = p.currentIndex ∧
      taken.2.2 = { p with activities := [] } ∧ taken.2.1 = a := by
    intro a ha
    rw [take_single ha htake]
    exact ⟨rfl, rfl, rfl⟩
  have hat := h.phase
  obtain ⟨phase, hphase⟩ : ∃ phase, p.phase = phase := ⟨_, rfl⟩
  rw [hphase] at hat
  cases phase with
  | answering | revealed | gradingFailed | gradingTimeout =>
    rw [take_nil hat.1] at htake
    cases htake
  | submitting =>
    obtain ⟨⟨key, body, hactivity⟩, -⟩ := hat
    obtain ⟨hindex, hrest, ha⟩ := hcase _ hactivity
    rw [ha]
    exact ⟨hindex, hrest, hactivity, hphase⟩
  | gradingPending =>
    obtain ⟨_, -, -, ⟨due, hactivity⟩ | hactivity⟩ := hat
    · obtain ⟨hindex, hrest, ha⟩ := hcase _ hactivity
      rw [ha]
      exact ⟨hindex, hrest, hactivity, hphase⟩
    · obtain ⟨hindex, hrest, ha⟩ := hcase _ hactivity
      rw [ha]
      exact ⟨hindex, hrest, hactivity, hphase⟩

/-- A change that concerns the draft or the clock only. -/
theorem Player.Ok.drawn (h : p.Ok first) (d : Draft) (now : Int) : Player.Ok first { p with draft := d, now := now } := by
  refine ⟨?_, Player.Passed.congr h.passed rfl rfl rfl rfl, ⟨h.counted.attempted, h.counted.correct⟩, h.sent⟩
  have hshown : ∀ r, p.Shows r → Player.Shows { p with draft := d, now := now } r :=
    fun r hs => ⟨hs.attempt, hs.userAnswer, hs.exercise, hs.submission⟩
  have hdrawn : ∀ phase, p.At phase → Player.At { p with draft := d, now := now } phase := by
    intro phase hat
    cases phase with
    | answering | submitting => exact hat
    | gradingPending =>
      obtain ⟨r, hshows, hrest⟩ := hat
      exact ⟨r, hshown r hshows, hrest⟩
    | revealed | gradingFailed | gradingTimeout =>
      obtain ⟨hnone, r, hshows, hstatus⟩ := hat
      exact ⟨hnone, r, hshown r hshows, hstatus⟩
  exact hdrawn _ h.phase

/-- **Every event keeps the invariant.** -/
theorem Player.Ok.step {event : PlayerEvent} (h : p.Ok first) (hcalm : Calm p event) (hstep : p.step event = some p') :
    p'.Ok first := by
  cases event with
  | select range =>
    simp only [Player.step] at hstep
    split at hstep
    · cases hstep
    · obtain ⟨e, -, hstep⟩ := Option.bind_eq_some_iff.mp hstep
      split at hstep
      · cases hstep
        exact h.drawn _ _
      · cases hstep
  | edit reasonId choiceId text =>
    simp only [Player.step] at hstep
    split at hstep
    · obtain ⟨e, -, rfl⟩ := Option.map_eq_some_iff.mp hstep
      exact h.drawn _ _
    · cases hstep
  | submit uuid =>
    simp only [Player.step] at hstep
    split at hstep
    · rename_i hphase
      obtain ⟨e, he, hstep⟩ := Option.bind_eq_some_iff.mp hstep
      split at hstep
      · rename_i hvalid
        obtain ⟨a, ha, rfl⟩ := Option.map_eq_some_iff.mp hstep
        exact h.submitAnswer hphase he (answerOf_givable hvalid ha) uuid
      · cases hstep
    · cases hstep
  | skip uuid =>
    simp only [Player.step] at hstep
    split at hstep
    · rename_i hphase
      obtain ⟨e, he, hstep⟩ := Option.bind_eq_some_iff.mp hstep
      split at hstep
      · cases hstep
      · rename_i htype
        cases hstep
        exact h.submitAnswer hphase he (.inl ⟨htype, rfl⟩) uuid
    · cases hstep
  | next =>
    simp only [Player.step] at hstep
    split at hstep
    · rename_i hgo
      obtain ⟨e, -, rfl⟩ := Option.map_eq_some_iff.mp hstep
      obtain ⟨hnone, haccepted⟩ := h.goOn hgo
      exact h.handleNext hnone (.inl haccepted) (List.Subset.refl _)
    · cases hstep
  | skipBroken =>
    obtain ⟨e, -, rfl⟩ := Option.map_eq_some_iff.mp hstep
    exact h.handleNext hcalm (.inr (by simp)) (List.subset_append_left _ _)
  | wait ms =>
    cases hstep
    exact h.drawn p.draft _
  | accept n response =>
    simp only [Player.step] at hstep
    split at hstep
    · rename_i htake
      obtain ⟨rfl, rfl, -, hphase⟩ := h.activity htake
      cases hstep
      exact h.posted hphase response
    · cases hstep
  | refuse n message =>
    simp only [Player.step] at hstep
    split at hstep
    · rename_i htake
      obtain ⟨-, rfl, -, hphase⟩ := h.activity htake
      cases hstep
      exact h.refused hphase message
    · cases hstep
  | timer n =>
    simp only [Player.step] at hstep
    split at hstep
    · rename_i htake
      obtain ⟨rfl, rfl, hactivity, hphase⟩ := h.activity htake
      split at hstep
      · cases hstep
        exact h.timerOver hphase hactivity
      · cases hstep
    · cases hstep
  | polled n status isCorrect retryAfterSeconds =>
    simp only [Player.step] at hstep
    split at hstep
    · rename_i htake
      obtain ⟨rfl, rfl, hactivity, hphase⟩ := h.activity htake
      cases hstep
      exact h.polled hphase hactivity status isCorrect retryAfterSeconds
    · cases hstep
  | pollFailed n =>
    simp only [Player.step] at hstep
    split at hstep
    · rename_i htake
      obtain ⟨rfl, rfl, hactivity, hphase⟩ := h.activity htake
      cases hstep
      -- the same as an answer that the grade is pending, with no hint when to ask again
      exact h.polled hphase hactivity .gradingPending none none
    · cases hstep

/-- The session is the one that was loaded. -/
theorem step_exercises {event : PlayerEvent} (hstep : p.step event = some p') : p'.exercises = p.exercises := by
  have htake : ∀ {n taken}, p.take n = some taken → taken.2.2.exercises = p.exercises := by
    intro n taken htaken
    obtain ⟨a, -, rfl⟩ := Option.map_eq_some_iff.mp htaken
    rfl
  have hgraded : ∀ (q : Player) r, (q.applyGraded r).exercises = q.exercises := fun q r => (applyGraded_same q r).1
  cases event with
  | select range =>
    simp only [Player.step] at hstep
    split at hstep
    · cases hstep
    · obtain ⟨e, -, hstep⟩ := Option.bind_eq_some_iff.mp hstep
      split at hstep <;> cases hstep
      rfl
  | edit reasonId choiceId text =>
    simp only [Player.step] at hstep
    split at hstep
    · obtain ⟨e, -, rfl⟩ := Option.map_eq_some_iff.mp hstep
      rfl
    · cases hstep
  | submit uuid =>
    simp only [Player.step] at hstep
    split at hstep
    · obtain ⟨e, -, hstep⟩ := Option.bind_eq_some_iff.mp hstep
      split at hstep
      · obtain ⟨a, -, rfl⟩ := Option.map_eq_some_iff.mp hstep
        rfl
      · cases hstep
    · cases hstep
  | skip uuid =>
    simp only [Player.step] at hstep
    split at hstep
    · obtain ⟨e, -, hstep⟩ := Option.bind_eq_some_iff.mp hstep
      split at hstep <;> cases hstep
      rfl
    · cases hstep
  | next =>
    simp only [Player.step] at hstep
    split at hstep
    · obtain ⟨e, -, rfl⟩ := Option.map_eq_some_iff.mp hstep
      rfl
    · cases hstep
  | skipBroken =>
    obtain ⟨e, -, rfl⟩ := Option.map_eq_some_iff.mp hstep
    rfl
  | wait ms =>
    cases hstep
    rfl
  | accept n response =>
    simp only [Player.step] at hstep
    split at hstep
    · rename_i htaken
      cases hstep
      refine Eq.trans ?_ (htake htaken)
      unfold Player.posted
      dsimp only
      split <;> exact hgraded _ _
    · cases hstep
  | refuse n message =>
    simp only [Player.step] at hstep
    split at hstep
    · rename_i htaken
      cases hstep
      exact htake htaken
    · cases hstep
  | timer n =>
    simp only [Player.step] at hstep
    split at hstep
    · rename_i htaken
      split at hstep <;> cases hstep
      refine Eq.trans ?_ (htake htaken)
      unfold Player.timerOver
      split <;> rfl
    · cases hstep
  | polled n status isCorrect retryAfterSeconds =>
    simp only [Player.step] at hstep
    split at hstep
    · rename_i htaken
      cases hstep
      refine Eq.trans ?_ (htake htaken)
      unfold Player.polled
      split
      · rfl
      · exact hgraded _ _
    · cases hstep
  | pollFailed n =>
    simp only [Player.step] at hstep
    split at hstep
    · rename_i htaken
      cases hstep
      exact htake htaken
    · cases hstep

end Invariant

/-! ## Runs -/

/-- What the events that meet `C` reach from `start`. -/
inductive PlayerReach (C : Player → PlayerEvent → Prop) (start : Player) : Player → Prop
  | start : PlayerReach C start start
  | step {p p' : Player} {e : PlayerEvent} : PlayerReach C start p → C p e → p.step e = some p' → PlayerReach C start p'

section Results

variable {exercises : List SessionExercise} {keysByExercise : String → Option String} {now : Int} {p : Player}

theorem Player.Ok.load (exercises : List SessionExercise) (keysByExercise : String → Option String) (now : Int) :
    (Player.load exercises keysByExercise now).Ok (firstUnattempted exercises) where
  phase := ⟨rfl, rfl⟩
  passed := ⟨List.Pairwise.nil, Nat.le_refl _, fun _ hi => absurd hi List.not_mem_nil, fun _ hlower hi =>
    absurd hi (Nat.not_lt.mpr hlower)⟩
  counted := ⟨rfl, Nat.le_refl _⟩
  sent _ hs := absurd hs List.not_mem_nil

theorem player_ok (h : PlayerReach Calm (Player.load exercises keysByExercise now) p) :
    p.Ok (firstUnattempted exercises) := by
  induction h with
  | start => exact .load exercises keysByExercise now
  | step _ hcalm hstep ih => exact ih.step hcalm hstep

theorem player_exercises {C : Player → PlayerEvent → Prop} (h : PlayerReach C (Player.load exercises keysByExercise now) p) :
    p.exercises = exercises := by
  induction h with
  | start => rfl
  | step _ _ hstep ih => rw [step_exercises hstep, ih]

/-- **The player shows its own exercise**: in every run in which no exercise is skipped after an error while its answer is
under way, there is at most one activity, for the exercise that is shown; once that exercise's submission is accepted, the
page has a response about it to show, and the user's answer; the counts are of the accepted submissions; and every request
goes out under the key of its exercise, with an answer that the exercise's controls can give. -/
theorem player_sound (h : PlayerReach Calm (Player.load exercises keysByExercise now) p) :
    p.activities.length ≤ 1 ∧ (∀ a ∈ p.activities, a.1 = p.currentIndex) ∧
    (p.phase.accepted = true → ∃ r, p.Shows r) ∧
    p.attemptedThisLoad + (if p.phase = .gradingPending then 1 else 0) = p.accepted.length ∧
    p.correctCount ≤ p.attemptedThisLoad ∧ p.Sent := by
  have hok := player_ok h
  have hphase : p.activities.length ≤ 1 ∧ (∀ a ∈ p.activities, a.1 = p.currentIndex) ∧
      (p.phase.accepted = true → ∃ r, p.Shows r) := by
    have hat := hok.phase
    have hsingle : ∀ a, p.activities = [(p.currentIndex, a)] →
        p.activities.length ≤ 1 ∧ ∀ a ∈ p.activities, a.1 = p.currentIndex := by
      intro a ha
      rw [ha]
      exact ⟨Nat.le_refl _, fun b hb => by rw [List.mem_singleton.mp hb]⟩
    have hempty : p.activities = [] → p.activities.length ≤ 1 ∧ ∀ a ∈ p.activities, a.1 = p.currentIndex := by
      intro ha
      rw [ha]
      exact ⟨Nat.zero_le _, fun b hb => absurd hb List.not_mem_nil⟩
    obtain ⟨phase, hphase⟩ : ∃ phase, p.phase = phase := ⟨_, rfl⟩
    rw [hphase] at hat ⊢
    cases phase with
    | answering => exact ⟨(hempty hat.1).1, (hempty hat.1).2, nofun⟩
    | submitting =>
      obtain ⟨⟨key, body, ha⟩, -⟩ := hat
      exact ⟨(hsingle _ ha).1, (hsingle _ ha).2, nofun⟩
    | gradingPending =>
      obtain ⟨r, hshows, -, ⟨due, ha⟩ | ha⟩ := hat
      · exact ⟨(hsingle _ ha).1, (hsingle _ ha).2, fun _ => ⟨r, hshows⟩⟩
      · exact ⟨(hsingle _ ha).1, (hsingle _ ha).2, fun _ => ⟨r, hshows⟩⟩
    | revealed | gradingFailed | gradingTimeout =>
      obtain ⟨ha, r, hshows, -⟩ := hat
      exact ⟨(hempty ha).1, (hempty ha).2, fun _ => ⟨r, hshows⟩⟩
  exact ⟨hphase.1, hphase.2.1, hphase.2.2, hok.counted.attempted, hok.counted.correct, hok.sent⟩

/-- The player goes from one state to another by timers, by the time that passes, and by requests that fail. -/
def Alone (_ : Player) : PlayerEvent → Prop
  | .wait _ | .timer _ | .pollFailed _ | .refuse _ _ => True
  | _ => False

/-- **Nothing freezes the player**: while it waits, timers and failing requests alone bring it where the user can answer
again or go on. -/
theorem player_moves_on (h : PlayerReach Calm (Player.load exercises keysByExercise now) p)
    (hwaits : p.phase = .submitting ∨ p.phase = .gradingPending) :
    ∃ p', PlayerReach Alone p p' ∧ (p'.phase = .answering ∨ p'.canGoOn = true) := by
  have hat := (player_ok h).phase
  -- a timer that is over late enough ends the polling
  have htimer : ∀ (q : Player) (i attemptId : Nat) (due : Int), PlayerReach Alone p q →
      q.activities = [(i, .timer attemptId due)] → ∃ p', PlayerReach Alone p p' ∧ (p'.phase = .answering ∨ p'.canGoOn = true) := by
    intro q i attemptId due hq ha
    let ms := (due - q.now).toNat + (q.pollStart + maxPollMs - q.now).toNat
    let late : Player := { q with now := q.now + ms }
    have hdue : due ≤ late.now ∧ maxPollMs ≤ late.now - q.pollStart := by
      show due ≤ q.now + ((due - q.now).toNat + (q.pollStart + maxPollMs - q.now).toNat : Nat) ∧
        maxPollMs ≤ q.now + ((due - q.now).toNat + (q.pollStart + maxPollMs - q.now).toNat : Nat) - q.pollStart
      omega
    have hstep : late.step (.timer 0) = some { late with activities := [] }.stopPolling := by
      have htake : late.take 0 = some (i, .timer attemptId due, { late with activities := [] }) := by
        unfold Player.take
        rw [show late.activities = [(i, .timer attemptId due)] from ha]
        rfl
      simp only [Player.step, htake]
      rw [if_pos hdue.1, Player.timerOver, if_pos hdue.2]
    have hlate : PlayerReach Alone p late := hq.step (e := .wait ms) trivial rfl
    exact ⟨_, hlate.step (e := .timer 0) trivial hstep, .inr rfl⟩
  obtain hphase | hphase := hwaits
  · rw [hphase] at hat
    obtain ⟨⟨key, body, ha⟩, -⟩ := hat
    have hstep : p.step (.refuse 0 "") = some { p with activities := [], submitError := some "", phase := .answering } := by
      simp only [Player.step, Player.take, ha]
      rfl
    exact ⟨_, .step .start (e := .refuse 0 "") trivial hstep, .inl rfl⟩
  · rw [hphase] at hat
    obtain ⟨r, -, -, ⟨due, ha⟩ | ha⟩ := hat
    · exact htimer p _ _ _ .start ha
    · have hstep : p.step (.pollFailed 0) =
          some (Player.pollAttempt { p with activities := [] } p.currentIndex r.attemptId defaultPollSeconds) := by
        simp only [Player.step, Player.take, ha]
        rfl
      exact htimer _ _ _ _ (.step .start (e := .pollFailed 0) trivial hstep) rfl

/-! ### A bug that is found, and a summary that is graded later -/

def Player.run (p : Player) (events : List PlayerEvent) : Option Player := events.foldlM Player.step p

theorem PlayerReach.of_run {start p : Player} {events : List PlayerEvent} (h : start.run events = some p)
    (hcalm : events.all (fun e => decide (e ≠ .skipBroken)) = true) : PlayerReach Calm start p := by
  have hrun : ∀ (q : Player) (events : List PlayerEvent), PlayerReach Calm start q → (∀ e ∈ events, e ≠ .skipBroken) →
      q.run events = some p → PlayerReach Calm start p := by
    intro q events
    induction events generalizing q with
    | nil =>
      intro hq _ hrun
      cases hrun
      exact hq
    | cons e events ih =>
      intro hq hne hrun
      obtain ⟨q', hstep, hrest⟩ := Option.bind_eq_some_iff.mp hrun
      have hcalm : Calm q e := by
        cases e with
        | skipBroken => exact absurd rfl (hne _ (List.mem_cons_self ..))
        | _ => trivial
      exact ih q' (hq.step hcalm hstep) (fun e he => hne e (List.mem_cons_of_mem _ he)) hrest
  exact hrun start events .start (fun e he => of_decide_eq_true (List.all_eq_true.mp hcalm e he)) h

def bugThenSummary : List SessionExercise :=
  [⟨"a", 1, .spotTheBug, none, true⟩, ⟨"b", 1, .spotTheBug, none, false⟩, ⟨"c", 2, .summarize, some 60, false⟩]

def gradedLaterEvents : List PlayerEvent :=
  [.select ⟨⟨2, 0⟩, ⟨2, 9⟩⟩, .edit (some "r1") none [], .submit "u1", .accept 0 ⟨7, .graded, some true⟩, .next,
    .edit none none ['o', 'k'], .submit "u2", .accept 0 ⟨8, .gradingPending, none⟩, .wait 3000, .timer 0,
    .polled 0 .gradingPending none (some 5), .wait 5000, .timer 0, .polled 0 .graded (some false) none]

/-- The player after the events, from the session loaded at 0. -/
def Player.after (exercises : List SessionExercise) (events : List PlayerEvent) : Player :=
  ((Player.load exercises (fun _ => none) 0).run events).getD (.load exercises (fun _ => none) 0)

theorem PlayerReach.after (exercises : List SessionExercise) (events : List PlayerEvent)
    (h : ((Player.load exercises (fun _ => none) 0).run events).isSome = true)
    (hcalm : events.all (fun e => decide (e ≠ .skipBroken)) = true) :
    PlayerReach Calm (Player.load exercises (fun _ => none) 0) (Player.after exercises events) := by
  obtain ⟨p, hp⟩ := Option.isSome_iff_exists.mp h
  rw [Player.after, hp]
  exact .of_run hp hcalm

theorem player_sound_graded_later :
    let p := Player.after bugThenSummary gradedLaterEvents
    p.phase = .revealed ∧ p.attempt = some ⟨8, .graded, some false⟩ ∧ p.correctCount = 1 ∧
      p.correctCount ≤ p.attemptedThisLoad := by
  have hreach := PlayerReach.after bugThenSummary gradedLaterEvents (by decide +kernel) (by decide)
  exact ⟨by decide +kernel, by decide +kernel, by decide +kernel, (player_sound hreach).2.2.2.2.1⟩

/-- Where a response is shown with no way on, all that can happen is that showing it fails. -/
theorem frozen {e : PlayerEvent} {p' : Player} (hphase : p.phase = .revealed) (hactivities : p.activities = [])
    (hgo : p.canGoOn = false) (hstep : p.step e = some p') : e = .skipBroken ∨ ∃ ms, e = .wait ms := by
  cases e with
  | skipBroken => exact .inl rfl
  | wait ms => exact .inr ⟨ms, rfl⟩
  | _ => simp [Player.step, hphase, hgo, take_nil hactivities] at hstep

/-- **An exercise that is skipped while its answer is under way**: its response comes up on the exercise after it, with no
answer to show it with, and leaves nothing to do there but to skip that one too. -/
theorem skip_freezes :
    let p := Player.after bugThenSummary [.skip "u1", .skipBroken, .accept 0 ⟨7, .skipped, none⟩]
    p.currentIndex = 2 ∧ p.phase = .revealed ∧ p.attempt = some ⟨7, .skipped, none⟩ ∧ p.canGoOn = false ∧
      ∀ e p', p.step e = some p' → e = .skipBroken ∨ ∃ ms, e = .wait ms := by
  intro p
  have hphase : p.phase = .revealed := by decide +kernel
  have hactivities : p.activities = [] := by decide +kernel
  have hgo : p.canGoOn = false := by decide +kernel
  exact ⟨by decide +kernel, hphase, by decide +kernel, hgo, fun e p' => frozen hphase hactivities hgo⟩

end Results

end CodeReader.Frontend
