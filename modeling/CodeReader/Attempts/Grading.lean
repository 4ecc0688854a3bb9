import CodeReader.Exercises.Service
import CodeReader.Text.Json

/-!
# Deterministic grading

`validate_answer_shape` and `grade_deterministic`: an answer is read by the type of its exercise, and compared with the
grading object of the row.

* `Answer`, `validateAnswerShape` — the answers, and how one is read from the body of a request;
* `gradeDeterministic` — the verdict, none for an honest skip.
-/

namespace CodeReader.Attempts

open Text

inductive GradingError
  | answerShape (message : String)
  | unsupportedType (message : String)
  | keyError (key : String)
  | typeError
  deriving DecidableEq

/-- An answer of one of the accepted shapes. -/
inductive Answer
  | skipped
  | lineSelect (line : Int) (reasonId : String)
  | choice (choiceId : String)
  deriving DecidableEq

/-- `isinstance(value, int)`, which a truth value is too. -/
def readInt : Json → Option Int
  | .int n => some n
  | .bool b => some b.toNat
  | _ => none

def readStr : Json → Option String
  | .str s => some s
  | _ => none

/-- `set(answer) == names`. -/
def hasKeys (names : List String) (answer : List (String × Json)) : Bool :=
  answer.all (fun f => names.contains f.1) && names.all fun name => answer.any (·.1 == name)

/-- The one honest-skip shape. -/
def isSkipAnswer (answer : List (String × Json)) : Bool :=
  hasKeys ["skipped"] answer && match Json.get? "skipped" (.obj answer) with
    | some (.bool true) => true
    | _ => false

def unsupported (exerciseType : String) : GradingError :=
  .unsupportedType s!"deterministic grading does not support exercise type '{exerciseType}'"

def validateAnswerShape (exerciseType : String) (answer : List (String × Json)) : Except GradingError Answer :=
  if exerciseType = "spot_the_bug" then
    if isSkipAnswer answer then .ok .skipped
    else if hasKeys ["line", "reason_id"] answer then
      match (Json.get? "line" (.obj answer)).bind readInt, (Json.get? "reason_id" (.obj answer)).bind readStr with
      | some line, some reasonId => .ok (.lineSelect line reasonId)
      | _, _ => .error (.answerShape "spot_the_bug answer needs an int line and a string reason_id")
    else .error (.answerShape "spot_the_bug answer requires exactly \x7bline, reason_id\x7d")
  else if exerciseType = "trace" ∨ exerciseType = "predict_the_fix" then
    if isSkipAnswer answer then .ok .skipped
    else if hasKeys ["choice_id"] answer then
      match (Json.get? "choice_id" (.obj answer)).bind readStr with
      | some choiceId => .ok (.choice choiceId)
      | none => .error (.answerShape (exerciseType ++ " answer requires a string choice_id"))
    else .error (.answerShape (exerciseType ++ " answer requires exactly \x7bchoice_id\x7d"))
  else .error (unsupported exerciseType)

/-- The stored grading object. -/
def gradingOf (e : Exercise) : Json := (Json.loads e.grading).getD .null

/-- `line in grading.get("correct_lines", [])`. -/
def lineIn (line : Int) (grading : Json) : Except GradingError Bool :=
  match grading.get? "correct_lines" with
  | none => .ok false
  | some (.arr items) => .ok (items.any fun item => readInt item == some line)
  | some _ => .error .typeError

/-- `text == grading.get(key)`. -/
def textIs (text : String) (key : String) (grading : Json) : Bool := (grading.get? key).bind readStr == some text

def gradeSpotTheBug (answer : Answer) (grading : Json) : Except GradingError Bool :=
  match answer with
  | .lineSelect line reasonId => (lineIn line grading).map fun isLine => isLine && textIs reasonId "correct_reason_id" grading
  | _ => .error (.keyError "line")

def gradeChoice (answer : Answer) (grading : Json) : Except GradingError Bool :=
  match answer with
  | .choice choiceId => .ok (textIs choiceId "correct_choice_id" grading)
  | _ => .error (.keyError "choice_id")

def gradeDeterministic (e : Exercise) (answer : Answer) : Except GradingError (Option Bool) :=
  if answer = .skipped then .ok none
  else if e.type = "spot_the_bug" then (gradeSpotTheBug answer (gradingOf e)).map some
  else if e.type = "trace" ∨ e.type = "predict_the_fix" then (gradeChoice answer (gradingOf e)).map some
  else .error (unsupported e.type)

/-! ## What a request gets -/

/-- The verdict on the answer in a request. -/
def verdictOf (e : Exercise) (answer : List (String × Json)) : Except GradingError (Option Bool) :=
  (validateAnswerShape e.type answer).bind (gradeDeterministic e)

/-- The answer is of an accepted shape, and marked correct. -/
def MarkedCorrect (e : Exercise) (answer : List (String × Json)) : Prop := verdictOf e answer = .ok (some true)

instance (e : Exercise) (answer : List (String × Json)) : Decidable (MarkedCorrect e answer) := by
  unfold MarkedCorrect
  infer_instance

/-- A line and a reason as the client sends them. -/
def lineAnswer (line : Int) (reasonId : String) : List (String × Json) :=
  [("line", .int line), ("reason_id", .str reasonId)]

def choiceAnswer (choiceId : String) : List (String × Json) := [("choice_id", .str choiceId)]

theorem validateAnswerShape_lineAnswer (line : Int) (reasonId : String) :
    validateAnswerShape "spot_the_bug" (lineAnswer line reasonId) = .ok (.lineSelect line reasonId) := rfl

theorem validateAnswerShape_choiceAnswer {exerciseType : String} (h : exerciseType = "trace" ∨ exerciseType = "predict_the_fix")
    (choiceId : String) : validateAnswerShape exerciseType (choiceAnswer choiceId) = .ok (.choice choiceId) := by
  obtain rfl | rfl := h <;> rfl

/-- **A line and a reason are marked correct** if the line is one of the key's, and the reason the key's. -/
theorem markedCorrect_lineAnswer {e : Exercise} {line : Int} {reasonId : String} (htype : e.type = "spot_the_bug") :
    MarkedCorrect e (lineAnswer line reasonId) ↔
      lineIn line (gradingOf e) = .ok true ∧ textIs reasonId "correct_reason_id" (gradingOf e) = true := by
  have hverdict : verdictOf e (lineAnswer line reasonId) =
      (gradeSpotTheBug (.lineSelect line reasonId) (gradingOf e)).map some := by
    rw [verdictOf, htype, validateAnswerShape_lineAnswer]
    change gradeDeterministic e _ = _
    rw [gradeDeterministic, if_neg nofun, if_pos htype]
  rw [MarkedCorrect, hverdict, gradeSpotTheBug]
  cases lineIn line (gradingOf e) with
  | error err => exact ⟨nofun, fun h => nomatch h.1⟩
  | ok isLine => cases isLine <;> cases textIs reasonId "correct_reason_id" (gradingOf e) <;> decide

/-- **A choice is marked correct** if it is the key's. -/
theorem markedCorrect_choiceAnswer {e : Exercise} {choiceId : String} (htype : e.type = "trace" ∨ e.type = "predict_the_fix") :
    MarkedCorrect e (choiceAnswer choiceId) ↔ textIs choiceId "correct_choice_id" (gradingOf e) = true := by
  have hne : e.type ≠ "spot_the_bug" := by
    obtain h | h := htype <;> rw [h] <;> decide
  have hverdict : verdictOf e (choiceAnswer choiceId) = .ok (some (textIs choiceId "correct_choice_id" (gradingOf e))) := by
    rw [verdictOf, validateAnswerShape_choiceAnswer htype]
    change gradeDeterministic e _ = _
    rw [gradeDeterministic, if_neg nofun, if_neg hne, if_pos htype]
    rfl
  rw [MarkedCorrect, hverdict]
  cases textIs choiceId "correct_choice_id" (gradingOf e) <;> decide

/-- What a correct answer of any shape says. -/
theorem exists_of_markedCorrect {e : Exercise} {answer : List (String × Json)} (h : MarkedCorrect e answer)
    (htype : e.type = "spot_the_bug") : ∃ line, lineIn line (gradingOf e) = .ok true := by
  unfold MarkedCorrect verdictOf at h
  cases hshape : validateAnswerShape e.type answer with
  | error err =>
    rw [hshape] at h
    cases h
  | ok a =>
    rw [hshape] at h
    change gradeDeterministic e a = _ at h
    rw [gradeDeterministic] at h
    cases a with
    | skipped => cases h
    | choice choiceId =>
      rw [if_neg nofun, if_pos htype] at h
      cases h
    | lineSelect line reasonId =>
      rw [if_neg nofun, if_pos htype, gradeSpotTheBug] at h
      refine ⟨line, ?_⟩
      cases hline : lineIn line (gradingOf e) with
      | error err =>
        rw [hline] at h
        cases h
      | ok isLine =>
        rw [hline] at h
        cases isLine with
        | false => cases h
        | true => rfl

end CodeReader.Attempts
