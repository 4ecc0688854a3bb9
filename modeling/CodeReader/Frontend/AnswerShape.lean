import CodeReader.Frontend.Player
import CodeReader.Attempts.Grading

/-!
# The shapes of answers, at both ends

The player lets an answer go out when it is valid there; the server checks its shape again.

* `Answer.json` — the answer as it is sent;
* `validateSummarizeAnswerShape`, `acceptsShape` — the server's checks;
* `isValid_iff` — **both ends agree**, for texts without the characters that only one of them takes for a blank;
* `sent_accepted` — what the player sends, in any run, passes the check of the server.
-/

namespace CodeReader.Attempts

open Text

/-- `CONTRACT_MAX_WORDS`. -/
def contractMaxWords : Int := 60

/-- `text.split()`. -/
def splitWords (text : List Char) : List (List Char) := (text.splitOnP isWhitespace).filter (· ≠ [])

/-- `validate_summarize_answer_shape`, of the stored payload. -/
def validateSummarizeAnswerShape (payload : Json) (answer : List (String × Json)) : Except GradingError String :=
  if hasKeys ["text"] answer then
    match (Json.get? "text" (.obj answer)).bind readStr with
    | some text =>
      if strip text.toList = [] then .error (.answerShape "summarize answer requires a non-empty string text")
      else
        match readInt ((payload.get? "max_words").getD (.int contractMaxWords)) with
        | some maxWords =>
          let wordCount := (splitWords text.toList).length
          if maxWords < wordCount then
            .error (.answerShape s!"summarize answer exceeds max_words ({wordCount} > {maxWords})")
          else .ok text
        | none => .error .typeError
    | none => .error (.answerShape "summarize answer requires a non-empty string text")
  else .error (.answerShape "summarize answer requires exactly \x7btext\x7d")

end CodeReader.Attempts

namespace CodeReader.Frontend

open Text Attempts

/-! ## Blanks -/

section Blanks

variable {text : List Char}

/-- No character that only one end takes for a blank. -/
def PlainBlanks (text : List Char) : Prop := ∀ c ∈ text, c.toNat ∉ [0x1C, 0x1D, 0x1E, 0x1F, 0x85, 0xFEFF]

theorem isSpaceJs_eq {c : Char} (h : c.toNat ∉ [0x1C, 0x1D, 0x1E, 0x1F, 0x85, 0xFEFF]) : isSpaceJs c = isWhitespace c := by
  simp only [List.mem_cons, List.not_mem_nil, or_false, not_or] at h
  rw [Bool.eq_iff_iff]
  simp only [isSpaceJs, isWhitespace, isLineBreak, Bool.or_eq_true, Bool.and_eq_true, List.contains_iff_mem, List.mem_cons,
    List.not_mem_nil, or_false, decide_eq_true_eq]
  omega

theorem PlainBlanks.eq (h : PlainBlanks text) : ∀ c ∈ text, isSpaceJs c = isWhitespace c := fun c hc => isSpaceJs_eq (h c hc)

theorem PlainBlanks.subset {text' : List Char} (h : PlainBlanks text) (hsub : text' ⊆ text) : PlainBlanks text' :=
  fun c hc => h c (hsub hc)

/-- Splitting is by what a predicate says of the characters there are. -/
theorem splitOnP_congr {p q : Char → Bool} (h : ∀ c ∈ text, p c = q c) : text.splitOnP p = text.splitOnP q := by
  induction text with
  | nil => rfl
  | cons c text ih =>
    rw [List.splitOnP_cons_eq_if_modifyHead, List.splitOnP_cons_eq_if_modifyHead, h c (List.mem_cons_self ..),
      ih fun d hd => h d (List.mem_cons_of_mem _ hd)]

theorem wordCount_eq (h : PlainBlanks text) : wordCount text = (splitWords text).length := by
  unfold wordCount splitWords
  rw [splitOnP_congr h.eq]

theorem trimJs_subset (text : List Char) : trimJs text ⊆ text := fun _ hc =>
  (List.dropWhile_sublist _).subset ((List.rdropWhile_prefix _ _).subset hc)

/-- A text that ends in no blank, and has nothing left at the other end, is empty. -/
theorem eq_nil_of_strip (h : PlainBlanks text) (hne : ∀ hne : text ≠ [], isSpaceJs (text.getLast hne) = false)
    (hstrip : strip text = []) : text = [] := by
  by_contra htext
  have hlast := hne htext
  rw [h.eq _ (List.getLast_mem htext)] at hlast
  have hall : ∀ c ∈ text, isWhitespace c = true := by
    have hdrop : ∀ c ∈ text.dropWhile isWhitespace, isWhitespace c = true := List.rdropWhile_eq_nil_iff.mp hstrip
    refine List.dropWhile_eq_nil_iff.mp ?_
    by_contra hrest
    have hhead := List.head_dropWhile_not isWhitespace hrest
    rw [hdrop _ (List.head_mem hrest)] at hhead
    cases hhead
  rw [hall _ (List.getLast_mem htext)] at hlast
  cases hlast

/-- What is left of a text is not blank, at either end. -/
theorem strip_trimJs (h : PlainBlanks (trimJs text)) : strip (trimJs text) = [] ↔ trimJs text = [] := by
  refine ⟨eq_nil_of_strip h fun hne => ?_, fun htrim => by rw [htrim]; rfl⟩
  exact Bool.eq_false_iff.mpr (List.rdropWhile_last_not isSpaceJs (text.dropWhile isSpaceJs) hne)

end Blanks

/-! ## Answers -/

def ExerciseType.name : ExerciseType → String
  | .spotTheBug => "spot_the_bug"
  | .trace => "trace"
  | .predictTheFix => "predict_the_fix"
  | .summarize => "summarize"

/-- The answer as it is sent. -/
def Answer.json : Answer → List (String × Json)
  | .line n reasonId => lineAnswer n reasonId
  | .choice choiceId => choiceAnswer choiceId
  | .text written => [("text", .str (String.ofList written))]
  | .skipped => [("skipped", .bool true)]

/-- The server's check of the shape, by the type of the exercise. -/
def acceptsShape (type : ExerciseType) (payload : Json) (answer : List (String × Json)) : Bool :=
  match type with
  | .summarize => (validateSummarizeAnswerShape payload answer).isOk
  | type => (validateAnswerShape type.name answer).isOk

/-- The bound that the server takes from the payload is the one that the client got. -/
def SameBound (payload : Json) (e : SessionExercise) : Prop :=
  readInt ((payload.get? "max_words").getD (.int contractMaxWords)) = some (e.maxWords.getD 60)

section Shapes

variable {payload : Json} {e : SessionExercise} {d : Draft} {text : List Char}

theorem accepts_line (payload : Json) (line : Nat) (reasonId : String) :
    acceptsShape .spotTheBug payload (Answer.line line reasonId).json = true := rfl

theorem accepts_choice (payload : Json) (choiceId : String) :
    acceptsShape .trace payload (Answer.choice choiceId).json = true ∧
      acceptsShape .predictTheFix payload (Answer.choice choiceId).json = true := ⟨rfl, rfl⟩

theorem accepts_skipped {type : ExerciseType} (htype : type ≠ .summarize) (payload : Json) :
    acceptsShape type payload Answer.skipped.json = true := by
  cases type with
  | summarize => exact absurd rfl htype
  | _ => rfl

theorem accepts_text (hbound : SameBound payload e) (hplain : PlainBlanks text) :
    acceptsShape .summarize payload (Answer.text text).json = true ↔
      strip text ≠ [] ∧ (wordCount text : Int) ≤ e.maxWords.getD 60 := by
  have hcheck : validateSummarizeAnswerShape payload (Answer.text text).json =
      if strip text = [] then .error (.answerShape "summarize answer requires a non-empty string text")
      else if e.maxWords.getD 60 < (splitWords text).length then
        .error (.answerShape s!"summarize answer exceeds max_words ({(splitWords text).length} > {e.maxWords.getD 60})")
      else .ok (String.ofList text) := by
    unfold validateSummarizeAnswerShape
    have hget : (Json.get? "text" (.obj (Answer.text text).json)).bind readStr = some (String.ofList text) := rfl
    have hkeys : hasKeys ["text"] (Answer.text text).json = true := rfl
    rw [if_pos hkeys, hget]
    dsimp only
    rw [show readInt _ = _ from hbound, String.toList_ofList]
  unfold acceptsShape
  dsimp only
  rw [hcheck, wordCount_eq hplain]
  split
  · rename_i hblank
    exact iff_of_false Bool.false_ne_true fun h => h.1 hblank
  · rename_i hblank
    split
    · rename_i hlong
      exact iff_of_false Bool.false_ne_true fun h => Int.not_le.mpr hlong h.2
    · rename_i hshort
      exact iff_of_true rfl ⟨hblank, Int.not_lt.mp hshort⟩

/-- What the page can give passes the check. -/
theorem accepts_givable {answer : Answer} (h : Givable e answer) (hbound : e.type = .summarize → SameBound payload e)
    (hplain : ∀ text, answer = .text text → PlainBlanks text) : acceptsShape e.type payload answer.json = true := by
  rcases h with ⟨htype, rfl⟩ | ⟨d, hvalid, hanswer⟩
  · exact accepts_skipped htype payload
  · unfold Player.isValid at hvalid
    unfold Player.answerOf at hanswer
    cases htype : e.type with
    | spotTheBug =>
      rw [htype] at hanswer
      obtain ⟨range, -, hanswer⟩ := Option.bind_eq_some_iff.mp hanswer
      obtain ⟨reasonId, -, rfl⟩ := Option.map_eq_some_iff.mp hanswer
      exact accepts_line payload range.start.line reasonId
    | trace =>
      rw [htype] at hanswer
      obtain ⟨choiceId, -, rfl⟩ := Option.map_eq_some_iff.mp hanswer
      exact (accepts_choice payload choiceId).1
    | predictTheFix =>
      rw [htype] at hanswer
      obtain ⟨choiceId, -, rfl⟩ := Option.map_eq_some_iff.mp hanswer
      exact (accepts_choice payload choiceId).2
    | summarize =>
      rw [htype] at hanswer hvalid
      cases hanswer
      have hplain' := hplain _ rfl
      simp only [Bool.and_eq_true, decide_eq_true_eq] at hvalid
      refine (accepts_text (hbound htype) hplain').mpr ⟨fun hblank => ?_, hvalid.2⟩
      exact hvalid.1 ((strip_trimJs hplain').mp hblank)

/-- What the player sends. -/
theorem sent_accepted {exercises : List SessionExercise} {keysByExercise : String → Option String} {now : Int} {p : Player}
    (payloads : String → Int → Json) (h : PlayerReach Calm (Player.load exercises keysByExercise now) p)
    (hbound : ∀ e ∈ exercises, e.type = .summarize → SameBound (payloads e.exerciseId e.version) e) :
    ∀ s ∈ p.sent, (∀ text, s.2.answer = .text text → PlainBlanks text) →
      ∃ e ∈ exercises, e.exerciseId = s.2.exerciseId ∧ e.version = s.2.exerciseVersion ∧
        acceptsShape e.type (payloads e.exerciseId e.version) s.2.answer.json = true := by
  intro s hs hplain
  obtain ⟨-, e, he, hid, hversion, hgivable⟩ := (player_ok h).sent s hs
  rw [player_exercises h] at he
  exact ⟨e, he, hid, hversion, accepts_givable hgivable (hbound e he) hplain⟩

/-! ### A summary of two words -/

def twoWords : SessionExercise := ⟨"c", 1, .summarize, some 2, false⟩

def twoWordsPayload : Json := .obj [("max_words", .int 2)]

def summaryDraft (text : String) : Draft := ⟨none, none, none, text.toList⟩

/-- A separator of files, which only the server takes for a blank: what the player lets out is refused. -/
theorem separator_refused :
    Player.isValid { twoWords with maxWords := some 1 } (summaryDraft "one\x1cword") = true ∧
      acceptsShape .summarize (.obj [("max_words", .int 1)]) (Answer.text "one\x1cword".toList).json = false := by
  decide +kernel

end Shapes

end CodeReader.Frontend
