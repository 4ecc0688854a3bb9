import CodeReader.Txn.Prog

/-!
# Reviews

One review of each user, and a history of all that the user has sent.

* `Review`, `ReviewHistory` — the rows;
* `upsertReview` — the request, in the order of its statements: the review, its INSERT or its UPDATE, the row of the
  history, the commit, and the review once more;
* `WritesReview`, `Written` — what it writes to `reviews`.

`reviews.user_id` is unique: an INSERT waits for a transaction that writes the user's row, and so does an UPDATE.  Both
take one lock here.
-/

namespace CodeReader.Reviews

open Txn Prog

/-! ## The tables -/

abbrev UserId := Nat

/-- `CHECK (rating BETWEEN 1 AND 5)`. -/
abbrev Rating := { n : Nat // 1 ≤ n ∧ n ≤ 5 }

/-- A row of `reviews`. -/
structure Review where
  id : Nat
  userId : UserId
  rating : Rating
  body : Option String
  createdAt : Int
  updatedAt : Int
  deriving DecidableEq

/-- A row of `review_history`. -/
structure ReviewHistory where
  id : Nat
  userId : UserId
  rating : Rating
  body : Option String
  createdAt : Int
  deriving DecidableEq

structure ReviewDb where
  reviews : List Review
  reviewHistory : List ReviewHistory
  deriving DecidableEq

/-- The identity sequences: the ids that they gave last. -/
structure Sequences where
  reviews : Nat
  reviewHistory : Nat

inductive ReviewLock
  /-- The row of a user, or its place in the unique index. -/
  | review (userId : UserId)
  deriving DecidableEq

inductive ReviewTbl
  | reviews
  deriving DecidableEq

/-- What a request fails with. -/
inductive ReviewError
  | integrity (constraint : String)
  /-- `Could not refresh instance`. -/
  | invalidRequest
  deriving DecidableEq

abbrev App : Iface where
  Db := ReviewDb
  Kv := Sequences
  Lock := ReviewLock
  Tbl := ReviewTbl
  Ev := Empty
  Err := ReviewError

abbrev Handler := Prog App

/-! ## Requests -/

structure ReviewRequest where
  rating : Rating
  body : Option String
  deriving DecidableEq

structure ReviewResponse where
  rating : Rating
  body : Option String
  createdAt : Int
  updatedAt : Int
  deriving DecidableEq

def toResponse (review : Review) : ReviewResponse := ⟨review.rating, review.body, review.createdAt, review.updatedAt⟩

def Review.revised (r : Review) (payload : ReviewRequest) (now : Int) : Review :=
  { r with rating := payload.rating, body := payload.body, updatedAt := now }

namespace ReviewDb

def review (db : ReviewDb) (user : UserId) : Option Review := db.reviews.find? (·.userId == user)

def reviewById (db : ReviewDb) (id : Nat) : Option Review := db.reviews.find? (·.id == id)

/-- The INSERT of a review; the timestamps are `now()`. -/
def insertReview (db : ReviewDb) (id : Nat) (user : UserId) (payload : ReviewRequest) (now : Int) : ReviewDb :=
  { db with reviews := db.reviews ++ [⟨id, user, payload.rating, payload.body, now, now⟩] }

/-- The UPDATE of a review, with `touch_updated_at`. -/
def updateReview (db : ReviewDb) (user : UserId) (payload : ReviewRequest) (now : Int) : ReviewDb :=
  { db with reviews := db.reviews.map fun r => if r.userId = user then r.revised payload now else r }

def insertHistory (db : ReviewDb) (id : Nat) (user : UserId) (payload : ReviewRequest) (now : Int) : ReviewDb :=
  { db with reviewHistory := db.reviewHistory ++ [⟨id, user, payload.rating, payload.body, now⟩] }

end ReviewDb

def nextReviewId (seqs : Sequences) : Nat × Sequences := (seqs.reviews + 1, { seqs with reviews := seqs.reviews + 1 })

def nextHistoryId (seqs : Sequences) : Nat × Sequences :=
  (seqs.reviewHistory + 1, { seqs with reviewHistory := seqs.reviewHistory + 1 })

/-- The first statement of the flush: the id is drawn, and then the unique index decides. -/
def flushReview (user : UserId) (payload : ReviewRequest) (now : Int) : Handler Nat := do
  let id ← cmd nextReviewId
  lockOn (.review user)
  if ← query .reviews fun db => (db.review user).isSome then raise (.integrity "reviews_user_id_key")
  else
    update fun db => db.insertReview id user payload now
    return id

/-- The second one and the commit. -/
def commitHistory (user : UserId) (payload : ReviewRequest) (now : Int) : Handler Unit := do
  let historyId ← cmd nextHistoryId
  update fun db => db.insertHistory historyId user payload now
  commitTx

/-- `db.refresh(review)`. -/
def refreshReview (id : Nat) : Handler ReviewResponse := do
  match ← query .reviews fun db => db.reviewById id with
  | some review => return toResponse review
  | none => raise .invalidRequest

/-- `now` is the time at which the transaction begins. -/
def upsertReview (user : UserId) (payload : ReviewRequest) (now : Int) : Handler ReviewResponse := do
  match ← query .reviews fun db => db.review user with
  | none =>
    let id ← flushReview user payload now
    commitHistory user payload now
    refreshReview id
  | some review =>
    lockOn (.review user)
    update fun db => db.updateReview user payload now
    commitHistory user payload now
    refreshReview review.id

/-! ## What is committed -/

namespace ReviewDb

/-- The reviews of a user; the constraint allows one. -/
def reviewsOf (db : ReviewDb) (user : UserId) : List Review := db.reviews.filter (·.userId == user)

def historyOf (db : ReviewDb) (user : UserId) : List ReviewHistory := db.reviewHistory.filter (·.userId == user)

end ReviewDb

/-- What a row of the history says. -/
def ReviewHistory.content (h : ReviewHistory) : ReviewRequest := ⟨h.rating, h.body⟩

def Review.content (r : Review) : ReviewRequest := ⟨r.rating, r.body⟩

/-- The constraints: `UNIQUE (user_id)`, and ids of the history that the sequence has given. -/
structure ReviewDb.Ok (db : ReviewDb) (seqs : Sequences) : Prop where
  unique : ∀ user, (db.reviewsOf user).length ≤ 1
  numbered : ∀ h ∈ db.reviewHistory, h.id ≤ seqs.reviewHistory

/-- What is written to `reviews` before the commit. -/
inductive WritesReview (user : UserId) (payload : ReviewRequest) (now : Int) (db : ReviewDb) : ReviewDb → Prop
  | insert (id : Nat) : db.reviewsOf user = [] → WritesReview user payload now db (db.insertReview id user payload now)
  | update : db.reviewsOf user ≠ [] → WritesReview user payload now db (db.updateReview user payload now)

/-- Rows stay, with their ids and their users. -/
def RowsStay (db db' : ReviewDb) : Prop := ∀ r ∈ db.reviews, ∃ r' ∈ db'.reviews, r'.id = r.id ∧ r'.userId = r.userId

section Written

variable {db db' : ReviewDb} {user : UserId} {payload : ReviewRequest} {id : Nat} {now : Int}

theorem review_eq_none : db.review user = none ↔ db.reviewsOf user = [] := by
  simp [ReviewDb.review, ReviewDb.reviewsOf, List.filter_eq_nil_iff]

theorem mem_reviewsOf {r : Review} : r ∈ db.reviewsOf user ↔ r ∈ db.reviews ∧ r.userId = user := by
  simp [ReviewDb.reviewsOf]

theorem review_some {r : Review} (h : db.review user = some r) : r ∈ db.reviews ∧ r.userId = user :=
  ⟨List.mem_of_find?_eq_some h, by simpa using List.find?_some h⟩

/-- A row that is there is found by its id. -/
theorem reviewById_ne_none (h : ∃ r ∈ db.reviews, r.id = id) : db.reviewById id ≠ none := by
  obtain ⟨r, hr, hid⟩ := h
  simpa [ReviewDb.reviewById] using ⟨r, hr, hid⟩

theorem RowsStay.refl (db : ReviewDb) : RowsStay db db := fun r hr => ⟨r, hr, rfl, rfl⟩

theorem RowsStay.trans {db'' : ReviewDb} (h : RowsStay db db') (h' : RowsStay db' db'') : RowsStay db db'' := by
  intro r hr
  obtain ⟨r₁, hr₁, hid₁, hu₁⟩ := h r hr
  obtain ⟨r₂, hr₂, hid₂, hu₂⟩ := h' r₁ hr₁
  exact ⟨r₂, hr₂, hid₂.trans hid₁, hu₂.trans hu₁⟩

/-- A user who has a review keeps one. -/
theorem RowsStay.reviewsOf_ne_nil (h : RowsStay db db') (hdb : db.reviewsOf user ≠ []) : db'.reviewsOf user ≠ [] := by
  obtain ⟨r, hr⟩ := List.exists_mem_of_ne_nil _ hdb
  obtain ⟨hmem, hu⟩ := mem_reviewsOf.mp hr
  obtain ⟨r', hr', -, hu'⟩ := h r hmem
  exact List.ne_nil_of_mem (mem_reviewsOf.mpr ⟨hr', hu'.trans hu⟩)

theorem reviewsOf_insertReview (v : UserId) : (db.insertReview id user payload now).reviewsOf v =
    db.reviewsOf v ++ if user = v then [⟨id, user, payload.rating, payload.body, now, now⟩] else [] := by
  rw [ReviewDb.reviewsOf, ReviewDb.insertReview, List.filter_append]
  by_cases hv : user = v <;> simp [ReviewDb.reviewsOf, hv]

theorem reviewsOf_updateReview (v : UserId) : (db.updateReview user payload now).reviewsOf v =
    (db.reviewsOf v).map fun r => if user = v then r.revised payload now else r := by
  have huser : ∀ r : Review, (if r.userId = user then r.revised payload now else r).userId = r.userId := by
    intro r
    split <;> rfl
  simp only [ReviewDb.reviewsOf, ReviewDb.updateReview, List.filter_map, Function.comp_def, huser]
  refine List.map_congr_left fun r hr => ?_
  have hv : r.userId = v := by simpa using (List.mem_filter.mp hr).2
  simp only [hv, eq_comm]

/-- The user's review is the one that is sent; the other reviews, the rows and the history stay. -/
structure Written (user : UserId) (payload : ReviewRequest) (db db' : ReviewDb) : Prop where
  review : ∃ r, db'.reviewsOf user = [r] ∧ r.content = payload
  others : ∀ v, v ≠ user → db'.reviewsOf v = db.reviewsOf v
  rows : RowsStay db db'
  history : db'.reviewHistory = db.reviewHistory

theorem WritesReview.written (h : WritesReview user payload now db db') (hone : (db.reviewsOf user).length ≤ 1) :
    Written user payload db db' := by
  cases h with
  | insert id hnone =>
    refine ⟨⟨⟨id, user, payload.rating, payload.body, now, now⟩, ?_, rfl⟩, fun v hv => ?_,
      fun r hr => ⟨r, List.mem_append_left _ hr, rfl, rfl⟩, rfl⟩
    · rw [reviewsOf_insertReview, hnone, if_pos rfl]
      rfl
    · rw [reviewsOf_insertReview, if_neg (Ne.symm hv), List.append_nil]
  | update hsome =>
    refine ⟨?_, fun v hv => ?_, fun r hr => ?_, rfl⟩
    · obtain ⟨r, hr⟩ := List.length_eq_one_iff.mp (Nat.le_antisymm hone (List.length_pos_iff.mpr hsome))
      rw [reviewsOf_updateReview, hr, List.map_singleton, if_pos rfl]
      exact ⟨_, rfl, rfl⟩
    · simp only [reviewsOf_updateReview, if_neg (Ne.symm hv), List.map_id']
    · refine ⟨_, List.mem_map_of_mem hr, ?_⟩
      split <;> exact ⟨rfl, rfl⟩

end Written

end CodeReader.Reviews
