import CodeReader.Core.Calendar
import CodeReader.Email.Deliveries
import CodeReader.Ledger.Batch

/-!
# Who is due for a notification

A tick of a job takes the first users that its query selects, and then looks at the clock of each.

* `Reminders.findCandidates`, `WeeklyEmail.findCandidates` — the candidates of a tick;
* `Tick.due` — due at a tick, as far as the user is concerned;
* `swept_iff` — **the result**: the users due throughout a window become candidates if and only if each of them has, at
  some tick, fewer than a batch of selected users before it;
* `due_never_found` — what happens otherwise.
-/

namespace CodeReader.Email

/-- The settings of the jobs, and the zone database: `resolves` are the zones that it knows. -/
structure JobSettings where
  tz : TzDb
  resolves : String → Bool
  /-- `EMAIL_JOB_BATCH_SIZE`. -/
  batchSize : Nat
  recapLocalWeekday : Int
  recapLocalHour : Int

/-- A user the job believes is due. -/
structure Candidate where
  userId : UserId
  email : String
  periodKey : String
  deriving DecidableEq

/-- `eligible_recipients`: the address at which the user may be mailed. -/
def User.mailable (u : User) : Bool := u.email.isSome && u.emailVerifiedAt.isSome && u.deletedAt.isNone

def reminderPeriodKey (localDate : Int) : String := isoformat localDate

def recapPeriodKey (localDate : Int) : String :=
  let (year, week) := isocalendar localDate
  s!"{year}-W{zeroPad 2 week}"

/-- A tick: the users that the query selects, in the order of their ids and up to the limit, and of these the ones that
are due at this hour. -/
def findCandidates (batchSize : Nat) (selected : User → Bool) (period : User → Option String) (db : EmailDb) :
    List Candidate :=
  (Ledger.batch User.id batchSize (db.users.filter selected)).filterMap fun u =>
    match u.email, period u with
    | some email, some periodKey => some ⟨u.id, email, periodKey⟩
    | _, _ => none

/-- The period that the user is due for, at an instant whose local date and time are given. -/
def User.periodIn (settings : JobSettings) (now : Int) (u : User) (period : Int → Int → Option String) :
    Option String :=
  if settings.resolves u.timezone then
    period (localDateFor settings.tz u.timezone now) (localTimeFor settings.tz u.timezone now)
  else none

namespace Reminders

def selected (db : EmailDb) (u : User) : Bool :=
  u.mailable && u.reminderLocalTime.isSome && !db.optedOut u.id .reminder

/-- The day to remind the user of: one on which it has not practised, from its reminder time on. -/
def period (settings : JobSettings) (lastActive : UserId → Option Int) (now : Int) (u : User) : Option String :=
  u.periodIn settings now fun localDate localTime =>
    if (lastActive u.id).any (localDate ≤ ·) then none
    else if u.reminderLocalTime.any (localTime < ·) then none
    else some (reminderPeriodKey localDate)

def findCandidates (settings : JobSettings) (lastActive : UserId → Option Int) (now : Int) (db : EmailDb) :
    List Candidate :=
  Email.findCandidates settings.batchSize (selected db) (period settings lastActive now) db

end Reminders

namespace WeeklyEmail

def selected (db : EmailDb) (u : User) : Bool := u.mailable && !db.optedOut u.id .recap

/-- The week to report in: on its weekday, from the hour on. -/
def period (settings : JobSettings) (now : Int) (u : User) : Option String :=
  u.periodIn settings now fun localDate localTime =>
    if weekday localDate ≠ settings.recapLocalWeekday then none
    else if localTime / hours 1 < settings.recapLocalHour then none
    else some (recapPeriodKey localDate)

def findCandidates (settings : JobSettings) (now : Int) (db : EmailDb) : List Candidate :=
  Email.findCandidates settings.batchSize (selected db) (period settings now) db

end WeeklyEmail

/-! ## Ticks -/

/-- When a job runs, and what it finds. -/
structure Tick where
  db : EmailDb
  lastActive : UserId → Option Int
  now : Int

namespace Tick

/-- What the query of a kind selects. -/
def selected (t : Tick) : Kind → User → Bool
  | .reminder => Reminders.selected t.db
  | .recap => WeeklyEmail.selected t.db

def period (t : Tick) (settings : JobSettings) : Kind → User → Option String
  | .reminder => Reminders.period settings t.lastActive t.now
  | .recap => WeeklyEmail.period settings t.now

def candidates (t : Tick) (settings : JobSettings) : Kind → List Candidate
  | .reminder => Reminders.findCandidates settings t.lastActive t.now t.db
  | .recap => WeeklyEmail.findCandidates settings t.now t.db

/-- The user is due, as far as it is concerned. -/
def due (t : Tick) (settings : JobSettings) (kind : Kind) (id : UserId) : Bool :=
  t.db.users.any fun u => u.id == id && t.selected kind u && (t.period settings kind u).isSome

/-- The selected users before user `id`. -/
def before (t : Tick) (kind : Kind) (id : UserId) : Nat := t.db.users.countP fun u => t.selected kind u && u.id < id

end Tick

/-- The users that are due at every tick. -/
def dueThroughout (settings : JobSettings) (kind : Kind) (ticks : List Tick) : List UserId :=
  match ticks.head? with
  | none => []
  | some t => (t.db.users.map User.id).filter fun id => ticks.all fun t => t.due settings kind id

/-- The batches of the ticks have room for the users that are due at every tick. -/
abbrev HasRoom (settings : JobSettings) (kind : Kind) (ticks : List Tick) : Prop :=
  (dueThroughout settings kind ticks).length ≤ ticks.length * settings.batchSize

/-- Where the batches have room, everyone who is due throughout becomes a candidate. -/
def Swept (settings : JobSettings) (kind : Kind) (ticks : List Tick) : Prop :=
  HasRoom settings kind ticks → ∀ id ∈ dueThroughout settings kind ticks,
    ∃ t ∈ ticks, ∃ c ∈ t.candidates settings kind, c.userId = id

section Batches

variable {settings : JobSettings} {kind : Kind} {ticks : List Tick} {t : Tick} {id : UserId} {db : EmailDb}
  {batchSize : Nat} {sel : User → Bool} {period : User → Option String}

/-- A user is a candidate when it is due and in the batch. -/
theorem mem_findCandidates (hids : (db.users.map User.id).Nodup) (hsel : ∀ u, sel u = true → u.mailable = true) :
    (∃ c ∈ findCandidates batchSize sel period db, c.userId = id) ↔
      (∃ u ∈ db.users, u.id = id ∧ sel u = true ∧ (period u).isSome = true) ∧
        db.users.countP (fun u => sel u && u.id < id) < batchSize := by
  have hids' : ((db.users.filter sel).map User.id).Nodup := hids.sublist (List.filter_sublist.map _)
  have hcount : ∀ u : User, (db.users.filter sel).countP (fun b => decide (b.id < u.id)) =
      db.users.countP fun b => sel b && decide (b.id < u.id) := by
    intro u
    rw [List.countP_filter]
    refine List.countP_congr fun b _ => ?_
    rw [Bool.and_comm]
  simp only [findCandidates, List.mem_filterMap]
  constructor
  · rintro ⟨c, ⟨u, hu, hc⟩, rfl⟩
    obtain ⟨hmem, hlt⟩ := (Ledger.mem_batch hids').mp hu
    obtain ⟨hmem, hselu⟩ := List.mem_filter.mp hmem
    split at hc
    · rename_i email key he hk
      cases hc
      refine ⟨⟨u, hmem, rfl, hselu, ?_⟩, hcount u ▸ hlt⟩
      rw [hk]
      rfl
    · cases hc
  · rintro ⟨⟨u, hmem, rfl, hselu, hp⟩, hlt⟩
    obtain ⟨key, hkey⟩ := Option.isSome_iff_exists.mp hp
    have hmail := hsel u hselu
    rw [User.mailable, Bool.and_eq_true, Bool.and_eq_true] at hmail
    obtain ⟨email, hemail⟩ := Option.isSome_iff_exists.mp hmail.1.1
    refine ⟨⟨u.id, email, key⟩, ⟨u, (Ledger.mem_batch hids').mpr ⟨List.mem_filter.mpr ⟨hmem, hselu⟩, ?_⟩, ?_⟩, rfl⟩
    · rw [hcount]
      exact hlt
    · rw [hemail, hkey]

/-- A user is a candidate of a tick when it is due and fewer than a batch of selected users are before it. -/
theorem Tick.candidate_iff (hids : (t.db.users.map User.id).Nodup) :
    (∃ c ∈ t.candidates settings kind, c.userId = id) ↔
      t.due settings kind id = true ∧ t.before kind id < settings.batchSize := by
  have hdue : t.due settings kind id = true ↔
      ∃ u ∈ t.db.users, u.id = id ∧ t.selected kind u = true ∧ (t.period settings kind u).isSome = true := by
    simp only [due, List.any_eq_true, Bool.and_eq_true, beq_iff_eq, and_assoc]
  rw [hdue]
  cases kind with
  | reminder =>
    refine mem_findCandidates hids fun u hu => ?_
    rw [Reminders.selected, Bool.and_eq_true, Bool.and_eq_true] at hu
    exact hu.1.1
  | recap => exact mem_findCandidates hids fun u hu => (Bool.and_eq_true_iff.mp hu).1

theorem mem_dueThroughout {ts : List Tick} : id ∈ dueThroughout settings kind (t :: ts) ↔
    id ∈ t.db.users.map User.id ∧ ∀ t' ∈ t :: ts, t'.due settings kind id = true := by
  rw [dueThroughout, List.head?_cons, List.mem_filter, List.all_eq_true]

theorem due_of_throughout (h : id ∈ dueThroughout settings kind ticks) (ht : t ∈ ticks) :
    t.due settings kind id = true := by
  cases ticks with
  | nil => cases ht
  | cons t' ts => exact (mem_dueThroughout.mp h).2 t ht

/-- **Batches of due users**: they become candidates if and only if each of them has, at some tick, fewer than a batch
of selected users before it. -/
theorem swept_iff (hids : ∀ t ∈ ticks, (t.db.users.map User.id).Nodup) :
    Swept settings kind ticks ↔ (HasRoom settings kind ticks → ∀ id ∈ dueThroughout settings kind ticks,
      ∃ t ∈ ticks, t.before kind id < settings.batchSize) := by
  refine imp_congr_right fun _ => forall₂_congr fun id hid => exists_congr fun t => and_congr_right fun ht => ?_
  rw [Tick.candidate_iff (hids t ht), and_iff_right (due_of_throughout hid ht)]

/-- A user that is due throughout and always behind a batch of others is not found. -/
theorem not_swept (hids : ∀ t ∈ ticks, (t.db.users.map User.id).Nodup) (hroom : HasRoom settings kind ticks)
    (hid : id ∈ dueThroughout settings kind ticks) (hbehind : ∀ t ∈ ticks, settings.batchSize ≤ t.before kind id) :
    ¬ Swept settings kind ticks := by
  intro h
  obtain ⟨t, ht, hc⟩ := h hroom id hid
  have hlt := ((Tick.candidate_iff (hids t ht)).mp hc).2
  exact absurd hlt (Nat.not_lt.mpr (hbehind t ht))

/-- There is room when all users together fit in. -/
theorem hasRoom_of_length (h : ∀ t ∈ ticks, t.db.users.length ≤ ticks.length * settings.batchSize) :
    HasRoom settings kind ticks := by
  unfold HasRoom dueThroughout
  split
  · exact Nat.zero_le _
  · rename_i t ht
    calc _ ≤ (t.db.users.map User.id).length := List.length_filter_le _ _
      _ = t.db.users.length := List.length_map _
      _ ≤ _ := h t (List.mem_of_head? ht)

end Batches

/-! ### A crowd -/

/-- The defaults, with a zone ten hours behind. -/
def JobSettings.default : JobSettings where
  tz := .fixed fun name => if name = "Pacific/Honolulu" then hours (-10) else 0
  resolves _ := true
  batchSize := 200
  recapLocalWeekday := 0
  recapLocalHour := 9

/-- A user with an address. -/
def User.verified (id : UserId) (timezone : String) (reminderHour : Option Int) : User where
  id := id
  email := some "reader@x.org"
  emailVerifiedAt := some 0
  pendingEmail := none
  timezone := timezone
  reminderLocalTime := reminderHour.map hours
  deletedAt := none

/-- A batch of users, and one more. -/
def crowd (others last : UserId → User) : EmailDb where
  users := (List.range 200).map others ++ [last 200]
  tokens := []
  suppressions := []
  deliveries := []

/-- Mondays, at ten and at eleven. -/
def monday (db : EmailDb) (lastActive : UserId → Option Int) : List Tick :=
  [⟨db, lastActive, 4 * microsPerDay + hours 10⟩, ⟨db, lastActive, 4 * microsPerDay + hours 11⟩]

/-- All others are reminded in the evening. -/
def eveningCrowd : EmailDb := crowd (.verified · "UTC" (some 20)) (.verified · "UTC" (some 8))

/-- All others are reminded in the morning, and have practised. -/
def morningCrowd : EmailDb := crowd (.verified · "UTC" (some 8)) (.verified · "UTC" (some 8))

/-- All others live where it is still Sunday. -/
def sundayCrowd : EmailDb := crowd (.verified · "Pacific/Honolulu" none) (.verified · "UTC" none)

/-- Where everyone fits in a batch, everyone who is due becomes a candidate. -/
theorem swept_pair :
    let ticks := monday { eveningCrowd with users := eveningCrowd.users.drop 199 } fun _ => none
    dueThroughout .default .reminder ticks = [200] ∧ Swept .default .reminder ticks :=
  ⟨by decide +kernel, (swept_iff (by decide +kernel)).mpr fun _ => by decide +kernel⟩

/-- **Due and never found**: a user is due, alone, at every tick, and a batch of users that are not due at that hour,
that are done for the day, or that live on another day keeps it out. -/
theorem due_never_found :
    ¬ Swept .default .reminder (monday eveningCrowd fun _ => none) ∧
    ¬ Swept .default .reminder (monday morningCrowd fun id => if id = 200 then none else some 4) ∧
    ¬ Swept .default .recap (monday sundayCrowd fun _ => none) := by
  have h200 : ∀ {kind : Kind} {db : EmailDb} {lastActive : UserId → Option Int},
      db.users.map User.id = List.range 201 →
      (∀ t ∈ monday db lastActive, t.due .default kind 200 = true ∧ 200 ≤ t.before kind 200) →
      ¬ Swept .default kind (monday db lastActive) := by
    intro kind db lastActive hids hticks
    have hdb : ∀ t ∈ monday db lastActive, t.db = db := by
      rintro t (_ | ⟨_, _ | ⟨_, ⟨⟩⟩⟩) <;> rfl
    refine not_swept (fun t ht => ?_) (hasRoom_of_length fun t ht => ?_)
      (mem_dueThroughout.mpr ⟨?_, fun t ht => (hticks t ht).1⟩) fun t ht => (hticks t ht).2
    · rw [hdb t ht, hids]
      exact List.nodup_range
    · rw [hdb t ht, ← List.length_map (f := User.id), hids, List.length_range]
      exact (by decide : 201 ≤ 2 * 200)
    · rw [hids]
      decide
  exact ⟨h200 (by decide +kernel) (by decide +kernel), h200 (by decide +kernel) (by decide +kernel),
    h200 (by decide +kernel) (by decide +kernel)⟩

end CodeReader.Email
