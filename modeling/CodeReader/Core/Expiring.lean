import Mathlib.Data.Option.Basic
import Mathlib.Tactic.Common

/-!
# Keys that expire

A key of Redis holds a value until it is deleted or its time is over; no command finds it after that.  Times are
Redis's milliseconds.

* `Entry`, `live` — what is under a key, and what a command finds there;
* `setEx`, `setNxEx`, `expire`, `incr`, `getDel` — the commands.
-/

namespace CodeReader.Expiring

/-- The value of a key, and when the key expires. -/
structure Entry (α : Type) where
  value : α
  expiresAt : Option Int
  deriving DecidableEq

variable {α : Type} {now ttl : Int} {key : Option (Entry α)} {e : Entry α}

def Entry.liveAt (now : Int) (e : Entry α) : Bool :=
  match e.expiresAt with
  | some t => decide (now < t)
  | none => true

/-- What a command finds. -/
def live (now : Int) (key : Option (Entry α)) : Option (Entry α) := key.filter (·.liveAt now)

/-- `SET key value EX ttl`. -/
def setEx (now ttl : Int) (value : α) : Option (Entry α) := some ⟨value, some (now + ttl)⟩

/-- `SET key value NX EX ttl`: whether it was set, and what is there then. -/
def setNxEx (now ttl : Int) (value : α) (key : Option (Entry α)) : Bool × Option (Entry α) :=
  match live now key with
  | some e => (false, some e)
  | none => (true, setEx now ttl value)

/-- `EXPIRE key ttl`. -/
def expire (now ttl : Int) (key : Option (Entry α)) : Option (Entry α) :=
  (live now key).map fun e => { e with expiresAt := some (now + ttl) }

/-- `INCR key`: a key that is not there counts from 0, and does not expire. -/
def incr (now : Int) (key : Option (Entry Int)) : Int × Option (Entry Int) :=
  match live now key with
  | some e => (e.value + 1, some { e with value := e.value + 1 })
  | none => (1, some ⟨1, none⟩)

/-- `GETDEL key`. -/
def getDel (now : Int) (key : Option (Entry α)) : Option α × Option (Entry α) := ((live now key).map (·.value), none)

@[simp] theorem live_none : live now (none : Option (Entry α)) = none := rfl

theorem live_eq_some : live now key = some e ↔ key = some e ∧ e.liveAt now = true := Option.filter_eq_some_iff

theorem live_eq_none : live now key = none ↔ ∀ e, key = some e → e.liveAt now = false := by
  simp [live, Option.filter_eq_none_iff]

theorem liveAt_of_expiresAt {t : Int} (h : e.expiresAt = some t) : e.liveAt now = true ↔ now < t := by
  simp [Entry.liveAt, h]

/-- What has expired stays so. -/
theorem live_mono {now' : Int} (h : live now key = none) (hle : now ≤ now') : live now' key = none := by
  rw [live_eq_none] at h ⊢
  intro e he
  have hdead := h e he
  unfold Entry.liveAt at hdead ⊢
  cases ht : e.expiresAt with
  | none => simp [ht] at hdead
  | some t =>
    simp only [ht, decide_eq_false_iff_not, Int.not_lt] at hdead ⊢
    omega

/-- A counter that is counted up and given its time anew. -/
theorem expire_incr (key : Option (Entry Int)) :
    expire now ttl (incr now key).2 = some ⟨(incr now key).1, some (now + ttl)⟩ := by
  unfold incr
  cases h : live now key with
  | none => rfl
  | some e =>
    obtain ⟨-, hlive⟩ := live_eq_some.mp h
    have hnext : live now (some { e with value := e.value + 1 }) = some { e with value := e.value + 1 } :=
      live_eq_some.mpr ⟨rfl, hlive⟩
    show (live now (some { e with value := e.value + 1 })).map _ = _
    rw [hnext]
    rfl

/-- A key just set is there until its time is over. -/
theorem live_setEx {now' : Int} {value : α} : (live now' (setEx now ttl value)).isSome = true ↔ now' < now + ttl := by
  simp [live, setEx, Entry.liveAt]

end CodeReader.Expiring
