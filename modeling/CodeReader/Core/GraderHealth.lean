import CodeReader.Core.Expiring
import CodeReader.Txn.Commits
import Mathlib.Data.List.Infix

/-!
# The health of the grader

`mark_failure` counts the failures of the grader in a row, and marks it degraded at the third; `mark_success` clears both
keys.  The keys expire.

* `GraderKeys` — the two keys, Redis's clock, and the commands that have run;
* `markSuccess`, `markFailure`, `isDegraded`;
* `degraded_iff` — calls one after another: **the grader is degraded exactly while** the last three calls are failures,
  less than five minutes apart, and the last of them is less than five minutes ago;
* `degraded_of_reach` — calls interleaved in any way, with crashes: **a degraded grader** has failed three times in a row.
-/

namespace CodeReader.GraderHealth

open Txn Prog Expiring

/-! ## The calls -/

inductive GraderCommand
  | delete
  | incr
  | expire
  | set
  deriving DecidableEq

/-- The two keys, Redis's clock, and the commands that have run, with their times. -/
structure GraderKeys where
  now : Int
  failureStreak : Option (Entry Int)
  degraded : Option (Entry Unit)
  ran : List (Int × GraderCommand)

abbrev GraderApp : Iface where
  Db := Unit
  Kv := GraderKeys
  Lock := Empty
  Tbl := Empty
  Ev := Empty
  Err := Empty

def failureThreshold : Int := 3
/-- `DEGRADED_TTL_SECONDS`, in milliseconds. -/
def degradedTtl : Int := 5 * 60 * 1000

namespace GraderKeys

/-- The command has run. -/
def log (c : GraderCommand) (keys : GraderKeys) : GraderKeys := { keys with ran := keys.ran ++ [(keys.now, c)] }

/-- `DEL grader:failure_streak grader:degraded`. -/
def clear (keys : GraderKeys) : GraderKeys := { keys with failureStreak := none, degraded := none }.log .delete

def incrStreak (keys : GraderKeys) : Int × GraderKeys :=
  let (streak, key) := incr keys.now keys.failureStreak
  (streak, { keys with failureStreak := key }.log .incr)

def expireStreak (keys : GraderKeys) : GraderKeys :=
  { keys with failureStreak := expire keys.now degradedTtl keys.failureStreak }.log .expire

def setDegraded (keys : GraderKeys) : GraderKeys :=
  { keys with degraded := setEx keys.now degradedTtl () }.log .set

/-- `EXISTS grader:degraded`. -/
def isDegraded (keys : GraderKeys) : Bool := (live keys.now keys.degraded).isSome

end GraderKeys

/-- `mark_success`. -/
def markSuccess : Prog GraderApp Unit := cmd fun keys => ((), keys.clear)

/-- `mark_failure`. -/
def markFailure : Prog GraderApp Unit := do
  let streak ← cmd GraderKeys.incrStreak
  cmd fun keys => ((), keys.expireStreak)
  if failureThreshold ≤ streak then cmd fun keys => ((), keys.setDegraded) else ret ()

/-- `is_degraded`. -/
def isDegraded : Prog GraderApp Bool := cmd fun keys => (keys.isDegraded, keys)

/-- What a caller of the grader does with its outcome. -/
inductive GraderCall
  | success
  | failure
  deriving DecidableEq

def GraderCall.program : GraderCall → Prog GraderApp Unit
  | success => markSuccess
  | failure => markFailure

/-! ## Calls one after another -/

def GraderKeys.empty : GraderKeys := ⟨0, none, none, []⟩

/-- The keys when the clock shows `now`. -/
def GraderKeys.atTime (keys : GraderKeys) (now : Int) : GraderKeys := { keys with now := now }

/-- A call that runs alone, at the time `c.1`. -/
def serve (keys : GraderKeys) (c : Int × GraderCall) : GraderKeys :=
  (c.2.program.exec () ⟨(), keys.atTime c.1⟩).store.kv

/-- The keys after the calls. -/
def after (calls : List (Int × GraderCall)) : GraderKeys := calls.foldl serve .empty

/-- The failures at the end, the latest first, each less than `degradedTtl` after the one before. -/
def chain : List (Int × GraderCall) → Nat
  | [] => 0
  | (_, .success) :: _ => 0
  | [(_, .failure)] => 1
  | (_, .failure) :: (_, .success) :: _ => 1
  | (t, .failure) :: (t', .failure) :: calls =>
    if t < t' + degradedTtl then chain ((t', .failure) :: calls) + 1 else 1

section Serial

variable {calls : List (Int × GraderCall)} {keys : GraderKeys} {t now : Int}

theorem serve_success : serve keys (t, .success) = (keys.atTime t).clear := rfl

/-- A failure counts, and marks the grader degraded from the third on. -/
theorem serve_failure (keys : GraderKeys) (t : Int) : (serve keys (t, .failure)).failureStreak =
      some ⟨(incr t keys.failureStreak).1, some (t + degradedTtl)⟩ ∧
    (serve keys (t, .failure)).degraded =
      if failureThreshold ≤ (incr t keys.failureStreak).1 then setEx t degradedTtl () else keys.degraded := by
  unfold serve GraderCall.program markFailure
  simp only [cmd_bind, exec_kv]
  have hstreak : expire t degradedTtl (incr t keys.failureStreak).2 = _ := expire_incr keys.failureStreak
  by_cases h : failureThreshold ≤ (incr t keys.failureStreak).1
  · have h' : failureThreshold ≤ ((keys.atTime t).incrStreak).1 := h
    rw [if_pos h, if_pos h']
    exact ⟨hstreak, rfl⟩
  · have h' : ¬ failureThreshold ≤ ((keys.atTime t).incrStreak).1 := h
    rw [if_neg h, if_neg h']
    exact ⟨hstreak, rfl⟩

/-- The keys after calls, the latest first. -/
def Holds : List (Int × GraderCall) → GraderKeys → Prop
  | (t, .failure) :: calls, keys =>
    keys.failureStreak = some ⟨chain ((t, .failure) :: calls), some (t + degradedTtl)⟩ ∧
      if 3 ≤ chain ((t, .failure) :: calls) then keys.degraded = setEx t degradedTtl () else live t keys.degraded = none
  | _, keys => keys.failureStreak = none ∧ keys.degraded = none

/-- One failure more. -/
theorem holds_failure (h : Holds calls keys) (hle : ∀ c ∈ calls, c.1 ≤ t) :
    Holds ((t, .failure) :: calls) (serve keys (t, .failure)) := by
  obtain ⟨hstreak, hdegraded⟩ := serve_failure keys t
  -- the count that the failure finds, by the call before it
  obtain ⟨hcount, hdead⟩ : (incr t keys.failureStreak).1 = chain ((t, .failure) :: calls) ∧
      (¬ 3 ≤ chain ((t, .failure) :: calls) → live t keys.degraded = none) := by
    match calls, h with
    | [], ⟨hs, hd⟩ =>
      rw [hs, hd]
      exact ⟨rfl, fun _ => rfl⟩
    | (_, .success) :: _, ⟨hs, hd⟩ =>
      rw [hs, hd]
      exact ⟨rfl, fun _ => rfl⟩
    | (t', .failure) :: before, ⟨hs, hd⟩ =>
      have ht : t' ≤ t := hle _ (List.mem_cons_self ..)
      have hchain : chain ((t, .failure) :: (t', .failure) :: before) =
        if t < t' + degradedTtl then chain ((t', .failure) :: before) + 1 else 1 := rfl
      rw [hchain, hs]
      by_cases hgap : t < t' + degradedTtl
      · have hlive : live t (some (⟨chain ((t', .failure) :: before), some (t' + degradedTtl)⟩ : Entry Int)) =
          some ⟨chain ((t', .failure) :: before), some (t' + degradedTtl)⟩ :=
            live_eq_some.mpr ⟨rfl, (liveAt_of_expiresAt rfl).mpr hgap⟩
        rw [if_pos hgap]
        refine ⟨?_, fun hshort => ?_⟩
        · simp only [incr, hlive]
          push_cast
          rfl
        · rw [if_neg (by omega)] at hd
          exact live_mono hd ht
      · have hexpired : ∀ (α : Type) (v : α), live t (some (⟨v, some (t' + degradedTtl)⟩ : Entry α)) = none := by
          intro α v
          rw [live_eq_none]
          rintro _ ⟨⟩
          simp [Entry.liveAt, hgap]
        rw [if_neg hgap]
        refine ⟨by simp only [incr, hexpired]; rfl, fun _ => ?_⟩
        split at hd
        · rw [hd]
          exact hexpired Unit ()
        · exact live_mono hd ht
  refine ⟨hcount ▸ hstreak, ?_⟩
  rw [hdegraded, hcount]
  have hthree : failureThreshold ≤ (chain ((t, .failure) :: calls) : Int) ↔ 3 ≤ chain ((t, .failure) :: calls) := by
    unfold failureThreshold
    omega
  by_cases hlong : 3 ≤ chain ((t, .failure) :: calls)
  · rw [if_pos hlong, if_pos (hthree.mpr hlong)]
  · rw [if_neg hlong, if_neg fun h' => hlong (hthree.mp h')]
    exact hdead hlong

/-- **The keys after any calls**, one after another. -/
theorem holds_after (hsorted : (calls.map Prod.fst).Pairwise (· ≤ ·)) : Holds calls.reverse (after calls) := by
  induction calls using List.reverseRecOn with
  | nil => exact ⟨rfl, rfl⟩
  | append_singleton calls c ih =>
    rw [List.map_append, List.pairwise_append] at hsorted
    obtain ⟨hbefore, -, hlast⟩ := hsorted
    have hle : ∀ c' ∈ calls.reverse, c'.1 ≤ c.1 := fun c' hc' =>
      hlast _ (List.mem_map_of_mem (List.mem_reverse.mp hc')) _ (List.mem_singleton_self _)
    rw [List.reverse_append, after, List.foldl_append]
    obtain ⟨t, call⟩ := c
    cases call with
    | success => exact ⟨rfl, rfl⟩
    | failure => exact holds_failure (ih hbefore) hle

theorem one_le_chain {calls : List (Int × GraderCall)} : 1 ≤ chain ((t, .failure) :: calls) := by
  match calls with
  | [] => exact Nat.le_refl 1
  | (_, .success) :: _ => exact Nat.le_refl 1
  | (_, .failure) :: _ =>
    rw [chain]
    split <;> omega

/-- Three at the end, close together. -/
theorem three_le_chain {calls : List (Int × GraderCall)} : 3 ≤ chain calls ↔
    ∃ a b c rest, calls = (c, .failure) :: (b, .failure) :: (a, .failure) :: rest ∧ b < a + degradedTtl ∧
      c < b + degradedTtl := by
  constructor
  · intro h
    match calls, h with
    | [(_, .failure)], h => simp [chain] at h
    | (_, .failure) :: (_, .success) :: _, h => simp [chain] at h
    | [(c, .failure), (b, .failure)], h =>
      simp only [chain] at h
      split at h <;> omega
    | (c, .failure) :: (b, .failure) :: (_, .success) :: _, h =>
      simp only [chain] at h
      split at h <;> omega
    | (c, .failure) :: (b, .failure) :: (a, .failure) :: rest, h =>
      simp only [chain] at h
      split at h
      · rename_i hc
        split at h
        · rename_i hb
          exact ⟨a, b, c, rest, rfl, hb, hc⟩
        · omega
      · omega
  · rintro ⟨a, b, c, rest, rfl, hb, hc⟩
    have hone : 1 ≤ chain ((a, GraderCall.failure) :: rest) := one_le_chain
    have hchain : chain ((c, GraderCall.failure) :: (b, .failure) :: (a, .failure) :: rest) =
        chain ((a, GraderCall.failure) :: rest) + 1 + 1 := by
      rw [chain, if_pos hc, chain, if_pos hb]
    omega

/-- **The grader is degraded** exactly while the last three calls are failures, each less than five minutes after the one
before, and the last of them is less than five minutes ago. -/
theorem degraded_iff (hsorted : (calls.map Prod.fst).Pairwise (· ≤ ·)) (hnow : ∀ c ∈ calls, c.1 ≤ now) :
    (isDegraded.exec () ⟨(), (after calls).atTime now⟩).res = .ok true ↔
      ∃ pre a b c, calls = pre ++ [(a, .failure), (b, .failure), (c, .failure)] ∧ b < a + degradedTtl ∧
        c < b + degradedTtl ∧ now < c + degradedTtl := by
  have hholds := holds_after hsorted
  have hexec : (isDegraded.exec () ⟨(), (after calls).atTime now⟩).res = .ok (live now (after calls).degraded).isSome := rfl
  rw [hexec, Except.ok.injEq]
  constructor
  · intro hlive
    match hrev : calls.reverse, hholds with
    | [], ⟨_, hd⟩ => simp [hd] at hlive
    | (_, .success) :: _, ⟨_, hd⟩ => simp [hd] at hlive
    | (t, .failure) :: before, ⟨_, hd⟩ =>
      split at hd
      · rename_i hlong
        obtain ⟨a, b, c, rest, hcalls, hb, hc⟩ := three_le_chain.mp hlong
        obtain ⟨rfl, rfl⟩ : t = c ∧ before = (b, .failure) :: (a, .failure) :: rest := by simpa using hcalls
        rw [hd] at hlive
        refine ⟨rest.reverse, a, b, t, ?_, hb, hc, live_setEx.mp hlive⟩
        rw [← List.reverse_reverse calls, hrev]
        simp
      · have hmem : (t, GraderCall.failure) ∈ calls := List.mem_reverse.mp (hrev ▸ List.mem_cons_self ..)
        rw [live_mono hd (hnow _ hmem)] at hlive
        cases hlive
  · rintro ⟨pre, a, b, c, rfl, hb, hc, hlast⟩
    have hlong : 3 ≤ chain ((c, .failure) :: (b, .failure) :: (a, .failure) :: pre.reverse) :=
      three_le_chain.mpr ⟨a, b, c, pre.reverse, rfl, hb, hc⟩
    have hrev : (pre ++ [(a, GraderCall.failure), (b, .failure), (c, .failure)]).reverse =
        (c, GraderCall.failure) :: (b, .failure) :: (a, .failure) :: pre.reverse := by simp
    rw [hrev] at hholds
    obtain ⟨-, hd⟩ := hholds
    rw [if_pos hlong] at hd
    rw [hd]
    exact live_setEx.mpr hlast

/-- Three failures a second apart; five minutes after the last of them the mark is over. -/
theorem degraded_for_five_minutes :
    (isDegraded.exec () ⟨(), (after [(0, .failure), (1000, .failure), (2000, .failure)]).atTime 301999⟩).res = .ok true ∧
      (isDegraded.exec () ⟨(), (after [(0, .failure), (1000, .failure), (2000, .failure)]).atTime 302000⟩).res =
        .ok false :=
  ⟨(degraded_iff (by decide) (by decide)).mpr ⟨[], 0, 1000, 2000, rfl, by decide, by decide, by decide⟩, by decide⟩

end Serial

/-! ## Calls interleaved -/

section Interleaved

variable {τ : Type}

/-- Time goes by; Redis loses keys. -/
structure Outside (keys keys' : GraderKeys) : Prop where
  now : keys.now ≤ keys'.now
  ran : keys'.ran = keys.ran
  failureStreak : keys'.failureStreak = none ∨ keys'.failureStreak = keys.failureStreak
  degraded : keys'.degraded = none ∨ keys'.degraded = keys.degraded

def start (calls : τ → GraderCall) : Sys GraderApp τ Unit := .start () .empty fun i => (calls i).program

/-- The failures since the last success. -/
def failuresInARow (ran : List (Int × GraderCommand)) : Nat :=
  (ran.reverse.takeWhile (·.2 != .delete)).countP (·.2 == .incr)

/-- Three failures were counted with no success between them. -/
def FailedThrice (ran : List (Int × GraderCommand)) : Prop := ∃ pre, pre <+: ran ∧ 3 ≤ failuresInARow pre

theorem failuresInARow_append (ran : List (Int × GraderCommand)) (c : Int × GraderCommand) :
    failuresInARow (ran ++ [c]) =
      if c.2 = .delete then 0 else failuresInARow ran + if c.2 = .incr then 1 else 0 := by
  unfold failuresInARow
  rw [List.reverse_append, List.reverse_singleton, List.singleton_append, List.takeWhile_cons]
  obtain ⟨t, c⟩ := c
  cases c <;> simp

theorem FailedThrice.later {ran ran' : List (Int × GraderCommand)} (h : FailedThrice ran) (hp : ran <+: ran') :
    FailedThrice ran' := by
  obtain ⟨pre, hpre, hthree⟩ := h
  exact ⟨pre, hpre.trans hp, hthree⟩

/-- The mark of a degraded grader, set at the end of `ran` or with no success after it. -/
structure Marked (ran : List (Int × GraderCommand)) (e : Entry Unit) (pre : List (Int × GraderCommand)) (t : Int)
    (post : List (Int × GraderCommand)) : Prop where
  ran : ran = pre ++ (t, .set) :: post
  since : ∀ c ∈ post, c.2 ≠ .delete
  expiresAt : e.expiresAt = some (t + degradedTtl)
  failed : FailedThrice pre

/-- **The invariant**: the streak is at most the failures since the last success, and a mark is that of a third
failure. -/
structure Sound (keys : GraderKeys) : Prop where
  streak : ∀ e, keys.failureStreak = some e → e.value ≤ failuresInARow keys.ran
  degraded : ∀ e, keys.degraded = some e → ∃ pre t post, Marked keys.ran e pre t post

/-- What a command does, or other calls do. -/
structure Keeps (S S' : Shared GraderApp τ) : Prop where
  sound : Sound S.kv → Sound S'.kv
  ran : S.kv.ran <+: S'.kv.ran

theorem Keeps.refl (S : Shared GraderApp τ) : Keeps S S := ⟨id, List.prefix_rfl⟩

theorem Keeps.trans {S₁ S₂ S₃ : Shared GraderApp τ} (h : Keeps S₁ S₂) (h' : Keeps S₂ S₃) : Keeps S₁ S₃ :=
  ⟨fun hs => h'.sound (h.sound hs), h.ran.trans h'.ran⟩

/-- A mark stays as long as nothing deletes it. -/
theorem Marked.log {ran : List (Int × GraderCommand)} {e : Entry Unit} {pre : List (Int × GraderCommand)} {t : Int}
    {post : List (Int × GraderCommand)} (h : Marked ran e pre t post) {c : Int × GraderCommand} (hc : c.2 ≠ .delete) :
    Marked (ran ++ [c]) e pre t (post ++ [c]) where
  ran := by rw [h.ran, List.append_assoc, List.cons_append]
  since c' hc' := by
    rcases List.mem_append.mp hc' with hpost | hlast
    · exact h.since c' hpost
    · rw [List.mem_singleton.mp hlast]
      exact hc
  expiresAt := h.expiresAt
  failed := h.failed

variable {keys : GraderKeys}

theorem Sound.clear : Sound keys.clear where
  streak _ he := by cases he
  degraded _ he := by cases he

theorem Sound.incrStreak (h : Sound keys) : Sound keys.incrStreak.2 ∧
    keys.incrStreak.1 ≤ failuresInARow keys.incrStreak.2.ran := by
  have hcount : (incr keys.now keys.failureStreak).1 ≤ failuresInARow (keys.ran ++ [(keys.now, .incr)]) := by
    rw [failuresInARow_append]
    simp only [reduceCtorEq, if_false, if_true]
    unfold incr
    split
    · rename_i e he
      have hle := h.streak e (live_eq_some.mp he).1
      push_cast
      omega
    · push_cast
      omega
  have hvalue : ∀ e, (incr keys.now keys.failureStreak).2 = some e → e.value = (incr keys.now keys.failureStreak).1 := by
    intro e he
    unfold incr at he ⊢
    split at he <;> · cases he; rfl
  refine ⟨⟨fun e he => ?_, fun e he => ?_⟩, hcount⟩
  · rw [hvalue e he]
    exact hcount
  · obtain ⟨pre, t, post, hmark⟩ := h.degraded e he
    exact ⟨pre, t, _, hmark.log (by simp)⟩

theorem Sound.expireStreak (h : Sound keys) : Sound keys.expireStreak where
  streak e he := by
    show e.value ≤ failuresInARow (keys.ran ++ [(keys.now, .expire)])
    rw [failuresInARow_append]
    obtain ⟨e₀, he₀, rfl⟩ := Option.map_eq_some_iff.mp he
    have hle := h.streak e₀ (live_eq_some.mp he₀).1
    simpa using hle
  degraded e he := by
    obtain ⟨pre, t, post, hmark⟩ := h.degraded e he
    exact ⟨pre, t, _, hmark.log (by simp)⟩

theorem Sound.setDegraded (h : Sound keys) (hfailed : FailedThrice keys.ran) : Sound keys.setDegraded where
  streak e he := by
    show e.value ≤ failuresInARow (keys.ran ++ [(keys.now, .set)])
    rw [failuresInARow_append]
    simpa using h.streak e he
  degraded e he := by
    cases he
    exact ⟨keys.ran, keys.now, [], rfl, fun _ hc => absurd hc List.not_mem_nil, rfl, hfailed⟩

theorem Sound.outside {keys' : GraderKeys} (h : Sound keys) (ho : Outside keys keys') : Sound keys' where
  streak e he := by
    rw [ho.ran]
    rcases ho.failureStreak with hnone | hsame
    · cases hnone.symm.trans he
    · exact h.streak e (hsame ▸ he)
  degraded e he := by
    rw [ho.ran]
    rcases ho.degraded with hnone | hsame
    · cases hnone.symm.trans he
    · exact h.degraded e (hsame ▸ he)

theorem steady_sound : Steady (fun _ => Keeps (τ := τ)) fun _ S => Sound S.kv where
  rely _ _ _ h hs := hs.sound h
  lock _ _ _ h := h
  read _ _ _ h := h

theorem steady_failed : Steady (fun _ => Keeps (τ := τ)) fun _ S => FailedThrice S.kv.ran where
  rely _ _ _ h hs := h.later hs.ran
  lock _ _ _ h := h
  read _ _ _ h := h

theorem wp_call (i : τ) (call : GraderCall) {l : Local GraderApp} {S : Shared GraderApp τ} (h : Sound S.kv) :
    wp (fun _ => Keeps) (fun _ _ => Keeps) i (fun _ _ _ => True) call.program l S := by
  cases call with
  | success =>
    refine steady_sound.wp_kv h fun S₁ _ => ⟨⟨fun _ => .clear, List.prefix_append _ _⟩, fun _ _ => trivial⟩
  | failure =>
    refine steady_sound.wp_kv h fun S₁ h₁ => ?_
    obtain ⟨hsound, hcount⟩ := h₁.incrStreak
    refine ⟨⟨fun _ => hsound, List.prefix_append _ _⟩, ?_⟩
    by_cases hthree : failureThreshold ≤ S₁.kv.incrStreak.1
    · have hfailed : FailedThrice S₁.kv.incrStreak.2.ran := by
        refine ⟨_, List.prefix_rfl, ?_⟩
        unfold failureThreshold at hthree
        omega
      refine (steady_sound.and steady_failed).wp_kv ⟨hsound, hfailed⟩ fun S₂ h₂ => ?_
      refine ⟨⟨fun hs => hs.expireStreak, List.prefix_append _ _⟩, ?_⟩
      rw [if_pos hthree]
      have hnext : Sound S₂.kv.expireStreak ∧ FailedThrice S₂.kv.expireStreak.ran :=
        ⟨h₂.1.expireStreak, h₂.2.later (List.prefix_append _ _)⟩
      refine (steady_sound.and steady_failed).wp_kv hnext fun S₃ h₃ => ?_
      exact ⟨⟨fun hs => hs.setDegraded h₃.2, List.prefix_append _ _⟩, fun _ _ => trivial⟩
    · refine steady_sound.wp_kv hsound fun S₂ h₂ => ?_
      refine ⟨⟨fun hs => hs.expireStreak, List.prefix_append _ _⟩, ?_⟩
      rw [if_neg hthree]
      exact fun _ _ => trivial

theorem Sound.empty : Sound .empty where
  streak _ he := by cases he
  degraded _ he := by cases he

theorem grader_rules [DecidableEq τ] (calls : τ → GraderCall) :
    Rules Outside (start calls) (fun _ _ => Keeps) (fun _ _ _ => Keeps) (fun _ _ _ => True) where
  refl _ _ := .refl
  trans _ _ _ _ _ := .trans
  outside _ _ _ _ ho := ⟨fun hs => hs.outside ho, ho.ran ▸ List.prefix_rfl⟩
  compat _ _ _ _ _ _ h := h
  stable _ _ _ _ _ _ := trivial
  start i := good_start (wp_call i _ .empty)

/-- **A degraded grader**: in every state that calls interleaved in any way reach, crashes and lost keys included, the
grader was marked less than five minutes ago, no success came after the mark, and three failures with no success between
them came before it. -/
theorem degraded_of_reach [DecidableEq τ] {calls : τ → GraderCall} {s : Sys GraderApp τ Unit}
    (h : Reach Outside anyCommit (start calls) s) (hdegraded : s.shared.kv.isDegraded = true) :
    ∃ pre t post, s.shared.kv.ran = pre ++ (t, .set) :: post ∧ s.shared.kv.now < t + degradedTtl ∧
      (∀ c ∈ post, c.2 ≠ .delete) ∧ FailedThrice pre := by
  have hsound : Sound s.shared.kv := Reach.inv (grader_rules calls) (J := fun S => Sound S.kv) .empty
    (fun _ _ _ _ hs hG => hG.sound hs) (fun _ _ _ _ _ hs hG => hG.sound hs) (fun _ _ ho hs => hs.outside ho) h
  obtain ⟨e, he⟩ := Option.isSome_iff_exists.mp hdegraded
  obtain ⟨hkey, hlive⟩ := live_eq_some.mp he
  obtain ⟨pre, t, post, hmark⟩ := hsound.degraded e hkey
  exact ⟨pre, t, post, hmark.ran, (liveAt_of_expiresAt hmark.expiresAt).mp hlive, hmark.since, hmark.failed⟩

/-- The third of three failures marks the grader. -/
theorem degraded_of_three_failures :
    let s := (start fun _ : Fin 3 => .failure).after anyCommit [0, 0, 1, 1, 2, 2, 2]
    s.shared.kv.isDegraded = true ∧ ∃ pre t post, s.shared.kv.ran = pre ++ (t, .set) :: post ∧ FailedThrice pre := by
  intro s
  have hreach : Reach Outside anyCommit (start fun _ : Fin 3 => .failure) s := Reach.after (by decide)
  have hdegraded : s.shared.kv.isDegraded = true := by decide
  obtain ⟨pre, t, post, hran, -, -, hfailed⟩ := degraded_of_reach hreach hdegraded
  exact ⟨hdegraded, pre, t, post, hran, hfailed⟩

/-- A success that comes between the count of the third failure and its mark does not keep the mark away. -/
theorem degraded_after_success :
    let s := (start fun i : Fin 4 => if i = 3 then .success else .failure).after anyCommit [0, 0, 1, 1, 2, 3, 2, 2]
    s.shared.kv.isDegraded = true ∧ failuresInARow s.shared.kv.ran = 0 := by
  decide

end Interleaved

end CodeReader.GraderHealth
