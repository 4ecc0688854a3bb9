import CodeReader.Requests.Commands
import CodeReader.Requests.Rely
import CodeReader.Txn.Tenants

/-!
# A repair is answered with a repair of its own user

A record of the repair route holds a body that was computed for the user whose identity it is hashed with.

* `RepairedTo`, `OwnRecords` — a body of a repair in a user's ledger, and records of such bodies;
* `RepairRely`, `RepairGuarantee` — ledgers only grow, records stay of their own users;
* `wp_repairs` — every request keeps to them, and a repair ends in a body of its own user.
-/

namespace CodeReader

open Txn Prog

variable {τ : Type} {hash : String} {i : τ}

/-- The body is of a repair in these rows. -/
def RepairedTo (body : Body) (rows : UserRows) : Prop :=
  ∃ e ∈ rows.events, e.event = .repaired ∧ body = .repair e.toValue

/-- The records with the hash of the user are of repairs of the user. -/
def OwnRecords (hash : String) (S : Shared App τ) : Prop :=
  ∀ key record, S.kv.records (idemKey streakRepairNamespace key) = some record → record.requestHash = hash →
    RepairedTo record.body S.db

/-- What others do: ledgers grow, and the user's records stay of the user. -/
structure RepairRely (hash : String) (S S' : Shared App τ) : Prop where
  events : ∀ e ∈ S.db.events, e ∈ S'.db.events
  records : OwnRecords hash S → OwnRecords hash S'

/-- What a request of the user does: it stores no record with the hash of another one. -/
structure RepairGuarantee (hash : String) (S S' : Shared App τ) : Prop extends RepairRely hash S S' where
  others : ∀ key record, S'.kv.records (idemKey streakRepairNamespace key) = some record →
    S.kv.records (idemKey streakRepairNamespace key) = some record ∨ record.requestHash = hash

theorem RepairedTo.mono {body : Body} {rows rows' : UserRows} (h : RepairedTo body rows)
    (he : ∀ e ∈ rows.events, e ∈ rows'.events) : RepairedTo body rows' := by
  obtain ⟨e, hm, hr⟩ := h
  exact ⟨e, he e hm, hr⟩

theorem RepairRely.refl (S : Shared App τ) : RepairRely hash S S := ⟨fun _ => id, id⟩

theorem RepairRely.trans {S₁ S₂ S₃ : Shared App τ} (h : RepairRely hash S₁ S₂) (h' : RepairRely hash S₂ S₃) :
    RepairRely hash S₁ S₃ := ⟨fun e he => h'.events e (h.events e he), fun hr => h'.records (h.records hr)⟩

/-- A request inside a transaction that only appends to the ledger. -/
structure Appending (hash : String) (l : Local App) (S : Shared App τ) : Prop where
  records : OwnRecords hash S
  view : AppendsEvents l.view

namespace Appending

variable {l : Local App} {S S' : Shared App τ}

theorem idle (h : OwnRecords hash S) : Appending hash .idle S := ⟨h, fun _ => List.prefix_rfl⟩

theorem rely (h : Appending hash l S) (hr : RepairRely hash S S') : Appending hash l S' := ⟨hr.records h.records, h.view⟩

theorem write (h : Appending hash l S) {f : UserRows → UserRows} (hf : AppendsEvents f) :
    Appending hash { l with view := f ∘ l.view } S := ⟨h.records, fun rows => (h.view rows).trans (hf _)⟩

/-- A commit appends to the ledger. -/
theorem commit (h : Appending hash l S) (i : τ) :
    RepairGuarantee hash S { S with db := l.view S.db, commits := S.commits ++ [i] } := by
  have hmem : ∀ e ∈ S.db.events, e ∈ (l.view S.db).events := fun e he => (h.view S.db).subset he
  exact ⟨⟨hmem, fun hr key record hk hh => (hr key record hk hh).mono hmem⟩, fun _ _ => .inl⟩

/-- A command that leaves the records of repairs. -/
theorem store {kv : Redis} (hkv : ∀ key record, kv.records (idemKey streakRepairNamespace key) = some record →
    S.kv.records (idemKey streakRepairNamespace key) = some record) :
    RepairGuarantee hash S { S with kv := kv } :=
  ⟨⟨fun _ => id, fun hr key record hk hh => hr key record (hkv key record hk) hh⟩, fun key record hk => .inl (hkv key record hk)⟩

end Appending

section Programs

/-- A program that only appends to the ledger, and whose commands leave the records of repairs. -/
theorem wp_appending {α : Type} {C : ∀ β : Type, (Redis → β × Redis) → Prop}
    (hC : ∀ β f, C β f → ∀ kv k, (f kv).2.records (idemKey streakRepairNamespace k) =
      kv.records (idemKey streakRepairNamespace k))
    {p : Handler α} (hp : p.All AppendsEvents C) {l : Local App} {S : Shared App τ} (h : Appending hash l S) :
    wp (fun _ => RepairRely hash) (fun _ _ => RepairGuarantee hash) i (fun _ l S => Appending hash l S) p l S := by
  refine wp_all (Appending hash) (fun _ _ _ h hr => h.rely hr) (fun _ _ _ h => ⟨h.records, h.view⟩)
    (fun _ _ _ h => ⟨h.records, h.view⟩) (fun _ _ _ hf h => h.write hf) (fun l S h => ?_) (fun l S β f hf h => ?_)
    (fun l S e h => ?_) hp h
  · exact ⟨h.commit i, .idle ((h.commit i).records h.records)⟩
  · have hG : RepairGuarantee hash S { S with kv := (f S.kv).2 } :=
      Appending.store fun key record hk => (hC β f hf S.kv key).symm.trans hk
    exact ⟨hG, hG.records h.records, h.view⟩
  · exact ⟨⟨⟨fun _ => id, id⟩, fun _ _ => .inl⟩, h.records, h.view⟩

/-- The end of a repair's transaction: its row, and the answer that the row records. -/
theorem wp_insertRepair {tx : Tx} {row : NewEvent} (hrow : row.event = .repaired) {l : Local App} {S : Shared App τ}
    (h : Appending hash l S) :
    wp (fun _ => RepairRely hash) (fun _ _ => RepairGuarantee hash) i
      (fun r l S => Appending hash l S ∧ ∀ body, r = .ok body → ∀ rows, RepairedTo body (l.view rows))
      (insertStreakEvents tx [row] >>= fun _ => ret (.repair row.toValue)) l S := by
  intro S₁ hr₁
  have h₁ : Appending hash { l with reads := ⟨.streakEvents, S₁.commits.length⟩ :: l.reads } S₁ :=
    ⟨hr₁.records h.records, h.view⟩
  dsimp only
  generalize ([row].any fun e => e.event.isTransition && transitionOn _ e.localDate) = clash
  cases clash with
  | true =>
    intro S₂ hr₂
    exact ⟨h₁.rely hr₂, fun body he => by cases he⟩
  | false =>
    intro S₂ hr₂ S₃ hr₃
    have h₃ := (h₁.rely hr₂).rely hr₃
    refine ⟨⟨h₃.records, fun rows => (h₃.view rows).trans (List.prefix_append _ _)⟩, fun body he rows => ?_⟩
    cases he
    refine ⟨row.toRow tx 0, ?_, hrow, rfl⟩
    exact List.mem_append_right _ (List.mem_singleton.mpr rfl)

/-- The transaction of a repair: what it returns is in its row. -/
theorem wp_repairTransaction (cfg : Settings) (tz : TzDb) (tx : Tx) (timezone : String) (now : Int)
    {S : Shared App τ} (h : OwnRecords hash S) :
    wp (fun _ => RepairRely hash) (fun _ _ => RepairGuarantee hash) i
      (fun r l S => Appending hash l S ∧ ∀ body, r = .ok body → ∀ rows, RepairedTo body (l.view rows))
      (repairStreak cfg tz tx timezone now) .idle S := by
  have hraise : ∀ {l : Local App} {S : Shared App τ}, Appending hash l S →
      wp (fun _ => RepairRely hash) (fun _ _ => RepairGuarantee hash) i
        (fun r l S => Appending hash l S ∧ ∀ body, r = .ok body → ∀ rows, RepairedTo body (l.view rows))
        (raise notRepairable : Handler Body) l S := by
    intro l S h S' hr
    exact ⟨h.rely hr, fun body he => by cases he⟩
  intro S₁ hr₁ S₂ hr₂
  have h₂ := hr₂.records (hr₁.records h)
  dsimp only
  generalize restorable (now - hours cfg.streakRepairWindowH) _ = found
  cases found with
  | none => exact hraise ⟨h₂, fun _ => List.prefix_rfl⟩
  | some reset =>
    intro S₃ hr₃
    have h₃ := hr₃.records h₂
    dsimp only
    generalize (Local.idle.view S₃.db).stats = row
    cases row with
    | none => exact hraise ⟨h₃, fun _ => List.prefix_rfl⟩
    | some st =>
      change wp _ _ _ _ (if _ then raise notRepairable else flushUserStats _ >>= _) _ _
      split
      · exact hraise ⟨h₃, fun _ => List.prefix_rfl⟩
      · refine wp_bind (fun _ => RepairRely.refl) (wp_mono ?_ (wp_appending (C := fun _ _ => False)
          (fun _ _ hf => hf.elim) ((within_flushUserStats asideWrites_aside _).all.mono (fun _ hf => hf.extends.events) fun _ _ hf => hf)
          ⟨h₃, fun _ => List.prefix_rfl⟩))
        intro r l S' h'
        cases r with
        | error e => exact ⟨h', fun body he => by cases he⟩
        | ok o => exact wp_insertRepair rfl h'

/-- The request is over: its answer is of a repair of the user. -/
structure Repaired (hash : String) (r : Except Err Body) (S : Shared App τ) : Prop where
  records : OwnRecords hash S
  answer : ∀ body, r = .ok body → RepairedTo body S.db

theorem Repaired.rely {r : Except Err Body} {S S' : Shared App τ} (h : Repaired hash r S) (hr : RepairRely hash S S') :
    Repaired hash r S' := ⟨hr.records h.records, fun body he => (h.answer body he).mono hr.events⟩

theorem Repaired.error {e : Err} {S : Shared App τ} (h : OwnRecords hash S) : Repaired hash (.error e) S :=
  ⟨h, fun body he => by cases he⟩

/-- A record of the repair route, as the user's request takes it. -/
def Usable (hash : String) (record : IdempotencyRecord) (S : Shared App τ) : Prop :=
  record.requestHash = hash → RepairedTo record.body S.db

theorem wp_repairReplay_owner {record : IdempotencyRecord} {l : Local App} {S : Shared App τ} (h : OwnRecords hash S)
    (hu : Usable hash record S) :
    wp (fun _ => RepairRely hash) (fun _ _ => RepairGuarantee hash) i (fun r _ S => Repaired hash r S)
      (repairReplay hash record) l S := by
  unfold repairReplay
  split
  · exact fun S' hr => .error (hr.records h)
  · rename_i hne
    intro S' hr
    refine ⟨hr.records h, fun body he => ?_⟩
    cases he
    exact (hu (not_not.mp hne)).mono hr.events

theorem wp_waitForCached_owner (key : String) (polls : Nat) {l : Local App} {S : Shared App τ} (h : OwnRecords hash S) :
    wp (fun _ => RepairRely hash) (fun _ _ => RepairGuarantee hash) i
      (fun r l' S => l' = l ∧ OwnRecords hash S ∧ ∀ record, r = .ok (some record) → Usable hash record S)
      (waitForCached streakRepairNamespace key polls) l S := by
  induction polls generalizing S with
  | zero =>
    intro S₁ hr₁
    refine ⟨Appending.store fun _ _ hk => hk, fun S₂ hr₂ => ⟨rfl, hr₂.records (hr₁.records h), fun record he hh => ?_⟩⟩
    rw [Except.ok.injEq] at he
    exact (hr₁.records h key record he hh).mono hr₂.events
  | succ n ih =>
    intro S₁ hr₁
    refine ⟨Appending.store fun _ _ hk => hk, ?_⟩
    dsimp only
    cases hk : S₁.kv.records (idemKey streakRepairNamespace key) with
    | none => exact ih (hr₁.records h)
    | some record' =>
      intro S₂ hr₂
      refine ⟨rfl, hr₂.records (hr₁.records h), fun record he hh => ?_⟩
      rw [Except.ok.injEq, Option.some.injEq] at he
      exact (hr₁.records h key record (he ▸ hk) hh).mono hr₂.events

theorem wp_repairAndStore_owner (cfg : Settings) (tz : TzDb) (tx : Tx) (timezone : String) (now : Int) (key : String)
    {S : Shared App τ} (h : OwnRecords hash S) :
    wp (fun _ => RepairRely hash) (fun _ _ => RepairGuarantee hash) i (fun r _ S => Repaired hash r S)
      (repairAndStore cfg tz tx timezone now key hash) .idle S := by
  refine wp_bind (p := repairStreak cfg tz tx timezone now) (fun _ => RepairRely.refl)
    (wp_mono ?_ (wp_repairTransaction cfg tz tx timezone now h))
  rintro (e | body) l S₁ ⟨h₁, hbody⟩
  · exact .error h₁.records
  · -- the commit publishes the row, and the record is of its value
    intro S₂ hr₂
    have h₂ := h₁.rely hr₂
    refine ⟨h₂.commit i, fun S₃ hr₃ => ?_⟩
    have hown : RepairedTo body S₃.db := (hbody body rfl S₂.db).mono hr₃.events
    have hrec := hr₃.records ((h₂.commit i).records h₂.records)
    have hG : RepairGuarantee hash S₃
        { S₃ with kv := S₃.kv.setRecord (idemKey streakRepairNamespace key) ⟨hash, 200, body⟩ } := by
      refine ⟨⟨fun _ => id, fun hr key' record hk hh => ?_⟩, fun key' record hk => ?_⟩ <;>
        dsimp only [Redis.setRecord] at hk <;>
        by_cases hkey : idemKey streakRepairNamespace key' = idemKey streakRepairNamespace key
      · rw [hkey, Function.update_self, Option.some.injEq] at hk
        rw [← hk]
        exact hown
      · rw [Function.update_of_ne hkey] at hk
        exact hr key' record hk hh
      · rw [hkey, Function.update_self, Option.some.injEq] at hk
        rw [← hk]
        exact .inr rfl
      · rw [Function.update_of_ne hkey] at hk
        exact .inl hk
    refine ⟨hG, fun S₄ hr₄ => ⟨hr₄.records (hG.records hrec), fun body' he => ?_⟩⟩
    cases he
    exact hown.mono hr₄.events

theorem wp_streakRepair_owner (cfg : Settings) (tz : TzDb) (tx : Tx) (timezone : String) (now : Int) (polls : Nat)
    (key : String) {S : Shared App τ} (h : OwnRecords hash S) :
    wp (fun _ => RepairRely hash) (fun _ _ => RepairGuarantee hash) i (fun r _ S => Repaired hash r S)
      (streakRepair cfg tz tx timezone now polls key hash) .idle S := by
  have hlast : ∀ {S : Shared App τ}, OwnRecords hash S →
      wp (fun _ => RepairRely hash) (fun _ _ => RepairGuarantee hash) i (fun r _ S => Repaired hash r S)
        ((repairAndStore cfg tz tx timezone now key hash).andFinally
          (releaseReservation streakRepairNamespace key)) .idle S := by
    intro S h
    refine wp_andFinally (fun _ => RepairRely.refl) (wp_mono ?_ (wp_repairAndStore_owner cfg tz tx timezone now key h))
    intro r l S₁ h₁ S₂ hr₂
    refine ⟨Appending.store fun _ _ hk => hk, ?_⟩
    have h₂ := h₁.rely hr₂
    cases r with
    | ok body =>
      exact fun S₃ hr₃ => ⟨hr₃.records h₂.records, fun body' he => (h₂.answer body' he).mono hr₃.events⟩
    | error e => exact fun S₃ hr₃ => .error (hr₃.records h₂.records)
  unfold streakRepair
  split
  · exact fun S' hr => .error (hr.records h)
  · intro S₁ hr₁
    have h₁ := hr₁.records h
    refine ⟨Appending.store fun _ _ hk => hk, ?_⟩
    dsimp only
    cases hk : S₁.kv.records (idemKey streakRepairNamespace key) with
    | some record => exact wp_repairReplay_owner h₁ (h₁ key record hk)
    | none =>
      intro S₂ hr₂
      have h₂ := hr₂.records h₁
      refine ⟨Appending.store fun _ _ hk => hk, ?_⟩
      dsimp only
      generalize (!S₂.kv.reservations (reservationKey streakRepairNamespace key)) = reserved
      cases reserved with
      | true => exact hlast h₂
      | false =>
        refine wp_bind (p := waitForCached streakRepairNamespace key polls) (fun _ => RepairRely.refl)
          (wp_mono ?_ (wp_waitForCached_owner key polls h₂))
        rintro (e | found) l S₃ ⟨rfl, h₃, hu⟩
        · exact .error h₃
        · cases found with
          | some record => exact wp_repairReplay_owner h₃ (hu record rfl)
          | none => exact hlast h₃

/-- **Every request keeps records with their users**, and a repair ends in a body of its own user. -/
theorem wp_repairs (D : Deployment) (r : Request) {S : Shared App τ} (h : OwnRecords hash S) :
    wp (fun _ => RepairRely hash) (fun _ _ => RepairGuarantee hash) i
      (fun x _ S => r.route = streakRepairNamespace → ∀ body, x = .ok body → RepairedTo body S.db)
      (r.program D hash) .idle S := by
  cases r with
  | repair tx timezone now polls key =>
    exact wp_mono (fun x _ S hx _ => hx.answer) (wp_streakRepair_owner D.cfg D.tz tx timezone now polls key h)
  | submit env tx key payload =>
    refine wp_mono (fun x _ S _ hroute => absurd hroute (show attemptsNamespace ≠ streakRepairNamespace by decide)) (wp_appending ?_ (program_all D hash _) (.idle h))
    exact fun β f hf kv k => hf.records kv _ (idemKey_ne key k).symm

end Programs

end CodeReader
