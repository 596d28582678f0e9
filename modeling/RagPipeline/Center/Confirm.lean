import Mathlib.Logic.Relation
import RagPipeline.Center.RowChange
import RagPipeline.Center.UploadService
import RagPipeline.Interact.Total

/-!
# A confirm comes to an end

`ConfirmUpload` of one intent while others write to the same row between its statements. It keeps
its clock value, so a row that was too late for the gate is late for the expiry; and no method
makes a row wait again.

## Main definitions

* `ConfirmWorld`: the database, and what the request has read and changed so far.
* `OtherCall`: what the others do.
* `Verdict`: what holds when the request returns.

## Main results

* `confirmUpload_ends`: it returns, whatever the others do.
-/
namespace Center

open Interact Method Relational Service

structure ConfirmWorld where
  db : Database
  now : Option Time
  rounds : Nat
  lastRead : Option Intent
  /-- Its own update passed the gate. -/
  passed : Bool
  /-- The intents it has set to EXPIRED, as they were before. -/
  expired : List Intent

def ConfirmWorld.start (db : Database) : ConfirmWorld := ⟨db, none, 0, none, false, []⟩

/-- The intents that a call sets to EXPIRED. -/
def newlyExpired (db db' : Database) : List Intent :=
  db.intents.rows.filter fun i =>
    i.status ≠ .expired ∧ (db'.intents.find? i.id).any fun i' => i'.status = .expired

namespace ConfirmWorld

def afterStore (g : ConfirmWorld) (c : StoreCmd) : ConfirmWorld where
  db := (c.apply [] g.db).2
  now := g.now
  rounds := match c with
    | .getIntent _ => g.rounds + 1
    | _ => g.rounds
  lastRead := match c with
    | .getIntent id => g.db.intents.find? id
    | _ => g.lastRead
  passed := match c with
    | .updateIntentToUploaded id uploadedAt =>
      g.db.intents.affected (IntentStore.inTime id uploadedAt) ≠ 0
    | _ => g.passed
  expired := newlyExpired g.db (c.apply [] g.db).2 ++ g.expired

/-- The same request over the database as others left it. -/
def under (g : ConfirmWorld) (db : Database) : ConfirmWorld := { g with db := db }

/-- Database calls succeed; the clock shows anything. -/
def Exec : (c : UploadCmd) → ConfirmWorld → UploadSig.Reply c → ConfirmWorld → Prop
  | .store c => fun g r g' => r = (c.apply [] g.db).1 ∧ g' = g.afterStore c
  | .now => fun g t g' => g' = { g with now := some t }
  | .presignedUploadURL .. => fun g _ g' => g' = g
  | .uuid => fun g _ g' => g' = g
  | .respond _ => fun g _ g' => g' = g

end ConfirmWorld

/-- A call of any method by anyone else; it does not bring the intent into being. -/
def OtherCall (id : String) (db db' : Database) : Prop :=
  ∃ c faults, (∀ i, c = .createIntent i → i.id = id → (db.intents.find? id).isSome) ∧
    db' = (StoreCmd.apply c faults db).2

/-- Between two statements of the request the others make any number of calls. -/
def confirmContract (id : String) : Contract UploadSig ConfirmWorld where
  inv _ := True
  rely g g' := ∃ db', Relation.ReflTransGen (OtherCall id) g.db db' ∧ g' = g.under db'
  guard _ _ := True
  exec := ConfirmWorld.Exec

def PastGate (i : Intent) : Prop :=
  i.status = .uploaded ∨ i.status = .hashing ∨ i.status = .hashed

structure Verdict (id : String) (r : Except UploadError Intent) (g : ConfirmWorld) : Prop where
  rounds : g.rounds ≤ 2
  success : ∀ i, r = .ok i → g.passed ∨ ∃ j, g.lastRead = some j ∧ PastGate j
  expired : ∀ i, r = .error (.intentExpired i) →
    ∃ j, g.db.intents.find? id = some j ∧ j.status = .expired
  late : ∀ i ∈ g.expired, i.status = .waiting ∧ ∃ now, g.now = some now ∧ i.expiresAt ≤ now

/-! ### What the others leave -/

/-- The row of the intent later on. -/
structure Later (id : String) (db db' : Database) : Prop where
  row : ∀ i, db.intents.find? id = some i → ∃ i', db'.intents.find? id = some i' ∧
    i'.expiresAt = i.expiresAt ∧ (i'.status = .waiting → i.status = .waiting) ∧
    (i.status = .expired → i'.status = .expired)
  none : db.intents.find? id = none → db'.intents.find? id = none

section Later

variable {id : String} {db db' db'' : Database} {c : StoreCmd} {i i' : Intent}

theorem Later.refl (id : String) (db : Database) : Later id db db :=
  ⟨fun i h => ⟨i, h, rfl, fun h => h, fun h => h⟩, fun h => h⟩

theorem Later.trans (h : Later id db db') (h' : Later id db' db'') : Later id db db'' := by
  refine ⟨fun i hi => ?_, fun hn => h'.none (h.none hn)⟩
  obtain ⟨i₁, h₁, he₁, hw₁, hx₁⟩ := h.row i hi
  obtain ⟨i₂, h₂, he₂, hw₂, hx₂⟩ := h'.row i₁ h₁
  exact ⟨i₂, h₂, he₂.trans he₁, fun hw => hw₁ (hw₂ hw), fun hx => hx₂ (hx₁ hx)⟩

/-- No change makes a row wait, or changes an EXPIRED one. -/
theorem IntentEdit.later (h : IntentEdit c i i') : i'.expiresAt = i.expiresAt ∧
    i'.status ≠ .waiting ∧ i.status ≠ .expired := by
  cases h with
  | uploaded h | expired h | claimed h | givenUp h | linked h =>
    refine ⟨rfl, by rintro ⟨⟩, ?_⟩
    grind [IntentStore.inTime, IntentStore.late, IntentStore.claimable, Store.heldBy]
  | released h =>
    refine ⟨rfl, ?_, ?_⟩ <;> grind [IntentStore.released, Store.heldBy]
  | recovered h =>
    refine ⟨rfl, ?_, ?_⟩ <;> grind [IntentStore.released, IntentStore.stale]

theorem Later.of_call (h : OtherCall id db db') : Later id db db' := by
  obtain ⟨c, faults, hborn, rfl⟩ := h
  cases intentStep c faults db id with
  | same h => exact ⟨fun i hi => ⟨i, h.trans hi, rfl, fun h => h, fun h => h⟩, h.trans⟩
  | @changed i i' h h' hc =>
    obtain ⟨he, hw, hx⟩ := hc.later
    refine ⟨fun j hj => ?_, fun hn => ?_⟩
    · cases h.symm.trans hj
      exact ⟨i', h', he, fun hs => absurd hs hw, fun hs => absurd hs hx⟩
    · cases h.symm.trans hn
  | @created i hc hid h h' =>
    have := hborn i hc hid
    rw [h] at this
    cases this

theorem Later.of_calls (h : Relation.ReflTransGen (OtherCall id) db db') : Later id db db' := by
  induction h with
  | refl => exact .refl id db
  | tail _ h ih => exact ih.trans (.of_call h)

end Later

/-! ### The statements of the request -/

section Statements

variable {db : Database}

theorem apply_getIntent (id : String) (db : Database) : (StoreCmd.getIntent id).apply [] db =
    ((db.intents.find? id).elim (.error (.intentNotFound id)) .ok, db) := by
  change (IntentStore.getIntent id).run [] db = _
  have hq : (Tx.query (.driver "select upload_intent") (fun db : Database => db.intents.find? id) :
      Store (Option Intent)) ⟨db, db, []⟩ = (.ok (db.intents.find? id), ⟨db, db, []⟩) := rfl
  unfold Tx.run IntentStore.getIntent
  rw [Tx.bind_of_ok hq]
  cases db.intents.find? id <;> rfl

/-- Only the expiry sets a row to EXPIRED, and only one that is late. -/
theorem mem_newlyExpired {c : StoreCmd} {faults : List Bool} {i : Intent}
    (h : i ∈ newlyExpired db (c.apply faults db).2) :
    ∃ id now, c = .updateIntentToExpired id now ∧ IntentStore.late id now i := by
  obtain ⟨hi, hx⟩ := List.mem_filter.1 h
  simp only [decide_eq_true_eq, Option.any_eq_true] at hx
  obtain ⟨hne, i', hi', hs⟩ := hx
  have hfind : db.intents.find? i.id = some i := Table.find?_eq_some_iff.2 ⟨hi, rfl⟩
  cases intentStep c faults db i.id with
  | same h =>
    rw [h, hfind] at hi'
    cases hi'
    exact absurd hs hne
  | created _ _ hn => cases hfind.symm.trans hn
  | changed h h' hc =>
    cases hfind.symm.trans h
    cases hi'.symm.trans h'
    cases hc with
    | expired hl => exact ⟨_, _, rfl, hl⟩
    | uploaded | claimed | givenUp | linked => cases hs
    | released | recovered =>
      unfold IntentStore.released at hs
      split at hs <;> cases hs

end Statements

/-! ### The request -/

section Request

variable {id text : String} {now : Time} {g : ConfirmWorld} {c : StoreCmd} {db : Database}

/-- What holds from the gate on: the clock value is fixed, and only late rows were expired. -/
structure Confirming (now : Time) (g : ConfirmWorld) : Prop where
  clock : g.now = some now
  late : ∀ i ∈ g.expired, i.status = .waiting ∧ i.expiresAt ≤ now

/-- The request expires rows by its own clock value only. -/
theorem Confirming.store (h : Confirming now g) (c : StoreCmd) (db : Database)
    (hc : ∀ id' now', c = .updateIntentToExpired id' now' → now' = now) :
    Confirming now ((g.afterStore c).under db) := by
  refine ⟨h.clock, fun i hi => ?_⟩
  rcases List.mem_append.1 hi with hi | hi
  · obtain ⟨id', now', rfl, hl⟩ := mem_newlyExpired hi
    obtain rfl := hc id' now' rfl
    simp only [IntentStore.late, decide_eq_true_eq] at hl
    exact hl.2
  · exact h.late i hi

theorem getIntent_db : (g.afterStore (.getIntent id)).db = g.db :=
  congrArg Prod.snd (apply_getIntent id g.db)

/-- A read gives the row as it is at that moment. -/
theorem ends_getIntent {α : Type} {f : Intent → UploadMethod α}
    {Q : Except UploadError α → Unit → ConfirmWorld → Prop}
    (hnone : g.db.intents.find? id = none → ∀ db',
      Q (.error (.intentNotFound id)) () ((g.afterStore (.getIntent id)).under db'))
    (hsome : ∀ i, g.db.intents.find? id = some i → ∀ db', Later id g.db db' →
      Ends (confirmContract id) (f i) Q () ((g.afterStore (.getIntent id)).under db')) :
    Ends (confirmContract id) (getIntent id >>= f) Q () g := by
  refine Prog.Ends.call (S := UploadSig) (c := .store (.getIntent id)) trivial ?_
  rintro r g₁ ⟨rfl, rfl⟩ g₂ ⟨db', hcalls, rfl⟩
  rw [getIntent_db] at hcalls
  have hr : ((StoreCmd.getIntent id).apply [] g.db).1 =
      (g.db.intents.find? id).elim (.error (.intentNotFound id)) .ok :=
    congrArg Prod.fst (apply_getIntent id g.db)
  rw [hr]
  cases hi : g.db.intents.find? id with
  | none => exact ends_raise (hnone hi db')
  | some i => exact hsome i hi db' (.of_calls hcalls)

/-- A statement that succeeds, and what follows. -/
theorem ends_store {α : Type} {n : c.Result} {f : c.Result → UploadMethod α}
    {Q : Except UploadError α → Unit → ConfirmWorld → Prop} (hr : (c.apply [] g.db).1 = .ok n)
    (h : ∀ db', Later id (c.apply [] g.db).2 db' →
      Ends (confirmContract id) (f n) Q () ((g.afterStore c).under db')) :
    Ends (confirmContract id) (store text c >>= f) Q () g := by
  refine Prog.Ends.call (S := UploadSig) (c := .store c) trivial ?_
  rintro r g₁ ⟨rfl, rfl⟩ g₂ ⟨db', hcalls, rfl⟩
  rw [hr]
  exact h db' (.of_calls hcalls)

/-- The row, if it waits, waits too long for this request. -/
def Overdue (id : String) (now : Time) (db : Database) : Prop :=
  ∀ i, db.intents.find? id = some i → i.status = .waiting → i.expiresAt ≤ now

/-- The row does not wait. -/
def Decided (id : String) (db : Database) : Prop :=
  ∀ i, db.intents.find? id = some i → i.status ≠ .waiting

theorem Overdue.later {db' : Database} (h : Overdue id now db) (hl : Later id db db') :
    Overdue id now db' := by
  intro i' hi' hw
  cases hi : db.intents.find? id with
  | none => cases (hl.none hi).symm.trans hi'
  | some i =>
    obtain ⟨j, hj, he, hback, -⟩ := hl.row i hi
    cases hj.symm.trans hi'
    exact he ▸ h i hi (hback hw)

theorem Decided.later {db' : Database} (h : Decided id db) (hl : Later id db db') :
    Decided id db' := by
  intro i' hi' hw
  cases hi : db.intents.find? id with
  | none => cases (hl.none hi).symm.trans hi'
  | some i =>
    obtain ⟨j, hj, -, hback, -⟩ := hl.row i hi
    cases hj.symm.trans hi'
    exact h i hi (hback hw)

theorem find?_expire : ((StoreCmd.updateIntentToExpired id now).apply [] db).2.intents.find? id =
    (db.intents.find? id).map fun i =>
      if IntentStore.late id now i then IntentStore.expired i else i :=
  Table.find?_update db.intents (IntentStore.late id now) IntentStore.expired (fun _ => rfl) id

theorem find?_gate : ((StoreCmd.updateIntentToUploaded id now).apply [] db).2.intents.find? id =
    (db.intents.find? id).map fun i =>
      if IntentStore.inTime id now i then IntentStore.uploaded now i else i :=
  Table.find?_update db.intents (IntentStore.inTime id now) (IntentStore.uploaded now)
    (fun _ => rfl) id

/-- After the expiry an overdue row does not wait. -/
theorem Overdue.decided (h : Overdue id now db) :
    Decided id ((StoreCmd.updateIntentToExpired id now).apply [] db).2 := by
  intro i' hi'
  rw [find?_expire, Option.map_eq_some_iff] at hi'
  obtain ⟨i, hi, rfl⟩ := hi'
  have hid : i.id = id := Table.key_of_find? hi
  split
  case isTrue => exact nofun
  case isFalse hl =>
    intro hw
    exact hl (by simp [IntentStore.late, hid, hw, h i hi hw])

/-- A row that the expiry changed is EXPIRED. -/
theorem expired_of_affected (h : db.intents.affected (IntentStore.late id now) ≠ 0) :
    ∃ i, ((StoreCmd.updateIntentToExpired id now).apply [] db).2.intents.find? id = some i ∧
      i.status = .expired := by
  rw [Table.affected_eq (k := id) (by simp +contextual [IntentStore.late])] at h
  obtain ⟨i, hi, hl⟩ : ∃ i, db.intents.find? id = some i ∧ IntentStore.late id now i := by
    simpa [Option.any_eq_true] using h
  refine ⟨IntentStore.expired i, ?_, rfl⟩
  rw [find?_expire, hi, Option.map_some, if_pos hl]

/-- After the gate a row that still waits is overdue. -/
theorem overdue_of_gate :
    Overdue id now ((StoreCmd.updateIntentToUploaded id now).apply [] db).2 := by
  intro i' hi' hw
  rw [find?_gate, Option.map_eq_some_iff] at hi'
  obtain ⟨i, hi, rfl⟩ := hi'
  have hid : i.id = id := Table.key_of_find? hi
  split at hw
  case isTrue => cases hw
  case isFalse hl =>
    rw [if_neg hl]
    simpa [IntentStore.inTime, hid, hw] using hl

/-- Before the first round the row is overdue if it waits; before the second it does not wait. -/
inductive Rounds (id : String) (now : Time) : Nat → ConfirmWorld → Prop
  | first {g : ConfirmWorld} (h : Overdue id now g.db) (hr : g.rounds = 0) : Rounds id now 1 g
  | second {g : ConfirmWorld} (h : Decided id g.db) (hr : g.rounds = 1) : Rounds id now 0 g

theorem Rounds.le {n : Nat} (h : Rounds id now n g) : g.rounds + 1 ≤ 2 := by
  cases h <;> omega

/-- What a read decides. -/
theorem verdict_cases (i : Intent) : (verdict i = some (.ok i) ∧ PastGate i) ∨
    (verdict i = some (.error (.intentExpired i)) ∧ i.status = .expired) ∨
    (∃ e, verdict i = some (.error e) ∧ ∀ j, e ≠ .intentExpired j) ∨
    (verdict i = none ∧ i.status = .waiting) := by
  unfold verdict PastGate
  cases i.status with
  | waiting => exact .inr (.inr (.inr ⟨rfl, rfl⟩))
  | uploaded => exact .inl ⟨rfl, .inl rfl⟩
  | hashing => exact .inl ⟨rfl, .inr (.inl rfl)⟩
  | hashed => exact .inl ⟨rfl, .inr (.inr rfl)⟩
  | expired => exact .inr (.inl ⟨rfl, rfl⟩)
  | unknown => exact .inr (.inr (.inl ⟨.intentUnknown, rfl, by rintro _ ⟨⟩⟩))
  | failed => exact .inr (.inr (.inl ⟨.intentFailed i, rfl, by rintro _ ⟨⟩⟩))

section Verdict

variable (h : Confirming now g) (hn : g.rounds ≤ 2)

include h hn

theorem Verdict.ok {i : Intent} (hpass : g.passed ∨ ∃ j, g.lastRead = some j ∧ PastGate j) :
    Verdict id (.ok i) g where
  rounds := hn
  success _ _ := hpass
  expired _ hi := by cases hi
  late i hi := ⟨(h.late i hi).1, now, h.clock, (h.late i hi).2⟩

theorem Verdict.expiredNow {i j : Intent} (hj : g.db.intents.find? id = some j)
    (hs : j.status = .expired) : Verdict id (.error (.intentExpired i)) g where
  rounds := hn
  success _ hi := by cases hi
  expired _ _ := ⟨j, hj, hs⟩
  late i hi := ⟨(h.late i hi).1, now, h.clock, (h.late i hi).2⟩

theorem Verdict.otherError {e : UploadError} (he : ∀ i, e ≠ .intentExpired i) :
    Verdict id (.error e) g where
  rounds := hn
  success _ hi := by cases hi
  expired i hi := by
    cases hi
    exact absurd rfl (he i)
  late i hi := ⟨(h.late i hi).1, now, h.clock, (h.late i hi).2⟩

end Verdict

/-- What one round comes to. -/
def RoundEnd (id : String) (now : Time) (n : Nat) :
    Except UploadError (Unit ⊕ Intent) → ConfirmWorld → Prop
  | .ok (.inl _) => fun g => ∃ m < n, Confirming now g ∧ Rounds id now m g
  | .ok (.inr i) => Verdict id (.ok i)
  | .error e => Verdict id (.error e)

theorem lostGateRound_ends {n : Nat} (h : Confirming now g) (hn : Rounds id now n g) :
    Ends (confirmContract id) (lostGateRound id now) (fun r _ g => RoundEnd id now n r g) () g := by
  have hrounds := hn.le
  have hread (db' : Database) : Confirming now ((g.afterStore (.getIntent id)).under db') :=
    h.store _ _ fun _ _ => nofun
  refine ends_getIntent (fun hnone db' => ?notFound) fun i hi db' hl => ?found
  case notFound => exact Verdict.otherError (hread db') hrounds fun _ => nofun
  case found =>
    obtain ⟨hv, hpast⟩ | ⟨hv, hs⟩ | ⟨e, hv, he⟩ | ⟨hv, hs⟩ := verdict_cases i
    · simp only [hv]
      exact ends_pure (Verdict.ok (hread db') hrounds (.inr ⟨i, hi, hpast⟩))
    · obtain ⟨j, hj, -, -, hstays⟩ := hl.row i hi
      simp only [hv]
      exact ends_raise (Verdict.expiredNow (hread db') hrounds hj (hstays hs))
    · simp only [hv]
      exact ends_raise (Verdict.otherError (hread db') hrounds he)
    · simp only [hv]
      -- Only the first round finds the row waiting, and the expiry decides it.
      cases hn with
      | second hdecided => exact absurd hs (hdecided i hi)
      | first hoverdue hzero =>
        refine ends_store rfl fun db'' hl' => ends_ite (fun hrows => ?again) fun hrows => ?expired
        case again =>
          refine ends_pure ⟨0, Nat.one_pos, ?_, .second ?_ (congrArg (· + 1) hzero)⟩
          · exact (hread db').store _ _ fun _ _ hc => by cases hc; rfl
          · exact (hoverdue.later hl).decided.later hl'
        case expired =>
          obtain ⟨j, hj, hs⟩ := expired_of_affected hrows
          obtain ⟨j', hj', -, -, hstays⟩ := hl'.row j hj
          have hdone := (hread db').store (.updateIntentToExpired id now) db''
            fun _ _ hc => by cases hc; rfl
          exact ends_raise (Verdict.expiredNow hdone hrounds hj' (hstays hs))

theorem resolveLostGate_ends (h : Confirming now g) (hg : Overdue id now g.db)
    (hr : g.rounds = 0) :
    Ends (confirmContract id) (resolveLostGate id now) (fun r _ g => Verdict id r g) () g := by
  refine ends_loop (n := 1) (fun n _ _ g => Confirming now g ∧ Rounds id now n g)
    ⟨h, .first hg hr⟩ fun n _ _ g hg => ?_
  refine ends_mono (lostGateRound_ends hg.1 hg.2) ?_
  rintro (e | _ | i) ⟨⟩ g' h' <;> exact h'

/-- However others write to the row in the meantime, a confirm returns after at most two rounds,
and its answer is right. -/
theorem confirmUpload_ends (id : String) (db : Database) :
    Ends (confirmContract id) (confirmUpload id) (fun r _ g => Verdict id r g) () (.start db) := by
  refine ends_call_bind trivial ?_
  rintro now _ _ rfl ⟨db₁, -, rfl⟩
  have hnow : Confirming now (({ ConfirmWorld.start db with now := some now }).under db₁) :=
    ⟨rfl, by simp [ConfirmWorld.start, ConfirmWorld.under]⟩
  refine ends_store rfl fun db₂ hl => ends_ite (fun hrows => ?lost) fun hrows => ?won
  case lost =>
    exact resolveLostGate_ends (hnow.store _ _ fun _ _ => nofun) (overdue_of_gate.later hl) rfl
  case won =>
    have hgate := hnow.store (.updateIntentToUploaded id now) db₂ fun _ _ => nofun
    have hread (db₃ : Database) := hgate.store (.getIntent id) db₃ fun _ _ => nofun
    refine ends_getIntent (fun _ db₃ => ?notFound) fun i _ db₃ _ => ?found
    case notFound => exact Verdict.otherError (hread db₃) (Nat.le_succ 1) fun _ => nofun
    case found =>
      exact ends_pure (Verdict.ok (hread db₃) (Nat.le_succ 1) (.inl (decide_eq_true hrows)))

end Request

end Center
