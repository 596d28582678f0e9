import RagPipeline.Center.TablesAgree
import RagPipeline.Events.StatusEvent

/-!
# The status handler

`Handler.Handle` turns one status stream entry into a store call and says whether to acknowledge
it. It is written over the store it is given, as in Go: the status worker runs it against the
commands of a run, and `deliver` runs it on one database.

## Main results

* `Handler.eventOf_toEntry`: the handler understands every entry the RAG service writes.
* `deliver_inert`, `handAll_inert`: entries whose attempts are over change nothing.
-/
namespace Center

open Relational Events

/-- What applying a status event needs from persistence. -/
structure StatusStore (m : Type → Type u) where
  applyIndexed (hash : String) (attempts : Int) (now : Time) : m (Except StoreError Bool)
  applyFailed (hash : String) (attempts : Int) (retryable : Bool) (maxAttempts : Int)
    (now : Time) : m (Except StoreError FailedOutcome)
  ping : m (Except StoreError Unit)

structure Handler (m : Type → Type u) where
  store : StatusStore m
  maxAttempts : Int
  now : m Time

namespace Handler

variable {m : Type → Type u} [Monad m]

/-- The status event an entry carries, if it carries one. -/
def eventOf (entry : Fields) : Option DecodedStatus :=
  if entry.eventType = some statusEventType then
    entry.payload.bind fun payload => (decodeStatus payload).toOption
  else none

@[simp] theorem eventOf_toEntry (s : StatusEvent) : eventOf s.toEntry = some s.decoded := by
  simp [eventOf, StatusEvent.toEntry, decodeStatus_toJson, Except.toOption]

/-- Apply one entry; `true` for every entry that is finished, malformed and stale ones too. -/
def handle (h : Handler m) (entry : Fields) : m Bool :=
  if entry.eventType ≠ some statusEventType then
    return true
  else match entry.payload with
  | none => return true
  | some payload => match decodeStatus payload with
    | .error _ => return true
    | .ok ev => match ev.status with
      | .indexed => do
        match ← h.store.applyIndexed ev.hash ev.attempts (← h.now) with
        | .error _ => return false
        | .ok _ => return true
      | .failed => do
        -- `DecodeStatus` guarantees that `retryable` is set
        let retryable := ev.retryable.getD false
        match ← h.store.applyFailed ev.hash ev.attempts retryable h.maxAttempts (← h.now) with
        | .error _ => return false
        | .ok _ => return true

def healthy (h : Handler m) : m (Except StoreError Unit) := h.store.ping

/-- The handler's three kinds of work, by the event an entry carries. -/
theorem handle_eq (h : Handler m) (entry : Fields) :
    h.handle entry = match eventOf entry with
      | none => pure true
      | some ev => match ev.status with
        | .indexed => do
          match ← h.store.applyIndexed ev.hash ev.attempts (← h.now) with
          | .error _ => return false
          | .ok _ => return true
        | .failed => do
          match ← h.store.applyFailed ev.hash ev.attempts (ev.retryable.getD false)
              h.maxAttempts (← h.now) with
          | .error _ => return false
          | .ok _ => return true := by
  unfold handle eventOf
  by_cases ht : entry.eventType = some statusEventType
  · rw [if_neg (not_not.2 ht), if_pos ht]
    cases entry.payload with
    | none => rfl
    | some payload =>
      simp only [Option.bind_some]
      cases decodeStatus payload <;> rfl
  · rw [if_pos ht, if_neg ht]

end Handler

/-! ### On one database -/

/-- The store over one database; the faults strike the one method call it gets. -/
def sqlStore (faults : List Bool) : StatusStore (StateM Database) where
  applyIndexed hash attempts now := fun db => (Store.applyIndexed hash attempts now).run faults db
  applyFailed hash attempts retryable maxAttempts now := fun db =>
    (Store.applyFailed hash attempts retryable maxAttempts now).run faults db
  ping := fun db => Store.ping.run faults db

/-- Hand one entry to the handler. -/
def deliver (m : MaxAttempts) (now : Time) (faults : List Bool) (entry : Fields)
    (db : Database) : Bool × Database :=
  Handler.handle ⟨sqlStore faults, m.val, pure now⟩ entry db

section Deliver

variable {m : MaxAttempts} {now : Time} {faults : List Bool} {entry : Fields} {db : Database}
  {ev : DecodedStatus}

theorem deliver_none (h : Handler.eventOf entry = none) :
    deliver m now faults entry db = (true, db) := by
  unfold deliver
  rw [Handler.handle_eq, h]
  rfl

theorem deliver_indexed (h : Handler.eventOf entry = some ev) (hs : ev.status = .indexed) :
    deliver m now faults entry db =
      let r := (Store.applyIndexed ev.hash ev.attempts now).run faults db
      (r.1.isOk, r.2) := by
  unfold deliver
  rw [Handler.handle_eq, h]
  simp only [hs, sqlStore, pure_bind]
  simp only [bind, StateT.bind]
  rcases (Store.applyIndexed ev.hash ev.attempts now).run faults db with ⟨_ | _, db'⟩ <;> rfl

theorem deliver_failed (h : Handler.eventOf entry = some ev) (hs : ev.status = .failed) :
    deliver m now faults entry db =
      let r := (Store.applyFailed ev.hash ev.attempts (ev.retryable.getD false) m.val now).run
        faults db
      (r.1.isOk, r.2) := by
  unfold deliver
  rw [Handler.handle_eq, h]
  simp only [hs, sqlStore, pure_bind]
  simp only [bind, StateT.bind]
  rcases (Store.applyFailed ev.hash ev.attempts (ev.retryable.getD false) m.val now).run
    faults db with ⟨_ | _, db'⟩ <;> rfl

/-- The document of `hash` is not in progress at attempt `attempts`: the compare-and-swap of an
event for that attempt matches no row. -/
def Inert (db : Database) (hash : String) (attempts : Int) : Prop :=
  ∀ d, db.documents.find? hash = some d → d.retries = attempts → d.status ≠ .processing

theorem inert_iff {hash : String} {attempts : Int} : Inert db hash attempts ↔
    db.documents.affected (Store.current hash attempts) = 0 := by
  rw [← not_iff_not, ← ne_eq, affected_current]
  simp [Inert]

theorem finished_of_inert {hash : String} {attempts : Int} {status : DocumentStatus}
    (h : Inert db hash attempts) :
    Store.finished db.documents hash attempts status now = db.documents :=
  Table.update_eq_self (inert_iff.1 h)

/-- An event for an attempt the document has left changes nothing, whatever fails. -/
theorem deliver_inert (h : ∀ ev, Handler.eventOf entry = some ev → Inert db ev.hash ev.attempts) :
    (deliver m now faults entry db).2 = db := by
  cases he : Handler.eventOf entry with
  | none => rw [deliver_none he]
  | some ev =>
    have hi := h ev he
    cases hs : ev.status with
    | indexed =>
      rw [deliver_indexed he hs]
      obtain ⟨_, hr⟩ | hr := @Store.applyIndexed_cases db faults ev.hash
        ev.attempts now
      · rw [hr]
      · rw [hr]; simp [finished_of_inert hi]
    | failed =>
      rw [deliver_failed he hs]
      have hn := inert_iff.1 hi
      obtain ⟨_, hr⟩ | ⟨-, hr⟩ | ⟨h, -⟩ | ⟨h, -⟩ := @Store.applyFailed_cases db faults
        ev.hash ev.attempts (ev.retryable.getD false) m.val now
      · rw [hr]
      · rw [hr]
      · exact absurd hn h
      · exact absurd hn h

/-- One entry handed over: when, and which statements fail. -/
structure Handover where
  now : Time
  faults : List Bool
  entry : Fields

/-- Hand over one entry after the other. -/
def handAll (m : MaxAttempts) (deliveries : List Handover) (db : Database) : Database :=
  deliveries.foldl (fun db e => (deliver m e.now e.faults e.entry db).2) db

theorem handAll_inert {deliveries : List Handover}
    (h : ∀ e ∈ deliveries, ∀ ev, Handler.eventOf e.entry = some ev → Inert db ev.hash ev.attempts) :
    handAll m deliveries db = db := by
  induction deliveries with
  | nil => rfl
  | cons e rest ih =>
    obtain ⟨he, hrest⟩ := List.forall_mem_cons.1 h
    rw [handAll, List.foldl_cons, deliver_inert he]
    exact ih hrest

end Deliver

end Center
