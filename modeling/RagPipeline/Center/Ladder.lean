import RagPipeline.Center.Handler

/-!
# The retry ladder

Whatever list of status events a document is given, the ones that change the database climb its
attempts one by one: every rung but the last is a retryable failure that queues the next attempt,
and the last may end the document.

## Main results

* `deliver_step`: handing over one event does nothing, climbs one rung, or ends the document.
* `handle_ladder`: the effective events of a whole list.
-/
namespace Center

open Relational Events Wire

/-- An entry that carries an event about `hash`, and when it is handled. -/
structure Delivery (hash : String) where
  entry : Fields
  event : DecodedStatus
  carries : Handler.eventOf entry = some event
  about : event.hash = hash
  now : Time

/-- One entry handed over. -/
structure Handling where
  event : DecodedStatus
  ack : Bool
  before : Database
  after : Database

variable {m : MaxAttempts} {hash : String} {db : Database} {d : Document}

/-- Hand a list of entries to the handler, database calls succeeding. -/
def handleAll (m : MaxAttempts) (db : Database) : List (Delivery hash) → List Handling
  | [] => []
  | e :: es =>
    let r := deliver m e.now [] e.entry db
    ⟨e.event, r.1, db, r.2⟩ :: handleAll m r.2 es

def Handling.Effective (h : Handling) : Bool := h.after ≠ h.before

/-- A retryable failure below the bound: it queues exactly one row for the next attempt. -/
def Handling.Retried (m : MaxAttempts) (hash : String) (h : Handling) : Prop :=
  h.event.status = .failed ∧ h.event.retryable = some true ∧ h.event.attempts + 1 < m.val ∧
    ∃ id now, h.after.outbox.rows = h.before.outbox.rows ++
      [⟨id, hash, .pending, none, none, 0, now⟩]

/-- The document is finished and nothing is queued. -/
def Handling.Ended (hash : String) (h : Handling) : Prop :=
  h.after.outbox = h.before.outbox ∧ ∃ d, h.after.documents.find? hash = some d ∧
    (d.status = .indexed ∧ h.event.status = .indexed ∨
      d.status = .failed ∧ h.event.status = .failed)

/-- Without database errors every entry is finished. -/
theorem deliver_ack (m : MaxAttempts) (now : Time) (entry : Fields) (db : Database) :
    (deliver m now [] entry db).1 = true := by
  cases he : Handler.eventOf entry with
  | none => rw [deliver_none he]
  | some ev =>
    cases hs : ev.status with
    | indexed =>
      rw [deliver_indexed he hs]
      exact @Store.applyIndexed_isOk db ev.hash ev.attempts now
    | failed =>
      rw [deliver_failed he hs]
      exact @Store.applyFailed_isOk db ev.hash ev.attempts _ m.val now

/-- Handing over one event does nothing, moves the document on to the next attempt, or ends it. -/
theorem deliver_step (e : Delivery hash) (hd : db.documents.find? hash = some d) :
    let db' := (deliver m e.now [] e.entry db).2
    (¬ (d.status = .processing ∧ d.retries = e.event.attempts) ∧ db' = db) ∨
    (d.status = .processing ∧ d.retries = e.event.attempts ∧ e.event.status = .failed ∧
      e.event.retryable = some true ∧ addInt e.event.attempts 1 < m.val ∧
      db' = { db with documents := Store.retried db.documents hash e.event.attempts e.now
                      outbox := Database.enqueued db.outbox hash e.now }) ∨
    (d.status = .processing ∧ d.retries = e.event.attempts ∧ ∃ s,
      (s = .indexed ∧ e.event.status = .indexed ∨ s = .failed ∧ e.event.status = .failed) ∧
      db' = { db with
        documents := Store.finished db.documents hash e.event.attempts s e.now }) := by
  intro db'
  obtain ⟨entry, event, carries, rfl, now⟩ := e
  by_cases hn : db.documents.affected (Store.current event.hash event.attempts) = 0
  · have hinert := inert_iff.2 hn
    refine .inl ⟨fun h => hinert d hd h.2 h.1, deliver_inert fun ev hev => ?_⟩
    cases carries.symm.trans hev
    exact hinert
  obtain ⟨d', hd', hr, hs⟩ := affected_current.1 hn
  cases hd.symm.trans hd'
  refine .inr ?_
  cases hstatus : event.status with
  | indexed =>
    have hok := @Store.applyIndexed_isOk db event.hash event.attempts now
    simp only [db', deliver_indexed carries hstatus]
    obtain ⟨_, h⟩ | h := @Store.applyIndexed_cases db [] event.hash
      event.attempts now
    · rw [h] at hok; cases hok
    · exact .inr ⟨hs, hr, .indexed, .inl ⟨rfl, trivial⟩, by rw [h]⟩
  | failed =>
    have hok := @Store.applyFailed_isOk db event.hash event.attempts
      (event.retryable.getD false) m.val now
    simp only [db', deliver_failed carries hstatus]
    obtain ⟨_, h⟩ | ⟨h, -⟩ | ⟨-, hretry, hlt, h⟩ | ⟨-, -, h⟩ := @Store.applyFailed_cases db []
      event.hash event.attempts (event.retryable.getD false) m.val now
    · rw [h] at hok; cases hok
    · exact absurd h hn
    · have : event.retryable = some true := by
        cases he : event.retryable <;> simp_all
      exact .inl ⟨hs, hr, trivial, this, hlt, by rw [h]⟩
    · exact .inr ⟨hs, hr, .failed, .inr ⟨rfl, trivial⟩, by rw [h]⟩

/-- Every handling is a delivery of one entry of the list. -/
theorem mem_handleAll {es : List (Delivery hash)} {h : Handling} (hh : h ∈ handleAll m db es) :
    ∃ e ∈ es, h.event = e.event ∧ (h.ack, h.after) = deliver m e.now [] e.entry h.before := by
  induction es generalizing db with
  | nil => cases hh
  | cons e es ih =>
    rcases List.mem_cons.1 hh with rfl | hh
    · exact ⟨e, by simp, rfl, rfl⟩
    · obtain ⟨e', he', h⟩ := ih hh
      exact ⟨e', by simp [he'], h⟩

/-- A finished document stays as it is, whatever is handed over. -/
theorem deliver_finished (e : Delivery hash) (hd : db.documents.find? hash = some d)
    (hs : d.status ≠ .processing) : (deliver m e.now [] e.entry db).2 = db := by
  obtain ⟨-, h⟩ | ⟨h, -⟩ | ⟨h, -⟩ := deliver_step (m := m) e hd
  · exact h
  · exact absurd h hs
  · exact absurd h hs

/-- What a list of effective handlings looks like from attempt `k` on. -/
structure Climbs (m : MaxAttempts) (hash : String) (k : Nat) (eff : List Handling) : Prop where
  attempts : eff.map (fun h => h.event.attempts) =
    (List.range' k eff.length).map fun n => (n : Int)
  rungs : ∀ h ∈ eff.dropLast, h.Retried m hash
  last : ∀ h ∈ eff.getLast?, h.Retried m hash ∨ h.Ended hash

theorem Climbs.nil {k : Nat} : Climbs m hash k [] := ⟨rfl, by simp, by simp⟩

theorem Climbs.singleton {k : Nat} {h : Handling} (ha : h.event.attempts = k)
    (hend : h.Ended hash) : Climbs m hash k [h] :=
  ⟨by simp [ha], by simp, by simpa using Or.inr hend⟩

theorem Climbs.cons {k : Nat} {h : Handling} {eff : List Handling} (ha : h.event.attempts = k)
    (hh : h.Retried m hash) (heff : Climbs m hash (k + 1) eff) : Climbs m hash k (h :: eff) := by
  refine ⟨?_, ?_, ?_⟩
  · simp [List.range'_succ, ha, heff.attempts]
  · cases eff with
    | nil => simp
    | cons h' eff =>
      intro x hx
      rcases List.mem_cons.1 hx with rfl | hx
      · exact hh
      · exact heff.rungs x hx
  · cases eff with
    | nil => simpa using Or.inl hh
    | cons h' eff => simpa using heff.last

theorem effective_finished (hd : db.documents.find? hash = some d) (hs : d.status ≠ .processing)
    (es : List (Delivery hash)) :
    (handleAll m db es).filter Handling.Effective = [] := by
  induction es with
  | nil => rfl
  | cons e es ih =>
    simp only [handleAll, deliver_finished e hd hs]
    rw [List.filter_cons_of_neg (by simp [Handling.Effective])]
    exact ih

/-- From attempt `k` on: one step of the document, then the rest of the list. -/
theorem climbs_handleAll {k : Nat} (hd : db.documents.find? hash = some d)
    (hs : d.status = .processing) (hk : d.retries = k) (hlt : (k : Int) < m.val)
    (es : List (Delivery hash)) :
    Climbs m hash k ((handleAll m db es).filter Handling.Effective) := by
  induction es generalizing db d k with
  | nil => exact .nil
  | cons e es ih =>
    have hint := m.int64
    obtain ⟨-, hdb⟩ | ⟨-, hr, hfailed, hretry, hmax, hdb⟩ | ⟨-, hr, s, hstatus, hdb⟩ :=
      deliver_step (m := m) e hd
    · -- stale or duplicate
      simp only [handleAll, hdb]
      rw [List.filter_cons_of_neg (by simp [Handling.Effective])]
      exact ih hd hs hk hlt
    · have hadd : addInt e.event.attempts 1 = (k + 1 : Nat) := by
        rw [← hr, hk, addInt_of_lt (by omega) (by omega)]
        rfl
      have hc : Store.current hash e.event.attempts d :=
        current_iff.2 ⟨Table.key_of_find? hd, hr, hs⟩
      have hd' : (deliver m e.now [] e.entry db).2.documents.find? hash =
          some { d with retries := addInt e.event.attempts 1, updatedAt := e.now } := by
        rw [hdb]
        simp [find?_retried, hd, hc]
      have hrest := ih hd' hs hadd (by rw [← hadd]; exact hmax)
      have hne : (deliver m e.now [] e.entry db).2 ≠ db := fun he => by
        rw [he, hd] at hd'
        have := congrArg Document.retries (Option.some.inj hd')
        simp only [hadd, hk] at this
        omega
      simp only [handleAll]
      rw [List.filter_cons_of_pos (by simpa [Handling.Effective] using hne)]
      refine hrest.cons (hr.symm.trans hk) ⟨hfailed, hretry, ?_, ?_⟩
      · have : addInt e.event.attempts 1 = e.event.attempts + 1 := by rw [hadd, ← hr, hk]; rfl
        rw [← this]
        exact hmax
      · exact ⟨_, _, by rw [hdb]; rfl⟩
    · have hc : Store.current hash e.event.attempts d :=
        current_iff.2 ⟨Table.key_of_find? hd, hr, hs⟩
      have hd' : (deliver m e.now [] e.entry db).2.documents.find? hash =
          some { d with status := s, updatedAt := e.now } := by
        rw [hdb]
        simp [find?_finished, hd, hc]
      have hne : s ≠ .processing := by rcases hstatus with ⟨rfl, -⟩ | ⟨rfl, -⟩ <;> simp
      have hdb' : (deliver m e.now [] e.entry db).2 ≠ db := fun he => by
        rw [he, hd] at hd'
        exact hne ((congrArg Document.status (Option.some.inj hd')).symm.trans hs)
      simp only [handleAll]
      rw [List.filter_cons_of_pos (by simpa [Handling.Effective] using hdb'),
        effective_finished hd' hne]
      exact .singleton (hr.symm.trans hk) ⟨by rw [hdb], _, hd', hstatus⟩

theorem handle_ladder (m : MaxAttempts) {hash : String} {db : Database} {d : Document}
    (hd : db.documents.find? hash = some d) (hs : d.status = .processing) (hr : d.retries = 0)
    (es : List (Delivery hash)) :
    let handlings := handleAll m db es
    let eff := handlings.filter Handling.Effective
    eff.map (fun h => h.event.attempts) = (List.range eff.length).map (fun n => (n : Int)) ∧
      (∀ h ∈ eff.dropLast, h.Retried m hash) ∧
      (∀ h ∈ eff.getLast?, h.Retried m hash ∨ h.Ended hash) ∧
      (∀ h ∈ handlings, ∀ d, h.before.documents.find? hash = some d → d.status ≠ .processing →
        h.after.documents.find? hash = some d ∧ h.after.outbox = h.before.outbox) ∧
      ∀ h ∈ handlings, h.ack = true := by
  intro handlings eff
  obtain ⟨hattempts, hrungs, hlast⟩ := climbs_handleAll (k := 0) (m := m) hd hs (by simpa using hr)
    (by have := m.pos; omega) es
  refine ⟨by simpa [List.range_eq_range'] using hattempts, hrungs, hlast, fun h hh d hd hs => ?_,
    fun h hh => ?_⟩
  · obtain ⟨e, -, -, he⟩ := mem_handleAll hh
    have : h.after = h.before :=
      (congrArg Prod.snd he).trans (deliver_finished e hd hs)
    rw [this]
    exact ⟨hd, rfl⟩
  · obtain ⟨e, -, -, he⟩ := mem_handleAll hh
    exact (congrArg Prod.fst he).trans (deliver_ack m e.now e.entry h.before)

/-- An entry the RAG service writes about `hash`. -/
def Delivery.of (s : StatusEvent) (hash : String) (h : s.decoded.hash = hash) (now : Time) :
    Delivery hash :=
  ⟨s.toEntry, s.decoded, Handler.eventOf_toEntry s, h, now⟩

section Example

/-- A report on attempt `attempts` of document `h`. -/
def report (status : Status) (attempts : Fin 9) (retryable : Bool) : StatusEvent where
  hash := ofString "h"
  status
  attempts := attempts.val
  retryable := some retryable
  reason := some .internal
  detail := none
  chunkCount := none
  id := ofString "s"
  createdAt := 0
  hash_ne := by decide
  attempts_range := ⟨by omega, by have := attempts.isLt; unfold maxInteger; omega⟩
  id_ne := by decide
  detail_le := by simp
  chunkCount_range := by simp
  failed_complete := by simp

theorem report_hash (status : Status) (attempts : Fin 9) (retryable : Bool) :
    (report status attempts retryable).decoded.hash = "h" :=
  toGo_ofString "h"

/-- Out of order, twice, and after the end. -/
def disorder : List (Delivery "h") :=
  [.of (report .indexed 1 true) "h" (report_hash ..) 5,
    .of (report .failed 0 true) "h" (report_hash ..) 6,
    .of (report .failed 0 true) "h" (report_hash ..) 7,
    .of (report .failed 1 false) "h" (report_hash ..) 8,
    .of (report .indexed 1 true) "h" (report_hash ..) 9]

/-- A database with one fresh document. -/
def recorded : Database :=
  run (.start oneIntent) [(firstRetry.head (by decide))]

theorem handle_ladder_disorder :
    ∃ x y, (handleAll threeAttempts recorded disorder).filter Handling.Effective = [x, y] ∧
      x.Retried threeAttempts "h" ∧ (y.Retried threeAttempts "h" ∨ y.Ended "h") := by
  obtain ⟨d, hd, hs, hr⟩ : ∃ d, recorded.documents.find? "h" = some d ∧
      d.status = .processing ∧ d.retries = 0 := ⟨_, rfl, by decide, by decide⟩
  obtain ⟨-, hrungs, hlast, -, -⟩ := handle_ladder threeAttempts hd hs hr disorder
  have hlength : ((handleAll threeAttempts recorded disorder).filter Handling.Effective).length =
      2 := by decide +kernel
  obtain ⟨x, y, h⟩ := List.length_eq_two.1 hlength
  rw [h] at hrungs hlast
  exact ⟨x, y, h, hrungs x (by simp), hlast y (by simp)⟩

end Example

end Center
