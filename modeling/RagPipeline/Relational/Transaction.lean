import Mathlib.Logic.Basic

/-!
# Transactions over a database that may fail at every statement

A statement either fails, on a constraint or because the driver reports an error, or yields a new
database and the number of rows it affected. A transaction works on its own copy until it
commits, so leaving it early rolls it back. Which statements fail is not the program's choice: it
is read off a list of faults.

## Main definitions

* `Statement`, `Tx`, `Tx.run`: statements, programs of statements, and what a caller sees of one.
* `Tx.Quiet`: programs that have not committed anything.

## Main results

* `Tx.Atomic.run_cases`: a program that only commits as its last step leaves no trace when it
  fails.
-/
namespace Relational

/-- `none` when a constraint rejects the statement. -/
abbrev Statement (DB : Type) := DB → Option (DB × Nat)

structure Session (DB : Type) where
  committed : DB
  working : DB
  /-- For each statement or commit to come, whether it fails; none fails once they run out. -/
  faults : List Bool

def Tx (DB ε α : Type) := Session DB → Except ε α × Session DB

namespace Tx

variable {DB ε α β : Type}

instance : Monad (Tx DB ε) where
  pure a s := (.ok a, s)
  bind x f s := match x s with
    | (.ok a, s) => f a s
    | (.error e, s) => (.error e, s)

def throw (e : ε) : Tx DB ε α := fun s => (.error e, s)

/-- `x`, unless the next fault strikes. -/
def guarded (e : ε) (x : Tx DB ε α) : Tx DB ε α := fun s =>
  if s.faults.headD false then (.error e, { s with faults := s.faults.tail })
  else x { s with faults := s.faults.tail }

def begin (e : ε) : Tx DB ε Unit :=
  guarded e fun s => (.ok (), { s with working := s.committed })

/-- One statement of the open transaction. -/
def exec (e : ε) (stmt : Statement DB) : Tx DB ε Nat :=
  guarded e fun s => match stmt s.working with
    | some (db, n) => (.ok n, { s with working := db })
    | none => (.error e, s)

def commit (e : ε) : Tx DB ε Unit :=
  guarded e fun s => (.ok (), { s with committed := s.working })

/-- A statement outside a transaction: it commits by itself. -/
def autocommit (e : ε) (stmt : Statement DB) : Tx DB ε Nat :=
  guarded e fun s => match stmt s.committed with
    | some (db, n) => (.ok n, { s with committed := db })
    | none => (.error e, s)

def query (e : ε) (f : DB → α) : Tx DB ε α := guarded e fun s => (.ok (f s.committed), s)

/-- The result of a program and what it left in the database. -/
def run (x : Tx DB ε α) (faults : List Bool) (db : DB) : Except ε α × DB :=
  ((x ⟨db, db, faults⟩).1, (x ⟨db, db, faults⟩).2.committed)

/-- Nothing is committed, whatever the result. -/
def Quiet (x : Tx DB ε α) : Prop := ∀ s, (x s).2.committed = s.committed

variable {x : Tx DB ε α} {f : α → Tx DB ε β} {s s' : Session DB} {e : ε}

theorem bind_of_ok {a : α} (h : x s = (.ok a, s')) : (x >>= f) s = f a s' := by
  change (match x s with | (.ok a, s) => f a s | (.error e, s) => (.error e, s)) = _
  rw [h]

theorem bind_of_error (h : x s = (.error e, s')) : (x >>= f) s = (.error e, s') := by
  change (match x s with | (.ok a, s) => f a s | (.error e, s) => (.error e, s)) = _
  rw [h]

theorem bind_ok {b : β} : (x >>= f) s = (.ok b, s') ↔
    ∃ a s₁, x s = (.ok a, s₁) ∧ f a s₁ = (.ok b, s') := by
  rcases h : x s with ⟨_ | a, s₁⟩
  · simp [bind_of_error h]
  · rw [bind_of_ok h]
    exact ⟨fun h => ⟨a, s₁, rfl, h⟩, by rintro ⟨_, _, ⟨⟩, h⟩; exact h⟩

theorem guarded_ok {a : α} (h : guarded e x s = (.ok a, s')) :
    x { s with faults := s.faults.tail } = (.ok a, s') := by
  unfold guarded at h
  split at h
  · cases h
  · exact h

theorem begin_ok (h : begin e s = (.ok (), s')) :
    s'.committed = s.committed ∧ s'.working = s.committed := by
  cases guarded_ok h; exact ⟨rfl, rfl⟩

theorem exec_ok {stmt : Statement DB} {n : Nat} (h : exec e stmt s = (.ok n, s')) :
    s'.committed = s.committed ∧ stmt s.working = some (s'.working, n) := by
  have h := guarded_ok h
  split at h <;> simp_all
  rw [← h.2]; exact ⟨rfl, rfl⟩

theorem commit_ok (h : commit e s = (.ok (), s')) : s'.committed = s.working := by
  cases guarded_ok h; rfl

theorem pure_ok {a b : α} (h : (pure a : Tx DB ε α) s = (.ok b, s')) : a = b ∧ s = s' := by
  cases h; exact ⟨rfl, rfl⟩

theorem autocommit_ok {stmt : Statement DB} {n : Nat} (h : autocommit e stmt s = (.ok n, s')) :
    stmt s.committed = some (s'.committed, n) := by
  have h := guarded_ok h
  split at h <;> simp_all
  rw [← h.2]

theorem quiet_pure (a : α) : Quiet (pure a : Tx DB ε α) := fun _ => rfl

theorem quiet_throw : Quiet (throw e : Tx DB ε α) := fun _ => rfl

theorem Quiet.bind (hx : Quiet x) (hf : ∀ a, Quiet (f a)) : Quiet (x >>= f) := by
  intro s
  have := hx s
  rcases h : x s with ⟨_ | a, s₁⟩
  · simpa [bind_of_error h, h] using this
  · rw [bind_of_ok h]
    exact (hf a s₁).trans (by simpa [h] using this)

theorem Quiet.guarded (hx : Quiet x) : Quiet (guarded e x) := by
  intro s
  unfold Tx.guarded
  split
  · rfl
  · exact hx _

theorem quiet_begin : Quiet (begin e : Tx DB ε Unit) := Quiet.guarded fun _ => rfl

theorem quiet_exec (stmt : Statement DB) : Quiet (exec e stmt) :=
  Quiet.guarded fun s => by split <;> rfl

theorem quiet_query (q : DB → α) : Quiet (query e q) := Quiet.guarded fun _ => rfl

/-- The only way to an error after a commit is one more step after it. -/
def Atomic (x : Tx DB ε α) : Prop := ∀ s e, (x s).1 = .error e → (x s).2.committed = s.committed

theorem Quiet.atomic (hx : Quiet x) : Atomic x := fun s _ _ => hx s

theorem atomic_commit : Atomic (commit e : Tx DB ε Unit) := by
  intro s e' h
  unfold commit Tx.guarded at *
  split at h <;> simp_all

theorem atomic_autocommit (stmt : Statement DB) : Atomic (autocommit e stmt) := by
  intro s e' h
  unfold autocommit Tx.guarded at *
  split at h
  · simp_all
  · simp only at h ⊢
    split at h <;> simp_all

theorem Atomic.map (hx : Atomic x) (g : α → β) : Atomic (x >>= fun a => pure (g a)) := by
  intro s e h
  have := hx s
  rcases hs : x s with ⟨e' | a, s₁⟩
  · simpa [bind_of_error hs, hs] using this e' (by simp [hs])
  · rw [bind_of_ok hs] at h
    cases h

theorem Quiet.bind_atomic (hx : Quiet x) (hf : ∀ a, Atomic (f a)) : Atomic (x >>= f) := by
  intro s e h
  have := hx s
  rcases hs : x s with ⟨e' | a, s₁⟩
  · simpa [bind_of_error hs, hs] using this
  · rw [bind_of_ok hs] at h ⊢
    exact (hf a s₁ e h).trans (by simpa [hs] using this)

/-- An atomic program fails and leaves no trace, or its run to the end decides what it leaves. -/
theorem Atomic.run_cases (hx : Atomic x) (faults : List Bool) (db : DB) :
    (∃ e, x.run faults db = (.error e, db)) ∨
      ∃ a s, x ⟨db, db, faults⟩ = (.ok a, s) ∧ x.run faults db = (.ok a, s.committed) := by
  rcases h : x ⟨db, db, faults⟩ with ⟨e | a, s⟩
  · have := hx ⟨db, db, faults⟩ e (by rw [h])
    exact .inl ⟨e, by simpa [run, h] using this⟩
  · exact .inr ⟨a, s, rfl, by simp [run, h]⟩

/-- A method of one statement: the statement commits, or nothing happened. -/
theorem run_autocommit (e : ε) (stmt : Statement DB) (faults : List Bool) (db : DB) :
    (∃ e', (autocommit e stmt).run faults db = (.error e', db)) ∨
      ∃ db' n, stmt db = some (db', n) ∧ (autocommit e stmt).run faults db = (.ok n, db') := by
  refine ((atomic_autocommit stmt).run_cases faults db).imp_right ?_
  rintro ⟨n, s, h, hr⟩
  exact ⟨s.committed, n, autocommit_ok h, hr⟩

theorem run_autocommit_map (e : ε) (stmt : Statement DB) (g : Nat → β) (faults : List Bool)
    (db : DB) :
    (∃ e', (autocommit e stmt >>= fun n => pure (g n)).run faults db = (.error e', db)) ∨
      ∃ db' n, stmt db = some (db', n) ∧
        (autocommit e stmt >>= fun n => pure (g n)).run faults db = (.ok (g n), db') := by
  refine (((atomic_autocommit stmt).map g).run_cases faults db).imp_right ?_
  rintro ⟨b, s, h, hr⟩
  obtain ⟨n, s₁, h₁, h⟩ := bind_ok.1 h
  obtain ⟨rfl, rfl⟩ := pure_ok h
  exact ⟨s₁.committed, n, autocommit_ok h₁, hr⟩

/-- What holds of the database before and after the statement holds after the call. -/
theorem of_autocommit {P : DB → Prop} {stmt : Statement DB} {faults : List Bool} {db : DB}
    (h₀ : P db) (h : ∀ db' n, stmt db = some (db', n) → P db') :
    P ((autocommit e stmt).run faults db).2 := by
  obtain ⟨_, hr⟩ | ⟨db', n, hs, hr⟩ := run_autocommit e stmt faults db
  · rwa [hr]
  · rw [hr]
    exact h db' n hs

theorem of_autocommit_map {P : DB → Prop} {stmt : Statement DB} {g : Nat → β}
    {faults : List Bool} {db : DB} (h₀ : P db) (h : ∀ db' n, stmt db = some (db', n) → P db') :
    P ((autocommit e stmt >>= fun n => pure (g n)).run faults db).2 := by
  obtain ⟨_, hr⟩ | ⟨db', n, hs, hr⟩ := run_autocommit_map e stmt g faults db
  · rwa [hr]
  · rw [hr]
    exact h db' n hs

theorem run_query_ok {q : DB → α} {faults : List Bool} {db : DB} {a : α}
    (h : ((query e q).run faults db).1 = .ok a) : a = q db := by
  have h : (query e q ⟨db, db, faults⟩).1 = .ok a := h
  unfold query guarded at h
  split at h
  · cases h
  · cases h
    rfl

theorem run_quiet (hx : Quiet x) (faults : List Bool) (db : DB) : (x.run faults db).2 = db :=
  hx _

/-! ### Runs without faults -/

section NoFaults

variable {c w db : DB} {stmt : Statement DB} {n : Nat}

theorem begin_nil : begin e ⟨c, w, []⟩ = (.ok (), ⟨c, c, []⟩) := rfl

theorem commit_nil : commit e ⟨c, w, []⟩ = (.ok (), ⟨w, w, []⟩) := rfl

theorem exec_nil (h : stmt w = some (db, n)) :
    exec e stmt ⟨c, w, []⟩ = (.ok n, ⟨c, db, []⟩) := by
  simp [exec, guarded, h]

theorem autocommit_nil (h : stmt c = some (db, n)) :
    autocommit e stmt ⟨c, w, []⟩ = (.ok n, ⟨db, w, []⟩) := by
  simp [autocommit, guarded, h]

theorem run_autocommit_nil (h : stmt c = some (db, n)) :
    (autocommit e stmt).run [] c = (.ok n, db) := by
  simp [run, autocommit_nil h]

end NoFaults

end Tx

end Relational
