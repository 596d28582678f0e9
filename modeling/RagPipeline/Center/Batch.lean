import RagPipeline.Center.StatusWorker
import RagPipeline.Interact.Total

/-!
# A batch of status entries

The worker reads a batch and hands its entries to a handler of which it knows two things: what
`Handle` returned, and whether the store was healthy when asked. Here it is written over these
answers; with the status handler behind them it is `StatusWorker.readOnce`.

## Main definitions

* `BatchWorker.readOnce`: the worker over any `EntryHandler` that is a `healthChecker`.
* `Tries`, `Settled`: the calls made for one entry, and what became of it.

## Main results

* `BatchWorker.interpret_readOnce`: over the status handler it is the status worker's.
* `readOnce_settles`: however handler and store fail, every entry of the batch has its turn.
-/
namespace Center

open Interact

/-- What the worker asks of its `Source`, its `EntryHandler` and the context. -/
inductive BatchCmd where
  | readNew (block : Int) (count : Nat)
  | handle (e : StatusEntry)
  | healthy
  | ack (id : Nat)
  | cancelled
  | sleep (duration : Int)

def BatchSig : Signature where
  Cmd := BatchCmd
  Reply
    | .readNew .. => Except RedisError (List StatusEntry)
    | .handle _ | .cancelled | .sleep _ => Bool
    | .healthy => Except StoreError Unit
    | .ack _ => Except RedisError Unit

namespace BatchWorker

open Prog
open StatusWorker (ReadError)

def perform (c : BatchCmd) : Prog BatchSig (BatchSig.Reply c) := Prog.perform (S := BatchSig) c

variable (cfg : StatusConfig)

def waitUntilHealthy : Prog BatchSig Unit := .iterate (fun _ => do
  let cancelled : Bool ← perform .cancelled
  if cancelled then
    return .inr ()
  let healthy : Except StoreError Unit ← perform .healthy
  match healthy with
  | .ok _ => return .inr ()
  | .error _ =>
    let _ ← perform (.sleep cfg.retryDelay)
    return .inl ()) ()

def pause (retried : Bool) : Prog BatchSig (Bool ⊕ Bool) := do
  let slept : Bool ← perform (.sleep cfg.retryDelay)
  if slept then return .inl retried else return .inr false

def process (e : StatusEntry) : Prog BatchSig Bool := .iterate (fun retriedWhileHealthy => do
  let finished : Bool ← perform (.handle e)
  if finished then
    let _ ← perform (.ack e.id)
    return .inr true
  else
    let cancelled : Bool ← perform .cancelled
    if cancelled then
      return .inr false
    else
      let healthy : Except StoreError Unit ← perform .healthy
      match healthy with
      | .error _ =>
        waitUntilHealthy cfg
        pause cfg retriedWhileHealthy
      | .ok _ => if retriedWhileHealthy then return .inr false else pause cfg true) false

def processAll (failed : Nat) : List StatusEntry → Prog BatchSig (Except ReadError Unit)
  | [] => return if failed > 0 then .error .entriesFailed else .ok ()
  | e :: rest => do
    let cancelled : Bool ← perform .cancelled
    if cancelled then
      return .ok ()
    else if ← process cfg e then
      processAll failed rest
    else
      processAll (failed + 1) rest

def readOnce : Prog BatchSig (Except ReadError Unit) := do
  let block := max (min cfg.readBlock cfg.recoveryInterval) 1000000
  let entries : Except RedisError (List StatusEntry) ← perform (.readNew block cfg.batchSize)
  match entries with
  | .error e => return .error (.redis e)
  | .ok entries => processAll cfg 0 entries

/-! ### Over the status handler -/

/-- The status handler and the Redis source of a worker. -/
def implement (maxAttempts : Int) (id : String) : (c : BatchCmd) → StatusProg (BatchSig.Reply c)
  | .readNew block count => StatusWorker.perform (.xreadgroup id block count)
  | .handle e => (StatusWorker.handler maxAttempts).handle e.fields
  | .healthy => (StatusWorker.handler maxAttempts).healthy
  | .ack entry => StatusWorker.perform (.xack entry)
  | .cancelled => StatusWorker.cancelled
  | .sleep duration => StatusWorker.sleep duration

section Interpret

variable (maxAttempts : Int) (id : String)

theorem interpret_waitUntilHealthy : (waitUntilHealthy cfg).interpret (implement maxAttempts id) =
    StatusWorker.waitUntilHealthy cfg maxAttempts := by
  refine congrArg (Prog.iterate · ()) (funext fun _ => ?_)
  refine congrArg StatusWorker.cancelled.bind (funext fun (cancelled : Bool) => ?_)
  refine interpret_ite.trans (congrArg (ite _ _) ?_)
  refine congrArg (StatusWorker.handler maxAttempts).healthy.bind (funext fun healthy => ?_)
  cases healthy <;> rfl

theorem interpret_pause (retried : Bool) :
    (pause cfg retried).interpret (implement maxAttempts id) = StatusWorker.pause cfg retried :=
  congrArg (Prog.bind _) (funext fun (_ : Bool) => interpret_ite)

theorem interpret_process (e : StatusEntry) :
    (process cfg e).interpret (implement maxAttempts id) =
      StatusWorker.process cfg maxAttempts e := by
  refine congrArg (Prog.iterate · false) (funext fun retried => ?_)
  refine congrArg (Prog.bind _) (funext fun (finished : Bool) => interpret_ite.trans ?_)
  refine congrArg (ite _ _) (congrArg (Prog.bind _) (funext fun (cancelled : Bool) => ?_))
  refine interpret_ite.trans (congrArg (ite _ _) ?_)
  refine congrArg (Prog.bind _) (funext fun healthy => ?_)
  cases healthy with
  | error _ =>
    refine (interpret_bind (waitUntilHealthy cfg) _).trans ?_
    rw [interpret_waitUntilHealthy]
    exact congrArg (Prog.bind _) (funext fun _ => interpret_pause ..)
  | ok _ => exact interpret_ite.trans (congrArg (ite _ _) (interpret_pause ..))

theorem interpret_processAll (entries : List StatusEntry) (failed : Nat) :
    (processAll cfg failed entries).interpret (implement maxAttempts id) =
      StatusWorker.processAll cfg maxAttempts failed entries := by
  induction entries generalizing failed with
  | nil => rfl
  | cons e rest ih =>
    refine congrArg (Prog.bind _) (funext fun (cancelled : Bool) => interpret_ite.trans ?_)
    refine congrArg (ite _ _) ((interpret_bind (process cfg e) _).trans ?_)
    rw [interpret_process]
    refine congrArg (Prog.bind _) (funext fun (finished : Bool) => interpret_ite.trans ?_)
    rw [ih, ih]

/-- The status worker's reading, through its handler and its source. -/
theorem interpret_readOnce : (readOnce cfg).interpret (implement maxAttempts id) =
    StatusWorker.readOnce cfg maxAttempts id := by
  refine congrArg (Prog.bind _) (funext fun entries => ?_)
  cases entries with
  | error _ => rfl
  | ok entries => exact interpret_processAll ..

end Interpret

/-! ### What becomes of a batch -/

/-- A call of the worker that returned. -/
inductive Call where
  | handle (e : StatusEntry) (finished : Bool)
  | probe (passed : Bool)
  | ack (id : Nat)

/-- The calls made for an entry while `Handle` fails on it; the number counts the failures after
which the store was found healthy. A store that was not is asked until it is. -/
inductive Tries (e : StatusEntry) : Nat → List Call → Prop
  | none : Tries e 0 []
  | healthy {n : Nat} {calls : List Call} (h : Tries e n calls) :
      Tries e (n + 1) (calls ++ [.handle e false, .probe true])
  | unhealthy {n : Nat} {calls : List Call} (h : Tries e n calls) (more : Nat) :
      Tries e n (calls ++ .handle e false ::
        (List.replicate (more + 1) (.probe false) ++ [.probe true]))

/-- An entry's turn: acknowledged as soon as `Handle` returns true, or left pending after the second
failure that the store is not to blame for. -/
inductive Settled (e : StatusEntry) : Bool → List Call → Prop
  | acked {n : Nat} {calls : List Call} (h : Tries e n calls) (hn : n < 2) :
      Settled e true (calls ++ [.handle e true, .ack e.id])
  | pending {calls : List Call} (h : Tries e 2 calls) : Settled e false calls

structure Turn where
  finished : Bool
  calls : List Call

/-- The entries had their turns in order, and the caller was told whether one stayed pending. -/
structure Report (batch : List StatusEntry) (r : Except ReadError Unit) (calls : List Call)
    (turns : List Turn) : Prop where
  settled : List.Forall₂ (fun e turn => Settled e turn.finished turn.calls) batch turns
  calls_eq : calls = turns.flatMap Turn.calls
  failed_iff : r = .error .entriesFailed ↔ ∃ turn ∈ turns, turn.finished = false
  ok_iff : r = .ok () ↔ ∀ turn ∈ turns, turn.finished = true

/-- A batch to be read, the failing probes to come, and the calls so far. -/
structure BatchWorld where
  batch : List StatusEntry
  failing : Nat
  calls : List Call

/-- Nobody shuts the worker down. -/
inductive BatchExec : (c : BatchCmd) → BatchWorld → BatchSig.Reply c → BatchWorld → Prop
  | readNew {block : Int} {count : Nat} {g : BatchWorld} :
      BatchExec (.readNew block count) g (.ok g.batch) g
  | handle {e : StatusEntry} {finished : Bool} {g : BatchWorld} :
      BatchExec (.handle e) g finished { g with calls := g.calls ++ [.handle e finished] }
  | healthy {g : BatchWorld} :
      BatchExec .healthy g (.ok ()) { g with calls := g.calls ++ [.probe true] }
  | unhealthy {error : StoreError} {g : BatchWorld} {n : Nat} (h : g.failing = n + 1) :
      BatchExec .healthy g (.error error)
        { g with failing := n, calls := g.calls ++ [.probe false] }
  | ack {id : Nat} {r : Except RedisError Unit} {g : BatchWorld} :
      BatchExec (.ack id) g r { g with calls := g.calls ++ [.ack id] }
  | cancelled {g : BatchWorld} : BatchExec .cancelled g false g
  | sleep {duration : Int} {g : BatchWorld} : BatchExec (.sleep duration) g true g

def batchContract : Contract BatchSig BatchWorld where
  inv _ := True
  rely g g' := g' = g
  guard _ _ := True
  exec := BatchExec

section Settle

variable {cfg : StatusConfig} {g : BatchWorld} {α : Type} {Q : α → BatchWorld → Prop}

/-- The worker as it goes on after a command. -/
theorem ends_call {c : BatchCmd} {k : BatchSig.Reply c → Prog BatchSig α}
    (h : ∀ r g', BatchExec c g r g' → Ends batchContract Q (k r) g') :
    Ends batchContract Q (.call c k) g := by
  refine .call trivial fun r g' hx g'' hr => ?_
  cases hr
  exact h r g' hx

theorem healthy_cases {r : Except StoreError Unit} {g' : BatchWorld}
    (h : BatchExec .healthy g r g') :
    (r = .ok () ∧ g' = { g with calls := g.calls ++ [.probe true] }) ∨
    ∃ error n, r = .error error ∧ g.failing = n + 1 ∧
      g' = { g with failing := n, calls := g.calls ++ [.probe false] } := by
  cases h with
  | healthy => exact .inl ⟨rfl, rfl⟩
  | @unhealthy error _ n h => exact .inr ⟨error, n, rfl, h, rfl⟩

/-- Waiting for a healthy store goes through failing probes, of which there are only so many. -/
theorem waitUntilHealthy_ends (calls : List Call) (more : Nat)
    (hcalls : g.calls = calls ++ List.replicate (more + 1) (.probe false)) :
    Ends batchContract (fun _ g' => g'.failing ≤ g.failing ∧ ∃ more,
      g'.calls = calls ++ (List.replicate (more + 1) (.probe false) ++ [.probe true]))
      (waitUntilHealthy cfg) g := by
  refine ends_iterate (n := g.failing) (fun n _ g' => g'.failing = n ∧ n ≤ g.failing ∧ ∃ more,
    g'.calls = calls ++ List.replicate (more + 1) (.probe false)) ⟨rfl, le_rfl, more, hcalls⟩ ?_
  rintro n ⟨⟩ g₁ ⟨hn, hle, more, hcalls⟩
  refine ends_call ?_
  rintro _ _ ⟨⟩
  refine ends_call fun r g₂ hx => ?_
  obtain ⟨rfl, rfl⟩ | ⟨error, m, rfl, hm, rfl⟩ := healthy_cases hx
  · exact .ret ⟨hn ▸ hle, more, by simp [hcalls]⟩
  · refine ends_call ?_
    rintro _ _ ⟨⟩
    have hlt : m < n := by omega
    refine .ret ⟨m, hlt, rfl, hlt.le.trans hle, more + 1, ?_⟩
    simp [hcalls, List.replicate_succ' (n := more + 1)]

/-- How often an entry has failed while the store was healthy, by the flag of its loop. -/
def failures (retriedWhileHealthy : Bool) : Nat := if retriedWhileHealthy then 1 else 0

theorem process_ends (e : StatusEntry) : Ends batchContract (fun finished g' =>
    ∃ calls, g'.calls = g.calls ++ calls ∧ Settled e finished calls) (process cfg e) g := by
  -- A pass fails on a store that stays down no longer than so many probes, or sets the flag.
  refine ends_iterate (n := 2 * g.failing + 1) (fun n retried g' =>
    n = 2 * g'.failing + (1 - failures retried) ∧
    ∃ calls, g'.calls = g.calls ++ calls ∧ Tries e (failures retried) calls)
    ⟨rfl, [], (List.append_nil _).symm, .none⟩ ?_
  rintro n retried g₁ ⟨hn, calls, hcalls, htries⟩
  refine ends_call fun finished g₂ hx => ?_
  cases hx
  cases finished with
  | true =>
    refine ends_call ?_
    rintro _ _ ⟨⟩
    refine .ret ⟨calls ++ [.handle e true, .ack e.id], by simp [hcalls], .acked htries ?_⟩
    cases retried <;> decide
  | false =>
    refine ends_call ?_
    rintro _ _ ⟨⟩
    refine ends_call fun r g₂ hx => ?_
    obtain ⟨rfl, rfl⟩ | ⟨error, m, rfl, hm, rfl⟩ := healthy_cases hx
    · cases retried with
      | true => exact .ret ⟨_, by simp [hcalls], .pending htries.healthy⟩
      | false =>
        refine ends_call ?_
        rintro _ _ ⟨⟩
        exact .ret ⟨_, by subst hn; exact Nat.lt_succ_self _, rfl, _, by simp [hcalls],
          htries.healthy⟩
    · change Ends _ _ ((waitUntilHealthy cfg).bind _) _
      refine ends_bind (ends_mono (waitUntilHealthy_ends (g.calls ++ (calls ++ [.handle e false]))
        0 (by simp [hcalls])) ?_)
      rintro _ g₃ ⟨hle, more, hcalls₃⟩
      refine ends_call ?_
      rintro _ _ ⟨⟩
      refine .ret ⟨_, ?_, rfl, _, ?_, htries.unhealthy more⟩
      · change g₃.failing ≤ m at hle
        change g₁.failing = m + 1 at hm
        omega
      · simp [hcalls₃]

theorem processAll_ends (entries : List StatusEntry) (failed : Nat) :
    Ends batchContract (fun r g' => ∃ turns,
      List.Forall₂ (fun e turn => Settled e turn.finished turn.calls) entries turns ∧
      g'.calls = g.calls ++ turns.flatMap Turn.calls ∧
      r = if failed = 0 ∧ ∀ turn ∈ turns, turn.finished = true then .ok ()
        else .error .entriesFailed) (processAll cfg failed entries) g := by
  induction entries generalizing failed g with
  | nil => exact .ret ⟨[], .nil, by simp, by cases failed <;> rfl⟩
  | cons e rest ih =>
    refine ends_call ?_
    rintro _ _ ⟨⟩
    change Ends _ _ ((process cfg e).bind _) g
    refine ends_bind (ends_mono (process_ends e) ?_)
    rintro finished g₁ ⟨calls, hcalls, hsettled⟩
    cases finished with
    | true =>
      refine ends_mono (ih failed) ?_
      rintro r g₂ ⟨turns, hturns, hcalls₂, hr⟩
      exact ⟨⟨true, calls⟩ :: turns, .cons hsettled hturns, by simp [hcalls₂, hcalls], by simpa⟩
    | false =>
      refine ends_mono (ih (failed + 1)) ?_
      rintro r g₂ ⟨turns, hturns, hcalls₂, hr⟩
      exact ⟨⟨false, calls⟩ :: turns, .cons hsettled hturns, by simp [hcalls₂, hcalls], by simpa⟩

/-- However often `Handle` fails, while the store is down and while it is not, readOnce ends, and
every entry of the batch has had its turn. -/
theorem readOnce_settles (cfg : StatusConfig) (batch : List StatusEntry) (failing : Nat) :
    Ends batchContract (fun r g => ∃ turns, Report batch r g.calls turns) (readOnce cfg)
      ⟨batch, failing, []⟩ := by
  refine ends_call ?_
  rintro _ _ ⟨⟩
  refine ends_mono (processAll_ends batch 0) ?_
  rintro r g ⟨turns, hturns, hcalls, rfl⟩
  refine ⟨turns, hturns, by simpa using hcalls, ?_, ?_⟩
  · by_cases h : ∀ turn ∈ turns, turn.finished = true <;> simp_all
  · by_cases h : ∀ turn ∈ turns, turn.finished = true <;> simp_all

end Settle

end BatchWorker

end Center
