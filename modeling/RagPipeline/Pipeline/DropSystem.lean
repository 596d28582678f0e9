import RagPipeline.Center.EntryWorker
import RagPipeline.Pipeline.Processes
import RagPipeline.Streams.Deliveries

/-!
# The status group and what it delivers

Any number of status workers in one group, with any handler, while entries are added and trimmed.
Every Redis call may be refused, or be done and lose its answer, and Redis may come back without
the group. Beside the pipeline's own state it is noted what was delivered, handled and
acknowledged, and by whom.

## Main definitions

* `StatusNote`, `DropWorld`: the notes, and the state with them.
* `statusSystem`: the workers and their surroundings.

## Main results

* `tally_after`: the group counts no more deliveries than are noted.
-/
namespace Pipeline

open Center Events Interact

inductive StatusNote where
  | delivered (worker : String) (id : Nat)
  | handled (worker : String) (id : Nat) (finished : Bool)
  | acked (worker : String) (id : Nat)
  deriving DecidableEq

namespace StatusNote

def worker : StatusNote → String
  | delivered worker _ | handled worker _ _ | acked worker _ => worker

def delivers (id : Nat) : StatusNote → Bool
  | delivered _ entry => entry == id
  | _ => false

def handles (id : Nat) : StatusNote → Bool
  | handled _ entry _ => entry == id
  | _ => false

end StatusNote

/-- How often the entry was delivered. -/
def deliveries (id : Nat) (log : List StatusNote) : Nat := log.countP (StatusNote.delivers id)

/-- How often `Handle` was called on it. -/
def handlings (id : Nat) (log : List StatusNote) : Nat := log.countP (StatusNote.handles id)

/-- What a worker did last. -/
def lastOf (worker : String) (log : List StatusNote) : Option StatusNote :=
  log.find? fun n => n.worker = worker

structure DropWorld extends World where
  /-- The last note first. -/
  log : List StatusNote

/-- The producers, `XADD … MAXLEN`, and Redis that comes back without the group. -/
inductive StatusStreamEvent where
  | xadd (fields : Fields)
  | trim (n : Nat)
  | loseGroup

def StatusStreamEvent.apply : StatusStreamEvent → World → World
  | xadd fields, w => { w with status := w.status.xadd fields }
  | trim n, w => { w with status := w.status.trim n }
  | loseGroup, w => { w with status := w.status.loseGroup }

namespace DropWorld

def start (w : World) : DropWorld := ⟨w, []⟩

variable (ch : PipelineChoice) (worker : String) (g : DropWorld)

/-- The deliveries of a command that is done. -/
def gives : StatusCmd → List Nat
  | .xreadgroup consumer _ count => Streams.delivers (g.status.xreadgroup consumer count).1
  | .xautoclaim consumer _ count =>
    Streams.delivers ((g.status.xautoclaim consumer ch.stale 0 count).1.map Prod.snd)
  | _ => []

def notes : WorkerSig.Cmd → List StatusNote
  | .inl (.handle e) => [.handled worker e.id ch.flag]
  | .inl .healthy => []
  | .inr (.xack id) => [.acked worker id]
  | .inr c => (ch.done [] (g.gives ch c)).map (.delivered worker)

/-- The handler finishes the entry, or the store is healthy, if the surroundings say so. -/
def reply : (c : WorkerSig.Cmd) → WorkerSig.Reply c
  | .inl (.handle _) => ch.flag
  | .inl .healthy => if ch.flag then .ok () else .error ch.storeError
  | .inr c => statusReply ch g.toWorld c

def worldAfter : WorkerSig.Cmd → World
  | .inl _ => g.toWorld
  | .inr c => statusAfter ch g.toWorld c

def after (c : WorkerSig.Cmd) : DropWorld := ⟨g.worldAfter ch c, g.notes ch worker c ++ g.log⟩

end DropWorld

def statusSystem (settings : StatusConfig) : Actors String DropWorld where
  sig _ := WorkerSig
  main worker := EntryWorker.run settings worker
  Choice := PipelineChoice
  respond worker c ch g := (g.reply ch c, g.after ch worker c)
  enter _ g := g
  leave _ g := g
  Env := StatusStreamEvent
  env e g := { g with toWorld := e.apply g.toWorld }

/-! ### Notes -/

section Log

variable {log new : List StatusNote} {worker other : String} {id : Nat}

theorem deliveries_append : deliveries id (new ++ log) = deliveries id new + deliveries id log :=
  List.countP_append

theorem deliveries_delivered {ids : List Nat} :
    deliveries id (ids.map (.delivered worker)) = ids.count id :=
  List.countP_map

theorem lastOf_append_of_ne (hnew : ∀ n ∈ new, n.worker = other) (hne : worker ≠ other) :
    lastOf worker (new ++ log) = lastOf worker log := by
  have hnone : new.find? (fun n => n.worker = worker) = none :=
    List.find?_eq_none.2 fun n hn h => hne ((of_decide_eq_true h).symm.trans (hnew n hn))
  rw [lastOf, List.find?_append, hnone, Option.none_or]
  rfl

end Log

namespace DropWorld

variable {ch : PipelineChoice} {worker other : String} {g : DropWorld} {c : WorkerSig.Cmd}
  {id : Nat} {given : List Nat}

theorem worker_of_mem_notes {n : StatusNote} (h : n ∈ g.notes ch worker c) : n.worker = worker := by
  unfold notes at h
  split at h
  case h_2 => cases h
  case h_4 =>
    obtain ⟨id, -, rfl⟩ := List.mem_map.1 h
    rfl
  all_goals
    rw [List.mem_singleton.1 h]
    rfl

theorem command_of_acked (h : .acked other id ∈ g.notes ch worker c) :
    other = worker ∧ c = .inr (.xack id) := by
  refine ⟨worker_of_mem_notes h, ?_⟩
  unfold notes at h
  split at h
  case h_1 => cases List.mem_singleton.1 h
  case h_2 => cases h
  case h_3 =>
    cases List.mem_singleton.1 h
    rfl
  case h_4 =>
    obtain ⟨entry, -, hentry⟩ := List.mem_map.1 h
    cases hentry

theorem count_le_after : deliveries id g.log ≤ deliveries id (g.after ch worker c).log := by
  rw [after, deliveries_append]
  exact Nat.le_add_left ..

/-- The group's counts after a command. -/
theorem tally_after (ch : PipelineChoice) (worker : String) (c : WorkerSig.Cmd)
    (h : g.status.Tally given) :
    ∃ given', (g.worldAfter ch c).status.Tally given' ∧ ∀ id,
      given'.count id ≤ deliveries id (g.notes ch worker c) + given.count id := by
  have hkept {s : Streams.Stream Fields String} (h' : s.Tally given) :
      (ch.done g.status s).Tally given := by
    unfold PipelineChoice.done
    split
    · exact h
    · exact h'
  have hmore {s : Streams.Stream Fields String} {ids : List Nat} (h' : s.Tally (ids ++ given)) :
      (ch.done g.status s).Tally (ch.done [] ids ++ given) := by
    unfold PipelineChoice.done
    split
    · exact h
    · exact h'
  have hcount {ids : List Nat} (id : Nat) : (ids ++ given).count id ≤
      deliveries id (ids.map (.delivered worker)) + given.count id := by
    rw [deliveries_delivered, List.count_append]
  rcases c with c | c
  · exact ⟨given, h, fun _ => Nat.le_add_left ..⟩
  · cases c with
    | store | logPoison => exact ⟨given, h, fun _ => Nat.le_add_left ..⟩
    | xgroupCreate => exact ⟨given, hkept h.xgroupCreate, fun _ => Nat.le_add_left ..⟩
    | xreadgroup => exact ⟨_, hmore h.xreadgroup, hcount⟩
    | xautoclaim => exact ⟨_, hmore h.xautoclaim, hcount⟩
    | xack => exact ⟨given, hkept h.xack, fun _ => Nat.le_add_left ..⟩
    | xgroupDelConsumer => exact ⟨given, hkept h.delConsumer, fun _ => Nat.le_add_left ..⟩
    | xpendingExt | xinfoConsumers | now | cancelled | sleep =>
      exact ⟨given, hkept h, fun _ => Nat.le_add_left ..⟩

theorem tally_apply (e : StatusStreamEvent) (h : g.status.Tally given) :
    ∃ given', (e.apply g.toWorld).status.Tally given' ∧ ∀ id, given'.count id ≤ given.count id := by
  cases e with
  | xadd fields => exact ⟨given, h.xadd, fun _ => le_rfl⟩
  | trim n => exact ⟨given, h.trim, fun _ => le_rfl⟩
  | loseGroup => exact ⟨[], rfl, fun _ => Nat.zero_le _⟩

/-- The count that a worker reads. -/
theorem count_of_xpending {pending : Option Int} (h : g.status.Tally given)
    (hreply : statusReply ch g.toWorld (.xpendingExt id) = Except.ok pending) :
    pending.getD 0 ≤ given.count id := by
  obtain ⟨-, hreply⟩ := PipelineChoice.heard_ok hreply
  obtain ⟨p, hp, rfl⟩ := PipelineChoice.map_ok hreply
  cases p with
  | none => exact Int.natCast_nonneg _
  | some p => exact Int.ofNat_le.2 (h.count_eq hp).le

end DropWorld

end Pipeline
