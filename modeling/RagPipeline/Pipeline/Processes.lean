import RagPipeline.Center.OutboxWorker
import RagPipeline.Center.StatusWorker
import RagPipeline.Center.TablesAgree
import RagPipeline.Interact.Actors
import RagPipeline.Rag.IndexState
import RagPipeline.Rag.StreamConsumer
import RagPipeline.Streams.Group

/-!
# The pipeline

The outbox workers and the status workers of the center and the ingest consumers of the RAG
service, over `center.db`, the ingest stream, the status stream and the document index. Every SQL
or Redis call may be refused, or be done and lose its answer. A processor is any program over the
calls of an ingest job.

## Main definitions

* `World`: what is shared.
* `pipeline`: the processes and how their commands are answered.
* `Proviso`, `pipelineRules`: what a claim assumes of a run.
-/
namespace Pipeline

open Center Events Interact Rag Relational Wire

inductive Process where
  /-- A worker is its ID: each goroutine draws its own, and so does each consumer process. -/
  | outboxWorker (id : String)
  | outboxSweeper (n : Nat)
  | consumer (name : String)
  | statusWorker (id : String)
  | resetIndex (n : Nat)
  deriving DecidableEq

structure PipelineConfig where
  outbox : OutboxConfig
  status : StatusConfig
  consumer : ConsumerSettings
  maxAttempts : MaxAttempts
  processor : JobCall → Prog JobSig (Except JobError Outcome)

/-- The stores and streams; and of the status entries, which the status workers logged as poison
and which they acknowledged without that. -/
structure World where
  db : Database
  ingest : Streams.Stream Fields String
  status : Streams.Stream Fields String
  index : IndexState
  dropped : List Nat
  acked : List Nat

/-- Nothing uploaded yet; the index is whatever it is. -/
def World.start (intents : Table Intent) (index : IndexState) : World :=
  ⟨.start intents, .empty, .empty, index, [], []⟩

/-- What the surroundings decide about a command. -/
structure PipelineChoice where
  fate : Fate
  /-- What is raised unless the command is answered. -/
  pyError : PyError
  redisError : RedisError
  storeError : StoreError
  /-- Which statements of a store method fail. -/
  faults : List Bool
  /-- Which entries have been pending for long enough. -/
  stale : Nat → Bool
  /-- How long a consumer has been idle. -/
  idle : String → Int
  job : JobChoice
  time : Int
  flag : Bool
  text : String

namespace PipelineChoice

variable (ch : PipelineChoice)

def pyErrorOf : Streams.GroupError → PyError
  | .noGroup => .response true false
  | .busyGroup => .response false true

def redisErrorOf : Streams.GroupError → RedisError
  | .noGroup => ⟨true, false⟩
  | .busyGroup => ⟨false, true⟩

/-- How a caller hears of a call's result. -/
def heard {ε α : Type} (error : ε) (translate : Streams.GroupError → ε)
    (r : Except Streams.GroupError α) : Except ε α :=
  if ch.fate = .ok then r.mapError translate else .error error

def toPython {α : Type} (r : Except Streams.GroupError α) : Except PyError α :=
  ch.heard ch.pyError pyErrorOf r

def toGo {α : Type} (r : Except Streams.GroupError α) : Except RedisError α :=
  ch.heard ch.redisError redisErrorOf r

/-- The state after a call that would leave `s'`. -/
def done {S : Type} (s s' : S) : S := if ch.fate = .refused then s else s'

def storeReply (c : StoreCmd) (db : Database) : Except StoreError c.Result :=
  if ch.fate = .ok then (c.apply ch.faults db).1 else .error ch.storeError

def storeAfter (c : StoreCmd) (db : Database) : Database :=
  ch.done db (c.apply ch.faults db).2

/-! Only a call that was done is answered without an error of the network. -/

section Ok

variable {ch : PipelineChoice} {α β ε : Type}

theorem storeReply_eq {c : StoreCmd} {db : Database} {r : c.Result}
    (h : ch.storeReply c db = .ok r) : c.apply ch.faults db = (.ok r, ch.storeAfter c db) := by
  unfold storeReply at h
  split at h
  case isTrue hf =>
    refine Prod.ext h ?_
    simp [storeAfter, done, hf]
  case isFalse => cases h

theorem heard_ok {error : ε} {translate : Streams.GroupError → ε}
    {r : Except Streams.GroupError α} {a : α} (h : ch.heard error translate r = .ok a) :
    ch.fate = .ok ∧ r = .ok a := by
  unfold heard at h
  split at h
  · cases r with
    | error e => cases h
    | ok b => cases h; exact ⟨‹_›, rfl⟩
  · cases h

theorem map_ok {f : α → β} {r : Except ε α} {b : β} (h : r.map f = .ok b) :
    ∃ a, r = .ok a ∧ f a = b := by
  cases r with
  | error e => cases h
  | ok a => exact ⟨a, rfl, Except.ok.inj h⟩

end Ok

end PipelineChoice

/-! ### Answers -/

section Answers

variable (ch : PipelineChoice) (g : World)

def toBatch (b : Streams.Batch Fields 1) : Batch 1 :=
  ⟨b.entries.map fun e => ⟨e.1, some e.2⟩, by simpa using b.bounded⟩

def toStatusEntries {count : Nat} (b : Streams.Batch Fields count) : List StatusEntry :=
  b.entries.map fun e => ⟨e.1, e.2⟩

def consumerReply : (c : ConsumerCmd) → ConsumerSig.Reply c
  | .xgroupCreate => ch.toPython g.ingest.xgroupCreate.1
  | .xreadgroup consumer _ => ch.toPython ((g.ingest.xreadgroup consumer 1).1.map toBatch)
  | .xautoclaim consumer _ start =>
    ch.toPython ((g.ingest.xautoclaim consumer ch.stale start 1).1.map fun r =>
      ⟨r.1, toBatch r.2⟩)
  | .xpendingRange id => ch.toPython ((g.ingest.xpending id).map fun p =>
      p.map fun p => ((p.1 : Int), p.2))
  | .xack _ => ch.toPython (.ok ())
  | .xclaim consumer id => ch.toPython (g.ingest.xclaim consumer id).1
  | .xinfoConsumers => ch.toPython (g.ingest.xinfoConsumers.map fun cs =>
      cs.map fun c => ⟨c.1, c.2, ch.idle c.1⟩)
  | .xgroupDelconsumer consumer => ch.toPython (g.ingest.delConsumer consumer).1
  | .xadd _ => ch.toPython (.ok ())
  | .clock | .utcnow => ch.time
  | .sleep _ | .stopped => ch.flag
  | .arm | .disarm => ()
  | .uuid4 => ofString ch.text

/-- What a consumer does to its own stream. -/
def ingestAfter (s : Streams.Stream Fields String) : ConsumerCmd → Streams.Stream Fields String
  | .xgroupCreate => s.xgroupCreate.2
  | .xreadgroup consumer _ => (s.xreadgroup consumer 1).2
  | .xautoclaim consumer _ start => (s.xautoclaim consumer ch.stale start 1).2
  | .xack id => s.xack id
  | .xclaim consumer id => (s.xclaim consumer id).2
  | .xgroupDelconsumer consumer => (s.delConsumer consumer).2
  | _ => s

def consumerAfter : ConsumerCmd → World
  | .xadd status => { g with status := ch.done g.status (g.status.xadd status.toEntry) }
  | c => { g with ingest := ch.done g.ingest (ingestAfter ch g.ingest c) }

def outboxReply : (c : OutboxCmd) → OutboxSig.Reply c
  | .store c => ch.storeReply c g.db
  | .xadd _ => if ch.fate = .ok then some () else none
  | .now => ch.time
  | .uuid => ch.text
  | .cancelled | .tick => ch.flag
  | .done => ()

def outboxAfter : OutboxCmd → World
  | .store c => { g with db := ch.storeAfter c g.db }
  | .xadd fields => { g with ingest := ch.done g.ingest (g.ingest.xadd fields) }
  | _ => g

def statusReply : (c : StatusCmd) → StatusSig.Reply c
  | .store c => ch.storeReply c g.db
  | .xgroupCreate => ch.toGo g.status.xgroupCreate.1
  | .xreadgroup consumer _ count =>
    ch.toGo ((g.status.xreadgroup consumer count).1.map toStatusEntries)
  | .xautoclaim consumer _ count =>
    ch.toGo ((g.status.xautoclaim consumer ch.stale 0 count).1.map fun r => toStatusEntries r.2)
  | .xpendingExt id => ch.toGo ((g.status.xpending id).map fun p => p.map fun p => (p.1 : Int))
  | .xack _ => ch.toGo (.ok ())
  | .xinfoConsumers => ch.toGo (g.status.xinfoConsumers.map fun cs =>
      cs.map fun c => ⟨c.1, c.2, ch.idle c.1⟩)
  | .xgroupDelConsumer consumer => ch.toGo (g.status.delConsumer consumer).1
  | .now => ch.time
  | .cancelled | .sleep _ => ch.flag
  | .logPoison _ => ()

/-- What a status worker does to its own stream. -/
def statusStreamAfter (s : Streams.Stream Fields String) :
    StatusCmd → Streams.Stream Fields String
  | .xgroupCreate => s.xgroupCreate.2
  | .xreadgroup consumer _ count => (s.xreadgroup consumer count).2
  | .xautoclaim consumer _ count => (s.xautoclaim consumer ch.stale 0 count).2
  | .xack id => s.xack id
  | .xgroupDelConsumer consumer => (s.delConsumer consumer).2
  | _ => s

def statusAfter : StatusCmd → World
  | .store c => { g with db := ch.storeAfter c g.db }
  | .logPoison id => { g with dropped := id :: g.dropped }
  | c => { g with
      status := ch.done g.status (statusStreamAfter ch g.status c)
      acked := match c with
        | .xack id => ch.done g.acked (if id ∈ g.dropped then g.acked else id :: g.acked)
        | _ => g.acked }

def jobReply (c : JobCmd) : JobSig.Reply c := (c.respond ch.job g.index).1

def jobAfter (c : JobCmd) : World := { g with index := (c.respond ch.job g.index).2 }

end Answers

/-! ### Processes -/

abbrev ConsumerJobSig := ConsumerSig.sum JobSig

/-- The processor, run within a consumer. -/
def withProcessor (processor : JobCall → Prog JobSig (Except JobError Outcome)) :
    (c : ConsumerCall.Cmd) → Prog ConsumerJobSig (ConsumerCall.Reply c)
  | .inl c => Prog.perform (S := ConsumerJobSig) (.inl c)
  | .inr call => (processor call).interpret fun c => Prog.perform (S := ConsumerJobSig) (.inr c)

/-- What else happens: hash workers finish uploads, and clients change intents; streams are
trimmed, and Redis comes back without a group. -/
inductive PipelineEvent where
  | startIngestion (now : Time) (document : Document) (intentID claimedBy : String)
      (faults : List Bool)
  | intents (t : Table Intent)
  | trimIngest (n : Nat)
  | trimStatus (n : Nat)
  | loseIngestGroup
  | loseStatusGroup

def PipelineEvent.apply : PipelineEvent → World → World
  | startIngestion now document intentID claimedBy faults, g =>
    { g with db :=
        ((StoreCmd.startIngestion now document intentID claimedBy).apply faults g.db).2 }
  | intents t, g => { g with db := { g.db with intents := t } }
  | trimIngest n, g => { g with ingest := g.ingest.trim n }
  | trimStatus n, g => { g with status := g.status.trim n }
  | loseIngestGroup, g => { g with ingest := g.ingest.loseGroup }
  | loseStatusGroup, g => { g with status := g.status.loseGroup }

namespace Process

def sig : Process → Signature
  | outboxWorker _ | outboxSweeper _ => OutboxSig
  | consumer _ => ConsumerJobSig
  | statusWorker _ => StatusSig
  | resetIndex _ => JobSig

def main (cfg : PipelineConfig) : (p : Process) → Prog p.sig Unit
  | outboxWorker id => OutboxWorker.run cfg.outbox id
  | outboxSweeper _ => OutboxSweeper.run cfg.outbox
  | consumer name =>
    (StreamConsumer.main cfg.consumer name).interpret (withProcessor cfg.processor)
  | statusWorker id => StatusWorker.run cfg.status cfg.maxAttempts.val id
  | resetIndex _ => (Rag.resetIndex true ()).bind fun _ => .ret ()

def respond : (p : Process) → (c : p.sig.Cmd) → PipelineChoice → World →
    p.sig.Reply c × World
  | outboxWorker _ => fun c ch g => (outboxReply ch g c, outboxAfter ch g c)
  | outboxSweeper _ => fun c ch g => (outboxReply ch g c, outboxAfter ch g c)
  | consumer _ => fun
    | .inl c => fun ch g => (consumerReply ch g c, consumerAfter ch g c)
    | .inr c => fun ch g => (jobReply ch g c, jobAfter ch g c)
  | statusWorker _ => fun c ch g => (statusReply ch g c, statusAfter ch g c)
  | resetIndex _ => fun c ch g => (jobReply ch g c, jobAfter ch g c)

end Process

def pipeline (cfg : PipelineConfig) : Actors Process World where
  sig := Process.sig
  main := Process.main cfg
  Choice := PipelineChoice
  respond := Process.respond
  enter _ g := g
  leave _ g := g
  Env := PipelineEvent
  env := PipelineEvent.apply

inductive Proviso where
  | free
  /-- No stream is trimmed, no group is lost, and no consumer is deleted with pending entries. -/
  | intact
  /-- `reset_index` does not run. -/
  | unreset
  deriving DecidableEq

/-- The consumer a command deletes. -/
def deleted : (p : Process) → p.sig.Cmd → Option String
  | .consumer _, .inl (.xgroupDelconsumer name) => some name
  | .statusWorker _, .xgroupDelConsumer name => some name
  | _, _ => none

/-- The stream whose group a process is in. -/
def World.streamOf (g : World) : Process → Streams.Stream Fields String
  | .statusWorker _ => g.status
  | _ => g.ingest

/-- The command makes a group forget pending entries. -/
def Forgets (g : World) (p : Process) (c : p.sig.Cmd) : Prop :=
  ∃ name ∈ deleted p c, ¬ (g.streamOf p).Idle name

instance Forgets.decidable (g : World) (p : Process) (c : p.sig.Cmd) : Decidable (Forgets g p c) :=
  inferInstanceAs (Decidable (∃ name ∈ deleted p c, ¬ (g.streamOf p).Idle name))

def pipelineRules (cfg : PipelineConfig) : Proviso → (pipeline cfg).Rules
  | .free => .free _
  | .intact => {
      start := fun _ _ => True
      call := fun p c ch g => PipelineChoice.fate ch ≠ .refused → ¬ Forgets g p c
      env := fun e _ => match (e : PipelineEvent) with
        | .trimIngest _ | .trimStatus _ | .loseIngestGroup | .loseStatusGroup => False
        | _ => True }
  | .unreset => {
      start := fun p _ => ∀ n, p ≠ .resetIndex n
      call := fun _ _ _ _ => True
      env := fun _ _ => True }

section Decidable

variable (cfg : PipelineConfig) (v : Proviso)

instance (p : Process) (g : World) : Decidable ((pipelineRules cfg v).start p g) :=
  match v, p with
  | .free, _ | .intact, _ => .isTrue trivial
  | .unreset, .resetIndex n => .isFalse fun h => h n rfl
  | .unreset, .outboxWorker _ | .unreset, .outboxSweeper _ | .unreset, .consumer _
  | .unreset, .statusWorker _ => .isTrue nofun

instance (p : Process) (c : ((pipeline cfg).sig p).Cmd) (ch : (pipeline cfg).Choice) (g : World) :
    Decidable ((pipelineRules cfg v).call p c ch g) :=
  match v with
  | .free | .unreset => .isTrue trivial
  | .intact =>
    have := Forgets.decidable g p c
    inferInstanceAs (Decidable (PipelineChoice.fate ch ≠ .refused → ¬ Forgets g p c))

instance (e : (pipeline cfg).Env) (g : World) : Decidable ((pipelineRules cfg v).env e g) :=
  match v, e with
  | .free, _ | .unreset, _ | .intact, .startIngestion .. | .intact, .intents _ => .isTrue trivial
  | .intact, .trimIngest _ | .intact, .trimStatus _ | .intact, .loseIngestGroup
  | .intact, .loseStatusGroup => .isFalse id

end Decidable

end Pipeline
