import RagPipeline.Pipeline.Processes
import RagPipeline.Rag.Custody
import RagPipeline.Streams.Deliveries

/-!
# The ingest group and what it delivers

Any number of ingest consumers in one group, with any processor, while entries are added and
trimmed. Every Redis call may be refused, or be done and lose its answer. The group is not lost.
Beside the pipeline's own state it is recorded what was delivered, for which delivery a job was
started, and what was published.

## Main definitions

* `DeliveryWorld`: the state and the records.
* `deliverySystem`: the consumers and their surroundings.

## Main results

* `tally_after`: the group's counts are those of the recorded deliveries.
-/
namespace Pipeline

open Events Interact Rag

structure DeliveryWorld extends World where
  /-- Every delivery, the last first. -/
  delivered : List EntryId
  /-- The entry each consumer was given last, and how often it had been delivered by then. -/
  hand : String → Option (StreamEntry × Nat)
  /-- The jobs that were started: for which entry, and for which of its deliveries. -/
  started : List (EntryId × Nat)
  /-- What the processor did, with the entry that its consumer had. -/
  outcomes : List (Option EntryId × Except JobError Outcome)
  /-- The statuses that were added to the stream, with the entry that their consumer had. -/
  published : List (Option StreamEntry × StatusEvent)

structure DeliveryChoice extends PipelineChoice where
  /-- What the processor does. -/
  outcome : Except JobError Outcome

/-- The producers and `XADD … MAXLEN`. -/
inductive DeliveryEvent where
  | xadd (fields : Fields)
  | trim (n : Nat)

def DeliveryEvent.apply : DeliveryEvent → World → World
  | xadd fields, w => { w with ingest := w.ingest.xadd fields }
  | trim n, w => { w with ingest := w.ingest.trim n }

namespace DeliveryWorld

def start (w : World) : DeliveryWorld := ⟨w, [], fun _ => none, [], [], []⟩

variable (ch : DeliveryChoice) (name : String) (g : DeliveryWorld)

/-- The deliveries of a command that is done. -/
def gives : ConsumerCmd → List EntryId
  | .xreadgroup consumer _ => Streams.delivers (g.ingest.xreadgroup consumer 1).1
  | .xautoclaim consumer _ start =>
    Streams.delivers ((g.ingest.xautoclaim consumer ch.stale start 1).1.map Prod.snd)
  | _ => []

def deliveredAfter (c : ConsumerCmd) : List EntryId := ch.done [] (g.gives ch c) ++ g.delivered

def reply : (c : ConsumerCall.Cmd) → ConsumerCall.Reply c
  | .inl c => consumerReply ch.toPipelineChoice g.toWorld c
  | .inr _ => ch.outcome

/-- What the consumer has after the command. -/
def handAfter (c : ConsumerCmd) : Option (StreamEntry × Nat) :=
  ((brought c (consumerReply ch.toPipelineChoice g.toWorld c)).map fun e =>
    (e, (g.deliveredAfter ch c).count e.id)).or (g.hand name)

def publishedAfter : ConsumerCmd → List (Option StreamEntry × StatusEvent)
  | .xadd status => ch.done g.published (((g.hand name).map Prod.fst, status) :: g.published)
  | _ => g.published

def after : ConsumerCall.Cmd → DeliveryWorld
  | .inl c => {
      toWorld := consumerAfter ch.toPipelineChoice g.toWorld c
      delivered := g.deliveredAfter ch c
      hand := Function.update g.hand name (g.handAfter ch name c)
      started := g.started
      outcomes := g.outcomes
      published := g.publishedAfter ch name c }
  | .inr _ => { g with
      started := ((g.hand name).map fun h => (h.1.id, h.2)).toList ++ g.started
      outcomes := ((g.hand name).map fun h => h.1.id, ch.outcome) :: g.outcomes }

end DeliveryWorld

def deliverySystem (settings : ConsumerSettings) : Actors String DeliveryWorld where
  sig _ := ConsumerCall
  main name := StreamConsumer.main settings name
  Choice := DeliveryChoice
  respond name c ch g := (g.reply ch c, g.after ch name c)
  enter _ g := g
  leave _ g := g
  Env := DeliveryEvent
  env e g := { g with toWorld := e.apply g.toWorld }

namespace DeliveryWorld

variable {ch : DeliveryChoice} {name : String} {g : DeliveryWorld} {c : ConsumerCmd}

theorem count_le_after (id : EntryId) :
    g.delivered.count id ≤ (g.deliveredAfter ch c).count id := by
  rw [deliveredAfter, List.count_append]
  exact Nat.le_add_left ..

theorem ids_toBatch {b : Streams.Batch Fields 1} :
    (toBatch b).entries.map StreamEntry.id = b.entries.map Prod.fst := by
  simp [toBatch, Function.comp_def]

theorem mem_delivers {r : Except Streams.GroupError (Streams.Batch Fields 1)} {batch : Batch 1}
    {e : StreamEntry} (h : r.map toBatch = .ok batch) (he : batch.entries.head? = some e) :
    e.id ∈ Streams.delivers r := by
  obtain ⟨b, rfl, rfl⟩ := PipelineChoice.map_ok h
  rw [Streams.delivers, ← ids_toBatch]
  exact List.mem_map_of_mem (List.mem_of_head? he)

/-- What a consumer is given is delivered by its command. -/
theorem gives_of_brought {e : StreamEntry}
    (h : brought c (consumerReply ch.toPipelineChoice g.toWorld c) = some e) :
    ch.fate = .ok ∧ e.id ∈ g.gives ch c := by
  cases c with
  | xreadgroup consumer block =>
    rcases hr : consumerReply ch.toPipelineChoice g.toWorld (.xreadgroup consumer block) with
      x | batch
    · simp [brought, hr] at h
    · simp only [brought, hr] at h
      obtain ⟨hfate, hr⟩ := PipelineChoice.heard_ok hr
      exact ⟨hfate, mem_delivers hr h⟩
  | xautoclaim consumer minIdle start =>
    rcases hr : consumerReply ch.toPipelineChoice g.toWorld (.xautoclaim consumer minIdle start)
      with x | claimed
    · simp [brought, hr] at h
    · simp only [brought, hr] at h
      obtain ⟨hfate, hr⟩ := PipelineChoice.heard_ok hr
      obtain ⟨p, hp, rfl⟩ := PipelineChoice.map_ok hr
      exact ⟨hfate, mem_delivers (r := _) (by rw [hp]; rfl) h⟩
  | _ => cases h

theorem hand_of_brought {e : StreamEntry}
    (h : brought c (consumerReply ch.toPipelineChoice g.toWorld c) = some e) :
    (g.after ch name (.inl c)).hand name = some (e, (g.deliveredAfter ch c).count e.id) := by
  simp [after, handAfter, h]

theorem hand_of_not_brought
    (h : brought c (consumerReply ch.toPipelineChoice g.toWorld c) = none) :
    (g.after ch name (.inl c)).hand name = g.hand name := by
  simp [after, handAfter, h]

theorem count_lt_of_brought {e : StreamEntry}
    (h : brought c (consumerReply ch.toPipelineChoice g.toWorld c) = some e) :
    g.delivered.count e.id < (g.deliveredAfter ch c).count e.id := by
  obtain ⟨hfate, hmem⟩ := gives_of_brought h
  rw [deliveredAfter, PipelineChoice.done, hfate, if_neg (by decide), List.count_append]
  have := List.count_pos_iff.2 hmem
  omega

theorem tally_start {w : World} (hw : w.ingest.group = none) :
    (start w).ingest.Tally (start w).delivered := by
  change w.ingest.Tally []
  rw [Streams.Stream.Tally, hw]

/-- The group's counts are those of the recorded deliveries. -/
theorem tally_after (h : g.ingest.Tally g.delivered) :
    (consumerAfter ch.toPipelineChoice g.toWorld c).ingest.Tally (g.deliveredAfter ch c) := by
  have hdone {s' : Streams.Stream Fields String} (new : List EntryId)
      (h' : s'.Tally (new ++ g.delivered)) :
      (ch.done g.ingest s').Tally (ch.done [] new ++ g.delivered) := by
    unfold PipelineChoice.done
    split
    · exact h
    · exact h'
  have hstill {s' : Streams.Stream Fields String} (h' : s'.Tally g.delivered) :
      (ch.done g.ingest s').Tally (ch.done [] [] ++ g.delivered) :=
    hdone [] h'
  cases c with
  | xgroupCreate => exact hstill h.xgroupCreate
  | xreadgroup => exact hdone _ h.xreadgroup
  | xautoclaim => exact hdone _ h.xautoclaim
  | xack => exact hstill h.xack
  | xclaim => exact hstill h.xclaim
  | xgroupDelconsumer => exact hstill h.delConsumer
  | xadd =>
    change g.ingest.Tally (ch.done [] [] ++ g.delivered)
    rw [PipelineChoice.done, ite_self]
    exact h
  | xpendingRange | xinfoConsumers | clock | sleep | stopped | arm | disarm | uuid4 | utcnow =>
    exact hstill h

/-- The count that a consumer reads is that of the recorded deliveries. -/
theorem count_of_xpending {id : EntryId} {deliveries : Int} {owner : String}
    (ht : g.ingest.Tally g.delivered)
    (h : consumerReply ch.toPipelineChoice g.toWorld (.xpendingRange id) =
      Except.ok (some (deliveries, owner))) : deliveries = g.delivered.count id := by
  obtain ⟨-, h⟩ := PipelineChoice.heard_ok h
  obtain ⟨p, hp, hp'⟩ := PipelineChoice.map_ok h
  obtain ⟨⟨count, owner'⟩, rfl, he⟩ := Option.map_eq_some_iff.1 hp'
  cases he
  exact_mod_cast ht.count_eq hp

theorem tally_apply {e : DeliveryEvent} (h : g.ingest.Tally g.delivered) :
    (e.apply g.toWorld).ingest.Tally g.delivered := by
  cases e with
  | xadd => exact h.xadd
  | trim => exact h.trim

end DeliveryWorld

end Pipeline
