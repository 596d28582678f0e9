import RagPipeline.Pipeline.Processes
import RagPipeline.Streams.Holding

/-!
# Listing idle consumers, and deleting them

The pipeline, with a record of the consumers that a cleanup has listed as idle and empty and is
about to delete. The listing and each deletion are commands of their own, so the others go on in
between.

## Main definitions

* `cleanupSystem`: the pipeline with that record.
* `leftAlone`: no consumer takes an entry while it is about to be deleted.

## Main results

* `idle_respond`: only the consumer that a command reads or claims for comes to hold an entry.
* `pending_respond`: an entry stays pending unless it is acknowledged or forgotten.
-/
namespace Pipeline

open Center Events Interact Rag Relational

structure CleanupWorld extends World where
  /-- The consumers that a cleanup is about to delete, with its process. -/
  listed : List (Process × String)

namespace CleanupWorld

def start (w : World) : CleanupWorld := ⟨w, []⟩

variable (cfg : PipelineConfig)

/-- The consumers that `_cleanup_consumers` deletes after such an answer. -/
def listedByConsumer (name : String) : (c : ConsumerCmd) → ConsumerSig.Reply c → List String
  | .xinfoConsumers, (.ok consumers : Except PyError (List ConsumerInfo)) =>
    (consumers.filter fun c =>
      ¬ (c.name = name ∨ c.pending ≠ 0 ∨ c.idle ≤ ms cfg.consumer.cleanupIdle)).map
        ConsumerInfo.name
  | _, _ => []

/-- The consumers that `CleanupConsumers` deletes after such an answer. -/
def listedByWorker (id : String) : (c : StatusCmd) → StatusSig.Reply c → List String
  | .xinfoConsumers, (.ok consumers : Except RedisError (List StatusConsumer)) =>
    (consumers.filter fun c =>
      ¬ (c.name = id ∨ c.pending ≠ 0 ∨ c.idle ≤ cfg.status.cleanupIdle)).map StatusConsumer.name
  | _, _ => []

section Listed

variable {cfg : PipelineConfig} {name : String}

theorem listedByConsumer_skip {c : ConsumerInfo} {rest : List ConsumerInfo}
    (h : c.name = name ∨ c.pending ≠ 0 ∨ c.idle ≤ ms cfg.consumer.cleanupIdle) :
    listedByConsumer cfg name .xinfoConsumers (Except.ok (c :: rest)) =
      listedByConsumer cfg name .xinfoConsumers (Except.ok rest) :=
  congrArg (List.map _) (List.filter_cons_of_neg (by rw [decide_eq_true_eq]; exact not_not.2 h))

theorem listedByConsumer_cons {c : ConsumerInfo} {rest : List ConsumerInfo}
    (h : ¬ (c.name = name ∨ c.pending ≠ 0 ∨ c.idle ≤ ms cfg.consumer.cleanupIdle)) :
    listedByConsumer cfg name .xinfoConsumers (Except.ok (c :: rest)) =
      c.name :: listedByConsumer cfg name .xinfoConsumers (Except.ok rest) :=
  congrArg (List.map _) (List.filter_cons_of_pos (by rw [decide_eq_true_eq]; exact h))

theorem listedByWorker_skip {c : StatusConsumer} {rest : List StatusConsumer}
    (h : c.name = name ∨ c.pending ≠ 0 ∨ c.idle ≤ cfg.status.cleanupIdle) :
    listedByWorker cfg name .xinfoConsumers (Except.ok (c :: rest)) =
      listedByWorker cfg name .xinfoConsumers (Except.ok rest) :=
  congrArg (List.map _) (List.filter_cons_of_neg (by rw [decide_eq_true_eq]; exact not_not.2 h))

theorem listedByWorker_cons {c : StatusConsumer} {rest : List StatusConsumer}
    (h : ¬ (c.name = name ∨ c.pending ≠ 0 ∨ c.idle ≤ cfg.status.cleanupIdle)) :
    listedByWorker cfg name .xinfoConsumers (Except.ok (c :: rest)) =
      c.name :: listedByWorker cfg name .xinfoConsumers (Except.ok rest) :=
  congrArg (List.map _) (List.filter_cons_of_pos (by rw [decide_eq_true_eq]; exact h))

end Listed

def listing : (p : Process) → (c : p.sig.Cmd) → p.sig.Reply c → List String
  | .consumer name => fun
    | .inl c => fun r => listedByConsumer cfg name c r
    | .inr _ => fun _ => []
  | .statusWorker id => fun c r => listedByWorker cfg id c r
  | .outboxWorker _ | .outboxSweeper _ | .resetIndex _ => fun _ _ => []

/-- A deletion is done, and any other command is after the last one. -/
def listedAfter (g : CleanupWorld) (p : Process) (c : p.sig.Cmd) (r : p.sig.Reply c) :
    List (Process × String) :=
  match deleted p c with
  | some name => g.listed.erase (p, name)
  | none => (listing cfg p c r).map (fun name => (p, name)) ++ g.listed.filter fun x => x.1 ≠ p

def respond (p : Process) (c : p.sig.Cmd) (ch : PipelineChoice) (g : CleanupWorld) :
    p.sig.Reply c × CleanupWorld :=
  let r := p.respond c ch g.toWorld
  (r.1, ⟨r.2, g.listedAfter cfg p c r.1⟩)

end CleanupWorld

def cleanupSystem (cfg : PipelineConfig) : Actors Process CleanupWorld where
  sig := Process.sig
  main := Process.main cfg
  Choice := PipelineChoice
  respond := CleanupWorld.respond cfg
  enter _ g := g
  leave p g := { g with listed := g.listed.filter fun x => x.1 ≠ p }
  Env := PipelineEvent
  env e g := { g with toWorld := e.apply g.toWorld }

/-! ### What commands do to the groups -/

/-- The consumer that an ingest consumer's command reads or claims for. -/
def consumerTaker : ConsumerCmd → Option String
  | .xreadgroup consumer _ | .xautoclaim consumer _ _ | .xclaim consumer _ => some consumer
  | _ => none

/-- The consumer that a status worker's command reads or claims for. -/
def workerTaker : StatusCmd → Option String
  | .xreadgroup consumer _ _ | .xautoclaim consumer _ _ => some consumer
  | _ => none

def taker : (p : Process) → p.sig.Cmd → Option String
  | .consumer _ => fun
    | .inl c => consumerTaker c
    | .inr _ => none
  | .statusWorker _ => workerTaker
  | .outboxWorker _ | .outboxSweeper _ | .resetIndex _ => fun _ => none

/-- The entry that a command acknowledges. -/
def acknowledged : (p : Process) → p.sig.Cmd → Option Nat
  | .consumer _, .inl (.xack id) => some id
  | .statusWorker _, .xack id => some id
  | _, _ => none

/-- The process works on the status stream, not on the ingest stream. -/
def OnStatus : Process → Bool
  | .statusWorker _ => true
  | _ => false

/-- A cleanup in the group of `p` has the consumer on its list. -/
def CleanupWorld.Marked (g : CleanupWorld) (p : Process) (consumer : String) : Prop :=
  ∃ x ∈ g.listed, OnStatus x.1 = OnStatus p ∧ x.2 = consumer

/-- No consumer comes to hold an entry while a cleanup is about to delete it. -/
def leftAlone (cfg : PipelineConfig) : (cleanupSystem cfg).Rules where
  start _ _ := True
  call p c ch g := ∀ consumer ∈ taker p c, g.Marked p consumer →
    ((p.respond c ch g.toWorld).2.streamOf p).Idle consumer
  env _ _ := True

section Decidable

variable {cfg : PipelineConfig}

instance CleanupWorld.Marked.decidable (g : CleanupWorld) (p : Process) (consumer : String) :
    Decidable (g.Marked p consumer) :=
  inferInstanceAs (Decidable (∃ x ∈ g.listed, OnStatus x.1 = OnStatus p ∧ x.2 = consumer))

instance (p : Process) (g : CleanupWorld) : Decidable ((leftAlone cfg).start p g) := .isTrue trivial

instance (p : Process) (c : ((cleanupSystem cfg).sig p).Cmd) (ch : (cleanupSystem cfg).Choice)
    (g : CleanupWorld) : Decidable ((leftAlone cfg).call p c ch g) :=
  inferInstanceAs (Decidable (∀ consumer ∈ taker p c, g.Marked p consumer →
    ((p.respond c ch g.toWorld).2.streamOf p).Idle consumer))

instance (e : (cleanupSystem cfg).Env) (g : CleanupWorld) : Decidable ((leftAlone cfg).env e g) :=
  .isTrue trivial

end Decidable

/-- What a command does to the group of its process. -/
def groupEffect (ch : PipelineChoice) :
    (p : Process) → p.sig.Cmd → Streams.Stream Fields String → Streams.Stream Fields String
  | .consumer _ => fun
    | .inl c => fun s => ingestAfter ch s c
    | .inr _ => fun s => s
  | .statusWorker _ => fun c s => statusStreamAfter ch s c
  | .outboxWorker _ | .outboxSweeper _ | .resetIndex _ => fun _ s => s

section Respond

variable {ch : PipelineChoice} {w : World} {p q : Process} {c : p.sig.Cmd} {name : String}
  {id : Nat} {s : Streams.Stream Fields String}

theorem World.streamOf_eq : w.streamOf p = if OnStatus p then w.status else w.ingest := by
  cases p <;> rfl

theorem streamOf_congr (h : OnStatus p = OnStatus q) : w.streamOf p = w.streamOf q := by
  rw [World.streamOf_eq, World.streamOf_eq, h]

/-- The streams of one group see the command, and the others at most another entry. -/
theorem group_respond : ((p.respond c ch w).2.streamOf q).group =
    if OnStatus q = OnStatus p then
      (ch.done (w.streamOf q) (groupEffect ch p c (w.streamOf q))).group
    else (w.streamOf q).group := by
  have hdone {s s' : Streams.Stream Fields String} (h : s'.group = s.group) :
      (ch.done s s').group = s.group := by
    unfold PipelineChoice.done
    split
    · rfl
    · exact h
  simp only [World.streamOf_eq]
  cases p with
  | outboxWorker | outboxSweeper =>
    cases c <;> cases hq : OnStatus q <;>
      simp [OnStatus, Process.respond, outboxAfter, groupEffect, hdone, Streams.Stream.xadd]
  | consumer =>
    rcases c with c | job
    · cases c <;> cases hq : OnStatus q <;>
        simp [OnStatus, Process.respond, consumerAfter, groupEffect, hdone, Streams.Stream.xadd,
          ingestAfter]
    · cases hq : OnStatus q <;> simp [OnStatus, Process.respond, jobAfter, groupEffect, hdone]
  | statusWorker =>
    cases c <;> cases hq : OnStatus q <;>
      simp [OnStatus, Process.respond, statusAfter, groupEffect, hdone, statusStreamAfter]
  | resetIndex =>
    cases hq : OnStatus q <;> simp [OnStatus, Process.respond, jobAfter, groupEffect, hdone]

/-! ### Which consumers hold entries -/

theorem idle_groupEffect (hi : s.Idle name) (ht : taker p c ≠ some name) :
    (groupEffect ch p c s).Idle name := by
  cases p with
  | consumer =>
    rcases c with c | job
    · cases c with
      | xgroupCreate => exact hi.xgroupCreate
      | xreadgroup consumer => exact hi.xreadgroup fun h => ht (congrArg some h)
      | xautoclaim consumer => exact hi.xautoclaim fun h => ht (congrArg some h)
      | xack => exact hi.xack
      | xclaim consumer => exact hi.xclaim fun h => ht (congrArg some h)
      | xgroupDelconsumer => exact hi.delConsumer
      | _ => exact hi
    · exact hi
  | statusWorker =>
    cases c with
    | xgroupCreate => exact hi.xgroupCreate
    | xreadgroup consumer => exact hi.xreadgroup fun h => ht (congrArg some h)
    | xautoclaim consumer => exact hi.xautoclaim fun h => ht (congrArg some h)
    | xack => exact hi.xack
    | xgroupDelConsumer => exact hi.delConsumer
    | _ => exact hi
  | outboxWorker | outboxSweeper | resetIndex => exact hi

/-- Only the consumer that a command reads or claims for comes to hold an entry. -/
theorem idle_respond (hi : (w.streamOf q).Idle name)
    (ht : taker p c = some name → OnStatus q = OnStatus p →
      ((p.respond c ch w).2.streamOf p).Idle name) :
    ((p.respond c ch w).2.streamOf q).Idle name := by
  by_cases hq : OnStatus q = OnStatus p
  · by_cases hc : taker p c = some name
    · exact streamOf_congr hq ▸ ht hc hq
    · refine Streams.Stream.Idle.of_group_eq
        (s := ch.done (w.streamOf q) (groupEffect ch p c (w.streamOf q))) ?_
        (by rw [group_respond, if_pos hq])
      unfold PipelineChoice.done
      split
      · exact hi
      · exact idle_groupEffect hi hc
  · exact hi.of_group_eq (by rw [group_respond, if_neg hq])

/-! ### Which entries stay pending -/

theorem pending_groupEffect (hp : s.Pending id) (hl : s.live id)
    (hd : ∀ name ∈ deleted p c, s.Idle name) (ha : acknowledged p c ≠ some id) :
    (groupEffect ch p c s).Pending id := by
  cases p with
  | consumer =>
    rcases c with c | job
    · cases c with
      | xgroupCreate => exact hp.xgroupCreate
      | xreadgroup => exact hp.xreadgroup
      | xautoclaim => exact hp.xautoclaim hl
      | xack => exact hp.xack fun h => ha (congrArg some h)
      | xclaim => exact hp.xclaim hl
      | xgroupDelconsumer => exact hp.delConsumer (hd _ rfl)
      | _ => exact hp
    · exact hp
  | statusWorker =>
    cases c with
    | xgroupCreate => exact hp.xgroupCreate
    | xreadgroup => exact hp.xreadgroup
    | xautoclaim => exact hp.xautoclaim hl
    | xack => exact hp.xack fun h => ha (congrArg some h)
    | xgroupDelConsumer => exact hp.delConsumer (hd _ rfl)
    | _ => exact hp
  | outboxWorker | outboxSweeper | resetIndex => exact hp

/-- An entry stays pending unless it is acknowledged, or goes with its consumer. -/
theorem pending_respond (hp : (w.streamOf q).Pending id) (hl : (w.streamOf q).live id)
    (hd : ∀ name ∈ deleted p c, (w.streamOf p).Idle name)
    (ha : OnStatus q = OnStatus p → acknowledged p c ≠ some id) :
    ((p.respond c ch w).2.streamOf q).Pending id := by
  by_cases hq : OnStatus q = OnStatus p
  · refine Streams.Stream.Pending.of_group_eq
      (s := ch.done (w.streamOf q) (groupEffect ch p c (w.streamOf q))) ?_
      (by rw [group_respond, if_pos hq])
    unfold PipelineChoice.done
    split
    · exact hp
    · exact pending_groupEffect hp hl (streamOf_congr hq ▸ hd) (ha hq)
  · exact hp.of_group_eq (by rw [group_respond, if_neg hq])

/-! ### What a listing tells -/

/-- What a cleanup puts on its list holds nothing. -/
theorem idle_of_listing {cfg : PipelineConfig}
    (h : name ∈ CleanupWorld.listing cfg p c (p.respond c ch w).1) :
    ((p.respond c ch w).2.streamOf p).Idle name := by
  cases p with
  | outboxWorker | outboxSweeper | resetIndex => cases h
  | consumer me =>
    rcases c with c | job
    · cases c with
      | xinfoConsumers =>
        refine idle_respond ?_ nofun
        rcases hr : consumerReply ch w .xinfoConsumers with e | consumers
        · simp [CleanupWorld.listing, Process.respond, CleanupWorld.listedByConsumer, hr] at h
        · simp only [CleanupWorld.listing, Process.respond, CleanupWorld.listedByConsumer, hr] at h
          obtain ⟨cs, hcs, rfl⟩ := PipelineChoice.map_ok (PipelineChoice.heard_ok hr).2
          obtain ⟨c, hc, rfl⟩ := List.mem_map.1 h
          obtain ⟨hmem, hnot⟩ := List.mem_filter.1 hc
          obtain ⟨⟨n, pending⟩, hin, rfl⟩ := List.mem_map.1 hmem
          obtain rfl : pending = 0 := by
            by_contra hpending
            exact of_decide_eq_true hnot (.inr (.inl hpending))
          exact Streams.Stream.idle_of_pendingOf hcs hin
      | _ => cases h
    · cases h
  | statusWorker me =>
    cases c with
    | xinfoConsumers =>
      refine idle_respond ?_ nofun
      rcases hr : statusReply ch w .xinfoConsumers with e | consumers
      · simp [CleanupWorld.listing, Process.respond, CleanupWorld.listedByWorker, hr] at h
      · simp only [CleanupWorld.listing, Process.respond, CleanupWorld.listedByWorker, hr] at h
        obtain ⟨cs, hcs, rfl⟩ := PipelineChoice.map_ok (PipelineChoice.heard_ok hr).2
        obtain ⟨c, hc, rfl⟩ := List.mem_map.1 h
        obtain ⟨hmem, hnot⟩ := List.mem_filter.1 hc
        obtain ⟨⟨n, pending⟩, hin, rfl⟩ := List.mem_map.1 hmem
        obtain rfl : pending = 0 := by
          by_contra hpending
          exact of_decide_eq_true hnot (.inr (.inl hpending))
        exact Streams.Stream.idle_of_pendingOf hcs hin
    | _ => cases h

end Respond

section Events

variable {w : World} {q : Process} {name : String} {id : Nat}

theorem group_apply (e : PipelineEvent) : ((e.apply w).streamOf q).group = (w.streamOf q).group ∨
    ((e.apply w).streamOf q).group = none := by
  simp only [World.streamOf_eq]
  cases e <;> cases OnStatus q <;> first | exact .inl rfl | exact .inr rfl

theorem pending_apply {e : PipelineEvent} (hp : (w.streamOf q).Pending id) :
    ((e.apply w).streamOf q).Pending id ∨ ((e.apply w).streamOf q).group = none :=
  (group_apply e).imp_left hp.of_group_eq

theorem idle_apply {e : PipelineEvent} (hi : (w.streamOf q).Idle name) :
    ((e.apply w).streamOf q).Idle name := by
  obtain h | h := group_apply (w := w) (q := q) e
  · exact hi.of_group_eq h
  · exact Streams.Stream.idle_of_no_group h

end Events

end Pipeline
