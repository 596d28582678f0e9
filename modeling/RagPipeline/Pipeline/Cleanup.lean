import RagPipeline.Center.Deletions
import RagPipeline.Pipeline.CleanupSystem
import RagPipeline.Pipeline.Safety
import RagPipeline.Rag.Deletions

/-!
# Deleting idle consumers

A cleanup deletes what it has listed, one consumer after the other. What was empty in the listing
is empty when its turn comes as long as it takes nothing in between.

## Main definitions

* `cleanupCertificate`: listed consumers hold nothing.

## Main results

* `deletion_spares_entries`: when the listed consumers are left alone, no entry is lost.
* `busy_consumer_deleted`: a consumer that comes back in between is deleted with its entry.
-/
namespace Pipeline

open Center Events Interact Rag Relational

/-! ### The list of a cleanup -/

namespace CleanupWorld

variable {cfg : PipelineConfig} {p q : Process} {c : p.sig.Cmd} {ch : PipelineChoice}
  {r : p.sig.Reply c} {w : World} {g : CleanupWorld} {name : String} {names : List String}

/-- What the cleanup of a process has still to delete. -/
def mine (p : Process) (g : CleanupWorld) : List String :=
  (g.listed.filter fun x => x.1 = p).map Prod.snd

theorem mem_listed_of_mine (h : name ∈ g.mine p) : (p, name) ∈ g.listed := by
  obtain ⟨⟨q, name'⟩, hx, rfl⟩ := List.mem_map.1 h
  obtain ⟨hmem, hq⟩ := List.mem_filter.1 hx
  simp only [decide_eq_true_eq] at hq
  exact hq ▸ hmem

/-- A deletion is taken off the list of its process only. -/
theorem filter_erase (l : List (Process × String)) (x : Process × String) :
    (l.erase x).filter (fun y => y.1 = q) =
      if x.1 = q then (l.filter fun y => y.1 = q).erase x else l.filter fun y => y.1 = q := by
  rw [← List.erase_filter]
  split
  · rfl
  · exact List.erase_of_not_mem fun h => by simp_all

theorem mine_listing (hc : deleted p c = none) :
    (⟨w, g.listedAfter cfg p c r⟩ : CleanupWorld).mine p = listing cfg p c r := by
  simp only [mine, listedAfter, hc, List.filter_append, List.filter_filter]
  have hnew : ((listing cfg p c r).map fun name => (p, name)).filter (fun x => x.1 = p) =
      (listing cfg p c r).map fun name => (p, name) :=
    List.filter_eq_self.2 fun x hx => by
      obtain ⟨name, -, rfl⟩ := List.mem_map.1 hx
      simp
  simp [hnew, Function.comp_def]

theorem mine_deleted (hc : deleted p c = some name) (h : g.mine p = name :: names) :
    (⟨w, g.listedAfter cfg p c r⟩ : CleanupWorld).mine p = names := by
  simp only [mine, listedAfter, hc, filter_erase, if_true]
  simp only [mine] at h
  obtain ⟨x, l, hl, hx, hnames⟩ := List.map_eq_cons_iff.1 h
  have hp : x.1 = p := by
    have := (List.mem_filter.1 (hl ▸ List.mem_cons_self : x ∈ g.listed.filter _)).2
    simpa using this
  obtain rfl : x = (p, name) := Prod.ext hp hx
  rw [hl, List.erase_cons_head, hnames]

theorem mine_other (hq : q ≠ p) :
    (⟨w, g.listedAfter cfg p c r⟩ : CleanupWorld).mine q = g.mine q := by
  unfold mine listedAfter
  split
  · rw [filter_erase, if_neg hq.symm]
  · have hnew : ((listing cfg p c r).map fun name => (p, name)).filter (fun x => x.1 = q) = [] :=
      List.filter_eq_nil_iff.2 fun x hx => by
        obtain ⟨name, -, rfl⟩ := List.mem_map.1 hx
        simpa using hq.symm
    have hold : (g.listed.filter fun x => x.1 ≠ p).filter (fun x => x.1 = q) =
        g.listed.filter fun x => x.1 = q := by
      rw [List.filter_filter]
      exact List.filter_congr fun x _ => by by_cases hx : x.1 = q <;> simp [hx, hq]
    rw [List.filter_append, hnew, hold, List.nil_append]

end CleanupWorld

open CleanupWorld

/-! ### What a process works under -/

/-- Listed consumers hold nothing. -/
def Unheld (g : CleanupWorld) : Prop := ∀ x ∈ g.listed, (g.streamOf x.1).Idle x.2

/-- Others leave a process its list. -/
def ListKept (p : Process) (g g' : CleanupWorld) : Prop := g'.mine p = g.mine p

/-- A process deletes what it has listed. -/
def MayDelete (p : Process) (c : p.sig.Cmd) (g : CleanupWorld) : Prop :=
  ∀ name ∈ deleted p c, name ∈ g.mine p

def cleanupContract (cfg : PipelineConfig) (p : Process) : Contract p.sig CleanupWorld where
  inv := Unheld
  rely := ListKept p
  guard := MayDelete p
  exec c g r g' := ∃ ch, (leftAlone cfg).call p c ch g ∧
    (cleanupSystem cfg).respond p c ch g = (r, g')

section Walk

variable {cfg : PipelineConfig} {p : Process} {c : p.sig.Cmd} {r : p.sig.Reply c}
  {g g₁ g₂ : CleanupWorld} {name : String} {names : List String}

theorem mayDelete_of_none (h : deleted p c = none) : MayDelete p c g := by
  simp [MayDelete, h]

theorem mayDelete_cons (hc : deleted p c = some name) (h : g.mine p = name :: names) :
    MayDelete p c g := by
  rintro _ hn
  cases hc.symm.trans hn
  exact h ▸ List.mem_cons_self

/-- After a listing the process has that list. -/
theorem mine_of_listing (hc : deleted p c = none)
    (hx : (cleanupContract cfg p).exec c g r g₁) (hr : ListKept p g₁ g₂) :
    g₂.mine p = listing cfg p c r := by
  obtain ⟨ch, -, hx⟩ := hx
  cases hx
  exact Eq.trans hr (mine_listing hc)

theorem mine_of_deleted (hc : deleted p c = some name) (h : g.mine p = name :: names)
    (hx : (cleanupContract cfg p).exec c g r g₁) (hr : ListKept p g₁ g₂) : g₂.mine p = names := by
  obtain ⟨ch, -, hx⟩ := hx
  cases hx
  exact Eq.trans hr (mine_deleted hc h)

end Walk

/-! ### Ingest consumers -/

section Consumer

open StreamConsumer Method

variable {cfg : PipelineConfig} {name : String} {α : Type} {self : ConsumerState}
  {g : CleanupWorld}

/-- The consumer with its processor as one command. -/
def consumerCleanup (cfg : PipelineConfig) (name : String) :
    Contract ConsumerCall CleanupWorld where
  inv := Unheld
  rely := ListKept (.consumer name)
  guard
    | .inl c, g => MayDelete (.consumer name) (.inl c) g
    | .inr _, _ => True
  exec
    | .inl c, g, r, g' => (cleanupContract cfg (.consumer name)).exec (.inl c) g r g'
    | .inr _, _, _, _ => True

theorem wp_of_spares {m : Consumer α} (hm : Issues Spares m) :
    wp (consumerCleanup cfg name) m (fun _ _ _ => True) self g := by
  refine wp_of_issues (I := fun _ => True) hm (fun c g hc _ _ => ⟨?_, fun _ _ _ _ _ _ => trivial⟩)
    trivial
  rcases c with c | job
  · cases c <;> first | exact hc.elim | exact mayDelete_of_none rfl
  · trivial

/-- A part, and then the rest from wherever it ends. -/
theorem wp_then {β : Type} {m : Consumer β} {f : β → Consumer α}
    (hm : wp (consumerCleanup cfg name) m (fun _ _ _ => True) self g)
    (hf : ∀ b self g, wp (consumerCleanup cfg name) (f b) (fun _ _ _ => True) self g) :
    wp (consumerCleanup cfg name) (m >>= f) (fun _ _ _ => True) self g :=
  wp_bind hm (fun _ _ _ _ => trivial) fun b self g _ => hf b self g

theorem wp_tryThen {m : Consumer α} {handler : PyError → Consumer α}
    (hm : wp (consumerCleanup cfg name) m (fun _ _ _ => True) self g)
    (hh : ∀ e, Issues Spares (handler e)) :
    wp (consumerCleanup cfg name) (tryExcept m handler) (fun _ _ _ => True) self g :=
  wp_tryExcept hm (fun _ _ _ _ => trivial) fun e _ _ _ => wp_of_spares (hh e)

/-- The listed consumers are deleted in order. -/
theorem wp_deleteListed {consumers : List ConsumerInfo}
    (h : g.mine (.consumer name) =
      listedByConsumer cfg name .xinfoConsumers (Except.ok consumers)) :
    wp (consumerCleanup cfg name) (consumers.forM fun c => do
        if c.name = name ∨ c.pending ≠ 0 ∨ c.idle ≤ ms cfg.consumer.cleanupIdle then
          return ()
        ofExcept (← perform (.xgroupDelconsumer c.name))) (fun _ _ _ => True) self g := by
  induction consumers generalizing self g with
  | nil => exact wp_pure trivial
  | cons c rest ih =>
    refine wp_bind (R := fun _ _ g => g.mine (.consumer name) =
        listedByConsumer cfg name .xinfoConsumers (Except.ok rest)) ?_ (fun _ _ _ _ => trivial)
      fun _ _ _ h => ih h
    refine wp_ite (fun hskip => wp_pure (h.trans (listedByConsumer_skip hskip))) fun hdelete => ?_
    rw [listedByConsumer_cons hdelete] at h
    have hc : deleted (.consumer name) (.inl (.xgroupDelconsumer c.name)) = some c.name := rfl
    refine wp_call_bind (fun _ => mayDelete_cons hc h) fun r g₁ g₂ _ hx _ hr => ?_
    exact wp_ofExcept (mine_of_deleted hc h hx hr)

theorem wp_cleanupConsumers_consumer :
    wp (consumerCleanup cfg name) (cleanupConsumers cfg.consumer name)
      (fun _ _ _ => True) self g := by
  refine wp_tryThen ?_ fun e => issues_ite issues_pure issues_raise
  refine wp_call_bind (fun _ => mayDelete_of_none rfl) fun r g₁ g₂ _ hx _ hr => ?_
  have hlist := mine_of_listing rfl hx hr
  rcases r with e | consumers
  · exact wp_raise trivial
  · exact wp_deleteListed hlist

theorem wp_recoverOnce_consumer :
    wp (consumerCleanup cfg name) (recoverOnce cfg.consumer name) (fun _ _ _ => True) self g := by
  refine wp_then (wp_of_spares ?_) fun claimError self g => ?_
  · refine issues_tryExcept (issues_bind issues_claimAndProcess fun _ => issues_pure) fun e => ?_
    exact issues_ite issues_pure issues_raise
  · refine wp_then wp_cleanupConsumers_consumer fun _ self g => wp_of_spares ?_
    cases claimError with
    | none => exact issues_pure
    | some e => exact issues_raise

theorem wp_guarded_consumer {step : Consumer Unit}
    (h : wp (consumerCleanup cfg name) step (fun _ _ _ => True) self g) :
    wp (consumerCleanup cfg name) (guarded cfg.consumer step) (fun _ _ _ => True) self g := by
  refine wp_tryThen h fun e => issues_ite (issues_ite ?_ ?_) (issues_ite ?_ issues_raise)
  · exact issues_bind issues_ensureGroupUntilReady fun _ => issues_pure
  · exact issues_call_bind trivial fun _ => issues_pure
  · exact issues_call_bind trivial fun _ => issues_pure

theorem wp_turn_consumer {nextRecovery : Micros} :
    wp (consumerCleanup cfg name) (turn cfg.consumer name nextRecovery) (fun _ _ _ => True)
      self g := by
  have hguarded {step : Consumer Unit} (hstep : Issues Spares step) (self : ConsumerState)
      (g : CleanupWorld) :
      wp (consumerCleanup cfg name) (guarded cfg.consumer step) (fun _ _ _ => True) self g :=
    wp_guarded_consumer (wp_of_spares hstep)
  have hread (next : Micros) (self : ConsumerState) (g : CleanupWorld) :
      wp (consumerCleanup cfg name) (do
        guarded cfg.consumer (readOnce cfg.consumer name)
        return .inl next : Consumer (Micros ⊕ Unit)) (fun _ _ _ => True) self g :=
    wp_then (hguarded issues_readOnce self g) fun _ _ _ => wp_pure trivial
  have hcommand (c : ConsumerCmd) (hc : Spares (.inl c)) (self : ConsumerState) (g : CleanupWorld) :
      wp (consumerCleanup cfg name) (perform c) (fun _ _ _ => True) self g :=
    wp_of_spares (issues_call hc)
  refine wp_then (hcommand .stopped trivial self g) fun (stop : Bool) self g => ?_
  refine wp_ite (fun _ => wp_pure trivial) fun _ => ?_
  refine wp_self_bind (wp_ite (fun _ => ?_) fun _ => ?_)
  · refine wp_then (hguarded (issues_bind issues_retryHeld fun _ => issues_pure) self g)
      fun _ self g => wp_self_bind (wp_ite (fun _ => ?_) fun _ => wp_pure trivial)
    exact wp_then (hcommand (.sleep _) trivial self g) fun _ _ _ => wp_pure trivial
  · refine wp_then (hcommand .clock trivial self g) fun (now : Micros) self g => ?_
    refine wp_ite (fun _ => ?_) fun _ => hread nextRecovery self g
    refine wp_then (wp_guarded_consumer wp_recoverOnce_consumer) fun _ self g => ?_
    refine wp_then (hcommand .clock trivial self g) fun (now : Micros) self g => ?_
    exact wp_self_bind (wp_ite (fun _ => wp_pure trivial) fun _ => hread _ self g)

theorem wp_main_consumer :
    Prog.wp (consumerCleanup cfg name) (main cfg.consumer name) (fun _ _ => True) g := by
  have hrun : wp (consumerCleanup cfg name) (run cfg.consumer name) (fun _ _ _ => True)
      ⟨none, 0⟩ g := by
    refine wp_then (wp_of_spares issues_ensureGroupUntilReady) fun ready self g => ?_
    refine wp_ite (fun _ => wp_loop (fun _ _ _ => True) trivial fun t self g _ => ?_)
      fun _ => wp_pure trivial
    exact wp_mono wp_turn_consumer fun r _ _ _ _ => by rcases r with _ | _ | _ <;> trivial
  exact Prog.wp_bind (Prog.wp_mono _ hrun fun _ _ _ _ => Prog.wp_ret trivial)

/-- A processor deletes nothing. -/
theorem implements_consumerCleanup :
    Prog.Implements (consumerCleanup cfg name) (cleanupContract cfg (.consumer name))
      (withProcessor cfg.processor) := by
  intro c g hi hc
  rcases c with c | job
  · exact Prog.wp_perform (fun _ => hc) fun r g₁ g₂ _ hx hi₁ hr => ⟨g₁, hx, hi₁, hr⟩
  · have hissues : Prog.Issues (fun c => deleted (.consumer name) c = none)
        (withProcessor cfg.processor (.inr job)) := by
      refine Prog.issues_interpret (Prog.issues_any (cfg.processor job)) fun c _ => ?_
      exact Prog.issues_perform (S := ConsumerJobSig) (c := .inr c) rfl
    refine Prog.wp_mono _ (Prog.wp_of_issues hissues fun c g hc _ => mayDelete_of_none hc) ?_
    exact fun r g₂ hi₂ _ => ⟨g₂, trivial, hi₂, rfl⟩

end Consumer

/-! ### Status workers -/

section Worker

open StatusWorker Prog

variable {cfg : PipelineConfig} {id : String} {α β : Type} {g : CleanupWorld}

theorem wp_of_spares_worker {p : StatusProg α} (hp : Issues Spares p) :
    wp (cleanupContract cfg (.statusWorker id)) p (fun _ _ => True) g := by
  refine wp_of_issues hp fun c g hc _ => ?_
  cases c <;> first | exact hc.elim | exact mayDelete_of_none rfl

theorem wp_deleteIdle_worker {consumers : List StatusConsumer}
    (h : g.mine (.statusWorker id) = listedByWorker cfg id .xinfoConsumers (Except.ok consumers)) :
    wp (cleanupContract cfg (.statusWorker id))
      (StatusSource.deleteIdle id cfg.status.cleanupIdle consumers) (fun _ _ => True) g := by
  induction consumers generalizing g with
  | nil => exact wp_ret trivial
  | cons c rest ih =>
    refine wp_ite (fun hskip => ih (h.trans (listedByWorker_skip hskip))) fun hdelete => ?_
    rw [listedByWorker_cons hdelete] at h
    have hc : deleted (.statusWorker id) (.xgroupDelConsumer c.name) = some c.name := rfl
    refine wp_perform_bind (fun _ => mayDelete_cons hc h) fun r g₁ g₂ _ hx _ hr => ?_
    rcases r with e | _
    · exact wp_ret trivial
    · exact ih (mine_of_deleted hc h hx hr)

theorem wp_cleanupConsumers_worker :
    wp (cleanupContract cfg (.statusWorker id))
      (StatusSource.cleanupConsumers id cfg.status.cleanupIdle) (fun _ _ => True) g := by
  refine wp_perform_bind (fun _ => mayDelete_of_none rfl) fun r g₁ g₂ _ hx _ hr => ?_
  have hlist := mine_of_listing rfl hx hr
  rcases r with e | consumers
  · exact wp_ret trivial
  · exact wp_deleteIdle_worker hlist

theorem wp_recoverOnce_worker :
    wp (cleanupContract cfg (.statusWorker id)) (recoverOnce cfg.status cfg.maxAttempts.val id)
      (fun _ _ => True) g := by
  have hcleanup (claimErr : Except RedisError Unit) (g : CleanupWorld) :
      wp (cleanupContract cfg (.statusWorker id)) (do
        StatusSource.cleanupConsumers id cfg.status.cleanupIdle
        return claimErr) (fun _ _ => True) g :=
    wp_seq wp_cleanupConsumers_worker fun _ _ => wp_ret trivial
  refine wp_seq (wp_of_spares_worker issues_storeHealthy) fun healthy g => ?_
  refine wp_ite (fun _ => ?_) fun _ => hcleanup _ g
  exact wp_seq (wp_of_spares_worker issues_claimAndProcess) hcleanup

theorem wp_turn_worker {nextRecovery : Option Time} :
    wp (cleanupContract cfg (.statusWorker id))
      (turn cfg.status cfg.maxAttempts.val id nextRecovery) (fun _ _ => True) g := by
  refine wp_seq (wp_of_spares_worker (issues_perform trivial)) fun cancelled g => ?_
  refine wp_ite (fun _ => wp_ret trivial) fun _ => ?_
  refine wp_seq (wp_of_spares_worker (issues_perform trivial)) fun (now : Time) g => ?_
  refine wp_ite (fun _ => ?_) fun _ => wp_of_spares_worker issues_read
  refine wp_seq wp_recoverOnce_worker fun recovered g => ?_
  refine wp_seq (wp_of_spares_worker (issues_perform trivial)) fun (now : Time) g => ?_
  split
  · refine wp_seq (wp_of_spares_worker (issues_ensureGroup trivial fun _ => trivial))
      fun ready g => ?_
    exact wp_ite (fun _ => wp_of_spares_worker issues_read) fun _ => wp_ret trivial
  · exact wp_of_spares_worker issues_read

theorem wp_run_worker :
    wp (cleanupContract cfg (.statusWorker id)) (run cfg.status cfg.maxAttempts.val id)
      (fun _ _ => True) g := by
  refine wp_seq (wp_of_spares_worker (issues_ensureGroup trivial fun _ => trivial))
    fun ready g => ?_
  refine wp_ite (fun _ => ?_) fun _ => wp_ret trivial
  refine wp_iterate (fun _ _ => True) trivial fun _ g _ => wp_mono _ wp_turn_worker ?_
  rintro (_ | _) _ _ _ <;> trivial

end Worker

/-! ### Every run -/

section Certificate

variable {cfg : PipelineConfig} {p : Process} {c : p.sig.Cmd} {g : CleanupWorld}

theorem unheld_respond {ch : PipelineChoice} (hi : Unheld g)
    (hR : (leftAlone cfg).call p c ch g) : Unheld ((cleanupSystem cfg).respond p c ch g).2 := by
  have hold (x : Process × String) (hx : x ∈ g.listed) :
      ((p.respond c ch g.toWorld).2.streamOf x.1).Idle x.2 :=
    idle_respond (hi x hx) fun ht hq => hR x.2 ht ⟨x, hx, hq, rfl⟩
  intro x hx
  change x ∈ g.listedAfter cfg p c _ at hx
  unfold listedAfter at hx
  split at hx
  · exact hold x (List.mem_of_mem_erase hx)
  · obtain hx | hx := List.mem_append.1 hx
    · obtain ⟨name, hname, rfl⟩ := List.mem_map.1 hx
      exact idle_of_listing hname
    · exact hold x (List.mem_filter.1 hx).1

theorem wp_cleanup (p : Process) (g : CleanupWorld) :
    Prog.wp (cleanupContract cfg p) (p.main cfg) (fun _ _ => True) g := by
  cases p with
  | outboxWorker | outboxSweeper | resetIndex =>
    exact Prog.wp_of_free _ fun _ _ _ => mayDelete_of_none rfl
  | consumer name =>
    exact Prog.wp_interpret implements_consumerCleanup (fun _ h => h) _ wp_main_consumer
  | statusWorker id => exact wp_run_worker

def cleanupCertificate (cfg : PipelineConfig) :
    Actors.Certificate (cleanupSystem cfg) (leftAlone cfg) where
  inv := Unheld
  rely := ListKept
  guard p c g := MayDelete p c g
  fresh _ _ := True
  rely_refl _ _ := rfl
  rely_trans _ _ _ _ h h' := Eq.trans h' h
  fresh_rely _ _ _ _ _ _ := trivial
  enter_ok _ _ hi _ _ := ⟨hi, fun _ _ => rfl⟩
  call_ok p c ch g hi _ hR := ⟨unheld_respond hi hR, fun q hq => mine_other hq⟩
  leave_ok p g hi := by
    refine ⟨fun x hx => hi x (List.mem_filter.1 hx).1, fun q hq => ?_⟩
    refine congrArg (List.map Prod.snd)
      ((List.filter_filter).trans (List.filter_congr fun x _ => ?_))
    by_cases hx : x.1 = q <;> simp [hx, hq]
  env_ok e g hi _ := ⟨fun x hx => idle_apply (hi x hx), fun _ => rfl⟩
  main_ok p _ _ _ _ g' _ := wp_cleanup p g'

end Certificate

theorem unheld_start (w : World) : Unheld (.start w) := fun _ hx => by cases hx

theorem acknowledged_of_deleted {p : Process} {c : p.sig.Cmd} {name : String}
    (h : deleted p c = some name) : acknowledged p c = none := by
  cases p with
  | consumer =>
    rcases c with c | job
    · cases c <;> first | rfl | cases h
    · rfl
  | statusWorker => cases c <;> first | rfl | cases h
  | outboxWorker | outboxSweeper | resetIndex => rfl

/-- The entry is acknowledged by the step, or its group is lost. -/
def Releases {cfg : PipelineConfig} (conf : (cleanupSystem cfg).Config) (q : Process) (id : Nat) :
    (cleanupSystem cfg).Step → Prop
  | .call p _ => ∃ c, conf.pending p = some c ∧ OnStatus q = OnStatus p ∧
      acknowledged p c = some id
  | .env e => ((PipelineEvent.apply e conf.shared.toWorld).streamOf q).group = none
  | _ => False

/-- In a run where listed consumers are left alone, whoever is deleted holds nothing. An entry that
is in the stream stays pending until it is acknowledged, or its group is lost. -/
theorem deletion_spares_entries {cfg : PipelineConfig} {w : World}
    {conf : (cleanupSystem cfg).Config}
    (h : (cleanupSystem cfg).Reachable (leftAlone cfg) (.start w) conf) :
    (∀ p c, conf.pending p = some c → ∀ name ∈ deleted p c, (conf.shared.streamOf p).Idle name) ∧
    ∀ e conf', (leftAlone cfg).Allows conf e → (cleanupSystem cfg).next conf e = some conf' →
      ∀ q id, (conf.shared.streamOf q).Pending id → (conf.shared.streamOf q).live id →
        (conf'.shared.streamOf q).Pending id ∨ Releases conf q id e := by
  have h₀ : (cleanupCertificate cfg).inv (.start w) := unheld_start w
  have hinv : Unheld conf.shared := (cleanupCertificate cfg).sound h₀ (fun _ => trivial) h
  have hidle (p : Process) (c : p.sig.Cmd) (hp : conf.pending p = some c) :
      ∀ name ∈ deleted p c, (conf.shared.streamOf p).Idle name := fun name hname =>
    hinv _ (mem_listed_of_mine
      ((cleanupCertificate cfg).guarded h₀ (fun _ => trivial) h hp name hname))
  refine ⟨hidle, fun e conf' _ hn q id hp hl => ?_⟩
  cases e with
  | env e =>
    cases hn
    exact pending_apply hp
  | call p ch =>
    simp only [Actors.next] at hn
    split at hn
    case h_1 c k hlife =>
      cases hn
      have hpending : conf.pending p = some c := by simp [Actors.Config.pending, hlife]
      by_cases hack : OnStatus q = OnStatus p ∧ acknowledged p c = some id
      · exact .inr ⟨c, hpending, hack⟩
      · exact .inl (pending_respond hp hl (hidle p c hpending) fun hq ha => hack ⟨hq, ha⟩)
    case h_2 => cases hn
  | start p | unfold p | finish p | crash p =>
    simp only [Actors.next] at hn
    split at hn
    · cases hn
      exact .inl hp
    · cases hn

/-! ### A consumer that was away for long -/

section Rested

/-- Everything succeeds, and every consumer has been idle for longer than `cleanup_idle`. -/
def rested : PipelineChoice := { answers false with idle := fun _ => 3600001 }

/-- One entry to read. -/
def oneToRead : World :=
  { sampleStart with
    ingest := Streams.Stream.empty.xadd (firstEvent.toEntry.getD ⟨none, none⟩) }

abbrev RestedStep := (cleanupSystem sampleConfig).Step

def asks (name : String) (n : Nat) : List RestedStep :=
  List.replicate n (.call (.consumer name) rested)

/-- A consumer starts and comes to its first command after recovery. -/
def recovers (name : String) (commands : Nat) : List RestedStep :=
  [.start (.consumer name), .unfold (.consumer name)] ++ asks name 2 ++
    [.unfold (.consumer name)] ++ asks name commands

/-- `a` is about to read, and `b` has listed it and is about to delete it. -/
def listed : List RestedStep := recovers "a" 5 ++ recovers "b" 4

theorem deletion_spares_entries_listed : ∃ conf,
    (cleanupSystem sampleConfig).Reachable (leftAlone sampleConfig) (.start oneToRead) conf ∧
    (conf.pending (.consumer "b")).bind (deleted (.consumer "b")) = some "a" ∧
    (conf.shared.streamOf (.consumer "b")).Idle "a" := by
  have hrules : (leftAlone sampleConfig).AllowsAll (Actors.init _ (.start oneToRead)) listed := by
    decide +kernel
  have hrun : ((cleanupSystem sampleConfig).replay (Actors.init _ (.start oneToRead)) listed).map
      (fun conf => (conf.pending (.consumer "b")).bind (deleted (.consumer "b"))) =
      some (some "a") := by decide +kernel
  obtain ⟨conf, hreplay, hdel⟩ := Option.map_eq_some_iff.1 hrun
  have hreach := Actors.Reachable.init.replay hrules hreplay
  obtain ⟨c, hc, hname⟩ := Option.bind_eq_some_iff.1 hdel
  exact ⟨conf, hreach, hdel, (deletion_spares_entries hreach).1 _ c hc "a" hname⟩

/-- What a list of steps leads to, and what one more step makes of it. -/
def beforeAndAfter (es : List RestedStep) (e : RestedStep) :
    Option ((cleanupSystem sampleConfig).Config × (cleanupSystem sampleConfig).Config) :=
  ((cleanupSystem sampleConfig).replay (Actors.init _ (.start oneToRead)) es).bind fun conf =>
    ((cleanupSystem sampleConfig).next conf e).map fun conf' => (conf, conf')

/-- A consumer that was listed and then reads is deleted while it holds what it has read, and nobody
has acknowledged that. -/
theorem busy_consumer_deleted : ∃ conf conf',
    (cleanupSystem sampleConfig).Reachable (Actors.Rules.free _) (.start oneToRead) conf ∧
    (conf.pending (.consumer "b")).bind (deleted (.consumer "b")) = some "a" ∧
    ¬ (conf.shared.streamOf (.consumer "b")).Idle "a" ∧
    (cleanupSystem sampleConfig).next conf (.call (.consumer "b") rested) = some conf' ∧
    conf.shared.ingest.Pending 1 ∧ conf.shared.ingest.live 1 ∧ ¬ conf'.shared.ingest.Pending 1 ∧
    ¬ Releases conf (.consumer "b") 1 (.call (.consumer "b") rested) := by
  have hrun : (beforeAndAfter (listed ++ asks "a" 1) (.call (.consumer "b") rested)).map (fun x =>
      ((x.1.pending (.consumer "b")).bind (deleted (.consumer "b")),
        x.1.shared.ingest.group, x.1.shared.ingest.live 1, x.2.shared.ingest.group)) =
      some (some "a", some ⟨1, [⟨1, "a", 1⟩], ["b", "a"]⟩, true, some ⟨1, [], ["b"]⟩) := by
    decide +kernel
  obtain ⟨⟨conf, conf'⟩, hboth, hleft⟩ := Option.map_eq_some_iff.1 hrun
  obtain ⟨_, hreplay, hnext⟩ := Option.bind_eq_some_iff.1 hboth
  obtain ⟨_, hn, he⟩ := Option.map_eq_some_iff.1 hnext
  cases he
  simp only [Prod.mk.injEq] at hleft
  obtain ⟨hdel, hgroup, hlive, hgroup'⟩ := hleft
  obtain ⟨c, hc, hname⟩ := Option.bind_eq_some_iff.1 hdel
  refine ⟨conf, conf', Actors.Reachable.init.replay (Actors.Rules.free_allowsAll _ _) hreplay, hdel,
    fun hidle => hidle _ hgroup _ (List.mem_singleton_self _) rfl, hn,
    ⟨_, hgroup, _, List.mem_singleton_self _, rfl⟩, hlive, ?_, ?_⟩
  · rintro ⟨gr, hg, p, hp, -⟩
    cases hgroup'.symm.trans hg
    cases hp
  · rintro ⟨c', hc', -, hack⟩
    cases hc.symm.trans hc'
    rw [acknowledged_of_deleted hname] at hack
    cases hack

end Rested

end Pipeline
