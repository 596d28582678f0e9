import RagPipeline.Pipeline.JobsBounded
import RagPipeline.Rag.JobReasons

/-!
# Which entries are reported as poison

The check looks at the number of deliveries, so an entry whose job never ran can be reported, after
enough answers were lost. What is published is the report of the entry its consumer had.

## Main definitions

* `Justified`: the report is of the entry's own job, or of its deliveries.

## Main results

* `poison_reported_unstarted`: a report on an entry whose job was never started.
* `poison_after_deliveries`: a report of POISON_MESSAGE comes after more than `poison_threshold`
  deliveries.
* `poison_counts_deliveries`: of the jobs of `IngestService` none is reported so.
-/
namespace Pipeline

open Events Interact Rag StreamConsumer

/-- What is recorded about an entry. -/
def entryFacts (id : EntryId) : Facts DeliveryWorld where
  ran _ outcome g := ∃ r, (some id, r) ∈ g.outcomes ∧ runJob r = .ok outcome
  counted id n g := n ≤ g.delivered.count id

/-- The status reports the entry's own job, or how often it was delivered. -/
def Justified (settings : ConsumerSettings) (e : StreamEntry) (status : StatusEvent)
    (g : DeliveryWorld) : Prop :=
  ∃ event, accepted e.fields = some event ∧
    Reported settings (entryFacts e.id) e.id event g status

structure ReportsInv (settings : ConsumerSettings) (g : DeliveryWorld) : Prop where
  tally : g.ingest.Tally g.delivered
  published : ∀ {entry status}, (entry, status) ∈ g.published →
    ∃ e, entry = some e ∧ Justified settings e status g

/-- Records only grow, and the consumer has what it had. -/
structure RecordsKept (name : String) (g g' : DeliveryWorld) : Prop where
  hand : g'.hand name = g.hand name
  outcomes : g.outcomes ⊆ g'.outcomes
  count : ∀ id, g.delivered.count id ≤ g'.delivered.count id

/-- A consumer publishes reports on the entry it has. -/
def MayReport (settings : ConsumerSettings) (name : String) (g : DeliveryWorld) :
    ConsumerCall.Cmd → Prop
  | .inl (.xadd status) => ∃ e n, g.hand name = some (e, n) ∧ Justified settings e status g
  | _ => True

section Account

variable {settings : ConsumerSettings} {name : String} {g g' : DeliveryWorld} {ch : DeliveryChoice}
  {c : ConsumerCmd} {e : StreamEntry} {status : StatusEvent}

theorem RecordsKept.refl : RecordsKept name g g := ⟨rfl, fun _ h => h, fun _ => le_rfl⟩

theorem RecordsKept.trans {g'' : DeliveryWorld} (h : RecordsKept name g g')
    (h' : RecordsKept name g' g'') : RecordsKept name g g'' :=
  ⟨h'.hand.trans h.hand, fun _ hx => h'.outcomes (h.outcomes hx),
    fun id => (h.count id).trans (h'.count id)⟩

theorem Justified.mono (h : Justified settings e status g) (ho : g.outcomes ⊆ g'.outcomes)
    (hc : ∀ id, g.delivered.count id ≤ g'.delivered.count id) :
    Justified settings e status g' := by
  obtain ⟨event, ha, hrep⟩ := h
  refine ⟨event, ha, ?_⟩
  cases hrep with
  | job ran made =>
    obtain ⟨r, hmem, hr⟩ := ran
    exact .job ⟨r, ho hmem, hr⟩ made
  | poison counted exceeds made =>
    exact .poison (counted.trans (by exact_mod_cast hc e.id)) exceeds made

/-- A command that brings nothing. -/
theorem recordsKept_self (hb : brought c (consumerReply ch.toPipelineChoice g.toWorld c) = none) :
    RecordsKept name g (g.after ch name (.inl c)) where
  hand := DeliveryWorld.hand_of_not_brought hb
  outcomes _ h := h
  count _ := DeliveryWorld.count_le_after _

theorem recordsKept_job {job : JobCall} (ch : DeliveryChoice) :
    RecordsKept name g (g.after ch name (.inr job)) :=
  ⟨rfl, fun _ h => List.mem_cons_of_mem _ h, fun _ => le_rfl⟩

theorem RecordsKept.after {other : String} {c : ConsumerCall.Cmd} (hne : other ≠ name) :
    RecordsKept other g (g.after ch name c) := by
  rcases c with c | job
  · exact ⟨Function.update_of_ne hne _ _, fun _ h => h, fun _ => DeliveryWorld.count_le_after _⟩
  · exact ⟨rfl, fun _ h => List.mem_cons_of_mem _ h, fun _ => le_rfl⟩

theorem ReportsInv.after_inl (hi : ReportsInv settings g)
    (hg : MayReport settings name g (.inl c)) :
    ReportsInv settings (g.after ch name (.inl c)) := by
  refine ⟨DeliveryWorld.tally_after hi.tally, fun {entry status} hmem => ?_⟩
  have hold (h : (entry, status) ∈ g.published) :
      ∃ e, entry = some e ∧ Justified settings e status (g.after ch name (.inl c)) := by
    obtain ⟨e, he, hj⟩ := hi.published h
    exact ⟨e, he, hj.mono (fun _ h => h) fun _ => DeliveryWorld.count_le_after _⟩
  cases c with
  | xadd status' =>
    simp only [DeliveryWorld.after, DeliveryWorld.publishedAfter, PipelineChoice.done] at hmem
    split at hmem
    · exact hold hmem
    · obtain hmem | hmem := List.mem_cons.1 hmem
      · obtain ⟨e, n, hhand, hj⟩ := hg
        obtain ⟨rfl, rfl⟩ := Prod.mk.inj hmem
        exact ⟨e, by simp [hhand], hj.mono (fun _ h => h) fun _ => DeliveryWorld.count_le_after _⟩
      · exact hold hmem
  | _ => exact hold hmem

theorem ReportsInv.after_inr (ch : DeliveryChoice) (job : JobCall) (hi : ReportsInv settings g) :
    ReportsInv settings (g.after ch name (.inr job)) := by
  refine ⟨hi.tally, fun {entry status} hmem => ?_⟩
  obtain ⟨e, he, hj⟩ := hi.published hmem
  exact ⟨e, he, hj.mono (fun _ h => List.mem_cons_of_mem _ h) fun _ => le_rfl⟩

end Account

/-! ### The consumer's part -/

def reportsContract (settings : ConsumerSettings) (name : String) :
    Contract ConsumerCall DeliveryWorld where
  inv := ReportsInv settings
  rely := RecordsKept name
  guard c g := MayReport settings name g c
  exec c g r g' := ∃ ch, True ∧ (deliverySystem settings).respond name c ch g = (r, g')

/-- The ledger that the records are. -/
def deliveryLedger (settings : ConsumerSettings) (name : String) :
    Ledger (reportsContract settings name) settings name where
  ran _ outcome g := ∃ r, ((g.hand name).map fun h => h.1.id, r) ∈ g.outcomes ∧
    runJob r = .ok outcome
  counted id n g := n ≤ g.delivered.count id
  got id fields g := ∃ n, g.hand name = some (⟨id, fields⟩, n)
  sent _ _ _ _ := True
  keeps := RecordsKept name
  keeps_refl _ := .refl
  keeps_trans := .trans
  got_keeps hk h := by
    obtain ⟨n, hn⟩ := h
    exact ⟨n, hk.hand.trans hn⟩
  ran_keeps hk h := by
    obtain ⟨r, hmem, hr⟩ := h
    exact ⟨r, hk.hand ▸ hk.outcomes hmem, hr⟩
  counted_keeps {id n _ _} hk h := by
    have := hk.count id
    omega
  sent_keeps _ _ := trivial
  quiet {c g r _ _} hd hx hr := by
    obtain ⟨ch, -, hx⟩ := hx
    cases congrArg Prod.snd hx
    refine (recordsKept_self ?_).trans hr
    cases c <;> first | rfl | exact absurd trivial hd
  worked {event deadline g _ _ r} hx hr := by
    obtain ⟨ch, -, hx⟩ := hx
    obtain ⟨rfl, rfl⟩ := Prod.mk.inj hx
    refine ⟨(recordsKept_job ch).trans hr, fun outcome ho => ?_⟩
    refine ⟨DeliveryChoice.outcome ch, ?_, ho⟩
    rw [hr.hand]
    exact hr.outcomes List.mem_cons_self
  read {block g _ _ batch} hx _ hr e he := by
    obtain ⟨ch, -, hx⟩ := hx
    obtain ⟨hreply, rfl⟩ := Prod.mk.inj hx
    have hb := (congrArg (brought (.xreadgroup name block)) hreply).trans (batch.head?_of_mem he)
    exact ⟨_, hr.hand.trans (DeliveryWorld.hand_of_brought hb)⟩
  claim {minIdle start _ _ _ claimed} hx _ hr e he := by
    obtain ⟨ch, -, hx⟩ := hx
    obtain ⟨hreply, rfl⟩ := Prod.mk.inj hx
    have hb := (congrArg (brought (.xautoclaim name minIdle start)) hreply).trans
      (claimed.batch.head?_of_mem he)
    exact ⟨_, hr.hand.trans (DeliveryWorld.hand_of_brought hb)⟩
  count {id _ _ _ _} hi hx hr := by
    obtain ⟨ch, -, hx⟩ := hx
    obtain ⟨hreply, rfl⟩ := Prod.mk.inj hx
    rw [DeliveryWorld.count_of_xpending hi.tally hreply]
    exact_mod_cast (DeliveryWorld.count_le_after id).trans (hr.count id)
  added _ _ _ := trivial
  free {c _} hv _ := by cases c <;> first | trivial | exact absurd trivial hv
  free_job _ := trivial
  may_add {id fields event status g} _ hgot ha hrep := by
    obtain ⟨n, hn⟩ := hgot
    refine ⟨_, n, hn, event, ha, ?_⟩
    cases hrep with
    | job ran made =>
      obtain ⟨r, hmem, hr⟩ := ran
      rw [hn] at hmem
      exact .job ⟨r, hmem, hr⟩ made
    | poison counted exceeds made => exact .poison counted exceeds made
  may_ack _ _ _ := trivial

def reportsCertificate (settings : ConsumerSettings) :
    Actors.Certificate (deliverySystem settings) (Actors.Rules.free _) where
  inv := ReportsInv settings
  rely := RecordsKept
  guard name c g := MayReport settings name g c
  fresh _ _ := True
  rely_refl _ _ := .refl
  rely_trans _ _ _ _ := .trans
  fresh_rely _ _ _ _ _ _ := trivial
  enter_ok _ _ hi _ _ := ⟨hi, fun _ _ => .refl⟩
  call_ok name c ch g hi hg _ := by
    refine ⟨?_, fun other hne => RecordsKept.after hne⟩
    rcases c with c | job
    · exact hi.after_inl hg
    · exact hi.after_inr ch job
  leave_ok _ _ hi := ⟨hi, fun _ _ => .refl⟩
  env_ok e g hi _ := by
    refine ⟨⟨DeliveryWorld.tally_apply hi.tally, fun {entry status} hmem => ?_⟩, fun _ => ?_⟩
    · obtain ⟨e, he, hj⟩ := hi.published hmem
      exact ⟨e, he, hj.mono (fun _ h => h) fun _ => le_rfl⟩
    · exact ⟨rfl, fun _ h => h, fun _ => le_rfl⟩
  main_ok name _ _ _ _ g' _ := (deliveryLedger settings name).wp_main g'

/-! ### Every run -/

theorem reason_of_statusFor {event : IngestEvent} {outcome : Outcome} {uuid : Wire.PyStr}
    {now : Int} {status : StatusEvent} {reason : Reason}
    (h : statusFor event outcome uuid now = .ok status) (hr : status.reason = some reason) :
    ∃ retryable detail, outcome = .failed retryable reason detail := by
  cases outcome with
  | indexed chunkCount => exact nomatch (StatusEvent.init_ok h).2.2.2.2.symm.trans hr
  | failed retryable reason' detail =>
    cases (StatusEvent.init_ok h).2.2.2.2.symm.trans hr
    exact ⟨retryable, detail, rfl⟩

section Run

variable {settings : ConsumerSettings} {intents : Relational.Table Center.Intent}
  {index : IndexState} {cfg : (deliverySystem settings).Config} {entry : Option StreamEntry}
  {status : StatusEvent}

/-- The two reports of POISON_MESSAGE. -/
theorem poison_report
    (hreach : (deliverySystem settings).Reachable (Actors.Rules.free _)
      (.start (.start intents index)) cfg)
    (hmem : (entry, status) ∈ cfg.shared.published)
    (hpoison : status.reason = some .poisonMessage) :
    ∃ e event, entry = some e ∧ accepted e.fields = some event ∧ status.hash = event.hash ∧
      status.attempts = event.attempts ∧
      (settings.poisonThreshold < cfg.shared.delivered.count e.id ∨
        ∃ r retryable detail, (some e.id, r) ∈ cfg.shared.outcomes ∧
          runJob r = .ok (.failed retryable .poisonMessage detail)) := by
  have hstart : ReportsInv settings (.start (.start intents index)) :=
    ⟨DeliveryWorld.tally_start rfl, nofun⟩
  have hinv := (reportsCertificate settings).sound hstart (fun _ => trivial) hreach
  obtain ⟨e, he, event, ha, hrep⟩ := hinv.published hmem
  refine ⟨e, event, he, ha, hrep.echo.1, hrep.echo.2, ?_⟩
  cases hrep with
  | job ran made =>
    obtain ⟨r, hr, hran⟩ := ran
    obtain ⟨retryable, detail, rfl⟩ := reason_of_statusFor made hpoison
    exact .inr ⟨r, retryable, detail, hr, hran⟩
  | poison counted exceeds made => exact .inl (exceeds.trans_le counted)

end Run

/-- POISON_MESSAGE is published for an entry that was delivered more than `poison_threshold` times,
or whose own job ended with that reason. -/
theorem poison_after_deliveries {settings : ConsumerSettings}
    {intents : Relational.Table Center.Intent} {index : IndexState}
    {cfg : (deliverySystem settings).Config}
    (hreach : (deliverySystem settings).Reachable (Actors.Rules.free _)
      (.start (.start intents index)) cfg) {entry : Option StreamEntry} {status : StatusEvent}
    (hmem : (entry, status) ∈ cfg.shared.published)
    (hpoison : status.reason = some .poisonMessage) :
    ∃ e event, entry = some e ∧ accepted e.fields = some event ∧ status.hash = event.hash ∧
      status.attempts = event.attempts ∧
      (settings.poisonThreshold < cfg.shared.delivered.count e.id ∨
        ∃ r retryable detail, (some e.id, r) ∈ cfg.shared.outcomes ∧
          runJob r = .ok (.failed retryable .poisonMessage detail)) :=
  poison_report hreach hmem hpoison

/-! ### The jobs of `IngestService` -/

section IngestJobs

variable {settings : ConsumerSettings} {uuid5 : Wire.PyStr → Wire.PyStr} {service : IngestService}

/-- The processor is `IngestService`, whatever its dependencies answer. -/
def ingestJobs (settings : ConsumerSettings) (uuid5 : Wire.PyStr → Wire.PyStr)
    (service : IngestService) : (deliverySystem settings).Rules where
  start _ _ := True
  call
    | _, .inl _, _, _ => True
    | _, .inr job, ch, _ => service.MayReturn uuid5 job (DeliveryChoice.outcome ch)
  env _ _ := True

/-- No job ended with POISON_MESSAGE. -/
def NoneJudged (g : DeliveryWorld) : Prop :=
  ∀ x ∈ g.outcomes, ∀ retryable detail,
    runJob x.2 ≠ .ok (.failed retryable .poisonMessage detail)

theorem NoneJudged.after {g : DeliveryWorld} {name : String} {c : ConsumerCall.Cmd}
    {ch : DeliveryChoice} (h : NoneJudged g) (hs : service.Unpoisoned)
    (hc : (ingestJobs settings uuid5 service).call name c ch g) :
    NoneJudged (g.after ch name c) := by
  rcases c with c | job
  · exact h
  · intro x hx
    obtain rfl | hx := List.mem_cons.1 hx
    · exact hc.ne_poison hs
    · exact h x hx

def judgedCertificate (settings : ConsumerSettings) (uuid5 : Wire.PyStr → Wire.PyStr)
    {service : IngestService} (hs : service.Unpoisoned) :
    Actors.Certificate (deliverySystem settings) (ingestJobs settings uuid5 service) where
  inv := NoneJudged
  rely _ _ _ := True
  guard _ _ _ := True
  fresh _ _ := True
  rely_refl _ _ := trivial
  rely_trans _ _ _ _ _ _ := trivial
  fresh_rely _ _ _ _ _ _ := trivial
  enter_ok _ _ hi _ _ := ⟨hi, fun _ _ => trivial⟩
  call_ok _ _ _ _ hi _ hc := ⟨hi.after hs hc, fun _ _ => trivial⟩
  leave_ok _ _ hi := ⟨hi, fun _ _ => trivial⟩
  env_ok _ _ hi _ := ⟨hi, fun _ => trivial⟩
  main_ok _ _ _ _ _ _ _ := Prog.wp_of_free _ fun _ _ _ => trivial

/-- With `IngestService` the report is always of the deliveries. -/
theorem poison_counts_deliveries {intents : Relational.Table Center.Intent} {index : IndexState}
    {cfg : (deliverySystem settings).Config} (hs : service.Unpoisoned)
    (hreach : (deliverySystem settings).Reachable (ingestJobs settings uuid5 service)
      (.start (.start intents index)) cfg) {entry : Option StreamEntry} {status : StatusEvent}
    (hmem : (entry, status) ∈ cfg.shared.published)
    (hpoison : status.reason = some .poisonMessage) :
    ∃ e event, entry = some e ∧ accepted e.fields = some event ∧ status.hash = event.hash ∧
      settings.poisonThreshold < cfg.shared.delivered.count e.id := by
  have hnone := (judgedCertificate settings uuid5 hs).sound (fun _ hx => absurd hx List.not_mem_nil)
    (fun _ => trivial) hreach
  obtain ⟨e, event, he, ha, hhash, -, hcount | ⟨r, retryable, detail, hr, hran⟩⟩ :=
    poison_report hreach.free hmem hpoison
  · exact ⟨e, event, he, ha, hhash, hcount⟩
  · exact absurd hran (hnone _ hr retryable detail)

end IngestJobs

/-! ### Lost answers -/

/-- The connection breaks before the answer is there. -/
def disconnected : DeliveryChoice :=
  { untroubled with fate := .lost }

/-- A process starts, and loses its connection and its life at the first delivery. -/
def shortLife (settings : ConsumerSettings) (name : String) (commands : Nat) :
    List (deliverySystem settings).Step :=
  [.start name, .unfold name, .call name untroubled, .call name untroubled, .unfold name] ++
    List.replicate commands (.call name untroubled) ++
    [.call name disconnected, .crash name]

/-- The entry is delivered three times with the answers lost. The fourth process looks it up and
publishes its report. -/
def lostAnswers (settings : ConsumerSettings) : List (deliverySystem settings).Step :=
  .env (.xadd firstFields) :: shortLife settings "a" 5 ++ shortLife settings "b" 2 ++
    shortLife settings "c" 2 ++ life settings "d" 8

/-- Which reports there are, of how many jobs. -/
def DeliveryWorld.summary (g : DeliveryWorld) :
    List (Option EntryId × Option Reason) × Nat × Nat :=
  (g.published.map fun p => (p.1.map StreamEntry.id, p.2.reason), g.started.length,
    g.outcomes.length)

theorem mem_of_summary {g : DeliveryWorld} {id : EntryId} {reason : Reason} {jobs outcomes : Nat}
    (h : g.summary = ([(some id, some reason)], jobs, outcomes)) :
    ∃ e status, (some e, status) ∈ g.published ∧ e.id = id ∧ status.reason = some reason := by
  have hpublished := congrArg Prod.fst h
  obtain ⟨⟨entry, status⟩, hp, he⟩ := List.map_eq_singleton_iff.1 hpublished
  obtain ⟨hentry, hreason⟩ := Prod.mk.inj he
  obtain ⟨e, hentry, hid⟩ := Option.map_eq_some_iff.1 hentry
  cases (hentry : entry = some e)
  exact ⟨e, status, by rw [hp]; exact List.mem_singleton_self _, hid, hreason⟩

/-- Under the repository's file, an entry is reported whose job was never started. -/
theorem poison_reported_unstarted : ∃ config,
    Settings.Python.load Settings.configToml = .ok config ∧
    ∃ cfg, (deliverySystem (.fromConfig config)).Reachable (Actors.Rules.free _)
        (.start (.start .empty ⟨.empty, .empty⟩)) cfg ∧
      ∃ e status, (some e, status) ∈ cfg.shared.published ∧
        status.reason = some .poisonMessage ∧ cfg.shared.started = [] := by
  have hsilent : (Settings.Python.build Settings.configToml).2 = [] := by decide +kernel
  have hrun : (deliverySystem (.fromConfig (Settings.Python.build Settings.configToml).1)).leaves
      (.start (.start .empty ⟨.empty, .empty⟩)) (lostAnswers _) DeliveryWorld.summary =
        some ([(some 1, some .poisonMessage)], 0, 0) := by decide +kernel
  obtain ⟨cfg, hreach, hleft⟩ := Actors.Reachable.of_leaves (Actors.Rules.free_allowsAll _ _) hrun
  obtain ⟨e, status, hmem, -, hreason⟩ := mem_of_summary hleft
  have hstarted : cfg.shared.started.length = 0 := congrArg (fun x => x.2.1) hleft
  exact ⟨_, Settings.Python.load_of_silent hsilent, cfg, hreach, e, status, hmem, hreason,
    List.eq_nil_of_length_eq_zero hstarted⟩

/-- It was delivered often enough. -/
theorem poison_after_deliveries_lostAnswers : ∃ cfg,
    (deliverySystem usualSettings).Reachable (Actors.Rules.free _)
        (.start (.start .empty ⟨.empty, .empty⟩)) cfg ∧
      ∃ e status, (some e, status) ∈ cfg.shared.published ∧
        status.reason = some .poisonMessage ∧
        usualSettings.poisonThreshold < cfg.shared.delivered.count e.id := by
  have hrun : (deliverySystem usualSettings).leaves (.start (.start .empty ⟨.empty, .empty⟩))
      (lostAnswers _) DeliveryWorld.summary = some ([(some 1, some .poisonMessage)], 0, 0) := by
    decide +kernel
  obtain ⟨cfg, hreach, hleft⟩ := Actors.Reachable.of_leaves (Actors.Rules.free_allowsAll _ _) hrun
  obtain ⟨e, status, hmem, -, hreason⟩ := mem_of_summary hleft
  have hnone : cfg.shared.outcomes.length = 0 := congrArg (fun x => x.2.2) hleft
  obtain ⟨e', -, he, -, -, -, hcount | ⟨r, -, -, hr, -⟩⟩ :=
    poison_after_deliveries hreach hmem hreason
  · cases he
    exact ⟨cfg, hreach, e, status, hmem, hreason, hcount⟩
  · rw [List.eq_nil_of_length_eq_zero hnone] at hr
    cases hr

end Pipeline
