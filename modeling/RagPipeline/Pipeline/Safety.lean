import RagPipeline.Pipeline.Handling
import RagPipeline.Pipeline.Publishing
import RagPipeline.Pipeline.Reporting
import RagPipeline.Rag.AckOrder
import RagPipeline.Rag.IndexComplete

/-!
# What holds in every run of the pipeline

## Main results

* `attempt_not_lost`: a document in progress has its attempt at one of the stations.
* `status_replay_safe`: entries that were handled and acknowledged can be handled again.
* `indexed_is_registered`: what the center calls INDEXED is in the registry.
-/
namespace Pipeline

open Center Events Interact Rag Relational Wire

section Certificate

variable {cfg : PipelineConfig} {v : Proviso}

theorem pipelineInv_start (m : MaxAttempts) (intents : Table Intent) (index : IndexState) :
    PipelineInv m v (.start intents index) where
  agree := agree_start intents
  sent _ h := by cases h
  due _ h := by cases h
  echoes _ h := by cases h
  reported _ h := by cases h
  settled _ h := by cases h
  indexed _ _ _ h := by cases h
  whole _ := ⟨Streams.Stream.whole_empty, Streams.Stream.whole_empty⟩
  answered _ id _ _ h := by
    have hmem := Streams.Stream.mem_of_get? h
    cases hmem
  acked _ id _ _ h := by
    have hmem := Streams.Stream.mem_of_get? h
    cases hmem

/-- What a process of the pipeline works under. -/
def processContract (cfg : PipelineConfig) (v : Proviso) (p : Process) :
    Contract p.sig World where
  inv := PipelineInv cfg.maxAttempts v
  rely := Grows v
  guard c g := pipelineGuard cfg.maxAttempts v g p c
  exec c g r g' := ∃ ch, (pipelineRules cfg v).call p c ch g ∧ p.respond c ch g = (r, g')

theorem wp_main (hp : Honest cfg v) (p : Process) {g : World}
    (hstart : (pipelineRules cfg v).start p g) :
    Prog.wp (processContract cfg v p) (p.main cfg) (fun _ _ => True) g := by
  cases p with
  | outboxWorker name =>
    refine Prog.wp_weaken (C := outboxContract cfg.maxAttempts v)
      (D := processContract cfg v (.outboxWorker name)) (fun _ => Iff.rfl) (fun _ _ h => h)
      (fun c g r g' h => ?_) (fun _ _ h => h) _ wp_outboxWorker
    obtain ⟨ch, -, h⟩ := h
    exact ⟨ch, h⟩
  | outboxSweeper n =>
    refine Prog.wp_weaken (C := outboxContract cfg.maxAttempts v)
      (D := processContract cfg v (.outboxSweeper n)) (fun _ => Iff.rfl) (fun _ _ h => h)
      (fun c g r g' h => ?_) (fun _ _ h => h) _ wp_outboxSweeper
    obtain ⟨ch, -, h⟩ := h
    exact ⟨ch, h⟩
  | consumer name => exact wp_consumer hp
  | statusWorker id => exact wp_statusWorker
  | resetIndex n =>
    refine Prog.wp_of_free _ fun _ _ _ hv => ?_
    subst hv
    exact absurd rfl (hstart n)

def pipelineCertificate (cfg : PipelineConfig) (v : Proviso) (hp : Honest cfg v) :
    Actors.Certificate (pipeline cfg) (pipelineRules cfg v) where
  inv := PipelineInv cfg.maxAttempts v
  rely _ := Grows v
  guard p c g := pipelineGuard cfg.maxAttempts v g p c
  fresh _ _ := True
  rely_refl _ := .refl v
  rely_trans _ _ _ _ := .trans
  fresh_rely _ _ _ _ _ _ := trivial
  enter_ok _ g hi _ _ := ⟨hi, fun _ _ => .refl v g⟩
  call_ok p c ch g hi hc hr :=
    have h := pipeline_call_ok p c ch hi hc hr
    ⟨h.1, fun _ _ => h.2⟩
  leave_ok _ g hi := ⟨hi, fun _ _ => .refl v g⟩
  env_ok e g hi hr :=
    have h := pipeline_env_ok e hi hr
    ⟨h.1, fun _ => h.2⟩
  main_ok p g _ _ hs g' _ := wp_main hp p (g := g') (by
    cases v <;> exact hs)

theorem pipeline_sound (hp : Honest cfg v) {intents : Table Intent} {index : IndexState}
    {c : (pipeline cfg).Config}
    (h : (pipeline cfg).Reachable (pipelineRules cfg v) (.start intents index) c) :
    PipelineInv cfg.maxAttempts v c.shared :=
  (pipelineCertificate cfg v hp).sound (pipelineInv_start _ intents index) (fun _ => trivial) h

end Certificate

/-! ### One document -/

section Sample

def sampleConfig : PipelineConfig where
  outbox := ⟨10, 5, 300000000000, 1, false⟩
  status := ⟨600000000000, 30000000000, 3, 3600000000000, 2000000000, 10, 1000000000⟩
  consumer := usualSettings
  maxAttempts := threeAttempts
  processor job := IngestService.process sampleUuid5 sampleService job.event job.deadline

/-- Every call succeeds; nobody stops, and only a ticker ticks. -/
def answers (ticked : Bool) : PipelineChoice :=
  ⟨.ok, .redis, ⟨false, false⟩, .lostClaim, [], fun _ => false, fun _ => 0, answered, 0, ticked,
    "u"⟩

def sampleStart : World := .start oneIntent ⟨.empty, .empty⟩

def sampleName : String := toGo sampleHash

def sampleDocument : Document :=
  ⟨sampleName, toGo sampleEvent.bucketPath, toGo sampleEvent.filename, 8, .processing, 0, 0, 0⟩

abbrev SampleStep := (pipeline sampleConfig).Step

def calls (p : Process) (n : Nat) : List SampleStep := List.replicate n (.call p (answers false))

/-- An upload is recorded and published, and the document is indexed and reported. -/
def reported : List SampleStep :=
  [.env (.startIngestion 3 sampleDocument "i" "w" []),
    .start (.outboxWorker "o"), .unfold (.outboxWorker "o"),
    .call (.outboxWorker "o") (answers true)] ++ calls (.outboxWorker "o") 9 ++
  [.start (.consumer "c"), .unfold (.consumer "c")] ++ calls (.consumer "c") 2 ++
  [.unfold (.consumer "c")] ++ calls (.consumer "c") 26

/-- And the report is handled. -/
def handled : List SampleStep :=
  reported ++ [.start (.statusWorker "s"), .unfold (.statusWorker "s")] ++
    calls (.statusWorker "s") 1 ++ [.unfold (.statusWorker "s")] ++ calls (.statusWorker "s") 8 ++
    [.unfold (.statusWorker "s")] ++ calls (.statusWorker "s") 3

/-- What becomes of the document, and which status entries were acknowledged. -/
def progress (g : World) : Option (DocumentStatus × Int) × List Nat :=
  ((g.db.documents.find? sampleName).map fun d => (d.status, d.retries), g.acked)

theorem progress_reported : (pipeline sampleConfig).leaves sampleStart reported
    (fun g => (progress g, g.ingest.log.all fun fields =>
      (StreamConsumer.accepted (some fields)).isSome)) =
      some ((some (.processing, 0), []), true) := by decide +kernel

theorem progress_handled : (pipeline sampleConfig).leaves sampleStart handled progress =
    some (some (.indexed, 0), [1]) := by decide +kernel

end Sample

/-! ### Results -/

section Results

variable {cfg : PipelineConfig} {v : Proviso} {intents : Table Intent} {index : IndexState}
  {c : (pipeline cfg).Config}

/-- An entry with this attempt is still to be delivered or to be acknowledged. -/
def InFlight (s : Streams.Stream Fields String) (hash : String) (attempts : Int) : Prop :=
  ∃ id fields, s.get? id = some fields ∧ fields.carried = some (ofString hash, attempts) ∧
    (s.Undelivered id ∨ s.Pending id)

/-- A status entry with this attempt was dropped as poison. -/
def Poisoned (g : World) (hash : String) (attempts : Int) : Prop :=
  ∃ id ∈ g.dropped, ∃ fields, g.status.get? id = some fields ∧
    fields.carried = some (ofString hash, attempts)

theorem finished_of_not_inFlight {s : Streams.Stream Fields String} {hash : String}
    {attempts : Int} {id : Nat} {fields : Fields} (h : ¬ InFlight s hash attempts)
    (he : s.get? id = some fields) (hc : fields.carried = some (ofString hash, attempts)) :
    s.Finished id :=
  ⟨fun hu => h ⟨id, fields, he, hc, .inl hu⟩, fun hp => h ⟨id, fields, he, hc, .inr hp⟩⟩

/-- The attempt that the last outbox row was queued for was published. -/
theorem published_attempt {m : MaxAttempts} {g : World} {hash : String} {d : Document}
    (hi : PipelineInv m v g) (hd : g.db.documents.find? hash = some d)
    (hrows : ∀ row ∈ g.db.outbox.rows, row.hash = hash → row.status = .published) :
    ∃ fields ∈ g.ingest.log, fields.carried = some (ofString hash, d.retries) := by
  obtain ⟨hcount, hnonneg, -⟩ := hi.agree.some hd
  obtain ⟨row, hrow, hhash, hlast⟩ := @exists_last g.db hash (by omega)
  obtain ⟨hash', n, attempts, hn, hle, fields, hmem, hc⟩ := hi.sent row hrow (hrows row hrow hhash)
  obtain ⟨rfl, rfl⟩ := hlast.unique hn
  obtain ⟨_, _, hc', d', hd', hle'⟩ := hi.due fields hmem
  obtain ⟨heq, rfl⟩ := Prod.mk.inj (Option.some.inj (hc.symm.trans hc'))
  cases ofString_injective heq
  cases hd.symm.trans hd'
  have : attempts = d.retries := by omega
  exact ⟨fields, hmem, this ▸ hc⟩

/-- No attempt is lost: the number of a document in progress is in an outbox row that is not
published, in an ingest entry or a status entry that is not acknowledged, or in a dropped one. -/
theorem attempt_not_lost
    (h : (pipeline cfg).Reachable (pipelineRules cfg .intact) (.start intents index) c)
    (hparse : ∀ fields ∈ c.shared.ingest.log, (StreamConsumer.accepted (some fields)).isSome)
    {hash : String} {d : Document} (hd : c.shared.db.documents.find? hash = some d)
    (hs : d.status = .processing) :
    (∃ row ∈ c.shared.db.outbox.rows, row.hash = hash ∧
      (row.status = .pending ∨ row.status = .claimed ∨ row.status = .blocked)) ∨
    InFlight c.shared.ingest hash d.retries ∨ InFlight c.shared.status hash d.retries ∨
    Poisoned c.shared hash d.retries := by
  have hi := pipeline_sound (fun hv => by cases hv) h
  by_contra hlost
  obtain ⟨hrows, hlost⟩ := not_or.1 hlost
  obtain ⟨hingest, hlost⟩ := not_or.1 hlost
  obtain ⟨hstatus, hpoison⟩ := not_or.1 hlost
  obtain ⟨fields, hmem, hc⟩ := published_attempt hi hd fun row hrow hhash => by
    cases hst : row.status with
    | published => rfl
    | _ => exact absurd ⟨row, hrow, hhash, by simp [hst]⟩ hrows
  obtain ⟨id, he⟩ := Streams.Stream.exists_get? hmem
  obtain ⟨event, ha⟩ := Option.isSome_iff_exists.1 (hparse fields hmem)
  obtain ⟨report, hreport, hrc⟩ :=
    hi.answered rfl id fields (finished_of_not_inFlight hingest he hc) he event ha
  rw [hc] at hrc
  obtain ⟨id', he'⟩ := Streams.Stream.exists_get? hreport
  have hfin := finished_of_not_inFlight hstatus he' hrc
  rcases hi.acked rfl id' report hfin he' with hdrop | hack
  · exact hpoison ⟨id', hdrop, report, he', hrc⟩
  · obtain ⟨_, he'', hash', attempts, hc', d', hd', hleft⟩ := hi.settled id' hack
    cases he'.symm.trans he''
    obtain ⟨heq, rfl⟩ := Prod.mk.inj (Option.some.inj (hrc.symm.trans hc'))
    cases ofString_injective heq
    cases hd.symm.trans hd'
    rcases hleft with hlt | ⟨-, hne⟩
    · omega
    · exact hne hs

theorem attempt_not_lost_reported : ∃ c,
    (pipeline sampleConfig).Reachable (pipelineRules sampleConfig .intact) sampleStart c ∧
    (∃ d, c.shared.db.documents.find? sampleName = some d ∧ d.status = .processing) ∧
    ((∃ row ∈ c.shared.db.outbox.rows, row.hash = sampleName ∧
      (row.status = .pending ∨ row.status = .claimed ∨ row.status = .blocked)) ∨
    InFlight c.shared.ingest sampleName 0 ∨ InFlight c.shared.status sampleName 0 ∨
    Poisoned c.shared sampleName 0) := by
  obtain ⟨c, hreach, hleft⟩ := Actors.Reachable.of_leaves
    (R := pipelineRules sampleConfig .intact) (by decide +kernel) progress_reported
  obtain ⟨hprogress, hparse⟩ := Prod.mk.inj hleft
  obtain ⟨d, hd, hd'⟩ := Option.map_eq_some_iff.1 (congrArg Prod.fst hprogress)
  obtain ⟨hs, hr⟩ := Prod.mk.inj hd'
  refine ⟨c, hreach, ⟨d, hd, hs⟩, ?_⟩
  rw [← hr]
  exact attempt_not_lost hreach (List.all_eq_true.1 hparse) hd hs

/-- The entry was handled and acknowledged, and not dropped as poison. -/
def Handled (g : World) (entry : Fields) : Prop :=
  ∃ id ∈ g.acked, g.status.get? id = some entry

theorem Handled.inert {m : MaxAttempts} {g : World} {entry : Fields} (hi : PipelineInv m v g)
    (h : Handled g entry) {ev : DecodedStatus} (he : Handler.eventOf entry = some ev) :
    Inert g.db ev.hash ev.attempts := by
  obtain ⟨id, hid, hentry⟩ := h
  obtain ⟨_, hentry', hash, attempts, hc, hleft⟩ := hi.settled id hid
  cases hentry.symm.trans hentry'
  obtain ⟨s, hash', rfl, hhash, -⟩ := report_of_mem hi (Streams.Stream.mem_of_get? hentry)
  rw [Handler.eventOf_toEntry] at he
  cases he
  rw [s.carried_toEntry, hhash, Option.some.injEq, Prod.mk.injEq] at hc
  obtain ⟨heq, rfl⟩ := hc
  cases ofString_injective heq
  have hdecoded : s.decoded.hash = hash := by simp [StatusEvent.decoded, hhash]
  rw [hdecoded]
  exact hleft.inert

/-- No entry is ahead of its document; and to handle again, in any order, entries that were
handled and acknowledged changes nothing, so the group can be created again from the start. -/
theorem status_replay_safe
    (h : (pipeline cfg).Reachable (pipelineRules cfg .free) (.start intents index) c) :
    (∀ fields ∈ c.shared.ingest.log ++ c.shared.status.log, ∃ hash attempts d,
      fields.carried = some (ofString hash, attempts) ∧
      c.shared.db.documents.find? hash = some d ∧ attempts ≤ d.retries) ∧
    (∀ handovers : List Handover, (∀ e ∈ handovers, Handled c.shared e.entry) →
      handAll cfg.maxAttempts handovers c.shared.db = c.shared.db) ∧
    ∀ consumer count batch,
      (c.shared.status.loseGroup.xgroupCreate.2.xreadgroup consumer count).1 = .ok batch →
      (∀ e ∈ batch.entries, e.1 ∈ c.shared.acked) →
      ∀ handovers : List Handover, handovers.map Handover.entry = batch.entries.map Prod.snd →
        handAll cfg.maxAttempts handovers c.shared.db = c.shared.db := by
  have hi := pipeline_sound (fun hv => by cases hv) h
  have hagain (handovers : List Handover) (hh : ∀ e ∈ handovers, Handled c.shared e.entry) :
      handAll cfg.maxAttempts handovers c.shared.db = c.shared.db :=
    handAll_inert fun e he _ hev => (hh e he).inert hi hev
  refine ⟨fun fields hmem => ?_, hagain, fun consumer count batch hread hacked handovers hh => ?_⟩
  · rcases List.mem_append.1 hmem with hmem | hmem
    · obtain ⟨hash, attempts, hc, d, hd, hle⟩ := hi.due fields hmem
      exact ⟨hash, attempts, d, hc, hd, hle⟩
    · obtain ⟨s, hash, rfl, hhash, ⟨d, hd, hle⟩, -⟩ := report_of_mem hi hmem
      exact ⟨hash, s.attempts, d, by rw [s.carried_toEntry, hhash], hd, hle⟩
  · refine hagain handovers fun e he => ?_
    have hmem : e.entry ∈ batch.entries.map Prod.snd := hh ▸ List.mem_map_of_mem he
    obtain ⟨⟨id, entry⟩, hentry, rfl⟩ := List.mem_map.1 hmem
    refine ⟨id, hacked _ hentry, ?_⟩
    have hlog : c.shared.status.loseGroup.xgroupCreate.2.log = c.shared.status.log :=
      Streams.Stream.log_xgroupCreate
    rw [← Streams.Stream.get?_congr hlog]
    exact Streams.Stream.get?_of_mem_read hread hentry

theorem status_replay_safe_handled : ∃ c,
    (pipeline sampleConfig).Reachable (pipelineRules sampleConfig .free) sampleStart c ∧
    ∃ entry, Handled c.shared entry ∧ ∀ now faults,
      handAll threeAttempts [⟨now, faults, entry⟩] c.shared.db = c.shared.db := by
  obtain ⟨c, hreach, hleft⟩ := Actors.Reachable.of_leaves
    (R := pipelineRules sampleConfig .free) (Actors.Rules.free_allowsAll _ _) progress_handled
  have hacked : 1 ∈ c.shared.acked := by
    rw [show c.shared.acked = [1] from congrArg Prod.snd hleft]
    exact List.mem_singleton_self 1
  have hi := pipeline_sound (fun hv => by cases hv) hreach
  obtain ⟨entry, hentry, -⟩ := hi.settled 1 hacked
  refine ⟨c, hreach, entry, ⟨1, hacked, hentry⟩, fun now faults => ?_⟩
  refine (status_replay_safe hreach).2.1 _ fun e he => ?_
  rw [List.mem_singleton.1 he]
  exact ⟨1, hacked, hentry⟩

/-- A document that the center calls INDEXED is in the registry of the RAG service. -/
theorem indexed_is_registered {uuid5 : PyStr → PyStr} {service : IngestService}
    (hservice : cfg.processor = fun job =>
      IngestService.process uuid5 service job.event job.deadline)
    (h : (pipeline cfg).Reachable (pipelineRules cfg .unreset) (.start intents index) c)
    {hash : String} {d : Document} (hd : c.shared.db.documents.find? hash = some d)
    (hs : d.status = .indexed) : (c.shared.index.rows.find? (ofString hash)).isSome := by
  have hp : Honest cfg .unreset := fun _ => ⟨uuid5, service, fun job => congrFun hservice job⟩
  exact (pipeline_sound hp h).indexed rfl hash d hd hs

theorem indexed_is_registered_handled : ∃ c,
    (pipeline sampleConfig).Reachable (pipelineRules sampleConfig .unreset) sampleStart c ∧
    (∃ d, c.shared.db.documents.find? sampleName = some d ∧ d.status = .indexed) ∧
    (c.shared.index.rows.find? (ofString sampleName)).isSome := by
  obtain ⟨c, hreach, hleft⟩ := Actors.Reachable.of_leaves
    (R := pipelineRules sampleConfig .unreset) (by decide +kernel) progress_handled
  obtain ⟨d, hd, hd'⟩ := Option.map_eq_some_iff.1 (congrArg Prod.fst hleft)
  have hs : d.status = .indexed := congrArg Prod.fst hd'
  exact ⟨c, hreach, ⟨d, hd, hs⟩, indexed_is_registered rfl hreach hd hs⟩

end Results

end Pipeline
