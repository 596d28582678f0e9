import RagPipeline.Pipeline.Invariant
import RagPipeline.Rag.IngestLedger
import RagPipeline.Rag.Ledger

/-!
# What a consumer reports

The consumer and the ingest job within it, over the pipeline. The walks along their code are those
of their ledgers; here the ledgers are filled in.

## Main definitions

* `Honest`: the processor is the ingest service, if the claim is about what is registered.

## Main results

* `wp_processor`: an INDEXED outcome means that the document is registered.
* `wp_consumer`: the main loop.
-/
namespace Pipeline

open Center Events Interact Rag Relational Wire Prog

section Processor

variable {m : MaxAttempts} {v : Proviso} {g : World}

def jobContract (m : MaxAttempts) (v : Proviso) : Contract JobSig World where
  inv := PipelineInv m v
  rely := Grows v
  guard c _ := jobGuard v c
  exec c g r g' := ∃ ch, (jobReply ch g c, jobAfter ch g c) = (r, g')

theorem grows_job {c : JobCmd} {r : JobSig.Reply c} {g₁ g₂ : World} (hi : PipelineInv m v g)
    (hc : jobGuard v c) (hx : (jobContract m v).exec c g r g₁) (hr : Grows v g₁ g₂) :
    Grows v g g₂ := by
  obtain ⟨ch, hx⟩ := hx
  cases hx
  exact (steps_job hi hc).2.trans hr

/-- What an ingest job within the pipeline knows: only whether its document is registered. -/
def registryLedger (m : MaxAttempts) (uuid5 : PyStr → PyStr) (service : IngestService)
    (event : IngestEvent) : IngestLedger (jobContract m .unreset) uuid5 service event where
  absent _ := True
  fetched _ _ := True
  embedded _ _ := True
  writing _ _ := True
  registered g := Registered g event.hash
  look _ _ _ := ⟨id, fun _ => id, fun _ => id, fun _ => id⟩
  found := by
    rintro g g₁ g₂ ⟨ch, hx⟩ hr
    cases congrArg Prod.snd hx
    have hfound := (JobCmd.answer_ok (congrArg Prod.fst hx)).2
    refine hr.registered rfl _ ?_
    have hsame : (jobAfter ch g (.exists event.hash)).index = g.index := ite_self _
    exact (congrArg (fun index => (index.rows.find? event.hash).isSome) hsame).trans hfound
  missing _ _ := trivial
  got _ _ := trivial
  embeds _ _ := ⟨id, fun _ => id, fun _ _ _ => id⟩
  deletes _ _ := ⟨fun _ => id, fun _ => id, fun _ => trivial⟩
  upserts _ _ := ⟨fun _ => id, fun _ => id, fun _ _ _ _ _ _ _ => trivial⟩
  registers := by
    rintro document g g₁ g₂ hhash ⟨ch, hx⟩ hr
    cases congrArg Prod.snd hx
    have hfate := (JobCmd.answer_ok (congrArg Prod.fst hx)).1
    refine hr.registered rfl _ ?_
    simp only [Registered, JobCmd.respond, hfate, JobCmd.effect, reduceCtorEq, if_false,
      Table.find?_insertOrIgnore, key_indexedDocument, hhash, true_and]
    cases g.index.rows.find? event.hash <;> rfl
  may_look := by
    rintro c bs g hc - - - rfl
    exact hc
  may_embed _ _ := nofun
  may_delete _ _ _ := nofun
  may_upsert _ _ _ := nofun
  may_register _ _ _ _ _ _ _ := nofun

/-- The processor is the ingest service, if the claim is about what is registered. -/
def Honest (cfg : PipelineConfig) (v : Proviso) : Prop :=
  v = .unreset → ∃ uuid5 service, ∀ call : JobCall,
    cfg.processor call = IngestService.process uuid5 service call.event call.deadline

theorem wp_processor {cfg : PipelineConfig} (hp : Honest cfg v) (call : JobCall) :
    wp (jobContract m v) (cfg.processor call)
      (fun r g' => (v = .unreset → ∀ chunkCount, r = .ok (.indexed chunkCount) →
        Registered g' call.event.hash) ∧ Grows v g g') g := by
  refine wp_preserves (fun c g₀ r g₁ g₂ hg hi hc hx _ hr =>
    hg.trans (grows_job hi hc hx hr)) ?_ (.refl v g)
  by_cases hv : v = .unreset
  · subst hv
    obtain ⟨uuid5, service, hprocess⟩ := hp rfl
    rw [hprocess]
    exact wp_mono _ ((registryLedger m uuid5 service call.event).wp_process trivial)
      fun r _ _ hr _ => hr
  · exact wp_mono _ (wp_of_free _ fun _ _ _ h => absurd h hv) fun _ _ _ _ h => absurd h hv

end Processor

section Consumer

variable {cfg : PipelineConfig} {v : Proviso} {name : String} {g : World}

/-- What a consumer process works under, with the commands of its processor. -/
def consumerJobContract (cfg : PipelineConfig) (v : Proviso) (name : String) :
    Contract ConsumerJobSig World where
  inv := PipelineInv cfg.maxAttempts v
  rely := Grows v
  guard c g := pipelineGuard cfg.maxAttempts v g (.consumer name) c
  exec c g r g' := ∃ ch, (pipelineRules cfg v).call (.consumer name) c ch g ∧
    Process.respond (.consumer name) c ch g = (r, g')

/-- The same with the processor as one command. -/
def consumerContract (cfg : PipelineConfig) (v : Proviso) : Contract ConsumerCall World where
  inv := PipelineInv cfg.maxAttempts v
  rely := Grows v
  guard
    | .inl c, g => consumerGuard v g c
    | .inr _, _ => True
  exec
    | .inl c, g, r, g' =>
      Grows v g g' ∧ ∃ ch, (consumerReply ch g c, consumerAfter ch g c) = (r, g')
    | .inr job, g, r, g' => Grows v g g' ∧ (v = .unreset → ∀ chunkCount,
        r = Except.ok (Outcome.indexed chunkCount) → Registered g' job.event.hash)

theorem implements_job :
    Implements (jobContract cfg.maxAttempts v) (consumerJobContract cfg v name)
      fun c => perform (S := ConsumerJobSig) (.inr c) := by
  intro c g hi hc
  refine wp_perform (fun _ => hc) fun r g₁ g₂ _ hx hi₁ hr => ?_
  obtain ⟨ch, -, hx⟩ := hx
  exact ⟨g₁, ⟨ch, hx⟩, hi₁, hr⟩

/-- The processor's program does what the command stands for. -/
theorem implements_consumer (hp : Honest cfg v) :
    Implements (consumerContract cfg v) (consumerJobContract cfg v name)
      (withProcessor cfg.processor) := by
  intro c g hi hc
  cases c with
  | inl c =>
    refine wp_perform (fun _ => hc) fun r g₁ g₂ _ hx hi₁ hr => ?_
    obtain ⟨ch, hrule, hx⟩ := hx
    have hgrows : Grows v g g₁ := by
      cases congrArg Prod.snd hx
      exact (consumer_ok hi hc hrule).2
    exact ⟨g₁, ⟨hgrows, ch, hx⟩, hi₁, hr⟩
  | inr call =>
    refine wp_mono _ (wp_interpret implements_job (fun _ h => h) _ (wp_processor hp call)) ?_
    rintro r g' hi' ⟨hregistered, hgrows⟩
    exact ⟨g', ⟨hgrows, hregistered⟩, hi', .refl v g'⟩

theorem accepted_carried {fields : Option Fields} {event : IngestEvent}
    (h : StreamConsumer.accepted fields = some event) :
    ∃ f, fields = some f ∧ f.carried = some (event.hash, event.attempts) := by
  obtain ⟨f, rfl, ha⟩ := Option.bind_eq_some_iff.1 h
  split at ha
  · cases ha
  · obtain ⟨raw, hraw, ha⟩ := Option.bind_eq_some_iff.1 ha
    split at ha
    · cases ha
    · refine ⟨f, rfl, IngestEvent.carried_of_parse hraw ?_⟩
      cases hp : IngestEvent.parse raw with
      | error e => simp [hp, Except.toOption] at ha
      | ok parsed =>
        rw [hp] at ha
        exact congrArg _ (Option.some.inj ha)

/-- What jobs and delivery counts tell in the pipeline. -/
def pipelineFacts (v : Proviso) : Facts World where
  ran event outcome g := v = .unreset → ∀ chunkCount, outcome = .indexed chunkCount →
    Registered g event.hash
  counted _ _ _ := True

/-- A report says INDEXED only of a job that did. -/
theorem truthful_of_reported {settings : ConsumerSettings} {id : EntryId} {event : IngestEvent}
    {status : StatusEvent} (h : Reported settings (pipelineFacts v) id event g status) :
    Truthful v g status := by
  intro hv hs
  rw [h.echo.1]
  cases h with
  | job ran made =>
    rename_i outcome _ _
    cases outcome with
    | indexed chunkCount => exact ran hv chunkCount rfl
    | failed => cases (StatusEvent.init_ok made).2.1.symm.trans hs
  | poison _ _ made => cases (StatusEvent.init_ok made).2.1.symm.trans hs

/-- An entry of the ingest stream. -/
def Ingested (id : EntryId) (fields : Option Fields) (g : World) : Prop :=
  ∃ f, fields = some f ∧ g.ingest.get? id = some f

theorem Ingested.grows {g' : World} {id : EntryId} {fields : Option Fields}
    (h : Ingested id fields g) (hg : Grows v g g') : Ingested id fields g' :=
  h.imp fun _ hf => ⟨hf.1, Streams.Stream.get?_of_prefix hg.ingest hf.2⟩

theorem ingested_of_mem {batch : Streams.Batch Fields 1} {s : Streams.Stream Fields String}
    (h : ∀ entry fields, (entry, fields) ∈ batch.entries → s.get? entry = some fields) :
    ∀ e ∈ (toBatch batch).entries, ∃ f, e.fields = some f ∧ s.get? e.id = some f := by
  intro e he
  obtain ⟨⟨entry, fields⟩, hmem, rfl⟩ := List.mem_map.1 he
  exact ⟨fields, rfl, h entry fields hmem⟩

/-- The ledger of a consumer in the pipeline is the pipeline. -/
def pipelineLedger (cfg : PipelineConfig) (v : Proviso) (name : String) :
    Ledger (consumerContract cfg v) cfg.consumer name where
  toFacts := pipelineFacts v
  got := Ingested
  sent _ event status g :=
    status.toEntry ∈ g.status.log ∧ status.hash = event.hash ∧ status.attempts = event.attempts
  keeps := Grows v
  keeps_refl := .refl v
  keeps_trans := .trans
  got_keeps hk h := h.grows hk
  ran_keeps hk h := fun hv chunkCount hc => hk.registered hv _ (h hv chunkCount hc)
  counted_keeps _ _ := trivial
  sent_keeps hk h := ⟨hk.status.subset h.1, h.2⟩
  quiet _ hx hr := hx.1.trans hr
  worked {event deadline g g₁ g₂ r} hx hr := by
    refine ⟨hx.1.trans hr, fun outcome hrun hv chunkCount hc => ?_⟩
    subst hc
    refine hr.registered hv _ (hx.2 hv chunkCount ?_)
    cases r with
    | ok outcome => exact congrArg _ (Except.ok.inj hrun)
    | error e => cases e <;> cases hrun
  read {block g g₁ g₂ batch} hx _ hr e he := by
    obtain ⟨hg, ch, hx⟩ := hx
    obtain ⟨b, hb, rfl⟩ := PipelineChoice.map_ok (PipelineChoice.heard_ok (congrArg Prod.fst hx)).2
    exact Ingested.grows (ingested_of_mem (fun _ _ => Streams.Stream.get?_of_mem_read hb) e he)
      (hg.trans hr)
  claim {minIdle start g g₁ g₂ claimed} hx _ hr e he := by
    obtain ⟨hg, ch, hx⟩ := hx
    obtain ⟨-, hreply⟩ := PipelineChoice.heard_ok (congrArg Prod.fst hx)
    obtain ⟨⟨cursor, b⟩, hb, rfl⟩ := PipelineChoice.map_ok hreply
    exact Ingested.grows (ingested_of_mem (fun _ _ => Streams.Stream.get?_of_mem_claimed hb) e he)
      (hg.trans hr)
  count _ _ _ := trivial
  added {id event status g g₁ g₂} hrep hx hr := by
    obtain ⟨-, ch, hx⟩ := hx
    have hfate := (PipelineChoice.heard_ok (r := Except.ok ()) (congrArg Prod.fst hx)).1
    cases congrArg Prod.snd hx
    refine ⟨hr.status.subset ?_, hrep.echo⟩
    simp [PipelineChoice.done, hfate, Streams.Stream.xadd]
  free {c g} hv _ := by
    cases c <;> first | trivial | exact absurd trivial hv
  free_job _ := trivial
  may_add {id fields event status g} hi hgot ha hrep := by
    obtain ⟨f, rfl, he⟩ := hgot
    obtain ⟨_, hf, hc⟩ := accepted_carried ha
    cases hf
    refine ⟨⟨f, Streams.Stream.mem_of_get? he, ?_⟩, truthful_of_reported hrep⟩
    rw [hc, status.carried_toEntry, hrep.echo.1, hrep.echo.2]
  may_ack {id fields g} _ hgot h := by
    obtain ⟨f, rfl, he⟩ := hgot
    refine ⟨f, he, fun event ha => ?_⟩
    obtain ⟨status, hmem, hhash, hattempts⟩ := h event ha
    obtain ⟨_, hf, hc⟩ := accepted_carried ha
    cases hf
    exact ⟨status.toEntry, hmem, by rw [status.carried_toEntry, hc, hhash, hattempts]⟩

theorem wp_consumer (hp : Honest cfg v) :
    wp (consumerJobContract cfg v name)
      ((StreamConsumer.main cfg.consumer name).interpret (withProcessor cfg.processor))
      (fun _ _ => True) g :=
  wp_interpret (implements_consumer hp) (fun _ h => h) _ ((pipelineLedger cfg v name).wp_main g)

end Consumer

end Pipeline
