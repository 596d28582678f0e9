import RagPipeline.Center.Attempts
import RagPipeline.Pipeline.Processes

/-!
# The invariant of the pipeline

Attempt numbers travel from a document over an outbox row, an ingest entry and a status entry
back to the document. Every station holds its number only if the one before it held it, and drops
it only when the next one holds it.

## Main definitions

* `PipelineInv`: the stations, one clause each; the last clauses hold under a proviso.
* `Grows`: what a later state of the pipeline remembers of an earlier one.
* `pipelineGuard`: the states a process may issue a command in.

## Main results

* `pipeline_call_ok`, `pipeline_env_ok`: every step keeps the invariant and grows.
-/
namespace Pipeline

open Center Events Interact Rag Relational Wire

def Registered (g : World) (hash : PyStr) : Prop := (g.index.rows.find? hash).isSome

/-- Some ingest entry carries what this entry carries. -/
def Echoes (g : World) (fields : Fields) : Prop :=
  ∃ ingested ∈ g.ingest.log, ingested.carried = fields.carried

/-- What an INDEXED report stands for. -/
def Truthful (v : Proviso) (g : World) (status : StatusEvent) : Prop :=
  v = .unreset → status.status = .indexed → Registered g status.hash

/-- The entry carries the attempt of a document that came at least that far. -/
def Due (g : World) (fields : Fields) : Prop :=
  ∃ hash attempts, fields.carried = some (ofString hash, attempts) ∧ Reached g.db hash attempts

/-- The entry carries an attempt that is over. -/
def Over (g : World) (fields : Fields) : Prop :=
  ∃ hash attempts, fields.carried = some (ofString hash, attempts) ∧ Left g.db hash attempts

/-- An ingest entry was published for this outbox row, or for a later one of its hash. -/
def Sent (g : World) (id : Nat) : Prop :=
  ∃ hash n attempts, Numbered g.db id hash n ∧ (n : Int) ≤ attempts ∧
    ∃ fields ∈ g.ingest.log, fields.carried = some (ofString hash, attempts)

/-- A status entry reports what this ingest entry asked for, if it can be processed. -/
def Answered (g : World) (fields : Fields) : Prop :=
  ∀ event, StreamConsumer.accepted (some fields) = some event →
    ∃ status ∈ g.status.log, status.carried = fields.carried

/-- The attempt of a status entry is over. -/
def Settled (g : World) (id : Nat) : Prop :=
  ∃ fields, g.status.get? id = some fields ∧ Over g fields

/-- A status entry was dropped as poison, or its attempt is over. -/
def Closed (g : World) (id : Nat) : Prop := id ∈ g.dropped ∨ Settled g id

structure PipelineInv (m : MaxAttempts) (v : Proviso) (g : World) : Prop where
  agree : Agree m g.db
  sent : ∀ row ∈ g.db.outbox.rows, row.status = .published → Sent g row.id
  due : ∀ fields ∈ g.ingest.log, Due g fields
  echoes : ∀ fields ∈ g.status.log, Echoes g fields
  reported : ∀ fields ∈ g.status.log, ∃ status, fields = status.toEntry ∧ Truthful v g status
  settled : ∀ id ∈ g.acked, Settled g id
  indexed : v = .unreset → ∀ hash d, g.db.documents.find? hash = some d → d.status = .indexed →
    Registered g (ofString hash)
  whole : v = .intact → g.ingest.Whole ∧ g.status.Whole
  answered : v = .intact → ∀ id fields, g.ingest.Finished id →
    g.ingest.get? id = some fields → Answered g fields
  acked : v = .intact → ∀ id fields, g.status.Finished id →
    g.status.get? id = some fields → id ∈ g.dropped ∨ id ∈ g.acked

structure Grows (v : Proviso) (g g' : World) : Prop where
  db : Evolves g.db g'.db
  ingest : g.ingest.log <+: g'.ingest.log
  status : g.status.log <+: g'.status.log
  dropped : ∀ id ∈ g.dropped, id ∈ g'.dropped
  registered : v = .unreset → ∀ hash, Registered g hash → Registered g' hash

section Grows

variable {v : Proviso} {g g' g'' : World} {fields : Fields} {id : Nat}

theorem Grows.refl (v : Proviso) (g : World) : Grows v g g where
  db := .refl _
  ingest := List.prefix_refl _
  status := List.prefix_refl _
  dropped _ h := h
  registered _ _ h := h

theorem Grows.trans (h : Grows v g g') (h' : Grows v g' g'') : Grows v g g'' where
  db := h.db.trans h'.db
  ingest := h.ingest.trans h'.ingest
  status := h.status.trans h'.status
  dropped id hid := h'.dropped id (h.dropped id hid)
  registered hv hash hr := h'.registered hv hash (h.registered hv hash hr)

theorem Echoes.grows (h : Echoes g fields) (hg : Grows v g g') : Echoes g' fields :=
  let ⟨ingested, hmem, he⟩ := h
  ⟨ingested, hg.ingest.subset hmem, he⟩

theorem Truthful.grows {status : StatusEvent} (h : Truthful v g status) (hg : Grows v g g') :
    Truthful v g' status :=
  fun hv hs => hg.registered hv _ (h hv hs)

theorem Due.grows (h : Due g fields) (hg : Grows v g g') : Due g' fields :=
  let ⟨hash, attempts, hc, hr⟩ := h
  ⟨hash, attempts, hc, hr.evolves hg.db⟩

theorem Over.grows (h : Over g fields) (hg : Grows v g g') : Over g' fields :=
  let ⟨hash, attempts, hc, hl⟩ := h
  ⟨hash, attempts, hc, hl.evolves hg.db⟩

theorem Sent.grows (h : Sent g id) (hg : Grows v g g') : Sent g' id :=
  let ⟨hash, n, attempts, hn, hle, fields, hmem, hc⟩ := h
  ⟨hash, n, attempts, hn.evolves hg.db, hle, fields, hg.ingest.subset hmem, hc⟩

theorem Answered.grows (h : Answered g fields) (hg : Grows v g g') : Answered g' fields :=
  fun event ha =>
    let ⟨status, hmem, hc⟩ := h event ha
    ⟨status, hg.status.subset hmem, hc⟩

theorem Settled.grows (h : Settled g id) (hg : Grows v g g') : Settled g' id :=
  let ⟨fields, he, ho⟩ := h
  ⟨fields, Streams.Stream.get?_of_prefix hg.status he, ho.grows hg⟩

theorem Closed.grows (h : Closed g id) (hg : Grows v g g') : Closed g' id :=
  h.imp (hg.dropped id) fun h => h.grows hg

end Grows

/-! ### What a process may do when -/

def storeGuard (m : MaxAttempts) (v : Proviso) (g : World) : StoreCmd → Prop
  | .markPublished id _ => Sent g id
  | .applyIndexed hash _ _ => v = .unreset → Registered g (ofString hash)
  | c => c.Within m

def consumerGuard (v : Proviso) (g : World) : ConsumerCmd → Prop
  | .xadd status => Echoes g status.toEntry ∧ Truthful v g status
  | .xack id => ∃ fields, g.ingest.get? id = some fields ∧ Answered g fields
  | _ => True

def statusGuard (m : MaxAttempts) (v : Proviso) (g : World) : StatusCmd → Prop
  | .store c => storeGuard m v g c
  | .xack id => Closed g id
  | _ => True

def outboxGuard (m : MaxAttempts) (v : Proviso) (g : World) : OutboxCmd → Prop
  | .store c => storeGuard m v g c
  | .xadd fields => Due g fields
  | _ => True

def jobGuard (v : Proviso) (c : JobCmd) : Prop := v = .unreset → c ≠ .clearRows

def pipelineGuard (m : MaxAttempts) (v : Proviso) (g : World) : (p : Process) → p.sig.Cmd → Prop
  | .outboxWorker _, c => outboxGuard m v g c
  | .outboxSweeper _, c => outboxGuard m v g c
  | .consumer _, .inl c => consumerGuard v g c
  | .consumer _, .inr c => jobGuard v c
  | .statusWorker _, c => statusGuard m v g c
  | .resetIndex _, c => jobGuard v c

/-! ### Steps -/

/-- The step to `g'` keeps the invariant and forgets nothing. -/
def Steps (m : MaxAttempts) (v : Proviso) (g g' : World) : Prop :=
  PipelineInv m v g' ∧ Grows v g g'

section Steps

variable {m : MaxAttempts} {v : Proviso} {g : World} {ch : PipelineChoice} {id : Nat}
  {fields : Fields} {s : Streams.Stream Fields String}

theorem within_of_guard {c : StoreCmd} (h : storeGuard m v g c) : c.Within m := by
  cases c <;> first | exact h | trivial

theorem steps_store {c : StoreCmd} {db' : Database} (hi : PipelineInv m v g)
    (hc : storeGuard m v g c) (he : StoreCmd.Effect g.db c db') :
    Steps m v g { g with db := db' } := by
  have hw := within_of_guard hc
  have hg : Grows v g { g with db := db' } :=
    ⟨he.evolves hw hi.agree, List.prefix_refl _, List.prefix_refl _, fun _ h => h, fun _ _ h => h⟩
  refine ⟨{
    agree := he.agree hw hi.agree
    sent := fun row hrow hp => ?sent
    due := fun fields h => (hi.due fields h).grows hg
    echoes := hi.echoes
    reported := hi.reported
    settled := fun id h => (hi.settled id h).grows hg
    indexed := fun hv hash d hd hs => ?indexed
    whole := hi.whole
    answered := hi.answered
    acked := hi.acked }, hg⟩
  case sent =>
    obtain ⟨old, hold, hid, hop⟩ | ⟨_, rfl⟩ := he.published hrow hp
    · exact hid ▸ (hi.sent old hold hop).grows hg
    · exact Sent.grows hc hg
  case indexed =>
    obtain ⟨d₀, hd₀, hs₀⟩ | ⟨_, _, rfl⟩ := he.indexed_of hd hs
    · exact hi.indexed hv hash d₀ hd₀ hs₀
    · exact hc hv

theorem steps_storeAfter {c : StoreCmd} (hi : PipelineInv m v g) (hc : storeGuard m v g c) :
    Steps m v g { g with db := ch.storeAfter c g.db } := by
  unfold PipelineChoice.storeAfter PipelineChoice.done
  split
  · exact ⟨hi, .refl v g⟩
  · exact steps_store hi hc (StoreCmd.effect c ch.faults g.db)

/-- The ingest stream without a new entry; what is finished now was answered. -/
theorem steps_ingest (hi : PipelineInv m v g) (hlog : s.log = g.ingest.log)
    (hwhole : v = .intact → s.Whole)
    (hfin : v = .intact → ∀ id fields, s.Finished id → g.ingest.get? id = some fields →
      g.ingest.Finished id ∨ Answered g fields) : Steps m v g { g with ingest := s } := by
  have hg : Grows v g { g with ingest := s } :=
    ⟨.refl _, hlog ▸ List.prefix_refl _, List.prefix_refl _, fun _ h => h, fun _ _ h => h⟩
  refine ⟨{
    agree := hi.agree
    sent := fun row hrow hp => (hi.sent row hrow hp).grows hg
    due := fun fields h => hi.due fields (hlog ▸ h)
    echoes := fun fields h => (hi.echoes fields h).grows hg
    reported := hi.reported
    settled := hi.settled
    indexed := hi.indexed
    whole := fun hv => ⟨hwhole hv, (hi.whole hv).2⟩
    answered := fun hv id fields hf he => ?_
    acked := hi.acked }, hg⟩
  rw [Streams.Stream.get?_congr hlog] at he
  exact (hfin hv id fields hf he).elim (fun h => hi.answered hv id fields h he) fun h => h

theorem steps_publish (hi : PipelineInv m v g) (hd : Due g fields) :
    Steps m v g { g with ingest := g.ingest.xadd fields } := by
  have hg : Grows v g { g with ingest := g.ingest.xadd fields } :=
    ⟨.refl _, List.prefix_append _ _, List.prefix_refl _, fun _ h => h, fun _ _ h => h⟩
  refine ⟨{
    agree := hi.agree
    sent := fun row hrow hp => (hi.sent row hrow hp).grows hg
    due := fun added h => ?due
    echoes := fun fields h => (hi.echoes fields h).grows hg
    reported := hi.reported
    settled := hi.settled
    indexed := hi.indexed
    whole := fun hv => ⟨(hi.whole hv).1.xadd, (hi.whole hv).2⟩
    answered := fun hv id fields hf he => ?answered
    acked := hi.acked }, hg⟩
  case due =>
    rcases List.mem_append.1 h with h | h
    · exact hi.due added h
    · exact List.mem_singleton.1 h ▸ hd
  case answered =>
    obtain ⟨hf, he⟩ := Streams.Stream.finished_xadd (hi.whole hv).1 hf he
    exact hi.answered hv id fields hf he

/-- The status stream without a new entry; what is finished was finished before. -/
theorem steps_status (hi : PipelineInv m v g) (hlog : s.log = g.status.log)
    (hwhole : v = .intact → s.Whole)
    (hfin : v = .intact → ∀ id fields, s.Finished id → g.status.get? id = some fields →
      g.status.Finished id) : Steps m v g { g with status := s } := by
  have hg : Grows v g { g with status := s } :=
    ⟨.refl _, List.prefix_refl _, hlog ▸ List.prefix_refl _, fun _ h => h, fun _ _ h => h⟩
  refine ⟨{
    agree := hi.agree
    sent := hi.sent
    due := hi.due
    echoes := fun fields h => hi.echoes fields (hlog ▸ h)
    reported := fun fields h => hi.reported fields (hlog ▸ h)
    settled := fun id h => (hi.settled id h).grows hg
    indexed := hi.indexed
    whole := fun hv => ⟨(hi.whole hv).1, hwhole hv⟩
    answered := fun hv id fields hf he => (hi.answered hv id fields hf he).grows hg
    acked := fun hv id fields hf he => ?_ }, hg⟩
  rw [Streams.Stream.get?_congr hlog] at he
  exact hi.acked hv id fields (hfin hv id fields hf he) he

theorem steps_report {status : StatusEvent} (hi : PipelineInv m v g)
    (he : Echoes g status.toEntry) (ht : Truthful v g status) :
    Steps m v g { g with status := g.status.xadd status.toEntry } := by
  have hg : Grows v g { g with status := g.status.xadd status.toEntry } :=
    ⟨.refl _, List.prefix_refl _, List.prefix_append _ _, fun _ h => h, fun _ _ h => h⟩
  refine ⟨{
    agree := hi.agree
    sent := hi.sent
    due := hi.due
    echoes := fun fields h => ?echoes
    reported := fun fields h => ?reported
    settled := fun id h => (hi.settled id h).grows hg
    indexed := hi.indexed
    whole := fun hv => ⟨(hi.whole hv).1, (hi.whole hv).2.xadd⟩
    answered := fun hv id fields hf he => (hi.answered hv id fields hf he).grows hg
    acked := fun hv id fields hf he => ?acked }, hg⟩
  case echoes =>
    rcases List.mem_append.1 h with h | h
    · exact hi.echoes fields h
    · exact List.mem_singleton.1 h ▸ he
  case reported =>
    rcases List.mem_append.1 h with h | h
    · exact hi.reported fields h
    · exact ⟨status, List.mem_singleton.1 h, ht⟩
  case acked =>
    obtain ⟨hf, he⟩ := Streams.Stream.finished_xadd (hi.whole hv).2 hf he
    exact hi.acked hv id fields hf he

theorem steps_ack (hi : PipelineInv m v g) (hc : Closed g id) :
    Steps m v g { g with
      status := g.status.xack id
      acked := if id ∈ g.dropped then g.acked else id :: g.acked } := by
  have hlog : (g.status.xack id).log = g.status.log := Streams.Stream.log_xack
  have hg : Grows v g { g with
      status := g.status.xack id
      acked := if id ∈ g.dropped then g.acked else id :: g.acked } :=
    ⟨.refl _, List.prefix_refl _, hlog ▸ List.prefix_refl _, fun _ h => h, fun _ _ h => h⟩
  refine ⟨{
    agree := hi.agree
    sent := hi.sent
    due := hi.due
    echoes := fun fields h => hi.echoes fields (hlog ▸ h)
    reported := fun fields h => hi.reported fields (hlog ▸ h)
    settled := fun acked h => ?settled
    indexed := hi.indexed
    whole := fun hv => ⟨(hi.whole hv).1, (hi.whole hv).2.xack⟩
    answered := fun hv id fields hf he => (hi.answered hv id fields hf he).grows hg
    acked := fun hv finished fields hf he => ?acked }, hg⟩
  case settled =>
    refine Settled.grows ?_ hg
    dsimp only at h
    split at h
    · exact hi.settled acked h
    · obtain rfl | h := List.mem_cons.1 h
      · exact hc.resolve_left ‹_›
      · exact hi.settled acked h
  case acked =>
    rw [Streams.Stream.get?_congr hlog] at he
    obtain hf | rfl := Streams.Stream.finished_xack hf
    · refine (hi.acked hv finished fields hf he).imp_right fun h => ?_
      dsimp only
      split
      · exact h
      · exact List.mem_cons_of_mem _ h
    · dsimp only
      split
      · exact .inl ‹_›
      · exact .inr List.mem_cons_self

theorem steps_drop (hi : PipelineInv m v g) :
    Steps m v g { g with dropped := id :: g.dropped } := by
  have hg : Grows v g { g with dropped := id :: g.dropped } :=
    ⟨.refl _, List.prefix_refl _, List.prefix_refl _, fun _ h => List.mem_cons_of_mem _ h,
      fun _ _ h => h⟩
  exact ⟨{ hi with
    settled := fun acked h => (hi.settled acked h).grows hg
    acked := fun hv finished fields hf he =>
      (hi.acked hv finished fields hf he).imp_left (List.mem_cons_of_mem _) }, hg⟩

/-- A row of the registry stays unless the registry is cleared. -/
theorem registered_effect {c : JobCmd} {index : IndexState} {hash : PyStr}
    (hc : c ≠ .clearRows) (h : (index.rows.find? hash).isSome) :
    ((c.effect index).rows.find? hash).isSome := by
  cases c with
  | register document =>
    simp only [JobCmd.effect, Table.find?_insertOrIgnore]
    split
    · rfl
    · exact h
  | clearRows => exact absurd rfl hc
  | _ => exact h

theorem steps_job {c : JobCmd} (hi : PipelineInv m v g) (hc : jobGuard v c) :
    Steps m v g (jobAfter ch g c) := by
  have hg : Grows v g (jobAfter ch g c) := by
    refine ⟨.refl _, List.prefix_refl _, List.prefix_refl _, fun _ h => h, fun hv hash h => ?_⟩
    unfold Registered jobAfter JobCmd.respond
    dsimp only
    split
    · exact h
    · exact registered_effect (hc hv) h
  exact ⟨{ hi with
    reported := fun fields h =>
      let ⟨status, he, ht⟩ := hi.reported fields h
      ⟨status, he, ht.grows hg⟩
    settled := fun id h => (hi.settled id h).grows hg
    indexed := fun hv hash d hd hs => hg.registered hv _ (hi.indexed hv hash d hd hs) }, hg⟩

/-! ### Commands -/

theorem steps_done_ingest (hi : PipelineInv m v g)
    (h : ch.fate ≠ .refused → Steps m v g { g with ingest := s }) :
    Steps m v g { g with ingest := ch.done g.ingest s } := by
  unfold PipelineChoice.done
  split
  · exact ⟨hi, .refl v g⟩
  · exact h ‹_›

theorem steps_done_status (hi : PipelineInv m v g)
    (h : ch.fate ≠ .refused → Steps m v g { g with status := s }) :
    Steps m v g { g with status := ch.done g.status s } := by
  unfold PipelineChoice.done
  split
  · exact ⟨hi, .refl v g⟩
  · exact h ‹_›

theorem pos_of_get? (h : s.get? id = some fields) : 0 < id :=
  (Streams.Stream.get?_isSome.1 (Option.isSome_of_eq_some h)).1

variable {cfg : PipelineConfig} {name : String}

theorem consumer_ok {c : ConsumerCmd} (hi : PipelineInv m v g) (hc : consumerGuard v g c)
    (hr : (pipelineRules cfg v).call (.consumer name) (.inl c) ch g) :
    Steps m v g (consumerAfter ch g c) := by
  have same {s : Streams.Stream Fields String} (hlog : s.log = g.ingest.log)
      (hwhole : g.ingest.Whole → s.Whole)
      (hfin : g.ingest.Whole → ∀ id, 0 < id → s.Finished id → g.ingest.Finished id) :
      Steps m v g { g with ingest := s } :=
    steps_ingest hi hlog (fun hv => hwhole (hi.whole hv).1) fun hv id fields hf he =>
      .inl (hfin (hi.whole hv).1 id (pos_of_get? he) hf)
  cases c with
  | xadd status => exact steps_done_status hi fun _ => steps_report hi hc.1 hc.2
  | xgroupCreate =>
    exact steps_done_ingest hi fun _ => same Streams.Stream.log_xgroupCreate
      (fun hw => hw.xgroupCreate) fun _ _ => Streams.Stream.finished_xgroupCreate
  | xreadgroup =>
    exact steps_done_ingest hi fun _ => same Streams.Stream.log_xreadgroup
      (fun hw => hw.xreadgroup) fun hw _ _ => Streams.Stream.finished_xreadgroup hw
  | xautoclaim =>
    exact steps_done_ingest hi fun _ => same Streams.Stream.log_xautoclaim
      (fun hw => hw.xautoclaim) fun hw _ _ => Streams.Stream.finished_xautoclaim hw
  | xclaim =>
    exact steps_done_ingest hi fun _ => same Streams.Stream.log_xclaim
      (fun hw => hw.xclaim) fun hw _ _ => Streams.Stream.finished_xclaim hw
  | xack acked =>
    obtain ⟨fields, he, ha⟩ := hc
    refine steps_done_ingest hi fun _ => steps_ingest hi Streams.Stream.log_xack
      (fun hv => (hi.whole hv).1.xack) fun hv id fields' hf he' => ?_
    obtain hf | rfl := Streams.Stream.finished_xack hf
    · exact .inl hf
    · cases he.symm.trans he'
      exact .inr ha
  | xgroupDelconsumer deleted =>
    refine steps_done_ingest hi fun hfate => steps_ingest hi Streams.Stream.log_delConsumer
      (fun hv => (hi.whole hv).1.delConsumer) fun hv id fields hf _ => .inl ?_
    subst hv
    exact Streams.Stream.finished_delConsumer (not_not.1 fun hi => hr hfate ⟨_, rfl, hi⟩) hf
  | _ => exact steps_done_ingest hi fun _ => ⟨hi, .refl v g⟩

theorem status_ok {c : StatusCmd} (hi : PipelineInv m v g) (hc : statusGuard m v g c)
    (hr : (pipelineRules cfg v).call (.statusWorker name) c ch g) :
    Steps m v g (statusAfter ch g c) := by
  have same {s : Streams.Stream Fields String} (hlog : s.log = g.status.log)
      (hwhole : g.status.Whole → s.Whole)
      (hfin : g.status.Whole → ∀ id, 0 < id → s.Finished id → g.status.Finished id) :
      Steps m v g { g with status := s } :=
    steps_status hi hlog (fun hv => hwhole (hi.whole hv).2) fun hv id fields hf he =>
      hfin (hi.whole hv).2 id (pos_of_get? he) hf
  cases c with
  | store c => exact steps_storeAfter hi hc
  | logPoison => exact steps_drop hi
  | xgroupCreate =>
    exact steps_done_status hi fun _ => same Streams.Stream.log_xgroupCreate
      (fun hw => hw.xgroupCreate) fun _ _ => Streams.Stream.finished_xgroupCreate
  | xreadgroup =>
    exact steps_done_status hi fun _ => same Streams.Stream.log_xreadgroup
      (fun hw => hw.xreadgroup) fun hw _ _ => Streams.Stream.finished_xreadgroup hw
  | xautoclaim =>
    exact steps_done_status hi fun _ => same Streams.Stream.log_xautoclaim
      (fun hw => hw.xautoclaim) fun hw _ _ => Streams.Stream.finished_xautoclaim hw
  | xack id =>
    simp only [statusAfter, PipelineChoice.done]
    split
    · exact ⟨hi, .refl v g⟩
    · exact steps_ack hi hc
  | xgroupDelConsumer deleted =>
    refine steps_done_status hi fun hfate => steps_status hi Streams.Stream.log_delConsumer
      (fun hv => (hi.whole hv).2.delConsumer) fun hv id fields hf _ => ?_
    subst hv
    exact Streams.Stream.finished_delConsumer (not_not.1 fun hi => hr hfate ⟨_, rfl, hi⟩) hf
  | _ => exact steps_done_status hi fun _ => ⟨hi, .refl v g⟩

theorem outbox_ok {c : OutboxCmd} (hi : PipelineInv m v g) (hc : outboxGuard m v g c) :
    Steps m v g (outboxAfter ch g c) := by
  cases c with
  | store c => exact steps_storeAfter hi hc
  | xadd fields => exact steps_done_ingest hi fun _ => steps_publish hi hc
  | _ => exact ⟨hi, .refl v g⟩

theorem pipeline_call_ok (p : Process) (c : ((pipeline cfg).sig p).Cmd) (ch : PipelineChoice)
    (hi : PipelineInv m v g) (hc : pipelineGuard m v g p c)
    (hr : (pipelineRules cfg v).call p c ch g) :
    Steps m v g ((pipeline cfg).respond p c ch g).2 := by
  cases p with
  | outboxWorker => exact outbox_ok hi hc
  | outboxSweeper => exact outbox_ok hi hc
  | consumer =>
    cases c with
    | inl c => exact consumer_ok hi hc hr
    | inr c => exact steps_job hi hc
  | statusWorker => exact status_ok hi hc hr
  | resetIndex => exact steps_job hi hc

theorem pipeline_env_ok (e : PipelineEvent) (hi : PipelineInv m v g)
    (hr : (pipelineRules cfg v).env e g) : Steps m v g (e.apply g) := by
  cases e with
  | startIngestion now document intentID claimedBy faults =>
    exact steps_store (c := .startIngestion now document intentID claimedBy) hi trivial
      (StoreCmd.effect _ faults g.db)
  | intents t => exact steps_store (c := .ping) hi trivial (.intents _ t)
  | trimIngest | loseIngestGroup =>
    refine steps_ingest hi rfl ?_ ?_ <;> rintro rfl <;> exact hr.elim
  | trimStatus | loseStatusGroup =>
    refine steps_status hi rfl ?_ ?_ <;> rintro rfl <;> exact hr.elim

end Steps

end Pipeline
