import RagPipeline.Pipeline.Invariant

/-!
# What a status worker acknowledges

The walk along the status worker: an entry is acknowledged after it was logged as poison, or after
a store call about it went through, and then its attempt is over.

## Main results

* `wp_handle`: what the handler leaves when it says that an entry is finished.
* `wp_statusWorker`: the main loop.
-/
namespace Pipeline

open Center Events Interact Relational Wire Prog StatusWorker

def statusContract (cfg : PipelineConfig) (v : Proviso) (id : String) :
    Contract StatusSig World where
  inv := PipelineInv cfg.maxAttempts v
  rely := Grows v
  guard c g := statusGuard cfg.maxAttempts v g c
  exec c g r g' := ∃ ch, (pipelineRules cfg v).call (.statusWorker id) c ch g ∧
    (statusReply ch g c, statusAfter ch g c) = (r, g')

section Handling

variable {cfg : PipelineConfig} {v : Proviso} {id : String} {g : World} {α : Type}
  {fields : Fields} {e : StatusEntry} {entries : List StatusEntry}

/-- What the entry of a whole run says: a report of a document that came at least that far. -/
theorem report_of_mem {m : MaxAttempts} (hi : PipelineInv m v g) (h : fields ∈ g.status.log) :
    ∃ (s : StatusEvent) (hash : String), fields = s.toEntry ∧ s.hash = ofString hash ∧
      Reached g.db hash s.attempts ∧ Truthful v g s := by
  obtain ⟨s, rfl, ht⟩ := hi.reported fields h
  obtain ⟨ingested, hmem, he⟩ := hi.echoes _ h
  obtain ⟨hash, attempts, hc, hr⟩ := hi.due ingested hmem
  rw [he, s.carried_toEntry, Option.some.injEq, Prod.mk.injEq] at hc
  exact ⟨s, hash, rfl, hc.1, hc.2 ▸ hr, ht⟩

/-! ### Commands -/

theorem wp_status {c : StatusCmd} {f : StatusSig.Reply c → StatusProg α} {Q : α → World → Prop}
    (hc : PipelineInv cfg.maxAttempts v g → statusGuard cfg.maxAttempts v g c)
    (h : ∀ ch g', PipelineInv cfg.maxAttempts v g → Grows v (statusAfter ch g c) g' →
      Grows v g g' → wp (statusContract cfg v id) (f (statusReply ch g c)) Q g') :
    wp (statusContract cfg v id) (StatusWorker.perform c >>= f) Q g := by
  refine wp_perform_bind hc fun r g₁ g₂ hi hx _ hr => ?_
  obtain ⟨ch, hrule, hx⟩ := hx
  cases hx
  exact h ch g₂ hi hr ((status_ok hi (hc hi) hrule).2.trans hr)

theorem wp_status_any {c : StatusCmd} {f : StatusSig.Reply c → StatusProg α}
    {Q : α → World → Prop}
    (hc : PipelineInv cfg.maxAttempts v g → statusGuard cfg.maxAttempts v g c)
    (h : ∀ r g', Grows v g g' → wp (statusContract cfg v id) (f r) Q g') :
    wp (statusContract cfg v id) (StatusWorker.perform c >>= f) Q g :=
  wp_status hc fun _ g' _ _ hg => h _ g' hg

/-- A command by itself that may be answered in any way. -/
theorem wp_status_last {c : StatusCmd}
    (hc : PipelineInv cfg.maxAttempts v g → statusGuard cfg.maxAttempts v g c) :
    wp (statusContract cfg v id) (StatusWorker.perform c) (fun _ g' => Grows v g g') g := by
  refine wp_perform hc fun r g₁ g₂ hi hx _ hr => ?_
  obtain ⟨ch, hrule, hx⟩ := hx
  cases hx
  exact (status_ok hi (hc hi) hrule).2.trans hr

theorem wp_remembers_status {p : StatusProg α} {Q : α → World → Prop}
    (h : wp (statusContract cfg v id) p Q g) :
    wp (statusContract cfg v id) p (fun a g' => Q a g' ∧ Grows v g g') g := by
  refine wp_preserves (fun c g₀ r g₁ g₂ hg hi hc hx _ hr => ?_) h (.refl v g)
  obtain ⟨ch, hrule, hx⟩ := hx
  cases hx
  exact (hg.trans (status_ok hi hc hrule).2).trans hr

/-- A program, and what follows it in a state that remembers. -/
theorem wp_status_bind {β : Type} {p : StatusProg β} {f : β → StatusProg α}
    {R : β → World → Prop} {Q : α → World → Prop} (hp : wp (statusContract cfg v id) p R g)
    (hf : ∀ b g', R b g' → Grows v g g' → wp (statusContract cfg v id) (f b) Q g') :
    wp (statusContract cfg v id) (p >>= f) Q g :=
  wp_bind (wp_mono _ (wp_remembers_status hp) fun b g' _ h => hf b g' h.1 h.2)

/-! ### One entry -/

/-- The entry is in the stream. -/
def Read (e : StatusEntry) (g : World) : Prop := g.status.get? e.id = some e.fields

theorem Read.grows {g' : World} (h : Read e g) (hg : Grows v g g') : Read e g' :=
  Streams.Stream.get?_of_prefix hg.status h

theorem wp_applyIndexed {hash : String} {attempts : Int} {now : Time}
    (hr : Reached g.db hash attempts) (hreg : v = .unreset → Registered g (ofString hash)) :
    wp (statusContract cfg v id)
      (StatusWorker.perform (.store (.applyIndexed hash attempts now)))
      (fun r g' => ∀ applied, r = .ok applied → Left g'.db hash attempts) g := by
  refine wp_perform (fun _ => hreg) fun r g₁ g₂ hi hx _ hg applied hok => ?_
  obtain ⟨ch, -, hx⟩ := hx
  cases hx
  have hreply := PipelineChoice.storeReply_eq (c := .applyIndexed hash attempts now) hok
  exact (left_applyIndexed hr hreply).evolves hg.db

theorem wp_applyFailed {hash : String} {attempts : Int} {retryable : Bool} {now : Time}
    (hr : Reached g.db hash attempts) :
    wp (statusContract cfg v id) (StatusWorker.perform
        (.store (.applyFailed hash attempts retryable cfg.maxAttempts.val now)))
      (fun r g' => ∀ outcome, r = .ok outcome → Left g'.db hash attempts) g := by
  refine wp_perform (fun _ => rfl) fun r g₁ g₂ hi hx _ hg outcome hok => ?_
  obtain ⟨ch, -, hx⟩ := hx
  cases hx
  exact (left_applyFailed hi.agree hr (PipelineChoice.storeReply_eq
    (c := .applyFailed hash attempts retryable cfg.maxAttempts.val now) hok)).evolves hg.db

/-- The handler says finished only when the attempt of the entry is over. -/
theorem wp_handle (h : fields ∈ g.status.log) :
    wp (statusContract cfg v id) ((handler cfg.maxAttempts.val).handle fields)
      (fun ack g' => ack → Over g' fields) g := by
  refine wp_of_inv fun hi => ?_
  obtain ⟨s, hash, rfl, hhash, hreached, htrue⟩ := report_of_mem hi h
  have hover {g' : World} (hl : Left g'.db hash s.attempts) : Over g' s.toEntry :=
    ⟨hash, s.attempts, by rw [s.carried_toEntry, hhash], hl⟩
  have hdecoded : s.decoded.hash = hash := by simp [StatusEvent.decoded, hhash]
  rw [Handler.handle_eq, Handler.eventOf_toEntry]
  cases hs : s.status with
  | indexed =>
    have hstatus : s.decoded.status = .indexed := hs
    simp only [hstatus, hdecoded]
    refine wp_status_any (c := .now) (fun _ => trivial) fun now g' hg => ?_
    refine wp_bind (wp_mono _ (wp_applyIndexed (hreached.evolves hg.db)
      fun hv => hg.registered hv _ (hhash ▸ htrue hv hs)) fun r g' _ hr => ?_)
    cases r with
    | error e => exact wp_ret nofun
    | ok applied => exact wp_ret fun _ => hover (hr applied rfl)
  | failed =>
    have hstatus : s.decoded.status = .failed := hs
    simp only [hstatus, hdecoded]
    refine wp_status_any (c := .now) (fun _ => trivial) fun now g' hg => ?_
    refine wp_bind (wp_mono _ (wp_applyFailed (hreached.evolves hg.db)) fun r g' _ hr => ?_)
    cases r with
    | error e => exact wp_ret nofun
    | ok outcome => exact wp_ret fun _ => hover (hr outcome rfl)

theorem wp_healthy : wp (statusContract cfg v id) (handler cfg.maxAttempts.val).healthy
    (fun _ _ => True) g :=
  wp_mono _ (wp_status_last (c := .store .ping) fun _ => trivial) fun _ _ _ _ => trivial

theorem wp_cancelled : wp (statusContract cfg v id) cancelled (fun _ _ => True) g :=
  wp_mono _ (wp_status_last fun _ => trivial) fun _ _ _ _ => trivial

theorem wp_sleep {duration : Int} :
    wp (statusContract cfg v id) (StatusWorker.sleep duration) (fun _ _ => True) g :=
  wp_mono _ (wp_status_last fun _ => trivial) fun _ _ _ _ => trivial

theorem wp_ack {entry : Nat} (h : Closed g entry) :
    wp (statusContract cfg v id) (ack entry) (fun _ _ => True) g :=
  wp_status_any (fun _ => h) fun _ _ _ => wp_ret trivial

theorem wp_waitUntilHealthy :
    wp (statusContract cfg v id) (waitUntilHealthy cfg.status cfg.maxAttempts.val)
      (fun _ _ => True) g := by
  refine wp_iterate (fun _ _ => True) trivial fun _ g _ => ?_
  refine wp_status_bind wp_cancelled fun cancelled g _ _ => ?_
  refine wp_ite (fun _ => wp_ret trivial) fun _ => ?_
  refine wp_status_bind wp_healthy fun r g _ _ => ?_
  cases r with
  | ok _ => exact wp_ret trivial
  | error e => exact wp_status_bind wp_sleep fun _ _ _ _ => wp_ret trivial

/-- The entry is still there when it is handled again. -/
def Again (e : StatusEntry) : Bool ⊕ Bool → World → Prop
  | .inl _, g => Read e g
  | .inr _, _ => True

theorem wp_pause {retried : Bool} (h : Read e g) :
    wp (statusContract cfg v id) (pause cfg.status retried) (Again e) g := by
  refine wp_status_bind wp_sleep fun slept g' _ hg => ?_
  exact wp_ite (fun _ => wp_ret (h.grows hg)) fun _ => wp_ret trivial

theorem wp_process (h : Read e g) :
    wp (statusContract cfg v id) (process cfg.status cfg.maxAttempts.val e)
      (fun _ _ => True) g := by
  refine wp_iterate (fun _ g => Read e g) h fun retried g h => ?_
  refine wp_mono (Q := Again e) _ ?_ (by rintro (_ | _) g - h; exacts [h, trivial])
  refine wp_status_bind (wp_handle (Streams.Stream.mem_of_get? h)) fun acked g' hover hg => ?_
  have h := h.grows hg
  refine wp_ite (fun hacked => ?_) fun _ => ?_
  · exact wp_status_bind (wp_ack (.inr ⟨e.fields, h, hover hacked⟩)) fun _ _ _ _ => wp_ret trivial
  refine wp_status_bind wp_cancelled fun cancelled g' _ hg => ?_
  have h := h.grows hg
  refine wp_ite (fun _ => wp_ret trivial) fun _ => ?_
  refine wp_status_bind wp_healthy fun healthy g' _ hg => ?_
  have h := h.grows hg
  cases healthy with
  | error _ => exact wp_status_bind wp_waitUntilHealthy fun _ _ _ hg => wp_pause (h.grows hg)
  | ok _ => exact wp_ite (fun _ => wp_ret trivial) fun _ => wp_pause h

/-! ### Batches -/

theorem forall_read_grows {g' : World} (h : ∀ e ∈ entries, Read e g) (hg : Grows v g g') :
    ∀ e ∈ entries, Read e g' := fun e he => (h e he).grows hg

theorem wp_processAll {failed : Nat} (h : ∀ e ∈ entries, Read e g) :
    wp (statusContract cfg v id) (processAll cfg.status cfg.maxAttempts.val failed entries)
      (fun _ _ => True) g := by
  induction entries generalizing g failed with
  | nil => exact wp_ret trivial
  | cons e rest ih =>
    obtain ⟨he, hrest⟩ := List.forall_mem_cons.1 h
    refine wp_status_bind wp_cancelled fun cancelled g₁ _ hg₁ => ?_
    refine wp_ite (fun _ => wp_ret trivial) fun _ => ?_
    refine wp_status_bind (wp_process (he.grows hg₁)) fun done g₂ _ hg₂ => ?_
    have hrest := forall_read_grows hrest (hg₁.trans hg₂)
    exact wp_ite (fun _ => ih hrest) fun _ => ih hrest

theorem read_of_mem {count : Nat} {s : Streams.Stream Fields String}
    {batch : Streams.Batch Fields count}
    (h : ∀ entry fields, (entry, fields) ∈ batch.entries → s.get? entry = some fields) :
    ∀ e ∈ toStatusEntries batch, s.get? e.id = some e.fields := by
  intro e he
  obtain ⟨⟨entry, fields⟩, hmem, rfl⟩ := List.mem_map.1 he
  exact h entry fields hmem

theorem wp_readOnce :
    wp (statusContract cfg v id) (readOnce cfg.status cfg.maxAttempts.val id)
      (fun _ _ => True) g := by
  refine wp_status (fun _ => trivial) fun ch g' _ _ hg => ?_
  generalize hread : statusReply ch g _ = r
  change Except RedisError (List StatusEntry) at r
  cases r with
  | error e => exact wp_ret trivial
  | ok entries =>
    obtain ⟨batch, hbatch, rfl⟩ := PipelineChoice.map_ok (PipelineChoice.heard_ok hread).2
    exact wp_processAll (forall_read_grows
      (read_of_mem fun _ _ => Streams.Stream.get?_of_mem_read hbatch) hg)

theorem wp_deliveryCount {entry : Nat} :
    wp (statusContract cfg v id) (StatusSource.deliveryCount entry) (fun _ _ => True) g :=
  wp_status_any (fun _ => trivial) fun _ _ _ => wp_ret trivial

theorem wp_takeOver (h : ∀ e ∈ entries, Read e g) :
    wp (statusContract cfg v id) (takeOver cfg.status cfg.maxAttempts.val entries)
      (fun _ _ => True) g := by
  induction entries generalizing g with
  | nil => exact wp_ret trivial
  | cons e rest ih =>
    obtain ⟨he, hrest⟩ := List.forall_mem_cons.1 h
    refine wp_status_bind wp_cancelled fun cancelled g₁ _ hg₁ => ?_
    refine wp_ite (fun _ => wp_ret trivial) fun _ => ?_
    refine wp_status_bind wp_deliveryCount fun deliveries g₂ _ hg₂ => ?_
    have he := (he.grows hg₁).grows hg₂
    have hrest := forall_read_grows hrest (hg₁.trans hg₂)
    cases deliveries with
    | error _ => exact ih hrest
    | ok deliveries =>
      refine wp_ite (fun _ => ?_) fun _ => ?_
      · refine wp_status (fun _ => trivial) fun ch g₃ _ hlogged hg₃ => ?_
        have hdropped : Closed g₃ e.id := .inl (hlogged.dropped e.id List.mem_cons_self)
        refine wp_status_bind (wp_ack hdropped) fun _ g₄ _ hg₄ => ?_
        exact ih (forall_read_grows hrest (hg₃.trans hg₄))
      · exact wp_status_bind (wp_process he) fun _ _ _ hg₃ => ih (forall_read_grows hrest hg₃)

theorem wp_claimAndProcess {rounds : Nat} :
    wp (statusContract cfg v id) (claimAndProcess cfg.status cfg.maxAttempts.val id rounds)
      (fun _ _ => True) g := by
  induction rounds generalizing g with
  | zero => exact wp_ret trivial
  | succ rounds ih =>
    refine wp_status (fun _ => trivial) fun ch g' _ _ hg => ?_
    generalize hclaimed : statusReply ch g _ = r
    change Except RedisError (List StatusEntry) at r
    cases r with
    | error e => exact wp_ret trivial
    | ok entries =>
      obtain ⟨-, hreply⟩ := PipelineChoice.heard_ok hclaimed
      obtain ⟨⟨cursor, batch⟩, hbatch, rfl⟩ := PipelineChoice.map_ok hreply
      have hread := forall_read_grows
        (read_of_mem fun _ _ => Streams.Stream.get?_of_mem_claimed hbatch) hg
      refine wp_status_bind (wp_takeOver hread) fun all g _ _ => ?_
      refine wp_ite (fun _ => wp_ret trivial) fun _ => ?_
      exact wp_ite (fun _ => wp_ret trivial) fun _ => ih

/-! ### The loop -/

theorem wp_ensureGroup :
    wp (statusContract cfg v id) (ensureGroup cfg.status) (fun _ _ => True) g := by
  refine wp_iterate (fun _ _ => True) trivial fun _ g _ => ?_
  have hcreate : wp (statusContract cfg v id) StatusSource.ensureGroup (fun _ _ => True) g := by
    refine wp_status_any (fun _ => trivial) fun created g _ => ?_
    change Except RedisError Unit at created
    cases created <;> exact wp_ret trivial
  refine wp_status_bind hcreate fun created g _ _ => ?_
  cases created with
  | ok _ => exact wp_ret trivial
  | error e =>
    refine wp_status_bind wp_sleep fun _ _ _ _ => ?_
    exact wp_ite (fun _ => wp_ret trivial) fun _ => wp_ret trivial

theorem wp_deleteIdle {idle : Int} {consumers : List StatusConsumer} :
    wp (statusContract cfg v id) (StatusSource.deleteIdle id idle consumers)
      (fun _ _ => True) g := by
  induction consumers generalizing g with
  | nil => exact wp_ret trivial
  | cons c rest ih =>
    refine wp_ite (fun _ => ih) fun _ => ?_
    refine wp_status_any (fun _ => trivial) fun deleted g _ => ?_
    change Except RedisError Unit at deleted
    cases deleted with
    | error _ => exact wp_ret trivial
    | ok _ => exact ih

theorem wp_cleanupConsumers {idle : Int} :
    wp (statusContract cfg v id) (StatusSource.cleanupConsumers id idle) (fun _ _ => True) g := by
  refine wp_status_any (fun _ => trivial) fun consumers g _ => ?_
  change Except RedisError (List StatusConsumer) at consumers
  cases consumers with
  | error _ => exact wp_ret trivial
  | ok consumers => exact wp_deleteIdle

theorem wp_storeHealthy :
    wp (statusContract cfg v id) (storeHealthy cfg.maxAttempts.val) (fun _ _ => True) g := by
  refine wp_status_bind wp_healthy fun healthy _ _ _ => ?_
  cases healthy <;> exact wp_ret trivial

theorem wp_recoverOnce :
    wp (statusContract cfg v id) (recoverOnce cfg.status cfg.maxAttempts.val id)
      (fun _ _ => True) g := by
  have hcleanup {claimErr : Except RedisError Unit} {g : World} :
      wp (statusContract cfg v id) (do
        StatusSource.cleanupConsumers id cfg.status.cleanupIdle
        return claimErr) (fun _ _ => True) g :=
    wp_status_bind wp_cleanupConsumers fun _ _ _ _ => wp_ret trivial
  refine wp_status_bind wp_storeHealthy fun healthy _ _ _ => ?_
  refine wp_ite (fun _ => ?_) fun _ => ?_
  · exact wp_status_bind wp_claimAndProcess fun _ _ _ _ => hcleanup
  · exact hcleanup

theorem wp_afterRead {result : Except ReadError Unit} :
    wp (statusContract cfg v id) (afterRead cfg.status result) (fun _ _ => True) g := by
  cases result with
  | ok _ => exact wp_ret trivial
  | error e =>
    refine wp_status_bind wp_cancelled fun cancelled _ _ _ => ?_
    refine wp_ite (fun _ => wp_ret trivial) fun _ => ?_
    split
    · exact wp_ensureGroup
    · exact wp_status_bind wp_sleep fun _ _ _ _ => wp_ret trivial

theorem wp_read {nextRecovery : Option Time} :
    wp (statusContract cfg v id) (turn.read cfg.status cfg.maxAttempts.val id nextRecovery)
      (fun _ _ => True) g := by
  refine wp_status_bind wp_readOnce fun _ _ _ _ => ?_
  refine wp_status_bind wp_afterRead fun _ _ _ _ => ?_
  exact wp_ite (fun _ => wp_ret trivial) fun _ => wp_ret trivial

theorem wp_turn {nextRecovery : Option Time} :
    wp (statusContract cfg v id) (turn cfg.status cfg.maxAttempts.val id nextRecovery)
      (fun _ _ => True) g := by
  refine wp_status_bind wp_cancelled fun cancelled _ _ _ => ?_
  refine wp_ite (fun _ => wp_ret trivial) fun _ => ?_
  refine wp_status_any (fun _ => trivial) fun (now : Time) _ _ => ?_
  refine wp_ite (fun _ => ?_) fun _ => wp_read
  refine wp_status_bind wp_recoverOnce fun recovered _ _ _ => ?_
  refine wp_status_any (fun _ => trivial) fun (now : Time) _ _ => ?_
  split
  · refine wp_status_bind wp_ensureGroup fun ready _ _ _ => ?_
    exact wp_ite (fun _ => wp_read) fun _ => wp_ret trivial
  · exact wp_read

theorem wp_statusWorker :
    wp (statusContract cfg v id) (StatusWorker.run cfg.status cfg.maxAttempts.val id)
      (fun _ _ => True) g := by
  refine wp_status_bind wp_ensureGroup fun ready _ _ _ => ?_
  refine wp_ite (fun _ => ?_) fun _ => wp_ret trivial
  exact wp_iterate (fun _ _ => True) trivial fun _ g _ => wp_mono _ wp_turn (by
    rintro (_ | _) _ _ _ <;> trivial)

end Handling

end Pipeline
