import RagPipeline.Pipeline.Invariant

/-!
# What an outbox worker publishes

The walk along the outbox worker: it reads the document after it has claimed a row, so the attempt
number it publishes is that of the row or a later one.

## Main results

* `wp_processMessage`: one claimed message.
* `wp_outboxWorker`, `wp_outboxSweeper`: the two loops.
-/
namespace Pipeline

open Center Events Interact Relational Wire Prog OutboxWorker

def outboxContract (m : MaxAttempts) (v : Proviso) : Contract OutboxSig World where
  inv := PipelineInv m v
  rely := Grows v
  guard c g := outboxGuard m v g c
  exec c g r g' := ∃ ch, (outboxReply ch g c, outboxAfter ch g c) = (r, g')

section Publishing

variable {m : MaxAttempts} {v : Proviso} {g : World} {α : Type} {cfg : OutboxConfig} {id : String}
  {msg : OutboxMessage} {document : Document}

/-- One command: its answer, and what the pipeline remembers. -/
theorem wp_outbox {c : OutboxCmd} {f : OutboxSig.Reply c → OutboxProg α} {Q : α → World → Prop}
    (hc : PipelineInv m v g → outboxGuard m v g c)
    (h : ∀ ch g', PipelineInv m v g → Grows v (outboxAfter ch g c) g' → Grows v g g' →
      wp (outboxContract m v) (f (outboxReply ch g c)) Q g') :
    wp (outboxContract m v) (OutboxWorker.perform c >>= f) Q g := by
  refine wp_perform_bind hc fun r g₁ g₂ hi hx _ hr => ?_
  obtain ⟨ch, hx⟩ := hx
  cases hx
  exact h ch g₂ hi hr ((outbox_ok hi (hc hi)).2.trans hr)

/-- One command that may be answered in any way. -/
theorem wp_outbox_any {c : OutboxCmd} {f : OutboxSig.Reply c → OutboxProg α}
    {Q : α → World → Prop} (hc : PipelineInv m v g → outboxGuard m v g c)
    (h : ∀ r g', Grows v g g' → wp (outboxContract m v) (f r) Q g') :
    wp (outboxContract m v) (OutboxWorker.perform c >>= f) Q g :=
  wp_outbox hc fun _ g' _ _ hg => h _ g' hg

/-- A last command whose answer is not looked at. -/
theorem wp_outbox_last {c : OutboxCmd} (hc : PipelineInv m v g → outboxGuard m v g c) :
    wp (outboxContract m v) (OutboxWorker.perform c >>= fun _ => pure ()) (fun _ _ => True) g :=
  wp_outbox_any hc fun _ _ _ => wp_ret trivial

/-- Whatever a program does, the pipeline remembers. -/
theorem wp_remembers {p : OutboxProg α} {Q : α → World → Prop}
    (h : wp (outboxContract m v) p Q g) :
    wp (outboxContract m v) p (fun a g' => Q a g' ∧ Grows v g g') g := by
  refine wp_preserves (fun c g₀ r g₁ g₂ hg hi hc hx _ hr => ?_) h (.refl v g)
  obtain ⟨ch, hx⟩ := hx
  cases hx
  exact (hg.trans (outbox_ok hi hc).2).trans hr

/-- The row of a message is in the table. -/
def Queued (msg : OutboxMessage) (g : World) : Prop := ∃ n, Numbered g.db msg.id msg.hash n

theorem Queued.grows {g' : World} (h : Queued msg g) (hg : Grows v g g') : Queued msg g' :=
  h.imp fun _ hn => hn.evolves hg.db

/-- The document of a message, as it was when the row was there. -/
def Fetched (msg : OutboxMessage) (document : Document) (g : World) : Prop :=
  document.hash = msg.hash ∧ Reached g.db msg.hash document.retries ∧
    ∃ n : Nat, Numbered g.db msg.id msg.hash n ∧ (n : Int) ≤ document.retries

theorem Fetched.grows {g' : World} (h : Fetched msg document g) (hg : Grows v g g') :
    Fetched msg document g' :=
  ⟨h.1, h.2.1.evolves hg.db, h.2.2.imp fun _ hn => ⟨hn.1.evolves hg.db, hn.2⟩⟩

/-- The document that is read has a row for every attempt, so it is not behind this one. -/
theorem fetched_of_find? (hq : Queued msg g) (ha : Agree m g.db)
    (hd : g.db.documents.find? msg.hash = some document) : Fetched msg document g := by
  obtain ⟨n, hn⟩ := hq
  obtain ⟨d, hd', hle⟩ := hn.reached ha
  cases hd.symm.trans hd'
  exact ⟨Table.key_of_find? hd, ⟨document, hd, Int.le_refl _⟩, n, hn, hle⟩

theorem wp_publishMessage (h : Fetched msg document g) :
    wp (outboxContract m v) (publishMessage cfg document)
      (fun published g => Fetched msg document g ∧ (published → Sent g msg.id)) g := by
  refine wp_outbox (fun _ => trivial) fun ch g _ _ hg => ?_
  refine wp_outbox (fun _ => trivial) fun ch' g _ _ hg' => ?_
  have h := (h.grows hg).grows hg'
  generalize he : eventOf cfg document (outboxReply ch' _ .uuid) (outboxReply ch _ .now) = event
  have hhash : event.hash = msg.hash := he ▸ h.1
  have hattempts : event.attempts = document.retries := he ▸ rfl
  change wp _ (publishIngestionEvent event) _ g
  unfold publishIngestionEvent
  cases hentry : event.toEntry with
  | none => exact wp_ret ⟨h, nofun⟩
  | some fields =>
    have hcarried := StreamIngestionEvent.carried_toEntry hentry
    rw [hhash, hattempts] at hcarried
    refine wp_outbox (fun _ => ⟨_, _, hcarried, h.2.1⟩) fun ch g' _ hr hg => ?_
    refine wp_ret ⟨h.grows hg, fun hadded => ?_⟩
    have hfate : ch.fate = .ok := by
      by_contra hf
      simp [outboxReply, hf] at hadded
    obtain ⟨-, -, n, hn, hle⟩ := h.grows hg
    refine ⟨_, n, _, hn, hle, fields, hr.ingest.subset ?_, hcarried⟩
    simp [outboxAfter, PipelineChoice.done, hfate, Streams.Stream.xadd]

/-- One claimed message: it is marked only after its attempt was published. -/
theorem wp_processMessage (h : Queued msg g) :
    wp (outboxContract m v) (processMessage cfg id msg) (fun _ _ => True) g := by
  refine wp_outbox (fun _ => trivial) fun ch g' hi hr hg => ?_
  cases hfound : outboxReply ch g (.store (.getDocumentByHash msg.hash)) with
  | error e => exact wp_outbox_last fun _ => trivial
  | ok found =>
    change Option Document at found
    cases found with
    | none => exact wp_outbox_last fun _ => trivial
    | some document =>
      have hrun : ((DocumentStore.getDocumentByHash msg.hash).run ch.faults g.db).1 =
          .ok (some document) := congrArg Prod.fst (PipelineChoice.storeReply_eq hfound)
      have hd := DocumentStore.getDocumentByHash_ok hrun
      have hfetched := (fetched_of_find? h hi.agree hd).grows hg
      refine wp_bind (wp_mono _ (wp_publishMessage hfetched) ?_)
      rintro published g - ⟨-, hsent⟩
      refine wp_ite (fun _ => wp_outbox_last fun _ => trivial) fun hp => ?_
      refine wp_ite (fun _ => ?_) fun _ => ?_
      · exact wp_perform (fun _ => trivial) fun _ _ _ _ _ _ _ => trivial
      exact wp_outbox_last fun _ => hsent (by simpa using hp)

theorem wp_passOver {messages : List OutboxMessage} (h : ∀ msg ∈ messages, Queued msg g) :
    wp (outboxContract m v) (passOver cfg id messages) (fun _ _ => True) g := by
  induction messages generalizing g with
  | nil => exact wp_ret trivial
  | cons msg rest ih =>
    obtain ⟨hmsg, hrest⟩ := List.forall_mem_cons.1 h
    have hnext {g' : World} (hg : Grows v g g') :
        wp (outboxContract m v) (passOver cfg id rest) (fun _ _ => True) g' :=
      ih fun msg hmem => (hrest msg hmem).grows hg
    refine wp_outbox_any (fun _ => trivial) fun (cancelled : Bool) g₁ hg₁ => ?_
    refine wp_ite (fun _ => wp_ret trivial) fun _ => ?_
    refine wp_outbox_any (fun _ => trivial) fun now g₂ hg₂ => ?_
    refine wp_outbox_any (fun _ => trivial) fun claimed g₃ hg₃ => ?_
    have hg := (hg₁.trans hg₂).trans hg₃
    change Except StoreError Bool at claimed
    cases claimed with
    | error e => exact hnext hg
    | ok claimed =>
      refine wp_ite (fun _ => hnext hg) fun _ => ?_
      refine wp_bind (wp_mono _ (wp_remembers (wp_processMessage (hmsg.grows hg))) ?_)
      rintro _ g' - ⟨-, hg'⟩
      exact hnext (hg.trans hg')

theorem wp_pass : wp (outboxContract m v) (pass cfg id) (fun _ _ => True) g := by
  refine wp_outbox (fun _ => trivial) fun ch g' _ _ hg => ?_
  cases hfetched : outboxReply ch g (.store (.fetchCandidates cfg.batchSize)) with
  | error e => exact wp_ret trivial
  | ok messages =>
    change List OutboxMessage at messages
    have hrun : ((OutboxStore.fetchCandidates cfg.batchSize).run ch.faults g.db).1 =
        .ok messages := congrArg Prod.fst (PipelineChoice.storeReply_eq hfetched)
    refine wp_passOver fun msg hmsg => Queued.grows ?_ hg
    exact numbered_of_mem (OutboxStore.fetchCandidates_ok hrun msg hmsg)

theorem wp_outboxWorker :
    wp (outboxContract m v) (OutboxWorker.run cfg id) (fun _ _ => True) g := by
  refine wp_iterate (fun _ _ => True) trivial fun _ g _ => ?_
  refine wp_outbox_any (fun _ => trivial) fun (ticked : Bool) _ _ => ?_
  refine wp_ite (fun _ => ?_) fun _ => wp_ret trivial
  exact wp_seq wp_pass fun _ _ => wp_ret trivial

theorem wp_outboxSweeper :
    wp (outboxContract m v) (OutboxSweeper.run cfg) (fun _ _ => True) g := by
  refine wp_iterate (fun _ _ => True) trivial fun _ g _ => ?_
  refine wp_outbox_any (fun _ => trivial) fun (ticked : Bool) _ _ => ?_
  refine wp_ite (fun _ => ?_) fun _ => wp_ret trivial
  refine wp_outbox_any (fun _ => trivial) fun now _ _ => ?_
  exact wp_outbox_any (fun _ => trivial) fun _ _ _ => wp_ret trivial

end Publishing

end Pipeline
