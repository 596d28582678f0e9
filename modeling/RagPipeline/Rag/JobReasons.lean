import RagPipeline.Interact.Runs
import RagPipeline.Rag.IndexState

/-!
# The reasons of an ingest job

POISON_MESSAGE is the consumer's own reason: no parser, splitter, store or service raises it, so no
job of `IngestService` ends with it.

## Main definitions

* `JobError.Unpoisoned`, `IngestService.Unpoisoned`: errors and dependencies without that reason.
* `IngestService.MayReturn`: what a job can come to.

## Main results

* `IngestService.MayReturn.ne_poison`: a job is not reported as poison.
-/
namespace Rag

open Events Wire Interact Method IngestService

def JobError.Unpoisoned : JobError → Prop
  | .permanent reason _ | .transient reason _ | .unclassified reason _ => reason ≠ .poisonMessage
  | .other _ | .exit => True

def CallError.Unpoisoned : CallError → Prop
  | .unavailable _ => True
  | .raised e => e.Unpoisoned

/-- It returns with `P`, or raises something else. -/
def Unpoisons {α : Type} (P : α → Prop) : Except CallError α → Prop
  | .ok a => P a
  | .error e => e.Unpoisoned

/-- What the calls of a job raise. -/
def JobCmd.Unpoisoned : (c : JobCmd) → JobSig.Reply c → Prop
  | .exists _, r | .collectionExists, r => Unpoisons (fun _ : Bool => True) r
  | .get .., r => Unpoisons (fun _ : List UInt8 => True) r
  | .embed _, r => Unpoisons (fun _ : List Vector => True) r
  | .deleteByHash _, r | .upsert _, r | .register _, r | .clearRows, r | .clearPoints, r =>
    Unpoisons (fun _ : Unit => True) r
  | .countPoints, r | .countRows, r => Unpoisons (fun _ : Nat => True) r
  | .monotonic, _ | .now, _ => True

/-- What a service is given raises no such error. -/
structure IngestService.Unpoisoned (service : IngestService) : Prop where
  parserFor : ∀ filename e, service.parserFor filename = .error e → e.Unpoisoned
  parse : ∀ filename parse data e, service.parserFor filename = .ok parse →
    parse data = .error e → e.Unpoisoned
  splitText : ∀ markdown size overlap text e,
    service.splitText markdown size overlap text = .error e → e.Unpoisoned

/-- Calls that return or raise what they like, but for that reason. -/
def unpoisonedContract : Contract JobSig Unit where
  inv _ := True
  rely _ _ := True
  guard _ _ := True
  exec c _ r _ := c.Unpoisoned r

section Steps

variable {α β : Type} {P : α → Prop} {R : β → Prop}

def Unpoisoned (P : α → Prop) (m : Job α) : Prop :=
  wp unpoisonedContract m (fun r _ _ => Unpoisons P r) () ()

theorem unpoisoned_bind {m : Job β} {f : β → Job α} (hm : Unpoisoned R m)
    (hf : ∀ b, R b → Unpoisoned P (f b)) : Unpoisoned P (m >>= f) :=
  wp_bind hm (fun _ _ _ h => h) fun b _ _ h => hf b h

theorem unpoisoned_pure {a : α} (h : P a) : Unpoisoned P (pure a) := wp_pure h

theorem unpoisoned_raise {e : JobError} (h : e.Unpoisoned) :
    Unpoisoned P (raiseJob e : Job α) := wp_raise h

theorem unpoisoned_ofExcept {x : Except CallError α} (h : Unpoisons P x) :
    Unpoisoned P (ofExcept x : Job α) := wp_ofExcept h

theorem unpoisoned_ofJob {x : Except JobError α} (h : ∀ e, x = .error e → e.Unpoisoned) :
    Unpoisoned (fun a => x = .ok a) (ofJob x) := by
  refine unpoisoned_ofExcept ?_
  cases x with
  | ok a => exact rfl
  | error e => exact h e rfl

theorem unpoisoned_ite {b : Prop} [Decidable b] {m n : Job α} (ht : Unpoisoned P m)
    (hf : Unpoisoned P n) : Unpoisoned P (if b then m else n) := by
  split
  · exact ht
  · exact hf

/-- A check that raises, and what follows. -/
theorem unpoisoned_guard {b : Prop} [Decidable b] {e : JobError} {f : Unit → Job α}
    (he : e.Unpoisoned) (hf : Unpoisoned P (f ())) :
    Unpoisoned P (if b then raiseJob e >>= f else f ()) :=
  unpoisoned_ite (unpoisoned_bind (R := fun _ => False) (unpoisoned_raise he) fun _ h => h.elim) hf

theorem unpoisoned_perform {c : JobCmd} {f : JobSig.Reply c → Job α}
    (hf : ∀ r, c.Unpoisoned r → Unpoisoned P (f r)) : Unpoisoned P (perform c >>= f) :=
  wp_call_bind (fun _ => trivial) fun r _ _ _ hx _ _ => hf r hx

/-- A call that returns or raises, and what follows. -/
theorem unpoisoned_call {c : JobCmd} {x : JobSig.Reply c → Except CallError β} {f : β → Job α}
    (hx : ∀ r, c.Unpoisoned r → Unpoisons (fun _ => True) (x r))
    (hf : ∀ b, Unpoisoned P (f b)) :
    Unpoisoned P (perform c >>= fun r => ofExcept (x r) >>= f) :=
  unpoisoned_perform fun r hr => unpoisoned_bind (unpoisoned_ofExcept (hx r hr)) fun b _ => hf b

end Steps

/-! ### The steps of a job -/

section Job

variable {uuid5 : PyStr → PyStr} {service : IngestService} {event : IngestEvent}
  {deadline : Micros}

theorem unpoisoned_check : Unpoisoned (fun _ => True) (check deadline) := by
  refine unpoisoned_perform fun (now : Micros) _ => unpoisoned_ite ?_ (unpoisoned_pure trivial)
  exact unpoisoned_raise (by simp [JobError.Unpoisoned])

theorem unpoisoned_embedAll {batches : List (List PyStr)} :
    Unpoisoned (fun _ => True) (embedAll deadline batches) := by
  induction batches with
  | nil => exact unpoisoned_pure trivial
  | cons texts rest ih =>
    refine unpoisoned_bind unpoisoned_check fun _ _ => ?_
    refine unpoisoned_call (c := .embed texts) (x := id) (fun _ h => h) fun vectors => ?_
    exact unpoisoned_bind ih fun _ _ => unpoisoned_pure trivial

theorem unpoisoned_upsertAll {batches : List (List StoredPoint)} :
    Unpoisoned (fun _ => True) (upsertAll batches) := by
  induction batches with
  | nil => exact unpoisoned_pure trivial
  | cons batch rest ih =>
    exact unpoisoned_call (c := .upsert batch) (x := id) (fun _ h => h) fun _ => ih

theorem unpoisoned_store {chunks : List PyStr} :
    Unpoisoned (fun _ => True) (store uuid5 service event deadline chunks) := by
  refine unpoisoned_bind unpoisoned_embedAll fun vectors _ => ?_
  refine unpoisoned_bind unpoisoned_check fun _ _ => ?_
  refine unpoisoned_guard (e := .other _) trivial ?_
  refine unpoisoned_call (c := .deleteByHash event.hash) (x := id) (fun _ h => h) fun _ => ?_
  exact unpoisoned_bind unpoisoned_upsertAll fun _ _ => unpoisoned_pure trivial

theorem raises_bind {α β : Type} {x : Except JobError β} {f : β → Except JobError α}
    {E : JobError → Prop} (hx : ∀ e, x = .error e → E e) (hf : ∀ b e, f b = .error e → E e)
    (e : JobError) (he : (x >>= f) = .error e) : E e := by
  cases x with
  | error e' =>
    cases he
    exact hx _ rfl
  | ok b => exact hf b e he

theorem unpoisoned_chunksOf (h : service.Unpoisoned) {parse : List UInt8 → Except JobError PyStr}
    (hparse : service.parserFor event.filename = .ok parse) (data : List UInt8) (e : JobError)
    (he : chunksOf service event parse data = .error e) : e.Unpoisoned := by
  have hnone : noText.Unpoisoned := by simp [noText, JobError.Unpoisoned]
  refine raises_bind (fun e he => h.parse _ _ _ e hparse he) (fun text e he => ?_) e he
  split at he
  · cases he
    exact hnone
  refine raises_bind (fun e he => ?_) (fun chunks e he => ?_) e he
  · unfold split at he
    cases hs : service.splitText (lower (extension event.filename) = ofString ".md")
        service.chunkSize service.chunkOverlap text with
    | error e' =>
      rw [hs] at he
      cases he
      exact h.splitText _ _ _ _ _ hs
    | ok _ =>
      rw [hs] at he
      cases he
  · split at he
    · cases he
      exact hnone
    · cases he

/-- A job that returns has indexed its document. -/
theorem unpoisoned_work (h : service.Unpoisoned) :
    Unpoisoned (fun outcome => ∃ n, outcome = .indexed n)
      (work uuid5 service event deadline) := by
  refine unpoisoned_call (c := .exists event.hash) (x := id) (fun _ h => h) fun found => ?_
  refine unpoisoned_ite (unpoisoned_pure ⟨none, rfl⟩) ?_
  refine unpoisoned_bind (unpoisoned_ofJob fun e he => h.parserFor _ e he) fun parse hparse => ?_
  refine unpoisoned_guard (by simp [tooLarge, JobError.Unpoisoned]) ?_
  refine unpoisoned_bind unpoisoned_check fun _ _ => ?_
  refine unpoisoned_call (c := .get event.bucketPath service.maxFileBytes) (x := id) (fun _ h => h)
    fun data => ?_
  refine unpoisoned_bind unpoisoned_check fun _ _ => ?_
  refine unpoisoned_bind (unpoisoned_ofJob (unpoisoned_chunksOf h hparse data)) fun chunks _ => ?_
  refine unpoisoned_bind (R := fun _ => True) ?_ fun points _ => ?_
  · refine wp_tryExcept unpoisoned_store (fun _ _ _ h => h) fun e _ _ he => ?_
    cases e with
    | unavailable text => exact unpoisoned_raise (by simp [JobError.Unpoisoned])
    | raised e => exact wp_raise he
  refine unpoisoned_perform fun (now : Int) _ => ?_
  refine unpoisoned_call (c := .register _) (x := id) (fun _ h => h) fun _ => ?_
  exact unpoisoned_pure ⟨_, rfl⟩

/-- A run of a job with such dependencies comes to this. -/
def IngestService.MayReturn (uuid5 : PyStr → PyStr) (service : IngestService) (job : JobCall)
    (r : Except JobError Outcome) : Prop :=
  Prog.Runs unpoisonedContract.exec (process uuid5 service job.event job.deadline) () (.ret r) ()

theorem IngestService.MayReturn.ne_poison {job : JobCall} {r : Except JobError Outcome}
    (hr : service.MayReturn uuid5 job r) (h : service.Unpoisoned) (retryable : Bool)
    (detail : Option PyStr) : runJob r ≠ .ok (.failed retryable .poisonMessage detail) := by
  refine Prog.Runs.post hr (Q := fun r _ =>
    runJob r ≠ .ok (.failed retryable .poisonMessage detail)) (fun _ => trivial)
    (fun _ => trivial) ?_
  have hwork : wp unpoisonedContract (work uuid5 service job.event job.deadline) _ () () :=
    unpoisoned_work h
  refine Prog.wp_bind (Prog.wp_mono _ hwork ?_)
  rintro ⟨e | outcome, _⟩ _ - hpost
  · refine Prog.wp_ret fun hpoison => ?_
    obtain _ | ⟨_ | _ | _ | _ | _⟩ := e <;> cases hpoison <;> exact hpost rfl
  · obtain ⟨n, rfl⟩ := hpost
    exact Prog.wp_ret nofun

end Job

end Rag
