import RagPipeline.Interact.Total
import RagPipeline.Rag.IndexState

/-!
# What an ingest attempt leaves behind

One run of `IngestService.process` by itself, with whatever its dependencies return and raise. The
index and the registry raise `DependencyUnavailable` or something untyped; `register` is atomic.

## Main definitions

* `JobWorld`, `frameContract`: the two stores and the calls made so far, and how a call is answered.
* `Frame`: what holds of the stores and the calls when the job has an outcome.

## Main results

* `runJob_frame`: every run of `process` ends, and its outcome keeps the frame.
-/
namespace Rag

open Events Wire Interact Method IngestService

namespace JobCmd

/-- The calls that change the index or the registry. -/
def Writes : JobCmd → Prop
  | deleteByHash _ | upsert _ | register _ | clearRows | clearPoints => True
  | _ => False

/-- The blob store and the embedder raise what they like. -/
def MayRaise : JobCmd → CallError → Prop
  | get .., _ | embed _, _ => True
  | _, .unavailable _ | _, .raised (.other _) | _, .raised .exit => True
  | _, .raised _ => False

/-- The answers a call can get. -/
structure Answers (c : JobCmd) (ch : JobChoice) : Prop where
  raises : c.MayRaise ch.error
  atomic : ∀ document, c = register document → ch.fate ≠ .lost

end JobCmd

structure JobWorld where
  state : IndexState
  calls : List JobCmd

def frameContract : Contract JobSig JobWorld where
  inv _ := True
  rely g g' := g' = g
  guard _ _ := True
  exec (c : JobCmd) g r g' := ∃ ch, c.Answers ch ∧
    r = JobCmd.reply ch g.state c ∧ g' = ⟨(c.respond ch g.state).2, g.calls ++ [c]⟩

/-- The failures that an ingest attempt finds out before it touches the index. -/
def Early (reason : Reason) : Prop :=
  reason = .unsupportedType ∨ reason = .corruptFile ∨ reason = .emptyText ∨ reason = .jobTimeout

/-- `s` is the state the job found. -/
structure Frame (event : IngestEvent) (s : IndexState) (r : Except PyError Outcome) (g : JobWorld) :
    Prop where
  untouched : ∀ retryable reason detail, r = .ok (.failed retryable reason detail) → Early reason →
    g.state = s ∧ ∀ c ∈ g.calls, ¬ c.Writes
  unregistered : ∀ retryable reason detail, r = .ok (.failed retryable reason detail) →
    g.state.rows = s.rows
  registered : ∀ chunkCount, r = .ok (.indexed chunkCount) →
    (g.state.rows.find? event.hash).isSome
  known : (s.rows.find? event.hash).isSome → g.calls = [.exists event.hash]

/-! ### Before the first write -/

/-- Nothing has been written yet. -/
structure Clean (s : IndexState) (g : JobWorld) : Prop where
  state : g.state = s
  calls : ∀ c ∈ g.calls, ¬ c.Writes

/-- An error that is not reported for one of the early reasons. -/
def Late : CallError → Prop
  | .unavailable _ | .raised (.other _) | .raised .exit => True
  | .raised (.permanent reason _) | .raised (.transient reason _)
  | .raised (.unclassified reason _) => ¬ Early reason

/-- A step of `process` from `s` on: it raises early, with nothing written, or late, with no row
added, or it returns with `P`. -/
def Step {α : Type} (s : IndexState) (P : α → JobWorld → Prop) :
    Except CallError α → Unit → JobWorld → Prop
  | .error e, _, g => Clean s g ∨ Late e ∧ g.state.rows = s.rows
  | .ok a, _, g => P a g

section Steps

variable {s : IndexState} {g : JobWorld} {α β : Type} {P : α → JobWorld → Prop}

theorem late_of_mayRaise {c : JobCmd} {e : CallError} (hc : c.Writes) (h : c.MayRaise e) :
    Late e := by
  cases c <;> first | exact hc.elim | skip
  all_goals obtain _ | ⟨_ | _ | _ | _ | _⟩ := e <;> trivial

theorem JobCmd.effect_eq {c : JobCmd} (h : ¬ c.Writes) (s : IndexState) : c.effect s = s := by
  cases c <;> first | rfl | exact absurd trivial h

theorem Clean.call {c : JobCmd} (h : Clean s g) (hc : ¬ c.Writes) (ch : JobChoice) :
    Clean s ⟨(c.respond ch g.state).2, g.calls ++ [c]⟩ := by
  refine ⟨?_, fun c' hc' => ?_⟩
  · rw [JobCmd.respond, c.effect_eq hc, ite_self]
    exact h.state
  · obtain hc' | hc' := List.mem_append.1 hc'
    · exact h.calls c' hc'
    · exact List.mem_singleton.1 hc' ▸ hc

theorem step_bind {m : Job β} {f : β → Job α} {R : β → JobWorld → Prop}
    (hm : Ends frameContract m (Step s R) () g)
    (hf : ∀ b g, R b g → Ends frameContract (f b) (Step s P) () g) :
    Ends frameContract (m >>= f) (Step s P) () g :=
  ends_bind hm (fun _ _ _ h => h) fun b _ g h => hf b g h

/-- A call that writes nothing. -/
theorem ends_read {c : JobCmd} {f : JobSig.Reply c → Job α} {Q : Except CallError α → Unit →
    JobWorld → Prop} (h : Clean s g) (hc : ¬ c.Writes)
    (hf : ∀ ch g', Clean s g' → g'.calls = g.calls ++ [c] →
      Ends frameContract (f (JobCmd.reply ch s c)) Q () g') :
    Ends frameContract (perform c >>= f) Q () g := by
  refine ends_call_bind trivial ?_
  rintro _ _ _ ⟨ch, -, rfl, rfl⟩ rfl
  have hs := h.state
  subst hs
  exact hf ch _ (h.call hc ch) rfl

/-- A call that returns or raises, as long as nothing has been written. -/
theorem step_read {c : JobCmd} {x : JobSig.Reply c → Except CallError β} {f : β → Job α}
    (h : Clean s g) (hc : ¬ c.Writes) (hf : ∀ b g, Clean s g →
      Ends frameContract (f b) (Step s P) () g) :
    Ends frameContract (perform c >>= fun r => ofExcept (x r) >>= f) (Step s P) () g :=
  ends_read h hc fun _ _ hg _ => ends_ofExcept_bind (fun _ _ => .inl hg) fun b _ => hf b _ hg

/-- A call that writes points, and what it may raise. -/
theorem step_write {c : JobCmd} {x : JobSig.Reply c → Except CallError Unit} {f : Unit → Job α}
    (h : g.state.rows = s.rows) (hc : c.Writes) (hrows : ∀ s, (c.effect s).rows = s.rows)
    (hx : ∀ ch s e, x (JobCmd.reply ch s c) = .error e → e = ch.error)
    (hf : ∀ g, g.state.rows = s.rows → Ends frameContract (f ()) (Step s P) () g) :
    Ends frameContract (perform c >>= fun r => ofExcept (x r) >>= f) (Step s P) () g := by
  refine ends_call_bind trivial ?_
  rintro _ _ _ ⟨ch, hch, rfl, rfl⟩ rfl
  have hkeep : ((c.respond ch g.state).2).rows = s.rows := by
    unfold JobCmd.respond
    split
    · exact h
    · exact (hrows _).trans h
  refine ends_ofExcept_bind (fun e he => .inr ⟨?_, hkeep⟩) fun _ _ => hf _ hkeep
  exact hx _ _ _ he ▸ late_of_mayRaise hc hch.raises

end Steps

/-! ### The steps of `process` -/

section Process

variable {s : IndexState} {g : JobWorld} {event : IngestEvent} {deadline : Micros}
  {service : IngestService} {uuid5 : PyStr → PyStr} {chunks : List PyStr}

theorem answer_error {ch : JobChoice} {e : CallError} (h : JobCmd.answer ch () = .error e) :
    e = ch.error := by
  unfold JobCmd.answer at h
  split at h <;> cases h
  rfl

theorem step_check (h : Clean s g) :
    Ends frameContract (check deadline) (Step s fun _ g => Clean s g) () g := by
  refine ends_read h id fun ch _ h' _ => ?_
  refine ends_ite (c := ch.time ≥ deadline) (fun _ => ?_) fun _ => ?_
  · exact ends_raise (.inl h')
  · exact ends_pure h'

theorem step_embedAll {batches : List (List PyStr)} (h : Clean s g) :
    Ends frameContract (embedAll deadline batches) (Step s fun _ g => Clean s g) () g := by
  induction batches generalizing g with
  | nil => exact ends_pure h
  | cons texts rest ih =>
    refine step_bind (step_check h) fun _ g₁ h₁ => step_read h₁ id fun vectors g₂ h₂ => ?_
    exact step_bind (ih h₂) fun _ _ h₃ => ends_pure h₃

theorem step_upsertAll {batches : List (List StoredPoint)} (h : g.state.rows = s.rows) :
    Ends frameContract (upsertAll batches) (Step s fun _ g => g.state.rows = s.rows) () g := by
  induction batches generalizing g with
  | nil => exact ends_pure h
  | cons batch rest ih =>
    exact step_write h trivial (fun _ => rfl) (fun _ _ _ => answer_error) fun _ h₁ => ih h₁

theorem step_store (h : Clean s g) :
    Ends frameContract (IngestService.store uuid5 service event deadline chunks)
      (Step s fun _ g => g.state.rows = s.rows) () g := by
  refine step_bind (step_embedAll h) fun vectors _ h => step_bind (step_check h) fun _ g h => ?_
  refine ends_ite (fun _ => ends_raise (.inl h)) fun _ => ?_
  have hrows : g.state.rows = s.rows := congrArg IndexState.rows h.state
  refine step_write hrows trivial (fun _ => rfl) (fun _ _ _ => answer_error) fun _ hrows => ?_
  exact step_bind (step_upsertAll hrows) fun _ _ hrows => ends_pure hrows

theorem step_ofJob {α β : Type} {x : Except JobError β} {f : β → Job α} {P : α → JobWorld → Prop}
    (h : Clean s g) (hf : ∀ b, Ends frameContract (f b) (Step s P) () g) :
    Ends frameContract (ofJob x >>= f) (Step s P) () g :=
  ends_ofExcept_bind (fun _ _ => .inl h) fun b _ => hf b

/-- The job reports the document indexed, and it is. -/
def Registered (event : IngestEvent) (r : Outcome) (g : JobWorld) : Prop :=
  (∃ n, r = .indexed n) ∧ (g.state.rows.find? event.hash).isSome

theorem step_register {document : IndexedDocument} {n : Int} (hd : document.hash = event.hash)
    (h : g.state.rows = s.rows) : Ends frameContract (do
      ofExcept (← perform (.register document))
      return Outcome.indexed (some n)) (Step s (Registered event)) () g := by
  refine ends_call_bind trivial ?_
  rintro _ _ _ ⟨ch, hch, rfl, rfl⟩ rfl
  refine ends_ofExcept_bind (fun e he => .inr ⟨?_, ?_⟩) fun _ hr => ends_pure ⟨⟨n, rfl⟩, ?_⟩
  · exact answer_error he ▸ late_of_mayRaise (c := .register document) trivial hch.raises
  · -- atomic: what raised has not been done
    have hrefused : ch.fate = .refused := by
      have hlost := hch.atomic document rfl
      cases hf : ch.fate with
      | refused => rfl
      | lost => exact absurd hf hlost
      | ok => simp [JobCmd.reply, JobCmd.answer, hf] at he
    simpa [JobCmd.respond, hrefused] using h
  · obtain ⟨hok, -⟩ := JobCmd.answer_ok hr
    simp only [JobCmd.respond, hok, JobCmd.effect, reduceCtorEq, if_false,
      Relational.Table.find?_insertOrIgnore, key_indexedDocument, hd, true_and]
    split
    · rfl
    · rwa [← Option.ne_none_iff_isSome]

theorem step_work (hnone : s.rows.find? event.hash = none) (h : g.state = s)
    (hcalls : g.calls = []) : Ends frameContract (work uuid5 service event deadline)
      (Step s (Registered event)) () g := by
  have hclean : Clean s g := ⟨h, by simp [hcalls]⟩
  refine ends_read hclean id fun ch g h _ =>
    ends_ofExcept_bind (fun _ _ => .inl h) fun found hr => ?_
  obtain ⟨-, rfl⟩ := JobCmd.answer_ok hr
  rw [hnone]
  refine step_ofJob h fun parse => ends_ite (fun _ => ends_raise (.inl h)) fun _ => ?_
  refine step_bind (step_check h) fun _ g h => step_read h id fun data g h => ?_
  refine step_bind (step_check h) fun _ g h => step_ofJob h fun chunks => ?_
  refine step_bind (ends_tryExcept (step_store h) (fun _ _ _ h => h) ?_) fun points g hrows => ?_
  · rintro (text | e) _ g (h | ⟨hlate, hrows⟩)
    · exact ends_raise (.inl h)
    · exact ends_raise (.inr ⟨by simp [Late, Early], hrows⟩)
    · exact ends_raise (.inl h)
    · exact ends_raise (.inr ⟨hlate, hrows⟩)
  · refine ends_call_bind trivial ?_
    rintro _ _ _ ⟨ch, -, rfl, rfl⟩ rfl
    exact step_register rfl (by simpa [JobCmd.respond, JobCmd.effect] using hrows)

theorem work_known (h : (g.state.rows.find? event.hash).isSome) (hcalls : g.calls = []) :
    Ends frameContract (work uuid5 service event deadline) (fun _ _ g' => g'.state = g.state ∧
      g'.calls = [.exists event.hash]) () g := by
  refine ends_call_bind trivial ?_
  rintro _ _ _ ⟨ch, -, rfl, rfl⟩ rfl
  have hkeep : ((JobCmd.exists event.hash).respond ch g.state).2 = g.state := by
    rw [JobCmd.respond, JobCmd.effect_eq id, ite_self]
  refine ends_ofExcept_bind (fun e _ => ⟨hkeep, by simp [hcalls]⟩) fun found hr => ?_
  obtain ⟨-, rfl⟩ := JobCmd.answer_ok hr
  rw [h]
  exact ends_pure ⟨hkeep, by simp [hcalls]⟩

end Process

/-! ### The outcome -/

section Outcome

variable {event : IngestEvent} {s : IndexState} {g : JobWorld} {e : CallError} {retryable : Bool}
  {reason : Reason} {detail : Option PyStr}

theorem runJob_error_ne_indexed {chunkCount : Option Int} :
    runJob (.error (CallError.toJobError e)) ≠ .ok (.indexed chunkCount) := by
  obtain _ | ⟨_ | _ | _ | _ | _⟩ := e <;> nofun

theorem not_early_of_late (h : Late e)
    (hr : runJob (.error (CallError.toJobError e)) = .ok (.failed retryable reason detail)) :
    ¬ Early reason := by
  obtain _ | ⟨_ | _ | _ | _ | _⟩ := e <;> cases hr
  all_goals first | exact h | simp [Early]

theorem Frame.of_step {r : Except CallError Outcome} (hnone : s.rows.find? event.hash = none)
    (h : Step s (Registered event) r () g) :
    Frame event s (runJob (r.mapError CallError.toJobError)) g := by
  have hknown : (s.rows.find? event.hash).isSome → g.calls = [.exists event.hash] := by
    simp [hnone]
  cases r with
  | ok outcome =>
    obtain ⟨⟨n, rfl⟩, hsome⟩ := h
    refine ⟨?_, ?_, fun _ _ => hsome, hknown⟩ <;> rintro _ _ _ ⟨⟩
  | error e =>
    have hindexed : ∀ n, runJob (.error (CallError.toJobError e)) = .ok (.indexed n) →
        (g.state.rows.find? event.hash).isSome := fun _ h => absurd h runJob_error_ne_indexed
    obtain hclean | ⟨hlate, hrows⟩ := h
    · exact ⟨fun _ _ _ _ _ => ⟨hclean.state, hclean.calls⟩,
        fun _ _ _ _ => congrArg IndexState.rows hclean.state, hindexed, hknown⟩
    · exact ⟨fun _ _ _ hr hearly => absurd hearly (not_early_of_late hlate hr),
        fun _ _ _ _ => hrows, hindexed, hknown⟩

theorem Frame.of_known {r : Except CallError Outcome} (h : (s.rows.find? event.hash).isSome)
    (hstate : g.state = s) (hcalls : g.calls = [.exists event.hash]) :
    Frame event s (runJob (r.mapError CallError.toJobError)) g where
  untouched _ _ _ _ _ := ⟨hstate, by simp [hcalls, JobCmd.Writes]⟩
  unregistered _ _ _ _ := congrArg IndexState.rows hstate
  registered _ _ := hstate ▸ h
  known _ := hcalls

/-- However the dependencies fail, a job ends, and its outcome tells what it left behind. -/
theorem runJob_frame (uuid5 : PyStr → PyStr) (service : IngestService) (event : IngestEvent)
    (deadline : Micros) (s : IndexState) :
    Prog.Ends frameContract (fun r g => Frame event s (runJob r) g)
      (process uuid5 service event deadline) ⟨s, []⟩ := by
  refine Prog.ends_bind ?_
  by_cases h : (s.rows.find? event.hash).isSome
  · refine Prog.ends_mono (work_known (g := ⟨s, []⟩) h rfl) ?_
    rintro ⟨r, _⟩ g ⟨hstate, hcalls⟩
    exact .ret (.of_known h hstate hcalls)
  · have hnone := Option.not_isSome_iff_eq_none.1 h
    refine Prog.ends_mono (step_work (g := ⟨s, []⟩) hnone rfl rfl) ?_
    exact fun _ _ hstep => .ret (.of_step hnone hstep)

end Outcome

end Rag
