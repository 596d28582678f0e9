import RagPipeline.Pipeline.Processes
import RagPipeline.Rag.AckOrder
import RagPipeline.Rag.NotedConsumer

/-!
# While a status is held

One consumer process against arbitrary replies, with a note in its record where `_finish` holds.
From there on until the status is published the process does little else than try to publish it.

## Main definitions

* `slot`: what a record leaves held.
* `Still`: the commands of a consumer that holds a status.
* `StandsStill`: what a record shows from a hold on.

## Main results

* `held_stands_still`: every record of a consumer is of this kind.
-/
namespace Rag

open Events Wire Interact Method StreamConsumer Pipeline

abbrev NotedExchange := (c : NotedCall.Cmd) × NotedCall.Reply c

namespace NotedExchange

def command (c : ConsumerCmd) (r : ConsumerSig.Reply c) : NotedExchange := ⟨Sum.inl (Sum.inl c), r⟩

def job (call : JobCall) (r : Except JobError Outcome) : NotedExchange :=
  ⟨Sum.inl (Sum.inr call), r⟩

def hold (x : Hold) : NotedExchange := ⟨Sum.inr x, ()⟩

/-- The status that was added. -/
def published : NotedExchange → Option StatusEvent
  | ⟨Sum.inl (Sum.inl (.xadd status)), r⟩ => match (r : Except PyError Unit) with
    | .ok _ => some status
    | .error _ => none
  | _ => none

def held : NotedExchange → Option Hold
  | ⟨Sum.inr x, _⟩ => some x
  | _ => none

theorem eq_hold {x : NotedExchange} {h : Hold} (hx : x.held = some h) : x = .hold h := by
  obtain ⟨_ | _, _⟩ := x
  · cases hx
  · cases hx
    rfl

end NotedExchange

/-- One consumer process; a reply may be anything of its type. -/
def notedProcess (settings : ConsumerSettings) (name : String) :
    Actors Unit (List NotedExchange) where
  sig _ := NotedCall
  main _ := Noted.main settings name
  Choice := (c : NotedCall.Cmd) → NotedCall.Reply c
  respond _ c reply record := (reply c, ⟨c, reply c⟩ :: record)
  enter _ record := record
  leave _ record := record
  Env := Empty
  env := nofun

/-- What is held at the end of a record: what the last note says, unless something was published
since. -/
def slot : List NotedExchange → Option Hold
  | [] => none
  | x :: before => x.held.or (if x.published.isSome then none else slot before)

/-- The entry whose status has just been published after it was held. -/
def due : List NotedExchange → Option EntryId
  | [] => none
  | x :: before => if x.published.isSome then (slot before).map Prod.fst else none

/-- The commands of consumer `name` while it holds the status of entry `id`. -/
inductive Still (name : String) (id : EntryId) (status : StatusEvent) : ConsumerCmd → Prop
  | add : Still name id status (.xadd status)
  | renew : Still name id status (.xclaim name id)
  | info : Still name id status .xinfoConsumers
  | forget {other : String} (h : other ≠ name) : Still name id status (.xgroupDelconsumer other)
  | clock : Still name id status .clock
  | sleep (duration : Micros) : Still name id status (.sleep duration)
  | stopped : Still name id status .stopped

/-- What is pending was pending before, and delivered as often. -/
def KeepsCounts (s s' : Streams.Stream Fields String) : Prop :=
  ∀ gr', s'.group = some gr' → ∃ gr, s.group = some gr ∧ ∀ p' ∈ gr'.pending, ∃ p ∈ gr.pending,
    p.id = p'.id ∧ p.deliveries = p'.deliveries

structure StandsStill (name : String) (record : List NotedExchange) : Prop where
  /-- No entry is read or claimed, no job is started, and no other status is published. -/
  still : ∀ after x before id status, record = after ++ x :: before →
    slot before = some (id, status) → ∃ c r, x = .command c r ∧ Still name id status c
  /-- The acknowledgement comes next. -/
  acked : ∀ after y x before id status, record = after ++ y :: x :: before →
    slot before = some (id, status) → x.published = some status → ∃ r, y = .command (.xack id) r

section Record

variable {name : String} {id : EntryId} {status : StatusEvent} {c : ConsumerCmd}
  {record : List NotedExchange} {x : NotedExchange}

theorem keepsCounts_refl (s : Streams.Stream Fields String) : KeepsCounts s s :=
  fun gr hgr => ⟨gr, hgr, fun p hp => ⟨p, hp, rfl, rfl⟩⟩

theorem keepsCounts_withGroup {α : Type} {s : Streams.Stream Fields String}
    {f : Streams.Group String → α × Streams.Group String}
    (h : ∀ gr, ∀ p' ∈ (f gr).2.pending, ∃ p ∈ gr.pending,
      p.id = p'.id ∧ p.deliveries = p'.deliveries) : KeepsCounts s (s.withGroup f).2 := by
  intro gr' hgr'
  unfold Streams.Stream.withGroup at hgr'
  split at hgr'
  case h_1 gr hgr =>
    cases hgr'
    exact ⟨gr, hgr, h gr⟩
  case h_2 hnone => cases hnone.symm.trans hgr'

/-- No delivery is added. -/
theorem Still.keepsCounts (h : Still name id status c) (ch : PipelineChoice)
    (s : Streams.Stream Fields String) : KeepsCounts s (ingestAfter ch s c) := by
  cases h with
  | add | info | clock | sleep | stopped => exact keepsCounts_refl s
  | renew =>
    refine keepsCounts_withGroup fun gr p' hp' => ?_
    obtain ⟨p, hp, rfl⟩ := List.mem_map.1 hp'
    refine ⟨p, (List.mem_filter.1 hp).1, ?_⟩
    split <;> exact ⟨rfl, rfl⟩
  | forget =>
    refine keepsCounts_withGroup fun gr p' hp' => ⟨p', (List.mem_filter.1 hp').1, rfl, rfl⟩

theorem StandsStill.cons (h : StandsStill name record)
    (hstill : ∀ id status, slot record = some (id, status) →
      ∃ c r, x = .command c r ∧ Still name id status c)
    (hack : ∀ id, due record = some id → ∃ r, x = .command (.xack id) r) :
    StandsStill name (x :: record) where
  still after x' before id status he hslot := by
    cases after with
    | nil =>
      cases he
      exact hstill id status hslot
    | cons y after =>
      cases he
      exact h.still after x' before id status rfl hslot
  acked after y x' before id status he hslot hpub := by
    cases after with
    | nil =>
      cases he
      exact hack id (by simp [due, hpub, hslot])
    | cons z after =>
      cases he
      exact h.acked after y x' before id status rfl hslot hpub

end Record

/-! ### What the process works under -/

def standContract (settings : ConsumerSettings) (name : String) :
    Contract NotedCall (List NotedExchange) where
  inv := StandsStill name
  rely g g' := g' = g
  guard c g := (∀ id status, slot g = some (id, status) →
      ∃ c', c = Sum.inl (Sum.inl c') ∧ Still name id status c') ∧
    ∀ id, due g = some id → c = Sum.inl (Sum.inl (.xack id))
  exec c g r g' := ∃ ch, True ∧ (notedProcess settings name).respond () c ch g = (r, g')

/-- The same for a method without notes. -/
abbrev plainContract (settings : ConsumerSettings) (name : String) :
    Contract ConsumerCall (List NotedExchange) :=
  (standContract settings name).withoutNotes

def ConsumerCmd.Adds : ConsumerCmd → Prop
  | .xadd _ => True
  | _ => False

/-- Nothing is held, and no acknowledgement is due. -/
def Clear (g : List NotedExchange) : Prop := slot g = none ∧ due g = none

/-- The record shows what is held. -/
def Agrees (s : ConsumerState) (g : List NotedExchange) : Prop := slot g = s.held ∧ due g = none

section Commands

variable {settings : ConsumerSettings} {name : String} {s : ConsumerState}
  {g : List NotedExchange} {α : Type}

theorem exec_stand {c : NotedCall.Cmd} {r : NotedCall.Reply c} {g' : List NotedExchange}
    (h : (standContract settings name).exec c g r g') : g' = ⟨c, r⟩ :: g := by
  obtain ⟨ch, -, h⟩ := h
  cases h
  rfl

/-- The fields stay as they are, whatever the answers. -/
def FieldsStay (m : Consumer α) : Prop := ∀ s, wp .any m (fun _ s' _ => s' = s) s ()

theorem Clear.cons (h : Clear g) {x : NotedExchange} (hx : x.held = none) : Clear (x :: g) := by
  simp [Clear, slot, due, hx, h.1]

/-- Where nothing is held a method may do anything. -/
theorem wp_clear {m : Consumer α} {Q : Except PyError α → ConsumerState → Prop}
    (h : wp .any m (fun r s' _ => Q r s') s ()) (hc : Clear g) :
    wp (plainContract settings name) m (fun r s' g' => Q r s' ∧ Clear g') s g := by
  refine wp_of_any (fun c g _ hg => ?_) h hc
  refine ⟨⟨by simp [hg.1], by simp [hg.2]⟩, ?_⟩
  rintro r _ _ ⟨ch, -, ⟨⟩⟩ - rfl
  refine hg.cons ?_
  rcases c with c | c <;> rfl

/-- A command that is issued as well while a status is held, and adds nothing. -/
theorem wp_still {c : ConsumerCmd} (h : Agrees s g)
    (hc : ∀ id status, s.held = some (id, status) → Still name id status c)
    (hadd : ¬ c.Adds) :
    wp (plainContract settings name) (perform c)
      (fun _ s' g' => s' = s ∧ Agrees s g') s g := by
  have hmay : ∀ id status, slot g = some (id, status) → Still name id status c :=
    fun id status hs => hc id status (h.1 ▸ hs)
  refine wp_call (fun _ => ⟨fun id status hs => ⟨c, rfl, hmay id status hs⟩, by simp [h.2]⟩) ?_
  rintro r _ _ - ⟨ch, -, ⟨⟩⟩ - rfl
  refine ⟨rfl, ?_⟩
  cases c <;> first | exact absurd trivial hadd | exact ⟨h.1, rfl⟩

end Commands

/-! ### The fields a method touches -/

section Fields

variable {settings : ConsumerSettings} {name : String} {id : EntryId} {event : IngestEvent}
  {status : StatusEvent} {α β : Type}

theorem stay_pure {a : α} : FieldsStay (pure a) := fun _ => wp_pure rfl

theorem stay_raise {e : PyError} : FieldsStay (raise e : Consumer α) := fun _ => wp_raise rfl

theorem stay_ofExcept {x : Except PyError α} : FieldsStay (ofExcept x) := fun _ => wp_ofExcept rfl

theorem stay_call {c : ConsumerCall.Cmd} : FieldsStay (call c : Consumer _) :=
  fun _ => wp_call (fun _ => trivial) fun _ _ _ _ _ _ _ => rfl

theorem stay_bind {m : Consumer β} {f : β → Consumer α} (hm : FieldsStay m)
    (hf : ∀ b, FieldsStay (f b)) : FieldsStay (m >>= f) := by
  refine fun s => wp_bind (hm s) (fun _ _ _ h => h) ?_
  rintro b s ⟨⟩ rfl
  exact hf b s

theorem stay_tryExcept {m : Consumer α} {h : PyError → Consumer α} (hm : FieldsStay m)
    (hh : ∀ e, FieldsStay (h e)) : FieldsStay (tryExcept m h) := by
  refine fun s => wp_tryExcept (hm s) (fun _ _ _ h => h) ?_
  rintro e s ⟨⟩ rfl
  exact hh e s

theorem stay_ite {c : Prop} [Decidable c] {m n : Consumer α} (hm : FieldsStay m)
    (hn : FieldsStay n) : FieldsStay (if c then m else n) := by
  split
  · exact hm
  · exact hn

/-- A command whose answer may be an exception. -/
theorem stay_request {c : ConsumerCmd} {x : ConsumerSig.Reply c → Except PyError α} :
    FieldsStay (do ofExcept (x (← perform c))) :=
  stay_bind stay_call fun _ => stay_ofExcept

theorem stay_ack : FieldsStay (ack id) :=
  stay_tryExcept (stay_request (c := .xack id)) fun _ => stay_ite stay_pure stay_raise

theorem stay_parse {fields : Option Fields} : FieldsStay (parse id fields) := by
  unfold parse
  cases accepted fields with
  | some event => exact stay_pure
  | none => exact stay_bind stay_ack fun _ => stay_pure

theorem stay_tryAdd : FieldsStay (tryAdd status) := by
  refine stay_tryExcept ?_ fun _ => stay_ite stay_pure stay_raise
  exact stay_bind (stay_request (c := .xadd status)) fun _ => stay_pure

theorem stay_publishLoop (reclaimableAt : Micros) (attempts : Nat) :
    FieldsStay (publishLoop settings status reclaimableAt attempts) := by
  induction attempts with
  | zero => exact stay_pure
  | succ attempts ih =>
    refine stay_bind stay_tryAdd fun ok => stay_ite stay_pure (stay_ite stay_pure ?_)
    refine stay_bind stay_call fun (full : Bool) => stay_ite stay_pure ?_
    exact stay_bind stay_call fun now => stay_ite stay_pure ih

theorem stay_newStatus {make : PyStr → Int → Except InvalidEvent StatusEvent} :
    FieldsStay (newStatus make) :=
  stay_bind stay_call fun _ => stay_bind stay_call fun _ => stay_ofExcept

theorem stay_claimOne (pages : Nat) (cursor : EntryId) :
    FieldsStay (claimOne settings name pages cursor) := by
  induction pages generalizing cursor with
  | zero => exact stay_pure
  | succ pages ih =>
    refine stay_bind stay_call fun r => stay_bind stay_ofExcept fun claimed => ?_
    split
    · exact stay_pure
    · exact stay_ite stay_pure (ih _)

theorem stay_ownPending : FieldsStay (ownPending name id) := by
  refine stay_tryExcept (stay_bind stay_call fun r => stay_bind stay_ofExcept fun o => ?_)
    fun _ => stay_ite stay_pure stay_raise
  cases o <;> exact stay_pure

theorem stay_ensureGroupUntilReady : FieldsStay (ensureGroupUntilReady settings) := by
  intro s
  refine wp_loop (fun _ s' _ => s' = s) rfl ?_
  rintro _ s' ⟨⟩ rfl
  have hensure : FieldsStay ensureGroup := by
    refine stay_tryExcept (stay_request (c := .xgroupCreate)) fun e => ?_
    split
    · exact stay_pure
    · exact stay_raise
  have hbody : FieldsStay (do
      if ← stopped then
        return .inr false
      tryExcept (do ensureGroup; return .inr true) fun e => do
        if e.isRedisError then
          if ← sleep settings.retryDelay then return .inl () else return .inr false
        else
          raise e : Consumer (Unit ⊕ Bool)) := by
    refine stay_bind stay_call fun (stop : Bool) => stay_ite stay_pure ?_
    refine stay_tryExcept (stay_bind hensure fun _ => stay_pure) fun e => stay_ite ?_ stay_raise
    exact stay_bind stay_call fun (full : Bool) => stay_ite stay_pure stay_pure
  refine wp_mono (hbody s') fun r s'' _ _ h => ?_
  rcases r with _ | _ | _ <;> exact h

/-- If the method raises, the fields are as they were. -/
def SafeRaise (m : Consumer α) : Prop :=
  ∀ s, wp .any m (fun r s' _ => ∀ e, r = .error e → s' = s) s ()

theorem FieldsStay.safeRaise {m : Consumer α} (h : FieldsStay m) : SafeRaise m :=
  fun s => wp_mono (h s) fun _ _ _ _ h _ _ => h

theorem safeRaise_bind {m : Consumer β} {f : β → Consumer α} (hm : FieldsStay m)
    (hf : ∀ b, SafeRaise (f b)) : SafeRaise (m >>= f) := by
  refine fun s => wp_bind (hm s) (fun _ _ _ h _ _ => h) ?_
  rintro b s ⟨⟩ rfl
  exact hf b s

theorem safeRaise_finish (started : Micros) : SafeRaise (finish settings id status started) := by
  refine safeRaise_bind (stay_publishLoop _ _) fun ok => ?_
  cases ok with
  | true => exact (stay_bind stay_ack fun _ => stay_pure).safeRaise
  | false =>
    refine fun s => wp_bind (R := fun r _ _ => r = .ok ()) (wp_assign rfl) (fun _ _ _ => nofun) ?_
    exact fun _ _ _ _ => wp_pure nofun

theorem safeRaise_handle : SafeRaise (handle settings id event) := by
  refine safeRaise_bind stay_call fun started => safeRaise_bind stay_call fun now => ?_
  refine safeRaise_bind stay_call fun _ => safeRaise_bind ?_ fun outcome => ?_
  · refine stay_bind (stay_tryExcept (stay_bind stay_call fun _ => stay_ofExcept) fun _ => ?_)
      fun _ => stay_bind stay_call fun _ => stay_pure
    exact stay_bind stay_call fun _ => stay_raise
  · exact safeRaise_bind stay_newStatus fun status => safeRaise_finish started

theorem safeRaise_reportPoison {deliveries : Int} :
    SafeRaise (reportPoison settings id event deliveries) := by
  refine safeRaise_bind stay_newStatus fun status => safeRaise_bind stay_call fun started => ?_
  intro s
  refine wp_bind (safeRaise_finish started s) (fun _ _ _ h _ he => h _ (by cases he; rfl)) ?_
  exact fun _ _ _ _ => wp_pure nofun

end Fields

/-! ### One walk along the code -/

section Walk

variable {settings : ConsumerSettings} {name : String} {s : ConsumerState}
  {g : List NotedExchange} {α : Type} {id : EntryId} {status : StatusEvent}

theorem Agrees.clear (h : Agrees s g) (hs : s.held = none) : Clear g := ⟨h.1.trans hs, h.2⟩

theorem Clear.agrees (h : Clear g) (hs : s.held = none) : Agrees s g := ⟨h.1.trans hs.symm, h.2⟩

/-- Nothing is held when the method raises. -/
def Calm (r : Except PyError α) (s : ConsumerState) (g : List NotedExchange) : Prop :=
  Agrees s g ∧ ∀ e, r = .error e → s.held = none

/-- No Redis error is raised while something is held. -/
def Stood (r : Except PyError α) (s : ConsumerState) (g : List NotedExchange) : Prop :=
  Agrees s g ∧ ∀ e, r = .error e → s.held = none ∨ e.isRedisError = false

theorem Calm.stood {r : Except PyError α} (h : Calm r s g) : Stood r s g :=
  ⟨h.1, fun e he => .inl (h.2 e he)⟩

theorem Calm.raised {β : Type} {e : PyError} (h : Calm (.error e : Except PyError α) s g) :
    Calm (.error e : Except PyError β) s g :=
  ⟨h.1, fun _ _ => h.2 e rfl⟩

theorem Stood.raised {β : Type} {e : PyError} (h : Stood (.error e : Except PyError α) s g) :
    Stood (.error e : Except PyError β) s g :=
  ⟨h.1, fun _ he => h.2 _ (congrArg _ (Except.error.inj he))⟩

theorem Clear.calm {r : Except PyError α} {s' : ConsumerState} (hs : s.held = none)
    (h : s' = s ∧ Clear g) : Calm r s' g := by
  obtain ⟨rfl, hc⟩ := h
  exact ⟨hc.agrees hs, fun _ _ => hs⟩

theorem wp_lift_clear {m : Consumer α} {Q : Except PyError α → ConsumerState → Prop}
    (h : wp .any m (fun r s' _ => Q r s') s ()) (hc : Clear g) :
    wp (standContract settings name) (lift m) (fun r s' g' => Q r s' ∧ Clear g') s g :=
  wp_lift (wp_clear h hc)

theorem wp_stay {m : Consumer α} (hm : FieldsStay m) (hc : Clear g) :
    wp (standContract settings name) (lift m) (fun _ s' g' => s' = s ∧ Clear g') s g :=
  wp_lift_clear (hm s) hc

/-- The note stands where the method has put something into the slot. -/
theorem wp_noting {m : Consumer α} (hm : SafeRaise m) (hs : s.held = none) (hc : Clear g) :
    wp (standContract settings name) (Noted.noting m) Calm s g := by
  refine wp_bind (wp_lift_clear (hm s) hc) (fun e s' g' ⟨he, hc'⟩ => ?_) fun a s' g' ⟨_, hc'⟩ => ?_
  · exact Clear.calm hs ⟨he e rfl, hc'⟩
  · obtain ⟨held, failures⟩ := s'
    cases held with
    | none => exact wp_pure (Clear.calm rfl ⟨rfl, hc'⟩)
    | some x =>
      refine wp_call_bind (fun _ => ⟨by simp [hc'.1], by simp [hc'.2]⟩) ?_
      rintro r _ _ - ⟨ch, -, ⟨⟩⟩ - rfl
      exact wp_pure ⟨⟨by simp [slot, NotedExchange.held], rfl⟩, nofun⟩

theorem wp_readOnce (h : Agrees s g) (hs : s.held = none) :
    wp (standContract settings name) (Noted.readOnce settings name) Calm s g := by
  refine wp_bind (wp_stay stay_call (h.clear hs)) (fun _ _ _ h => Clear.calm hs h) ?_
  rintro reply s g ⟨rfl, hc⟩
  refine wp_bind (wp_stay stay_ofExcept hc) (fun _ _ _ h => Clear.calm hs h) ?_
  rintro ⟨entries, hbound⟩ s g ⟨rfl, hc⟩
  -- COUNT 1: after the entry whose status is held there is none
  match entries, hbound with
  | [], _ => exact wp_pure (Clear.calm hs ⟨rfl, hc⟩)
  | [e], _ =>
    refine wp_bind (R := Calm) ?_ (fun _ _ _ h => h.raised) fun _ s' g' h => wp_pure ⟨h.1, nofun⟩
    refine wp_bind (wp_stay stay_parse hc) (fun _ _ _ h => Clear.calm hs h) ?_
    rintro o s g ⟨rfl, hc⟩
    cases o with
    | none => exact wp_pure (Clear.calm hs ⟨rfl, hc⟩)
    | some event =>
      refine wp_bind (wp_noting safeRaise_handle hs hc) (fun _ _ _ h => h.raised) ?_
      exact fun _ s' g' h => wp_pure ⟨h.1, nofun⟩
  | _ :: _ :: _, hbound => simp at hbound

theorem wp_claimAndProcess (jobs : Nat) (h : Agrees s g) (hs : s.held = none) :
    wp (standContract settings name) (Noted.claimAndProcess settings name jobs) Calm s g := by
  induction jobs generalizing s g with
  | zero => exact wp_pure ⟨h, nofun⟩
  | succ jobs ih =>
    have hrest (s : ConsumerState) (g : List NotedExchange) (h : Agrees s g) :
        wp (standContract settings name) (Method.self >>= fun s => if s.held.isSome then pure ()
          else Noted.claimAndProcess settings name jobs) Calm s g := by
      change wp (standContract settings name) (if s.held.isSome then pure ()
        else Noted.claimAndProcess settings name jobs) Calm s g
      refine wp_ite (fun _ => wp_pure ⟨h, nofun⟩) fun hheld => ih h ?_
      simpa using hheld
    refine wp_bind (wp_stay (stay_claimOne _ _) (h.clear hs)) (fun _ _ _ h => Clear.calm hs h) ?_
    rintro o s₁ g₁ ⟨rfl, hc₁⟩
    cases o with
    | none => exact wp_pure (Clear.calm hs ⟨rfl, hc₁⟩)
    | some e =>
      refine wp_bind (wp_stay stay_parse hc₁) (fun _ _ _ h => Clear.calm hs h) ?_
      rintro o s₂ g₂ ⟨rfl, hc₂⟩
      cases o with
      | none => exact ih (hc₂.agrees hs) hs
      | some event =>
        refine wp_bind (wp_stay stay_ownPending hc₂) (fun _ _ _ h => Clear.calm hs h) ?_
        rintro o s₃ g₃ ⟨rfl, hc₃⟩
        cases o with
        | none => exact ih (hc₃.agrees hs) hs
        | some deliveries =>
          refine wp_ite (fun _ => ?_) fun _ => ?_
          · exact wp_bind (wp_noting safeRaise_reportPoison hs hc₃) (fun _ _ _ h => h.raised)
              fun _ s' g' h' => hrest s' g' h'.1
          · exact wp_bind (wp_noting safeRaise_handle hs hc₃) (fun _ _ _ h => h.raised)
              fun _ s' g' h' => hrest s' g' h'.1

/-- What is not caught is no Redis error. -/
theorem wp_catching {m : Consumer α} {p : PyError → Bool} {a : α}
    (hp : ∀ e, p e = false → e.isRedisError = false)
    (hm : wp (plainContract settings name) m (fun _ s' g' => s' = s ∧ Agrees s g') s g) :
    wp (plainContract settings name) (tryExcept m fun e => if p e then pure a else raise e)
      (fun r s' g' => s' = s ∧ Agrees s g' ∧ ∀ e, r = .error e → e.isRedisError = false) s g := by
  refine wp_tryExcept hm (fun _ _ _ h => ⟨h.1, h.2, nofun⟩) fun e s' g' ⟨hs', h'⟩ => ?_
  refine wp_ite (fun _ => wp_pure ⟨hs', h', nofun⟩) fun he => wp_raise ⟨hs', h', ?_⟩
  rintro _ ⟨⟩
  exact hp e (by simpa using he)

/-- Consumers of other names may be deleted while a status is held. -/
theorem wp_cleanupConsumers (h : Agrees s g) :
    wp (plainContract settings name) (cleanupConsumers settings name)
      (fun r s' g' => s' = s ∧ Agrees s g' ∧ ∀ e, r = .error e → e.isRedisError = false) s g := by
  refine wp_catching (fun _ he => he) ?_
  have hinfo : wp (plainContract settings name) (perform .xinfoConsumers)
      (fun _ s' g' => s' = s ∧ Agrees s g') s g := wp_still h (fun _ _ _ => .info) not_false
  refine wp_bind hinfo (fun _ _ _ h => h) ?_
  rintro r s' g₁ ⟨hs', h₁⟩
  subst hs'
  refine wp_ofExcept_bind (fun _ _ => ⟨rfl, h₁⟩) fun consumers hr => ?_
  clear hr
  induction consumers generalizing g₁ with
  | nil => exact wp_pure ⟨rfl, h₁⟩
  | cons c consumers ih =>
    have hdelete : wp (plainContract settings name) (if c.name = name ∨ c.pending ≠ 0 ∨
          c.idle ≤ ms settings.cleanupIdle then pure ()
        else do ofExcept (← perform (.xgroupDelconsumer c.name)) : Consumer Unit)
        (fun _ s'' g' => s'' = s' ∧ Agrees s' g') s' g₁ := by
      refine wp_ite (fun _ => wp_pure ⟨rfl, h₁⟩) fun hskip => ?_
      have hforget : wp (plainContract settings name) (perform (.xgroupDelconsumer c.name))
          (fun _ s'' g' => s'' = s' ∧ Agrees s' g') s' g₁ :=
        wp_still h₁ (fun _ _ _ => .forget fun hn => hskip (.inl hn)) not_false
      exact wp_bind hforget (fun _ _ _ h => h) fun _ _ _ h => wp_ofExcept h
    refine wp_bind hdelete (fun _ _ _ h => h) ?_
    rintro _ _ g₂ ⟨rfl, h₂⟩
    exact ih g₂ h₂

theorem wp_recoverOnce (h : Agrees s g) (hs : s.held = none) :
    wp (standContract settings name) (Noted.recoverOnce settings name) Stood s g := by
  have htry : wp (standContract settings name)
      (tryExcept (do Noted.claimAndProcess settings name settings.maxRecoveryJobs; return none)
        fun e => if e.isException then return some e else raise e)
      (fun r s' g' => Agrees s' g' ∧ (r = .ok none ∨ s'.held = none)) s g := by
    refine wp_tryExcept (R := fun r s' g' => Agrees s' g' ∧ (r = .ok none ∨ s'.held = none)) ?_
      (fun _ _ _ h => h) fun e s' g' h' => ?_
    · refine wp_bind (wp_claimAndProcess _ h hs) (fun e _ _ h' => ⟨h'.1, .inr (h'.2 e rfl)⟩) ?_
      exact fun _ _ _ h' => wp_pure ⟨h'.1, .inl rfl⟩
    · have hnone : s'.held = none := h'.2.resolve_left nofun
      exact wp_ite (fun _ => wp_pure ⟨h'.1, .inr hnone⟩) fun _ => wp_raise ⟨h'.1, .inr hnone⟩
  refine wp_bind htry (fun e s' g' h' => ⟨h'.1, fun _ _ => .inl (h'.2.resolve_left nofun)⟩)
    fun claimError s' g' h' => ?_
  refine wp_bind (wp_lift (wp_cleanupConsumers h'.1)) (fun e s'' g'' h'' => ?_) ?_
  · obtain ⟨rfl, ha, he⟩ := h''
    exact ⟨ha, fun e' he' => .inr (he e' (congrArg _ (Except.error.inj he')))⟩
  · rintro _ s'' g'' ⟨rfl, ha, -⟩
    cases claimError with
    | none => exact wp_pure ⟨ha, nofun⟩
    | some e => exact wp_raise ⟨ha, fun _ _ => .inl (h'.2.resolve_left nofun)⟩

theorem wp_renew (h : Agrees s g) (hs : s.held = some (id, status)) :
    wp (plainContract settings name) (renew name id)
      (fun r s' g' => s' = s ∧ Agrees s g' ∧ ∀ e, r = .error e → e.isRedisError = false) s g := by
  refine wp_catching (fun e he => ?_) ?_
  · cases e <;> first | rfl | cases he
  · have hclaim : wp (plainContract settings name) (perform (.xclaim name id))
        (fun _ s' g' => s' = s ∧ Agrees s g') s g := by
      refine wp_still h (fun id' status' hs' => ?_) not_false
      cases hs.symm.trans hs'
      exact .renew
    exact wp_bind hclaim (fun _ _ _ h => h) fun _ _ _ h => wp_ofExcept h

/-- The held status was published and is to be acknowledged. -/
def Owes (id : EntryId) (g : List NotedExchange) : Prop := slot g = none ∧ due g = some id

theorem wp_tryAdd (h : Agrees s g) (hs : s.held = some (id, status)) :
    wp (plainContract settings name) (tryAdd status) (fun r s' g' => s' = s ∧
      (r = .ok true ∧ Owes id g' ∨ r ≠ .ok true ∧ Agrees s g') ∧
      ∀ e, r = .error e → e.isRedisError = false) s g := by
  have hslot : slot g = some (id, status) := h.1.trans hs
  have hadd : wp (plainContract settings name) (StreamConsumer.add status)
      (fun r s' g' => s' = s ∧ (r = .ok () ∧ Owes id g' ∨ r ≠ .ok () ∧ Agrees s g')) s g := by
    refine wp_call_bind (fun _ => ⟨fun id' status' hs' => ?_, by simp [h.2]⟩) ?_
    · cases hslot.symm.trans hs'
      exact ⟨_, rfl, .add⟩
    · rintro r _ _ - hx - rfl
      obtain rfl := exec_stand hx
      change Except PyError Unit at r
      refine wp_ofExcept ⟨rfl, ?_⟩
      cases r with
      | ok u => exact .inl ⟨rfl, rfl, by simp [due, NotedExchange.published, hslot]⟩
      | error e => exact .inr ⟨nofun, h.1, rfl⟩
  refine wp_tryExcept (R := fun r s' g' => s' = s ∧
    (r = .ok true ∧ Owes id g' ∨ r ≠ .ok true ∧ Agrees s g')) ?_ ?_ ?_
  · refine wp_bind hadd (fun e _ _ h => ⟨h.1, .inr ⟨nofun, ?_⟩⟩) fun _ s' g' h => wp_pure ⟨h.1, ?_⟩
    · exact (h.2.resolve_left fun ⟨he, _⟩ => by cases he).2
    · exact .inl ⟨rfl, (h.2.resolve_right fun ⟨hne, _⟩ => hne rfl).2⟩
  · exact fun _ _ _ h => ⟨h.1, h.2, nofun⟩
  · intro e s' g' h
    have hagrees : Agrees s g' := (h.2.resolve_left fun ⟨he, _⟩ => by cases he).2
    refine wp_ite (fun _ => wp_pure ⟨h.1, .inr ⟨nofun, hagrees⟩, nofun⟩) fun he => ?_
    refine wp_raise ⟨h.1, .inr ⟨nofun, hagrees⟩, ?_⟩
    rintro _ ⟨⟩
    simpa using he

/-- The acknowledgement that is due. -/
theorem wp_ack_due (h : Owes id g) (hs : s.held = none) :
    wp (plainContract settings name) (ack id) Calm s g := by
  have hack : wp (plainContract settings name) (perform (.xack id))
      (fun _ s' g' => s' = s ∧ Clear g') s g := by
    refine wp_call (fun _ => ⟨by simp [h.1], fun id' hid => ?_⟩) ?_
    · cases h.2.symm.trans hid
      rfl
    · rintro r _ _ - hx - rfl
      obtain rfl := exec_stand hx
      exact ⟨rfl, h.1, rfl⟩
  refine wp_tryExcept (R := fun _ s' g' => s' = s ∧ Clear g')
    (wp_bind hack (fun _ _ _ h => h) fun _ _ _ h => wp_ofExcept h)
    (fun _ _ _ h => Clear.calm hs h) fun e s' g' h => ?_
  exact wp_ite (fun _ => wp_pure (Clear.calm hs h)) fun _ => wp_raise (Clear.calm hs h)

/-- Retrying the held status; the acknowledgement is due as soon as it was published. -/
theorem wp_retryHeld (h : Agrees s g) (hs : s.held = some (id, status)) :
    wp (standContract settings name) (lift (retryHeld name)) Stood s g := by
  refine wp_lift ?_
  obtain ⟨held, failures⟩ := s
  obtain rfl : held = some (id, status) := hs
  have hrenew := @wp_renew settings name _ _ _ _ h rfl
  refine wp_self_bind (wp_bind hrenew (fun e s' g' ⟨hs', h', he⟩ => ?_) ?_)
  · exact ⟨hs' ▸ h', fun e' he' => .inr (he e' (congrArg _ (Except.error.inj he')))⟩
  rintro _ s g ⟨rfl, h, -⟩
  refine wp_bind (wp_tryAdd h rfl) (fun e s' g' ⟨hs', h', he⟩ => ?_) ?_
  · have hagrees : Agrees ⟨some (id, status), failures⟩ g' :=
      (h'.resolve_left fun ⟨he, _⟩ => by cases he).2
    exact ⟨hs' ▸ hagrees, fun e' he' => .inr (he e' (congrArg _ (Except.error.inj he')))⟩
  rintro ok s g ⟨rfl, h, -⟩
  refine wp_ite (fun hok => ?_) fun hok => ?_
  · have howes : Owes id g := (h.resolve_right fun ⟨hne, _⟩ => hne (congrArg _ hok)).2
    change wp (plainContract settings name) (ack id >>= fun _ => pure true) Stood ⟨none, 0⟩ g
    refine wp_bind (wp_ack_due howes rfl) (fun _ _ _ h => h.raised.stood) fun _ s' g' h => ?_
    exact wp_pure ⟨h.1, nofun⟩
  · have hagrees : Agrees ⟨some (id, status), failures⟩ g := by
      refine (h.resolve_left fun ⟨he, _⟩ => ?_).2
      cases he
      exact hok rfl
    change wp (plainContract settings name) (pure false) Stood
      ⟨some (id, status), failures + 1⟩ g
    exact wp_pure ⟨hagrees, nofun⟩

/-! ### The main loop -/

theorem wp_quiet {c : ConsumerCmd} (h : Agrees s g)
    (hc : ∀ id status, Still name id status c) (hadd : ¬ c.Adds) :
    wp (standContract settings name) (lift (perform c)) (fun _ s' g' => s' = s ∧ Agrees s g') s g :=
  wp_lift (wp_still h (fun id status _ => hc id status) hadd)

theorem wp_sleep (h : Agrees s g) :
    wp (standContract settings name) (lift (sleep settings.retryDelay)) (fun _ => Agrees) s g :=
  wp_mono (wp_quiet h (fun _ _ => .sleep _) not_false) fun _ _ _ _ h => h.1 ▸ h.2

theorem wp_guarded {step : NotedConsumer Unit}
    (hstep : wp (standContract settings name) step Stood s g) :
    wp (standContract settings name) (Noted.guarded settings step) (fun _ => Agrees) s g := by
  refine wp_tryExcept hstep (fun _ _ _ h => h.1) fun e s g h => ?_
  have hsleep : wp (standContract settings name)
      (lift (sleep settings.retryDelay) >>= fun _ => pure ()) (fun _ => Agrees) s g :=
    wp_bind (wp_sleep h.1) (fun _ _ _ h => h) fun _ _ _ h => wp_pure h
  refine wp_ite (fun hredis => ?_) fun _ => wp_ite (fun _ => hsleep) fun _ => wp_raise h.1
  have hs : s.held = none := (h.2 e rfl).resolve_right (by simp [hredis])
  refine wp_ite (fun _ => ?_) fun _ => hsleep
  refine wp_bind (wp_stay stay_ensureGroupUntilReady (h.1.clear hs)) ?_ ?_
  · rintro _ _ _ ⟨rfl, hc⟩
    exact hc.agrees hs
  · rintro _ _ _ ⟨rfl, hc⟩
    exact wp_pure (hc.agrees hs)

/-- One pass, whatever it starts with. -/
theorem wp_turn (nextRecovery : Micros) (h : Agrees s g) :
    wp (standContract settings name) (Noted.turn settings name nextRecovery) (fun _ => Agrees)
      s g := by
  have hread (nextRecovery : Micros) {s : ConsumerState} {g : List NotedExchange}
      (h : Agrees s g) (hs : ¬ s.held.isSome) :
      wp (standContract settings name) (do
        Noted.guarded settings (Noted.readOnce settings name)
        return .inl nextRecovery : NotedConsumer (Micros ⊕ Unit)) (fun _ => Agrees) s g := by
    have hstep : wp (standContract settings name) (Noted.readOnce settings name) Calm s g :=
      wp_readOnce h (by simpa using hs)
    exact wp_bind (wp_guarded (wp_mono hstep fun _ _ _ _ h => h.stood)) (fun _ _ _ h => h)
      fun _ _ _ h => wp_pure h
  refine wp_bind (wp_quiet h (fun _ _ => .stopped) not_false) (fun _ _ _ h => h.1 ▸ h.2) ?_
  rintro stop s g ⟨rfl, h⟩
  refine wp_ite (fun _ => wp_pure h) fun _ => wp_self_bind (wp_ite (fun hs => ?_) fun hs => ?_)
  · obtain ⟨⟨id, status⟩, hheld⟩ := Option.isSome_iff_exists.1 hs
    have hretry : wp (standContract settings name)
        (do let _ ← lift (retryHeld name) : NotedConsumer Unit) Stood s g :=
      wp_bind (wp_retryHeld h hheld) (fun _ _ _ h => h.raised) fun _ _ _ h => wp_pure ⟨h.1, nofun⟩
    refine wp_bind (wp_guarded hretry) (fun _ _ _ h => h) fun _ s g h => wp_self_bind ?_
    refine wp_ite (fun _ => ?_) fun _ => wp_pure h
    exact wp_bind (wp_sleep h) (fun _ _ _ h => h) fun _ _ _ h => wp_pure h
  · refine wp_bind (wp_quiet h (fun _ _ => .clock) not_false) (fun _ _ _ h => h.1 ▸ h.2) ?_
    rintro now s g ⟨rfl, h⟩
    refine wp_ite (fun _ => ?_) fun _ => hread _ h hs
    refine wp_bind (wp_guarded (wp_recoverOnce h (by simpa using hs))) (fun _ _ _ h => h) ?_
    intro _ s g h
    refine wp_bind (wp_quiet h (fun _ _ => .clock) not_false) (fun _ _ _ h => h.1 ▸ h.2) ?_
    rintro now s g ⟨rfl, h⟩
    exact wp_self_bind (wp_ite (fun _ => wp_pure h) fun hs => hread _ h hs)

theorem wp_main : Prog.wp (standContract settings name) (Noted.main settings name)
    (fun _ _ => True) [] := by
  have hstart : Clear [] := ⟨rfl, rfl⟩
  have hrun : wp (standContract settings name) (Noted.run settings name) (fun _ _ _ => True)
      ⟨none, 0⟩ [] := by
    refine wp_bind (wp_stay stay_ensureGroupUntilReady hstart) (fun _ _ _ _ => trivial) ?_
    rintro ready _ g ⟨rfl, hc⟩
    refine wp_ite (fun _ => ?_) fun _ => wp_pure trivial
    refine wp_loop (fun _ => Agrees) (hc.agrees rfl) fun t s g h => ?_
    refine wp_mono (wp_turn t h) fun r _ _ _ h => ?_
    rcases r with _ | _ | _
    · trivial
    · exact h
    · trivial
  exact Prog.wp_bind (Prog.wp_mono _ hrun fun _ _ _ _ => Prog.wp_ret trivial)

end Walk

/-! ### Every run -/

section Runs

variable {settings : ConsumerSettings} {name : String} {id : EntryId} {status : StatusEvent}
  {record : List NotedExchange}

def standCertificate (settings : ConsumerSettings) (name : String) :
    Actors.Certificate (notedProcess settings name) (Actors.Rules.free _) where
  inv := StandsStill name
  rely _ := (standContract settings name).rely
  guard _ := (standContract settings name).guard
  fresh _ g := g = []
  rely_refl _ _ := rfl
  rely_trans _ _ _ _ h₁ h₂ := h₂.trans h₁
  fresh_rely _ _ _ _ h hr := hr.trans h
  enter_ok _ _ h _ _ := ⟨h, fun _ hj => absurd rfl hj⟩
  call_ok _ c reply record hinv hguard _ := by
    refine ⟨hinv.cons (fun id status hs => ?_) fun id hd => ?_, fun _ hj => absurd rfl hj⟩
    · obtain ⟨c', rfl, hstill⟩ := hguard.1 id status hs
      exact ⟨c', _, rfl, hstill⟩
    · cases hguard.2 id hd
      exact ⟨_, rfl⟩
  leave_ok _ _ h := ⟨h, fun _ hj => absurd rfl hj⟩
  env_ok := nofun
  main_ok _ _ _ hfresh _ g' hr := by
    obtain rfl : g' = [] := hr.trans hfresh
    exact wp_main

/-- A consumer that holds a status publishes no other. -/
theorem Still.published {c : ConsumerCmd} (h : Still name id status c) (r : ConsumerSig.Reply c) :
    (NotedExchange.command c r).published = none ∨
      (NotedExchange.command c r).published = some status := by
  cases h with
  | add =>
    change Except PyError Unit at r
    cases r with
    | ok _ => exact .inr rfl
    | error _ => exact .inl rfl
  | renew | info | forget | clock | sleep | stopped => exact .inl rfl

/-- As long as the status was not published it is in the slot. -/
theorem StandsStill.slot_of_hold (h : StandsStill name record)
    (after between before : List NotedExchange)
    (he : record = after ++ (between ++ .hold (id, status) :: before))
    (hun : ∀ x ∈ between, x.published ≠ some status) :
    slot (between ++ .hold (id, status) :: before) = some (id, status) := by
  induction between generalizing after with
  | nil => rfl
  | cons x between ih =>
    have hslot := ih (after ++ [x]) (by simpa using he) fun y hy => hun y (.tail _ hy)
    obtain ⟨c, r, rfl, hstill⟩ := h.still after x _ id status he hslot
    have hnone := (hstill.published r).resolve_right (hun _ List.mem_cons_self)
    change (if (NotedExchange.command c r).published.isSome then none else slot _) = _
    rw [hnone]
    exact hslot

/-- From a hold until its status is published no entry is read or claimed, no job is started and
nothing else is published, no delivery is added to any entry, and the acknowledgement of the entry
comes right after the publish. -/
theorem held_stands_still {cfg : (notedProcess settings name).Config}
    (h : (notedProcess settings name).Reachable (Actors.Rules.free _) [] cfg)
    {after before between : List NotedExchange} {x : NotedExchange} {id : EntryId}
    {status : StatusEvent}
    (hrecord : cfg.shared = after ++ x :: (between ++ .hold (id, status) :: before))
    (hun : ∀ y ∈ between, y.published ≠ some status) :
    (∃ c r, x = .command c r ∧ Still name id status c ∧
      ∀ (ch : PipelineChoice) s, KeepsCounts s (ingestAfter ch s c)) ∧
    (x.published = some status →
      ∀ y later, after = later ++ [y] → ∃ r, y = .command (.xack id) r) := by
  have hstand := (standCertificate settings name).sound
    ⟨fun _ _ _ _ _ h => absurd h (by simp), fun _ _ _ _ _ _ h => absurd h (by simp)⟩
    (fun _ => rfl) h
  have hslot : slot (between ++ .hold (id, status) :: before) = some (id, status) :=
    hstand.slot_of_hold (after ++ [x]) between before (by simp [hrecord]) hun
  refine ⟨?_, ?_⟩
  · obtain ⟨c, r, hx, hstill⟩ := hstand.still after x _ id status hrecord hslot
    exact ⟨c, r, hx, hstill, hstill.keepsCounts⟩
  · rintro hpub y later rfl
    exact hstand.acked later y x _ id status (by simp [hrecord]) hslot hpub

end Runs

/-! ### One failed publish -/

def oneAttempt : ConsumerSettings := { usualSettings with publishAttempts := 1 }

/-- Redis with one entry to read; it takes statuses or not. -/
def oneEntryNoted (taken : Bool) : (c : NotedCall.Cmd) → NotedCall.Reply c
  | Sum.inl (Sum.inl (.xadd _)) => if taken then Except.ok () else Except.error .redis
  | Sum.inl c => oneEntry c
  | Sum.inr _ => ()

/-- The publish fails, the status is held, and the next attempt goes through. -/
def failedPublish : List (notedProcess oneAttempt "c").Step :=
  let call : (notedProcess oneAttempt "c").Step := .call () (oneEntryNoted true)
  [.start (), .unfold (), call, call, .unfold ()] ++ List.replicate 13 call ++
    [.call () (oneEntryNoted false), call, .unfold (), call, call, call, call]

theorem held_stands_still_failedPublish : ∃ cfg y x between id status before,
    (notedProcess oneAttempt "c").Reachable (Actors.Rules.free _) [] cfg ∧
    cfg.shared = y :: x :: (between ++ .hold (id, status) :: before) ∧
    x.published = some status ∧ ∃ r, y = .command (.xack id) r := by
  have hrun : (notedProcess oneAttempt "c").leaves [] failedPublish (fun record =>
      (record.take 5).map fun x => (x.held.map Prod.fst, x.published.isSome)) =
      some [(none, false), (none, true), (none, false), (none, false), (some 1, false)] := by
    decide +kernel
  obtain ⟨cfg, hreach, hrecord⟩ := Actors.Reachable.of_leaves (Actors.Rules.free_allowsAll _ _) hrun
  obtain ⟨y, x, b₁, b₂, z, before, hshared⟩ :
      ∃ y x b₁ b₂ z before, cfg.shared = y :: x :: b₁ :: b₂ :: z :: before := by
    have hlength := congrArg List.length hrecord
    rcases hshared : cfg.shared with _ | ⟨y, _ | ⟨x, _ | ⟨b₁, _ | ⟨b₂, _ | ⟨z, before⟩⟩⟩⟩⟩
    case cons.cons.cons.cons.cons => exact ⟨y, x, b₁, b₂, z, before, rfl⟩
    all_goals simp [hshared] at hlength
  simp only [hshared, List.take_succ_cons, List.map_cons, List.cons.injEq, Prod.mk.injEq] at hrecord
  obtain ⟨-, ⟨-, hx⟩, ⟨-, hb₁⟩, ⟨-, hb₂⟩, ⟨hz, -⟩, -⟩ := hrecord
  obtain ⟨⟨id, status⟩, hz⟩ : ∃ w, z.held = some w := by
    obtain ⟨w, hw, -⟩ := Option.map_eq_some_iff.1 hz
    exact ⟨w, hw⟩
  obtain rfl := NotedExchange.eq_hold hz
  have hun : ∀ b ∈ [b₁, b₂], b.published ≠ some status := by
    rintro b hb hpub
    rcases List.mem_cons.1 hb with rfl | hb
    · simp [hpub] at hb₁
    · obtain rfl := List.mem_singleton.1 hb
      simp [hpub] at hb₂
  obtain ⟨⟨c, r, rfl, hstill, -⟩, hack⟩ :=
    @held_stands_still _ _ _ hreach [y] before [b₁, b₂] x id status hshared hun
  have hpub := (hstill.published r).resolve_left fun hnone => by simp [hnone] at hx
  exact ⟨cfg, y, _, [b₁, b₂], id, status, before, hreach, hshared, hpub, hack hpub y [] rfl⟩

end Rag
