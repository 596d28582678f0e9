import RagPipeline.Rag.StreamConsumer

/-!
# What a consumer does with a delivered entry

The consumer's methods against an abstract ledger: which entries were delivered, which jobs ran,
which reports were added. The ledger says what each command writes into it and what a command
needs to find there, so that one walk along the code serves every system the consumer runs in.

## Main definitions

* `Reported`: a status is the report of an entry's own job, or of its poisoning.
* `Ledger`: the facts, and how commands give and need them.

## Main results

* `Ledger.wp_main`: every command of `StreamConsumer.run` is issued in a state that permits it.
-/
namespace Rag

open Events Wire Interact Method StreamConsumer

variable {G : Type}

/-- Commands that bring entries. -/
def ConsumerCmd.Delivers : ConsumerCmd → Prop
  | .xreadgroup .. | .xautoclaim .. => True
  | _ => False

/-- Commands that claim something about an entry. -/
def ConsumerCmd.Vouches : ConsumerCmd → Prop
  | .xadd _ | .xack _ => True
  | _ => False

/-- What reports are made from: jobs that ran, and delivery counts that were read. -/
structure Facts (G : Type) where
  ran : IngestEvent → Outcome → G → Prop
  counted : EntryId → Int → G → Prop

/-- `status` reports the job of `event`, or that entry `id` was delivered too often. -/
inductive Reported (settings : ConsumerSettings) (F : Facts G) (id : EntryId)
    (event : IngestEvent) (g : G) (status : StatusEvent) : Prop
  | job {outcome : Outcome} {uuid : PyStr} {now : Int} (ran : F.ran event outcome g)
      (made : statusFor event outcome uuid now = .ok status)
  | poison {deliveries : Int} {uuid : PyStr} {now : Int} (counted : F.counted id deliveries g)
      (exceeds : settings.poisonThreshold < deliveries)
      (made : StreamConsumer.poison settings event deliveries uuid now = .ok status)

/-- A report carries the hash and the attempt number of the event. -/
theorem Reported.echo {settings : ConsumerSettings} {F : Facts G} {id : EntryId}
    {event : IngestEvent} {g : G} {status : StatusEvent}
    (h : Reported settings F id event g status) :
    status.hash = event.hash ∧ status.attempts = event.attempts := by
  cases h with
  | job ran made =>
    rename_i outcome _ _
    cases outcome <;> exact ⟨(StatusEvent.init_ok made).1, (StatusEvent.init_ok made).2.2.1⟩
  | poison counted exceeds made =>
    exact ⟨(StatusEvent.init_ok made).1, (StatusEvent.init_ok made).2.2.1⟩

/-- How the commands of one consumer give facts and need them. -/
structure Ledger (C : Contract ConsumerCall G) (settings : ConsumerSettings) (name : String)
    extends Facts G where
  /-- The entry was delivered. -/
  got : EntryId → Option Fields → G → Prop
  /-- A report on the entry was added. -/
  sent : EntryId → IngestEvent → StatusEvent → G → Prop
  /-- Nothing was delivered between the two states, so facts still hold. -/
  keeps : G → G → Prop
  keeps_refl : ∀ g, keeps g g
  keeps_trans : ∀ {g₁ g₂ g₃}, keeps g₁ g₂ → keeps g₂ g₃ → keeps g₁ g₃
  got_keeps : ∀ {id fields g g'}, keeps g g' → got id fields g → got id fields g'
  ran_keeps : ∀ {event outcome g g'}, keeps g g' → ran event outcome g → ran event outcome g'
  counted_keeps : ∀ {id n g g'}, keeps g g' → counted id n g → counted id n g'
  sent_keeps : ∀ {id event status g g'}, keeps g g' → sent id event status g →
    sent id event status g'
  quiet : ∀ {c g r g₁ g₂}, ¬ c.Delivers → C.exec (.inl c) g r g₁ → C.rely g₁ g₂ → keeps g g₂
  worked : ∀ {event deadline g g₁ g₂} {r : Except JobError Outcome},
    C.exec (.inr ⟨event, deadline⟩) g r g₁ → C.rely g₁ g₂ →
    keeps g g₂ ∧ ∀ outcome, runJob r = .ok outcome → ran event outcome g₂
  read : ∀ {block g g₁ g₂} {batch : Batch 1},
    C.exec (.inl (.xreadgroup name block)) g (Except.ok batch) g₁ → C.inv g₁ → C.rely g₁ g₂ →
    ∀ e ∈ batch.entries, got e.id e.fields g₂
  claim : ∀ {minIdle start g g₁ g₂} {claimed : Claimed},
    C.exec (.inl (.xautoclaim name minIdle start)) g (Except.ok claimed) g₁ → C.inv g₁ →
    C.rely g₁ g₂ → ∀ e ∈ claimed.batch.entries, got e.id e.fields g₂
  count : ∀ {id n g g₁ g₂}, C.inv g →
    C.exec (.inl (.xpendingRange id)) g (Except.ok (some (n, name))) g₁ → C.rely g₁ g₂ →
    counted id n g₂
  added : ∀ {id event status g g₁ g₂}, Reported settings toFacts id event g status →
    C.exec (.inl (.xadd status)) g (Except.ok ()) g₁ → C.rely g₁ g₂ → sent id event status g₂
  free : ∀ {c g}, ¬ c.Vouches → C.inv g → C.guard (.inl c) g
  free_job : ∀ {event deadline g}, C.inv g → C.guard (.inr ⟨event, deadline⟩) g
  may_add : ∀ {id fields event status g}, C.inv g → got id fields g →
    accepted fields = some event → Reported settings toFacts id event g status →
    C.guard (.inl (.xadd status)) g
  may_ack : ∀ {id fields g}, C.inv g → got id fields g →
    (∀ event, accepted fields = some event → ∃ status, sent id event status g) →
    C.guard (.inl (.xack id)) g

namespace Ledger

variable {C : Contract ConsumerCall G} {settings : ConsumerSettings} {name : String}
  (L : Ledger C settings name)

theorem reported_keeps {id : EntryId} {event : IngestEvent} {status : StatusEvent} {g g' : G}
    (hk : L.keeps g g') (h : Reported settings L.toFacts id event g status) :
    Reported settings L.toFacts id event g' status := by
  cases h with
  | job ran made => exact .job (L.ran_keeps hk ran) made
  | poison counted exceeds made => exact .poison (L.counted_keeps hk counted) exceeds made

/-- The entry was delivered and can be processed. -/
def Accepted (id : EntryId) (event : IngestEvent) (g : G) : Prop :=
  ∃ fields, L.got id fields g ∧ accepted fields = some event

theorem Accepted.keeps {L : Ledger C settings name} {id : EntryId} {event : IngestEvent}
    {g g' : G} (hk : L.keeps g g') (h : L.Accepted id event g) : L.Accepted id event g' :=
  let ⟨fields, hgot, ha⟩ := h
  ⟨fields, L.got_keeps hk hgot, ha⟩

/-- What is held is the report on a delivered entry. -/
def Holds (self : ConsumerState) (g : G) : Prop :=
  ∀ id status, self.held = some (id, status) →
    ∃ event, L.Accepted id event g ∧ Reported settings L.toFacts id event g status

theorem holds_none {self : ConsumerState} {g : G} (h : self.held = none) : L.Holds self g :=
  fun _ _ h' => by rw [h] at h'; cases h'

theorem Holds.keeps {L : Ledger C settings name} {self : ConsumerState} {g g' : G}
    (hk : L.keeps g g') (h : L.Holds self g) : L.Holds self g' := fun id status hs =>
  let ⟨event, hacc, hrep⟩ := h id status hs
  ⟨event, hacc.keeps hk, L.reported_keeps hk hrep⟩

/-- Facts about the fields that hold until something is delivered. -/
def Stable (I : ConsumerState → G → Prop) : Prop :=
  ∀ self g g', L.keeps g g' → I self g → I self g'

theorem stable_holds : L.Stable L.Holds := fun _ _ _ hk h => h.keeps hk

theorem stable_idle : L.Stable fun self _ => self.held = none := fun _ _ _ _ h => h

/-- `m` brings no entries, keeps `I` whether or not it raises, and may only answer what `R`
allows. -/
def Does {α : Type} (I : ConsumerState → G → Prop) (m : Consumer α) (R : α → G → Prop)
    (self : ConsumerState) (g : G) : Prop :=
  wp C m (fun r self' g' => L.keeps g g' ∧ I self' g' ∧ ∀ a, r = .ok a → R a g') self g

section Rules

variable {L} {α β : Type} {I : ConsumerState → G → Prop} {R : α → G → Prop}
  {self : ConsumerState} {g : G}

theorem does_pure {a : α} (hs : I self g) (h : R a g) : L.Does I (pure a) R self g :=
  wp_pure ⟨L.keeps_refl g, hs, by rintro _ ⟨⟩; exact h⟩

theorem does_raise {e : PyError} (hs : I self g) : L.Does I (raise e) R self g :=
  wp_raise ⟨L.keeps_refl g, hs, nofun⟩

theorem does_ofExcept {x : Except PyError α} (hs : I self g) (h : ∀ a, x = .ok a → R a g) :
    L.Does I (ofExcept x) R self g :=
  wp_ofExcept ⟨L.keeps_refl g, hs, h⟩

theorem does_bind {m : Consumer β} {f : β → Consumer α} {P : β → G → Prop}
    (hm : L.Does I m P self g)
    (hf : ∀ b self' g', L.keeps g g' → I self' g' → P b g' → L.Does I (f b) R self' g') :
    L.Does I (m >>= f) R self g := by
  refine wp_bind hm (fun e s g' h => ⟨h.1, h.2.1, nofun⟩) fun b s g' ⟨hk, hs, hr⟩ => ?_
  exact wp_mono (hf b s g' hk hs (hr b rfl)) fun r s g'' _ ⟨hk', h⟩ => ⟨L.keeps_trans hk hk', h⟩

theorem does_tryExcept {m : Consumer α} {h : PyError → Consumer α} (hm : L.Does I m R self g)
    (hh : ∀ e self' g', L.keeps g g' → I self' g' → L.Does I (h e) R self' g') :
    L.Does I (tryExcept m h) R self g := by
  refine wp_tryExcept hm (fun a s g' h => h) fun e s g' ⟨hk, hs, _⟩ => ?_
  exact wp_mono (hh e s g' hk hs) fun r s g'' _ ⟨hk', h⟩ => ⟨L.keeps_trans hk hk', h⟩

theorem does_ite {c : Prop} [Decidable c] {m n : Consumer α} (ht : c → L.Does I m R self g)
    (hf : ¬ c → L.Does I n R self g) : L.Does I (if c then m else n) R self g :=
  wp_ite ht hf

theorem does_self {f : ConsumerState → Consumer α} (h : L.Does I (f self) R self g) :
    L.Does I (Method.self >>= f) R self g := h

theorem does_assign {f : ConsumerState → ConsumerState} (hs : I (f self) g) :
    L.Does I (assign f) (fun _ _ => True) self g :=
  wp_assign ⟨L.keeps_refl g, hs, fun _ _ => trivial⟩

/-- A command that neither brings entries nor vouches for one. -/
theorem does_perform (hI : L.Stable I) {c : ConsumerCmd} (hd : ¬ c.Delivers) (hv : ¬ c.Vouches)
    (hs : I self g) : L.Does I (perform c) (fun _ _ => True) self g := by
  refine wp_call (L.free hv) fun r g₁ g₂ _ hx _ hr => ?_
  have hk := L.quiet hd hx hr
  exact ⟨hk, hI _ _ _ hk hs, fun _ _ => trivial⟩

/-- A command whose answer may be an exception, and what follows. -/
theorem does_request (hI : L.Stable I) {c : ConsumerCmd}
    {x : ConsumerSig.Reply c → Except PyError β} {f : β → Consumer α} (hd : ¬ c.Delivers)
    (hv : ¬ c.Vouches) (hs : I self g)
    (hf : ∀ b self' g', L.keeps g g' → I self' g' → L.Does I (f b) R self' g') :
    L.Does I (do let b ← ofExcept (x (← perform c)); f b) R self g := by
  refine does_bind (does_perform hI hd hv hs) fun _ _ g₁ hk₁ hs₁ _ => ?_
  refine does_bind (P := fun _ _ => True) (does_ofExcept hs₁ fun _ _ => trivial) ?_
  exact fun b self₂ g₂ hk₂ hs₂ _ => hf b self₂ g₂ (L.keeps_trans hk₁ hk₂) hs₂

theorem does_command (hI : L.Stable I) {c : ConsumerCmd}
    {x : ConsumerSig.Reply c → Except PyError Unit} (hd : ¬ c.Delivers) (hv : ¬ c.Vouches)
    (hs : I self g) : L.Does I (do ofExcept (x (← perform c))) (fun _ _ => True) self g :=
  does_bind (does_perform hI hd hv hs) fun _ _ _ _ hs _ => does_ofExcept hs fun _ _ => trivial

theorem does_loop {t : β} {body : β → Consumer (β ⊕ α)} (hs : I self g)
    (hbody : ∀ t self g, I self g → L.Does I (body t) (fun _ _ => True) self g) :
    L.Does I (loop t body) (fun _ _ => True) self g := by
  refine wp_loop (fun _ self' g' => L.keeps g g' ∧ I self' g') ⟨L.keeps_refl g, hs⟩
    fun t self₁ g₁ ⟨hk₁, hs₁⟩ => ?_
  refine wp_mono (hbody t self₁ g₁ hs₁) fun r self₂ g₂ _ ⟨hk₂, hs₂, _⟩ => ?_
  have hk := L.keeps_trans hk₁ hk₂
  rcases r with _ | _ | _
  · exact ⟨hk, hs₂, fun _ _ => trivial⟩
  · exact ⟨hk, hs₂⟩
  · exact ⟨hk, hs₂, fun _ _ => trivial⟩

theorem does_forM {as : List β} {f : β → Consumer Unit} (J : β → G → Prop)
    (hJ : ∀ b g g', L.keeps g g' → J b g → J b g') (h₀ : ∀ b ∈ as, J b g) (hs : I self g)
    (hf : ∀ b self g, I self g → J b g → L.Does I (f b) (fun _ _ => True) self g) :
    L.Does I (as.forM f) (fun _ _ => True) self g := by
  induction as generalizing self g with
  | nil => exact does_pure hs trivial
  | cons b bs ih =>
    refine does_bind (hf b self g hs (h₀ b (by simp))) fun _ self' g' hk hs' _ => ?_
    exact ih (fun b hb => hJ b g g' hk (h₀ b (by simp [hb]))) hs'

end Rules

/-! ### One entry -/

section Entry

variable {L} {I : ConsumerState → G → Prop} (hI : L.Stable I) {id : EntryId}
  {fields : Option Fields} {event : IngestEvent} {status : StatusEvent} {self : ConsumerState}
  {g : G}

include hI in
theorem does_ack (hgot : L.got id fields g)
    (hsent : ∀ event, accepted fields = some event → ∃ status, L.sent id event status g)
    (hs : I self g) : L.Does I (ack id) (fun _ _ => True) self g := by
  refine does_tryExcept (does_bind (P := fun _ _ => True) ?_ fun _ _ _ _ hs _ =>
    does_ofExcept hs fun _ _ => trivial) fun e _ _ _ hs => ?_
  · refine wp_call (fun hi => L.may_ack hi hgot hsent) fun r g₁ g₂ _ hx _ hr => ?_
    have hk := L.quiet (c := .xack id) (fun h => h) hx hr
    exact ⟨hk, hI _ _ _ hk hs, fun _ _ => trivial⟩
  · exact does_ite (fun _ => does_pure hs trivial) fun _ => does_raise hs

include hI in
theorem does_parse (hgot : L.got id fields g) (hs : I self g) :
    L.Does I (parse id fields) (fun o _ => ∀ event, o = some event → accepted fields = some event)
      self g := by
  unfold parse
  split
  case h_1 event ha => exact does_pure hs fun _ h => h ▸ ha
  case h_2 hn =>
    refine does_bind (does_ack hI hgot (by simp [hn]) hs) fun _ _ _ _ hs _ => ?_
    exact does_pure hs (by simp)

include hI in
theorem does_tryAdd (hacc : L.Accepted id event g)
    (hrep : Reported settings L.toFacts id event g status) (hs : I self g) :
    L.Does I (tryAdd status) (fun ok g => ok = true → L.sent id event status g) self g := by
  obtain ⟨fields, hgot, ha⟩ := hacc
  have hadd : L.Does I (perform (.xadd status))
      (fun r g => r = Except.ok () → L.sent id event status g) self g := by
    refine wp_call (fun hi => L.may_add hi hgot ha hrep) fun r g₁ g₂ _ hx _ hr => ?_
    have hk := L.quiet (c := .xadd status) (fun h => h) hx hr
    refine ⟨hk, hI _ _ _ hk hs, fun r' h h' => ?_⟩
    cases h
    subst h'
    exact L.added hrep hx hr
  refine does_tryExcept (does_bind (P := fun _ g => L.sent id event status g)
    (does_bind hadd fun r _ _ _ hs h => does_ofExcept hs fun _ h' => h h')
    fun _ _ _ _ hs h => does_pure hs fun _ => h) fun e _ _ _ hs => ?_
  exact does_ite (fun _ => does_pure hs (by simp)) fun _ => does_raise hs

include hI in
theorem does_publishLoop (reclaimableAt : Micros) (attempts : Nat) (hacc : L.Accepted id event g)
    (hrep : Reported settings L.toFacts id event g status) (hs : I self g) :
    L.Does I (publishLoop settings status reclaimableAt attempts)
      (fun ok g => ok = true → L.sent id event status g) self g := by
  induction attempts generalizing self g with
  | zero => exact does_pure hs (by simp)
  | succ attempts ih =>
    refine does_bind (does_tryAdd hI hacc hrep hs) fun ok self₁ g₁ hk₁ hs₁ hok => ?_
    refine does_ite (fun h => does_pure hs₁ fun _ => hok h) fun _ => ?_
    refine does_ite (fun _ => does_pure hs₁ (by simp)) fun _ => ?_
    refine does_bind (does_perform hI not_false not_false hs₁) fun full self₂ g₂ hk₂ hs₂ _ => ?_
    refine does_ite (fun _ => does_pure hs₂ (by simp)) fun _ => ?_
    refine does_bind (does_perform hI not_false not_false hs₂) fun now self₃ g₃ hk₃ hs₃ _ => ?_
    refine does_ite (fun _ => does_pure hs₃ (by simp)) fun _ => ?_
    have hk := L.keeps_trans (L.keeps_trans hk₁ hk₂) hk₃
    exact ih (hacc.keeps hk) (L.reported_keeps hk hrep) hs₃

include hI in
/-- The delivery count is looked up; the fields stay. -/
theorem does_ownPending (hs : I self g) :
    L.Does I (ownPending name id) (fun o g => ∀ n, o = some n → L.counted id n g) self g := by
  have hpending : L.Does I (perform (.xpendingRange id))
      (fun r g => ∀ n, r = Except.ok (some (n, name)) → L.counted id n g) self g := by
    refine wp_call (L.free fun h => h) fun r g₁ g₂ hi hx _ hr => ?_
    have hk := L.quiet (c := .xpendingRange id) (fun h => h) hx hr
    refine ⟨hk, hI _ _ _ hk hs, fun r' hr' n hn => ?_⟩
    cases hr'
    subst hn
    exact L.count hi hx hr
  refine does_tryExcept (does_bind hpending fun r _ _ _ hs h => ?_) fun e _ _ _ hs => ?_
  · rcases r with e | _ | ⟨n, owner⟩
    · exact does_raise hs
    · exact does_pure hs nofun
    · refine does_pure hs fun n' hn' => ?_
      split at hn'
      case isTrue ho => cases hn'; exact h n (by rw [ho])
      case isFalse => cases hn'
  · exact does_ite (fun _ => does_pure hs nofun) fun _ => does_raise hs

theorem does_finish (started : Micros) (hacc : L.Accepted id event g)
    (hrep : Reported settings L.toFacts id event g status) (hs : L.Holds self g) :
    L.Does L.Holds (finish settings id status started) (fun _ _ => True) self g := by
  refine does_bind (does_publishLoop L.stable_holds _ _ hacc hrep hs)
    fun ok self₁ g₁ hk₁ hs₁ hok => ?_
  have hacc₁ := hacc.keeps hk₁
  refine does_ite (fun h => ?_) fun _ => ?_
  · obtain ⟨fields, hgot, ha⟩ := hacc₁
    refine does_bind (does_ack L.stable_holds hgot (fun event' ha' => ?_) hs₁)
      fun _ _ _ _ hs _ => does_pure hs trivial
    cases ha.symm.trans ha'
    exact ⟨status, hok h⟩
  · have hheld : L.Holds ⟨some (id, status), 0⟩ g₁ := by
      rintro _ _ ⟨⟩
      exact ⟨event, hacc₁, L.reported_keeps hk₁ hrep⟩
    exact does_bind (does_assign hheld) fun _ _ _ _ hs _ => does_pure hs trivial

theorem does_newStatus {make : PyStr → Int → Except InvalidEvent StatusEvent}
    (hs : L.Holds self g) : L.Does L.Holds (newStatus make)
      (fun status _ => ∃ uuid now, make uuid now = .ok status) self g := by
  refine does_bind (does_perform L.stable_holds not_false not_false hs) fun uuid _ _ _ hs _ => ?_
  refine does_bind (does_perform L.stable_holds not_false not_false hs) fun now _ _ _ hs _ => ?_
  refine does_ofExcept hs fun status h => ⟨uuid, now, ?_⟩
  cases hm : make uuid now <;> simp_all [Except.mapError]

theorem does_reportPoison {deliveries : Int} (hacc : L.Accepted id event g)
    (hcount : L.counted id deliveries g) (hgt : settings.poisonThreshold < deliveries)
    (hs : L.Holds self g) :
    L.Does L.Holds (reportPoison settings id event deliveries) (fun _ _ => True) self g := by
  refine does_bind (does_newStatus hs) fun status _ g₁ hk₁ hs₁ ⟨uuid, now, hmade⟩ => ?_
  refine does_bind (does_perform L.stable_holds not_false not_false hs₁)
    fun started _ g₂ hk₂ hs₂ _ => ?_
  have hk := L.keeps_trans hk₁ hk₂
  refine does_bind (does_finish started (hacc.keeps hk)
    (.poison (L.counted_keeps hk hcount) hgt hmade) hs₂) fun _ _ _ _ hs _ => does_pure hs trivial

theorem does_job {deadline : Micros} (hs : L.Holds self g) :
    L.Does L.Holds (do ofExcept (runJob (← process event deadline)))
      (fun outcome g => L.ran event outcome g) self g := by
  have hjob : L.Does L.Holds (process event deadline)
      (fun r g => ∀ outcome, runJob r = .ok outcome → L.ran event outcome g) self g := by
    refine wp_call L.free_job fun r g₁ g₂ _ hx _ hr => ?_
    obtain ⟨hk, hran⟩ := L.worked hx hr
    refine ⟨hk, hs.keeps hk, fun r' hr' => ?_⟩
    cases hr'
    exact hran
  exact does_bind hjob fun r _ _ _ hs h => does_ofExcept hs h

theorem does_handle (hacc : L.Accepted id event g) (hs : L.Holds self g) :
    L.Does L.Holds (handle settings id event) (fun _ _ => True) self g := by
  have quiet {c : ConsumerCmd} (hd : ¬ c.Delivers) (hv : ¬ c.Vouches) {self : ConsumerState}
      {g : G} (hs : L.Holds self g) : L.Does L.Holds (perform c) (fun _ _ => True) self g :=
    does_perform L.stable_holds hd hv hs
  refine does_bind (quiet (c := .clock) not_false not_false hs) fun started _ g₁ hk₁ hs₁ _ => ?_
  refine does_bind (quiet (c := .clock) not_false not_false hs₁) fun now _ g₂ hk₂ hs₂ _ => ?_
  refine does_bind (quiet (c := .arm) not_false not_false hs₂) fun _ self₃ g₃ hk₃ hs₃ _ => ?_
  have hjob : L.Does L.Holds
      (andFinally (do ofExcept (runJob (← process event (now + settings.jobTimeout))))
        (perform .disarm)) (fun outcome g => L.ran event outcome g) self₃ g₃ := by
    refine does_bind (does_tryExcept (does_job hs₃) fun e _ _ _ hs => does_bind
      (quiet (c := .disarm) not_false not_false hs) fun _ _ _ _ hs _ => does_raise hs)
      fun outcome _ g' _ hs' hran => ?_
    exact does_bind (quiet (c := .disarm) not_false not_false hs') fun _ _ g'' hk hs _ =>
      does_pure hs (L.ran_keeps hk hran)
  refine does_bind hjob fun outcome _ g₄ hk₄ hs₄ hran => ?_
  refine does_bind (does_newStatus hs₄) fun status _ g₅ hk₅ hs₅ ⟨uuid, now, hmade⟩ => ?_
  have hk := L.keeps_trans (L.keeps_trans (L.keeps_trans hk₁ hk₂) (L.keeps_trans hk₃ hk₄)) hk₅
  exact does_finish started (hacc.keeps hk) (.job (L.ran_keeps hk₅ hran) hmade) hs₅

theorem does_renew (hs : L.Holds self g) :
    L.Does L.Holds (renew name id) (fun _ _ => True) self g := by
  refine does_tryExcept (does_command L.stable_holds (c := .xclaim name id) not_false not_false hs)
    fun e _ _ _ hs => ?_
  exact does_ite (fun _ => does_pure hs trivial) fun _ => does_raise hs

theorem does_retryHeld (hs : L.Holds self g) :
    L.Does L.Holds (retryHeld name) (fun _ _ => True) self g := by
  refine does_self ?_
  split
  case h_1 => exact does_raise hs
  case h_2 id status hheld =>
    obtain ⟨event, hacc, hrep⟩ := hs id status hheld
    refine does_bind (does_renew hs) fun _ self₁ g₁ hk₁ hs₁ _ => ?_
    have hacc₁ := hacc.keeps hk₁
    refine does_bind (does_tryAdd L.stable_holds hacc₁ (L.reported_keeps hk₁ hrep) hs₁)
      fun ok self₂ g₂ hk₂ hs₂ hok => ?_
    refine does_ite (fun h => ?_) fun _ => ?_
    · obtain ⟨fields, hgot, ha⟩ := hacc₁.keeps hk₂
      refine does_bind (does_assign (L.holds_none rfl)) fun _ _ g₃ hk₃ hs₃ _ => ?_
      refine does_bind (does_ack L.stable_holds (L.got_keeps hk₃ hgot) (fun event' ha' => ?_) hs₃)
        fun _ _ _ _ hs _ => does_pure hs trivial
      cases ha.symm.trans ha'
      exact ⟨status, L.sent_keeps hk₃ (hok h)⟩
    · exact does_bind (does_assign hs₂) fun _ _ _ _ hs _ => does_pure hs trivial

end Entry

/-! ### Reading, recovering and the loop -/

section Run

variable {L} {self : ConsumerState} {g : G}

theorem does_cleanupConsumers (hs : L.Holds self g) :
    L.Does L.Holds (cleanupConsumers settings name) (fun _ _ => True) self g := by
  refine does_tryExcept (does_request L.stable_holds (c := .xinfoConsumers) not_false not_false hs
    fun consumers _ _ _ hs => ?_) fun e _ _ _ hs => ?_
  · refine does_forM (fun _ _ => True) (fun _ _ _ _ h => h) (fun _ _ => trivial) hs
      fun c _ _ hs _ => does_ite (fun _ => does_pure hs trivial) fun _ => ?_
    exact does_command L.stable_holds (c := .xgroupDelconsumer c.name) not_false not_false hs
  · exact does_ite (fun _ => does_pure hs trivial) fun _ => does_raise hs

theorem does_ensureGroup (hs : L.Holds self g) :
    L.Does L.Holds ensureGroup (fun _ _ => True) self g := by
  refine does_tryExcept (does_command L.stable_holds (c := .xgroupCreate) not_false not_false hs)
    fun e _ _ _ hs => ?_
  split
  · exact does_pure hs trivial
  · exact does_raise hs

theorem does_ensureGroupUntilReady (hs : L.Holds self g) :
    L.Does L.Holds (ensureGroupUntilReady settings) (fun _ _ => True) self g := by
  refine does_loop hs fun _ self g hs => ?_
  refine does_bind (does_perform L.stable_holds not_false not_false hs) fun stop _ _ _ hs _ => ?_
  refine does_ite (fun _ => does_pure hs trivial) fun _ => ?_
  refine does_tryExcept (does_bind (does_ensureGroup hs) fun _ _ _ _ hs _ =>
    does_pure hs trivial) fun e _ _ _ hs => ?_
  refine does_ite (fun _ => ?_) fun _ => does_raise hs
  refine does_bind (does_perform L.stable_holds not_false not_false hs) fun full _ _ _ hs _ => ?_
  exact does_ite (fun _ => does_pure hs trivial) fun _ => does_pure hs trivial

variable (L) in
/-- What a method that may bring entries leaves behind: what is held is a report. -/
def Settles {α : Type} (m : Consumer α) (self : ConsumerState) (g : G) : Prop :=
  wp C m (fun _ self g => L.Holds self g) self g

theorem Does.settles {α : Type} {m : Consumer α} {R : α → G → Prop}
    (h : L.Does L.Holds m R self g) : L.Settles m self g :=
  wp_mono h fun _ _ _ _ h => h.2.1

theorem settles_bind {α β : Type} {m : Consumer β} {f : β → Consumer α} (hm : L.Settles m self g)
    (hf : ∀ b self g, L.Holds self g → L.Settles (f b) self g) : L.Settles (m >>= f) self g :=
  wp_bind hm (fun _ _ _ h => h) fun b self g hs => hf b self g hs

theorem settles_tryExcept {α : Type} {m : Consumer α} {h : PyError → Consumer α}
    (hm : L.Settles m self g) (hh : ∀ e self g, L.Holds self g → L.Settles (h e) self g) :
    L.Settles (tryExcept m h) self g :=
  wp_tryExcept hm (fun _ _ _ h => h) fun e self g hs => hh e self g hs

theorem settles_readOnce (hheld : self.held = none) :
    L.Settles (readOnce settings name) self g := by
  have hread {block : Int} : wp C (perform (.xreadgroup name block)) (fun r self' g' =>
      self' = self ∧ ∀ batch, r = .ok (.ok batch) → ∀ e ∈ batch.entries, L.got e.id e.fields g')
      self g := by
    refine wp_call (L.free fun h => h) fun r g₁ g₂ _ hx hi hr => ⟨rfl, fun batch h => ?_⟩
    cases h
    exact L.read hx hi hr
  refine wp_bind hread (fun _ _ _ h => h.1 ▸ L.holds_none hheld) fun r _ g₁ ⟨rfl, hgot⟩ => ?_
  cases r with
  | error e => exact wp_raise (L.holds_none hheld)
  | ok batch =>
    refine Does.settles (does_forM (fun e g => L.got e.id e.fields g)
      (fun _ _ _ hk h => L.got_keeps hk h) (hgot batch rfl) (L.holds_none hheld)
      fun e self g hs hgot => ?_)
    refine does_bind (does_parse L.stable_holds hgot hs) fun o _ g₁ hk₁ hs₁ ho => ?_
    cases o with
    | none => exact does_pure hs₁ trivial
    | some event =>
      exact does_bind (does_handle ⟨e.fields, L.got_keeps hk₁ hgot, ho event rfl⟩ hs₁)
        fun _ _ _ _ hs _ => does_pure hs trivial

/-- A claim leaves the fields alone and brings what it returns. -/
theorem wp_claimOne (pages : Nat) (cursor : EntryId) :
    wp C (claimOne settings name pages cursor) (fun r self' g' =>
      self' = self ∧ ∀ e, r = .ok (some e) → L.got e.id e.fields g') self g := by
  induction pages generalizing cursor g with
  | zero => exact wp_pure ⟨rfl, nofun⟩
  | succ pages ih =>
    have hclaim : wp C (perform (.xautoclaim name (ms settings.minIdle) cursor)) (fun r self' g' =>
        self' = self ∧ ∀ claimed, r = .ok (.ok claimed) →
          ∀ e ∈ claimed.batch.entries, L.got e.id e.fields g') self g := by
      refine wp_call (L.free fun h => h) fun r g₁ g₂ _ hx hi hr => ⟨rfl, fun claimed h => ?_⟩
      cases h
      exact L.claim hx hi hr
    refine wp_bind hclaim (fun _ _ _ h => ⟨h.1, nofun⟩) fun r _ g₁ ⟨rfl, hgot⟩ => ?_
    refine wp_ofExcept_bind (fun _ _ => ⟨rfl, nofun⟩) fun claimed hr => ?_
    have hgot := hgot claimed (congrArg _ hr)
    split
    case h_1 e es he => exact wp_pure ⟨rfl, by rintro _ ⟨⟩; exact hgot e (by simp [he])⟩
    case h_2 => exact wp_ite (fun _ => wp_pure ⟨rfl, nofun⟩) fun _ => ih _

theorem settles_claimAndProcess (jobs : Nat) (hheld : self.held = none) :
    L.Settles (claimAndProcess settings name jobs) self g := by
  induction jobs generalizing self g with
  | zero => exact wp_pure (L.holds_none hheld)
  | succ jobs ih =>
    refine wp_bind (wp_claimOne (L := L) maxClaimPages 0)
      (fun _ _ _ h => h.1 ▸ L.holds_none hheld) fun o _ g₁ ⟨rfl, hgot⟩ => ?_
    cases o with
    | none => exact wp_pure (L.holds_none hheld)
    | some e =>
      have hgot := hgot e rfl
      refine wp_bind (does_parse L.stable_idle hgot hheld)
        (fun _ _ _ h => L.holds_none h.2.1) fun o self₂ g₂ ⟨hk₂, hheld₂, ho⟩ => ?_
      cases o with
      | none => exact ih hheld₂
      | some event =>
        have hacc : L.Accepted e.id event g₂ :=
          ⟨e.fields, L.got_keeps hk₂ hgot, ho _ rfl event rfl⟩
        refine wp_bind (@does_ownPending _ _ _ _ L _ L.stable_idle e.id _ _ hheld₂)
          (fun _ _ _ h => L.holds_none h.2.1) fun o self₃ g₃ ⟨hk₃, hheld₃, hn⟩ => ?_
        cases o with
        | none => exact ih hheld₃
        | some deliveries =>
          have hcount : L.counted e.id deliveries g₃ := hn _ rfl deliveries rfl
          have hs₃ := L.holds_none (g := g₃) hheld₃
          have hrest (self : ConsumerState) (g : G) (hs : L.Holds self g) :
              L.Settles (Method.self >>= fun s => if s.held.isSome then pure ()
                else claimAndProcess settings name jobs) self g := by
            change L.Settles (if self.held.isSome then pure ()
              else claimAndProcess settings name jobs) self g
            refine wp_ite (fun _ => wp_pure hs) fun h => ih ?_
            simpa using h
          refine wp_ite (fun hgt => ?_) fun _ => ?_
          · exact settles_bind (does_reportPoison (hacc.keeps hk₃) hcount hgt hs₃).settles
              fun _ self g hs => hrest self g hs
          · exact settles_bind (does_handle (hacc.keeps hk₃) hs₃).settles
              fun _ self g hs => hrest self g hs

theorem settles_recoverOnce (hheld : self.held = none) :
    L.Settles (recoverOnce settings name) self g := by
  refine settles_bind (settles_tryExcept (settles_bind (settles_claimAndProcess _ hheld)
    fun _ _ _ hs => wp_pure hs) fun e _ _ hs => ?_) fun claimError _ _ hs => ?_
  · exact wp_ite (fun _ => wp_pure hs) fun _ => wp_raise hs
  · refine settles_bind (does_cleanupConsumers hs).settles fun _ _ _ hs => ?_
    split
    · exact wp_raise hs
    · exact wp_pure hs

theorem settles_sleep {duration : Micros} (hs : L.Holds self g) :
    L.Settles (sleep duration) self g :=
  (does_perform L.stable_holds (c := .sleep duration) not_false not_false hs).settles

theorem settles_guarded {step : Consumer Unit} (hstep : L.Settles step self g) :
    L.Settles (guarded settings step) self g := by
  refine settles_tryExcept hstep fun e _ _ hs => wp_ite (fun _ => wp_ite (fun _ => ?_) fun _ => ?_)
    fun _ => wp_ite (fun _ => ?_) fun _ => wp_raise hs
  · exact settles_bind (does_ensureGroupUntilReady hs).settles fun _ _ _ hs => wp_pure hs
  · exact settles_bind (settles_sleep hs) fun _ _ _ hs => wp_pure hs
  · exact settles_bind (settles_sleep hs) fun _ _ _ hs => wp_pure hs

theorem settles_self {α : Type} {f : ConsumerState → Consumer α} (h : L.Settles (f self) self g) :
    L.Settles (Method.self >>= f) self g := h

theorem settles_turn (nextRecovery : Micros) (hs : L.Holds self g) :
    L.Settles (turn settings name nextRecovery) self g := by
  have hclock {self : ConsumerState} {g : G} (hs : L.Holds self g) : L.Settles clock self g :=
    (does_perform L.stable_holds (c := .clock) not_false not_false hs).settles
  have hread (nextRecovery : Micros) {self : ConsumerState} {g : G} (hheld : self.held = none) :
      L.Settles (do guarded settings (readOnce settings name); return .inl nextRecovery :
        Consumer (Micros ⊕ Unit)) self g :=
    settles_bind (settles_guarded (settles_readOnce hheld)) fun _ _ _ hs => wp_pure hs
  refine settles_bind (does_perform L.stable_holds (c := .stopped) not_false not_false hs).settles
    fun stop self g hs => wp_ite (fun _ => wp_pure hs) fun _ => ?_
  refine settles_self (wp_ite (fun _ => ?_) fun hheld => ?_)
  · -- a status is held: one more try, nothing is read
    refine settles_bind (settles_guarded (settles_bind (does_retryHeld hs).settles
      fun _ _ _ hs => wp_pure hs)) fun _ _ _ hs => settles_self (wp_ite (fun _ => ?_) fun _ => ?_)
    · exact settles_bind (settles_sleep hs) fun _ _ _ hs => wp_pure hs
    · exact wp_pure hs
  · replace hheld : self.held = none := by simpa using hheld
    refine wp_bind (R := fun _ self _ => self.held = none)
      (wp_mono (does_perform L.stable_idle (c := .clock) not_false not_false hheld)
        fun _ _ _ _ h => h.2.1) (fun _ _ _ h => L.holds_none h) fun now self g hheld => ?_
    refine wp_ite (fun _ => ?_) fun _ => hread nextRecovery hheld
    refine settles_bind (settles_guarded (settles_recoverOnce hheld)) fun _ _ _ hs => ?_
    refine settles_bind (hclock hs) fun now self g hs => ?_
    refine settles_self (wp_ite (fun _ => wp_pure hs) fun hheld => ?_)
    exact hread _ (by simpa using hheld)

theorem settles_run (hs : L.Holds self g) : L.Settles (run settings name) self g := by
  refine settles_bind (does_ensureGroupUntilReady hs).settles fun ready self g hs => ?_
  refine wp_ite (fun _ => ?_) fun _ => wp_pure hs
  refine wp_loop (fun _ self g => L.Holds self g) hs fun t self g hs => ?_
  refine wp_mono (settles_turn t hs) fun r self g _ hs => ?_
  rcases r with _ | _ | _ <;> exact hs

end Run

include L in
/-- Every command a consumer issues is issued where it may be. -/
theorem wp_main (g : G) : Prog.wp C (main settings name) (fun _ _ => True) g := by
  have h : L.Settles (run settings name) ⟨none, 0⟩ g := settles_run (L.holds_none rfl)
  exact Prog.wp_bind (Prog.wp_mono _ h fun _ _ _ _ => Prog.wp_ret trivial)

end Ledger

end Rag
