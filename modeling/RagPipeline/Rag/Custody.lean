import RagPipeline.Rag.StreamConsumer

/-!
# The entry in a consumer's hands

The consumer's methods against an account of the one entry it has been given: read or claimed,
looked up if it was claimed, and then its job is started, or it is condemned, or it is let go. The
account says what each command does to it and what it needs, so that one walk along the code
serves every system that counts or times what consumers are given.

## Main definitions

* `Stage`: how far the consumer is with the entry.
* `Custody`: how commands lead from stage to stage.

## Main results

* `Custody.wp_main`: every command of `StreamConsumer.run` is issued at a stage that permits it.
-/
namespace Rag

open Events Wire Interact Method StreamConsumer

inductive Stage where
  | free
  | fresh (e : StreamEntry)
  | claimed (e : StreamEntry)
  /-- Pending under this consumer, and delivered so often. -/
  | checked (e : StreamEntry) (deliveries : Int)
  | armed (e : StreamEntry) (event : IngestEvent)
  | ran

/-- Commands that only ask for the time or an ID. -/
def ConsumerCmd.Looks : ConsumerCmd → Prop
  | .clock | .uuid4 | .utcnow => True
  | _ => False

/-- Commands with no bearing on an entry in hand. -/
def ConsumerCmd.Plain : ConsumerCmd → Prop
  | .xgroupCreate | .xack _ | .xclaim .. | .xinfoConsumers | .xgroupDelconsumer _ | .clock
  | .sleep _ | .stopped | .uuid4 | .utcnow => True
  | _ => False

/-! What a delivery or a look-up brings. -/

/-- The entry that comes with a reply. -/
def brought : (c : ConsumerCmd) → ConsumerSig.Reply c → Option StreamEntry
  | .xreadgroup .., (.ok batch : Except PyError (Batch 1)) => batch.entries.head?
  | .xautoclaim .., (.ok claimed : Except PyError Claimed) => claimed.batch.entries.head?
  | _, _ => none

def Stage.ofRead : Except PyError (Batch 1) → Stage
  | .ok ⟨e :: _, _⟩ => .fresh e
  | _ => .free

def Stage.ofClaim : Except PyError Claimed → Stage
  | .ok ⟨_, ⟨e :: _, _⟩⟩ => .claimed e
  | _ => .free

def Stage.ofPending (name : String) (e : StreamEntry) :
    Except PyError (Option (Int × String)) → Stage
  | .ok (some (deliveries, owner)) => if owner = name then .checked e deliveries else .free
  | _ => .free

variable {G : Type}

/-- Where `P` holds the command may be issued, and it leads to `Q`, whatever the others do. -/
def Leads (C : Contract ConsumerCall G) (P : G → Prop) (c : ConsumerCall.Cmd)
    (Q : ConsumerCall.Reply c → G → Prop) : Prop :=
  ∀ g, C.inv g → P g → C.guard c g ∧
    ∀ r g₁ g₂, C.exec c g r g₁ → C.inv g₁ → C.rely g₁ g₂ → Q r g₂

structure Custody (C : Contract ConsumerCall G) (settings : ConsumerSettings) (name : String) where
  stage : Stage → G → Prop
  /-- The status may be added from now on. -/
  sayable : StatusEvent → G → Prop
  sayable_stays : ∀ {status c r g g₁ g₂}, C.exec c g r g₁ → C.rely g₁ g₂ → sayable status g →
    sayable status g₂
  plain : ∀ {c}, c.Plain → Leads C (stage .free) (.inl c) fun _ => stage .free
  look : ∀ {c σ}, c.Looks → Leads C (stage σ) (.inl c) fun _ => stage σ
  read : ∀ {block}, Leads C (stage .free) (.inl (.xreadgroup name block))
    fun (r : Except PyError (Batch 1)) => stage (.ofRead r)
  claim : ∀ {minIdle start}, Leads C (stage .free) (.inl (.xautoclaim name minIdle start))
    fun (r : Except PyError Claimed) => stage (.ofClaim r)
  count : ∀ {e}, Leads C (stage (.claimed e)) (.inl (.xpendingRange e.id))
    fun (r : Except PyError (Option (Int × String))) => stage (.ofPending name e r)
  discard : ∀ {e}, accepted e.fields = none →
    Leads C (fun g => stage (.fresh e) g ∨ stage (.claimed e) g) (.inl (.xack e.id))
      fun _ => stage .free
  start : ∀ {e event}, accepted e.fields = some event →
    Leads C (fun g => stage (.fresh e) g ∨
        ∃ n ≤ settings.poisonThreshold, stage (.checked e n) g) (.inl .arm)
      fun _ => stage (.armed e event)
  job : ∀ {e event deadline}, Leads C (stage (.armed e event)) (.inr ⟨event, deadline⟩)
    fun (r : Except JobError Outcome) g => stage .ran g ∧ ∀ outcome uuid now status,
      runJob r = .ok outcome → statusFor event outcome uuid now = .ok status → sayable status g
  disarm : Leads C (stage .ran) (.inl .disarm) fun _ => stage .free
  condemn : ∀ {e event n g}, C.inv g → stage (.checked e n) g → settings.poisonThreshold < n →
    accepted e.fields = some event → stage .free g ∧ ∀ uuid now status,
      poison settings event n uuid now = .ok status → sayable status g
  add : ∀ {status}, Leads C (fun g => stage .free g ∧ sayable status g) (.inl (.xadd status))
    fun _ => stage .free

namespace Custody

variable {C : Contract ConsumerCall G} {settings : ConsumerSettings} {name : String}
  (L : Custody C settings name)

/-- What may be said may be said later. -/
def Recalls (g g' : G) : Prop := ∀ status, L.sayable status g → L.sayable status g'

/-- Nothing is in hand, and what is held may be added. -/
def Idle (self : ConsumerState) (g : G) : Prop :=
  L.stage .free g ∧ ∀ id status, self.held = some (id, status) → L.sayable status g

/-- Whether or not it raises, the method ends with nothing in hand. -/
def Rests {α : Type} (m : Consumer α) (self : ConsumerState) (g : G) : Prop :=
  wp C m (fun _ self' g' => L.Idle self' g' ∧ L.Recalls g g') self g

section Rules

variable {L} {α β : Type} {self : ConsumerState} {g g' : G}

theorem Recalls.refl : L.Recalls g g := fun _ h => h

theorem Recalls.trans {g'' : G} (h : L.Recalls g g') (h' : L.Recalls g' g'') : L.Recalls g g'' :=
  fun status hs => h' status (h status hs)

theorem Idle.recalls (h : L.Idle self g) (hstage : L.stage .free g') (hr : L.Recalls g g') :
    L.Idle self g' :=
  ⟨hstage, fun id status hheld => hr status (h.2 id status hheld)⟩

theorem Rests.mono {m : Consumer α} {g₀ : G} (h : L.Rests m self g) (hr : L.Recalls g₀ g) :
    wp C m (fun _ self' g' => L.Idle self' g' ∧ L.Recalls g₀ g') self g :=
  wp_mono h fun _ _ _ _ h => ⟨h.1, hr.trans h.2⟩

variable (L) in
/-- One command, and what follows its answer. -/
theorem wp_leads {P : G → Prop} {c : ConsumerCall.Cmd} {Q : ConsumerCall.Reply c → G → Prop}
    {f : ConsumerCall.Reply c → Consumer α} {R : Except PyError α → ConsumerState → G → Prop}
    (hc : Leads C P c Q) (hP : P g)
    (hf : ∀ r g', Q r g' → L.Recalls g g' → wp C (f r) R self g') :
    wp C (call c >>= f) R self g := by
  refine fun hi => ⟨(hc g hi hP).1, fun r g₁ hx hi₁ g₂ hr => ?_⟩
  exact hf r g₂ ((hc g hi hP).2 r g₁ g₂ hx hi₁ hr) fun status => L.sayable_stays hx hr

theorem rests_leads {P : G → Prop} {c : ConsumerCall.Cmd} {Q : ConsumerCall.Reply c → G → Prop}
    {f : ConsumerCall.Reply c → Consumer α} (hc : Leads C P c Q) (hP : P g)
    (hf : ∀ r g', Q r g' → L.Recalls g g' → L.Rests (f r) self g') :
    L.Rests (call c >>= f) self g :=
  L.wp_leads hc hP fun r g' hq hr => (hf r g' hq hr).mono hr

theorem rests_pure {a : α} (h : L.Idle self g) : L.Rests (pure a) self g := wp_pure ⟨h, .refl⟩

theorem rests_raise {e : PyError} (h : L.Idle self g) : L.Rests (raise e : Consumer α) self g :=
  wp_raise ⟨h, .refl⟩

theorem rests_ofExcept {x : Except PyError α} (h : L.Idle self g) :
    L.Rests (ofExcept x) self g :=
  wp_ofExcept ⟨h, .refl⟩

theorem rests_bind {m : Consumer β} {f : β → Consumer α} (hm : L.Rests m self g)
    (hf : ∀ b self' g', L.Idle self' g' → L.Recalls g g' → L.Rests (f b) self' g') :
    L.Rests (m >>= f) self g :=
  wp_bind hm (fun _ _ _ h => h) fun b self' g' ⟨h, hr⟩ => (hf b self' g' h hr).mono hr

theorem rests_tryExcept {m : Consumer α} {handler : PyError → Consumer α} (hm : L.Rests m self g)
    (hh : ∀ e self' g', L.Idle self' g' → L.Rests (handler e) self' g') :
    L.Rests (tryExcept m handler) self g :=
  wp_tryExcept hm (fun _ _ _ h => h) fun e self' g' ⟨h, hr⟩ => (hh e self' g' h).mono hr

theorem rests_ite {c : Prop} [Decidable c] {m n : Consumer α} (ht : c → L.Rests m self g)
    (hf : ¬ c → L.Rests n self g) : L.Rests (if c then m else n) self g :=
  wp_ite ht hf

theorem rests_self {f : ConsumerState → Consumer α} (h : L.Rests (f self) self g) :
    L.Rests (Method.self >>= f) self g := h

theorem rests_loop {t : β} {body : β → Consumer (β ⊕ α)} (h : L.Idle self g)
    (hbody : ∀ t self g, L.Idle self g → L.Rests (body t) self g) :
    L.Rests (loop t body) self g := by
  refine wp_loop (fun _ self' g' => L.Idle self' g' ∧ L.Recalls g g') ⟨h, .refl⟩ ?_
  intro t self₁ g₁ h
  refine wp_mono (hbody t self₁ g₁ h.1) fun r self₂ g₂ _ ⟨h₂, hr⟩ => ?_
  rcases r with _ | _ | _ <;> exact ⟨h₂, h.2.trans hr⟩

theorem rests_forM {as : List β} {f : β → Consumer Unit} (h : L.Idle self g)
    (hf : ∀ b self g, L.Idle self g → L.Rests (f b) self g) : L.Rests (as.forM f) self g := by
  induction as generalizing self g with
  | nil => exact rests_pure h
  | cons b bs ih => exact rests_bind (hf b self g h) fun _ _ _ h _ => ih h

theorem rests_plain_bind {c : ConsumerCmd} {f : ConsumerSig.Reply c → Consumer α} (hc : c.Plain)
    (h : L.Idle self g)
    (hf : ∀ r g', L.Idle self g' → L.Recalls g g' → L.Rests (f r) self g') :
    L.Rests (perform c >>= f) self g :=
  rests_leads (L.plain hc) h.1 fun r g' hstage hr => hf r g' (h.recalls hstage hr) hr

theorem rests_plain {c : ConsumerCmd} (hc : c.Plain) (h : L.Idle self g) :
    L.Rests (perform c) self g :=
  rests_plain_bind (f := pure) hc h fun _ _ h _ => rests_pure h

/-- A plain command whose answer may be an exception. -/
theorem rests_request {c : ConsumerCmd} {x : ConsumerSig.Reply c → Except PyError α}
    (hc : c.Plain) (h : L.Idle self g) : L.Rests (do ofExcept (x (← perform c))) self g :=
  rests_plain_bind hc h fun _ _ h _ => rests_ofExcept h

theorem rests_request_bind {c : ConsumerCmd} {x : ConsumerSig.Reply c → Except PyError β}
    {f : β → Consumer α} (hc : c.Plain) (h : L.Idle self g)
    (hf : ∀ b g', L.Idle self g' → L.Rests (f b) self g') :
    L.Rests (perform c >>= fun r => ofExcept (x r) >>= f) self g := by
  refine rests_plain_bind hc h fun r g' h' _ => ?_
  exact wp_ofExcept_bind (fun _ _ => ⟨h', .refl⟩) fun b _ => hf b g' h'

end Rules

/-! ### Publishing -/

section Publish

variable {L} {id : EntryId} {status : StatusEvent} {self : ConsumerState} {g : G}

theorem rests_ack (h : L.Idle self g) : L.Rests (ack id) self g := by
  refine rests_tryExcept (rests_request (c := .xack id) trivial h) fun e _ _ h => ?_
  exact rests_ite (fun _ => rests_pure h) fun _ => rests_raise h

theorem rests_tryAdd (h : L.Idle self g) (hs : L.sayable status g) :
    L.Rests (tryAdd status) self g := by
  refine rests_tryExcept ?_ fun e _ _ h => rests_ite (fun _ => rests_pure h) fun _ => rests_raise h
  have hadd : L.Rests (StreamConsumer.add status) self g :=
    rests_leads L.add ⟨h.1, hs⟩ fun r g' hstage hr => rests_ofExcept (h.recalls hstage hr)
  exact rests_bind hadd fun _ _ _ h _ => rests_pure h

theorem rests_publishLoop (reclaimableAt : Micros) (attempts : Nat) (h : L.Idle self g)
    (hs : L.sayable status g) :
    L.Rests (publishLoop settings status reclaimableAt attempts) self g := by
  induction attempts generalizing self g with
  | zero => exact rests_pure h
  | succ attempts ih =>
    refine rests_bind (rests_tryAdd h hs) fun ok self₁ g₁ h₁ hr₁ => ?_
    refine rests_ite (fun _ => rests_pure h₁) fun _ => ?_
    refine rests_ite (fun _ => rests_pure h₁) fun _ => ?_
    refine rests_plain_bind trivial h₁ fun full g₂ h₂ hr₂ => ?_
    refine rests_ite (fun _ => rests_pure h₂) fun _ => ?_
    refine rests_plain_bind trivial h₂ fun now g₃ h₃ hr₃ => ?_
    refine rests_ite (fun _ => rests_pure h₃) fun _ => ?_
    exact ih h₃ (hr₃ _ (hr₂ _ (hr₁ _ hs)))

theorem rests_finish (started : Micros) (h : L.Idle self g) (hs : L.sayable status g) :
    L.Rests (finish settings id status started) self g := by
  refine rests_bind (rests_publishLoop _ _ h hs) fun ok self₁ g₁ h₁ hr => ?_
  refine rests_ite (fun _ => rests_bind (rests_ack h₁) fun _ _ _ h _ => rests_pure h) fun _ => ?_
  refine rests_bind (m := assign _) (wp_assign ⟨⟨h₁.1, ?_⟩, .refl⟩) fun _ _ _ h _ => rests_pure h
  rintro _ _ ⟨⟩
  exact hr _ hs

theorem rests_renew (h : L.Idle self g) : L.Rests (renew name id) self g := by
  refine rests_tryExcept (rests_request (c := .xclaim name id) trivial h) fun e _ _ h => ?_
  exact rests_ite (fun _ => rests_pure h) fun _ => rests_raise h

theorem rests_retryHeld (h : L.Idle self g) : L.Rests (retryHeld name) self g := by
  refine rests_self ?_
  split
  case h_1 => exact rests_raise h
  case h_2 id status hheld =>
    have hs := h.2 id status hheld
    refine rests_bind (rests_renew h) fun _ self₁ g₁ h₁ hr₁ => ?_
    refine rests_bind (rests_tryAdd h₁ (hr₁ _ hs)) fun ok self₂ g₂ h₂ _ => ?_
    refine rests_ite (fun _ => ?_) fun _ => ?_
    · refine rests_bind (m := assign _) (wp_assign ⟨⟨h₂.1, nofun⟩, .refl⟩) fun _ _ _ h _ => ?_
      exact rests_bind (rests_ack h) fun _ _ _ h _ => rests_pure h
    · refine rests_bind (m := assign _) (wp_assign ⟨⟨h₂.1, h₂.2⟩, .refl⟩) ?_
      exact fun _ _ _ h _ => rests_pure h

end Publish

/-! ### One entry -/

section Entry

variable {L} {e : StreamEntry} {event : IngestEvent} {self : ConsumerState} {g : G}

/-- A status is made at any stage. -/
theorem wp_newStatus {α : Type} {make : PyStr → Int → Except InvalidEvent StatusEvent} {σ : Stage}
    {f : StatusEvent → Consumer α} {R : Except PyError α → ConsumerState → G → Prop}
    (h : L.stage σ g)
    (herr : ∀ g', L.stage σ g' → L.Recalls g g' → ∀ e, R (.error e) self g')
    (hok : ∀ uuid now status g', make uuid now = .ok status → L.stage σ g' → L.Recalls g g' →
      wp C (f status) R self g') : wp C (newStatus make >>= f) R self g := by
  refine wp_bind (R := fun r self' g' => self' = self ∧ L.stage σ g' ∧ L.Recalls g g' ∧
    ∀ status, r = .ok status → ∃ uuid now, make uuid now = .ok status) ?_ ?_ ?_
  · refine L.wp_leads (L.look trivial) h fun uuid g₁ h₁ hr₁ => ?_
    refine L.wp_leads (L.look trivial) h₁ fun now g₂ h₂ hr₂ => ?_
    refine wp_ofExcept ⟨rfl, h₂, hr₁.trans hr₂, fun status hmade => ⟨uuid, now, ?_⟩⟩
    cases hm : make uuid now <;> simp_all [Except.mapError]
  · rintro e _ g' ⟨rfl, h', hr, -⟩
    exact herr g' h' hr e
  · rintro status _ g' ⟨rfl, h', hr, hmade⟩
    obtain ⟨uuid, now, hm⟩ := hmade status rfl
    exact hok uuid now status g' hm h' hr

theorem rests_reportPoison {deliveries : Int}
    (hcondemned : ∀ uuid now status, poison settings event deliveries uuid now = .ok status →
      L.sayable status g) (h : L.Idle self g) :
    L.Rests (reportPoison settings e.id event deliveries) self g := by
  refine wp_newStatus h.1 (fun g' h' hr _ => ⟨h.recalls h' hr, hr⟩)
    fun uuid now status g₁ hm h₁ hr₁ => ?_
  refine Rests.mono (rests_plain_bind trivial (h.recalls h₁ hr₁) fun started g₂ h₂ hr₂ => ?_) hr₁
  exact rests_bind (rests_finish started h₂ (hr₂ _ (hr₁ _ (hcondemned uuid now status hm))))
    fun _ _ _ h _ => rests_pure h

variable (L) in
/-- What a job's outcome is reported as may be said. -/
def Reportable (event : IngestEvent) (r : Except PyError Outcome) (g : G) : Prop :=
  ∀ outcome uuid now status, r = .ok outcome → statusFor event outcome uuid now = .ok status →
    L.sayable status g

/-- The job runs and the watchdog is disarmed, whatever comes of it. -/
theorem wp_job {deadline : Micros} (h : L.stage (.armed e event) g)
    (hheld : ∀ id status, self.held = some (id, status) → L.sayable status g) :
    wp C (andFinally (do ofExcept (runJob (← process event deadline))) (perform .disarm))
      (fun r self' g' => L.Idle self' g' ∧ L.Recalls g g' ∧ L.Reportable event r g') self g := by
  have hjob : wp C (do ofExcept (runJob (← process event deadline)))
      (fun r self' g' => self' = self ∧ L.stage .ran g' ∧ L.Recalls g g' ∧
        L.Reportable event r g') self g := by
    refine L.wp_leads L.job h fun r g' ⟨h', hsay⟩ hr => ?_
    refine wp_ofExcept ⟨rfl, h', hr, fun outcome uuid now status hran hm => ?_⟩
    exact hsay outcome uuid now status hran hm
  refine wp_andFinally hjob ?_
  rintro r _ g₁ ⟨rfl, h₁, hr₁, hsay⟩
  refine L.wp_leads (f := pure) L.disarm h₁ fun _ g₂ h₂ hr₂ => wp_pure ?_
  refine ⟨⟨h₂, fun id status hs => hr₂ _ (hr₁ _ (hheld id status hs))⟩, hr₁.trans hr₂, ?_⟩
  exact fun outcome uuid now status hran hm => hr₂ _ (hsay outcome uuid now status hran hm)

/-- The entry is taken from the hands of the consumer by its job. -/
theorem rests_handle (ha : accepted e.fields = some event)
    (hheld : ∀ id status, self.held = some (id, status) → L.sayable status g)
    {σ : Stage} (hσ : L.stage σ g)
    (hstart : σ = .fresh e ∨ ∃ n ≤ settings.poisonThreshold, σ = .checked e n) :
    L.Rests (handle settings e.id event) self g := by
  refine L.wp_leads (L.look trivial) hσ fun (started : Micros) g₁ h₁ hr₁ => ?_
  refine L.wp_leads (L.look trivial) h₁ fun (now : Micros) g₂ h₂ hr₂ => ?_
  have hmay : L.stage (.fresh e) g₂ ∨
      ∃ n ≤ settings.poisonThreshold, L.stage (.checked e n) g₂ := by
    rcases hstart with rfl | ⟨n, hn, rfl⟩
    · exact .inl h₂
    · exact .inr ⟨n, hn, h₂⟩
  refine L.wp_leads (L.start ha) hmay fun _ g₃ h₃ hr₃ => ?_
  have hr := (hr₁.trans hr₂).trans hr₃
  refine wp_bind (wp_job h₃ fun id status hs => hr _ (hheld id status hs))
    (fun e _ g' h => ⟨h.1, hr.trans h.2.1⟩) ?_
  rintro outcome self₄ g₄ ⟨h₄, hr₄, hsay⟩
  refine wp_newStatus h₄.1 (fun g' h' hr' _ => ⟨h₄.recalls h' hr', hr.trans (hr₄.trans hr')⟩)
    fun uuid now status g₅ hm h₅ hr₅ => ?_
  exact Rests.mono (rests_finish started (h₄.recalls h₅ hr₅)
    (hr₅ _ (hsay outcome uuid now status rfl hm))) (hr.trans (hr₄.trans hr₅))

end Entry

/-! ### Reading, recovering and the loop -/

section Run

variable {L} {self : ConsumerState} {g : G}

theorem rests_ensureGroup (h : L.Idle self g) : L.Rests ensureGroup self g := by
  refine rests_tryExcept (rests_request (c := .xgroupCreate) trivial h) fun e _ _ h => ?_
  split
  · exact rests_pure h
  · exact rests_raise h

theorem rests_ensureGroupUntilReady (h : L.Idle self g) :
    L.Rests (ensureGroupUntilReady settings) self g := by
  refine rests_loop h fun _ self g h => ?_
  refine rests_plain_bind trivial h fun (stop : Bool) g₁ h₁ _ => ?_
  refine rests_ite (fun _ => rests_pure h₁) fun _ => ?_
  refine rests_tryExcept (rests_bind (rests_ensureGroup h₁) fun _ _ _ h _ => rests_pure h)
    fun e _ _ h => rests_ite (fun _ => ?_) fun _ => rests_raise h
  refine rests_plain_bind trivial h fun (full : Bool) g₂ h₂ _ => ?_
  exact rests_ite (fun _ => rests_pure h₂) fun _ => rests_pure h₂

theorem rests_cleanupConsumers (h : L.Idle self g) :
    L.Rests (cleanupConsumers settings name) self g := by
  refine rests_tryExcept (rests_request_bind (c := .xinfoConsumers) trivial h
    fun consumers _ h => ?_) fun e _ _ h => ?_
  · refine rests_forM h fun c _ _ h => rests_ite (fun _ => rests_pure h) fun _ => ?_
    exact rests_request (c := .xgroupDelconsumer c.name) trivial h
  · exact rests_ite (fun _ => rests_pure h) fun _ => rests_raise h

/-- An entry that can never be processed is let go. -/
theorem rests_parse {α : Type} {e : StreamEntry} {f : Option IngestEvent → Consumer α}
    (h : L.stage (.fresh e) g ∨ L.stage (.claimed e) g)
    (hheld : ∀ id status, self.held = some (id, status) → L.sayable status g)
    (hnone : ∀ self' g', L.Idle self' g' → L.Rests (f none) self' g')
    (hsome : ∀ event, accepted e.fields = some event → L.Rests (f (some event)) self g) :
    L.Rests (parse e.id e.fields >>= f) self g := by
  cases ha : accepted e.fields with
  | some event =>
    rw [parse_eq_pure.2 ha]
    exact hsome event ha
  | none =>
    have hack : L.Rests (ack e.id) self g := by
      refine wp_tryExcept (R := fun _ self' g' => L.Idle self' g' ∧ L.Recalls g g') ?_
        (fun _ _ _ h => h) fun e _ _ h => ?_
      · refine L.wp_leads (L.discard ha) h fun r g' hstage hr => wp_ofExcept ?_
        exact ⟨⟨hstage, fun id status hs => hr _ (hheld id status hs)⟩, hr⟩
      · exact wp_ite (fun _ => wp_pure h) fun _ => wp_raise h
    have hparse : wp C (parse e.id e.fields) (fun r self' g' => L.Idle self' g' ∧
        L.Recalls g g' ∧ ∀ o, r = .ok o → o = none) self g := by
      unfold parse
      rw [ha]
      refine wp_bind hack (fun _ _ _ h => ⟨h.1, h.2, nofun⟩) fun _ _ _ h => wp_pure ?_
      exact ⟨h.1, h.2, fun _ ho => (Except.ok.inj ho).symm⟩
    refine wp_bind hparse (fun _ _ _ h => ⟨h.1, h.2.1⟩) ?_
    rintro o self' g' ⟨h', hr, ho⟩
    exact ho o rfl ▸ (hnone self' g' h').mono hr

theorem rests_readOnce (h : L.Idle self g) : L.Rests (readOnce settings name) self g := by
  refine rests_leads L.read h.1 fun (r : Except PyError (Batch 1)) g₁ hstage hr₁ => ?_
  have hheld : ∀ id status, self.held = some (id, status) → L.sayable status g₁ :=
    fun id status hs => hr₁ _ (h.2 id status hs)
  rcases r with x | ⟨_ | ⟨e, _ | ⟨_, _⟩⟩, hcount⟩
  · exact rests_raise ⟨hstage, hheld⟩
  · exact rests_pure ⟨hstage, hheld⟩
  · refine rests_bind (f := fun _ => pure ()) ?_ fun _ _ _ h _ => rests_pure h
    refine rests_parse (.inl hstage) hheld (fun _ _ h => rests_pure h) fun event ha => ?_
    exact rests_bind (rests_handle ha hheld hstage (.inl rfl)) fun _ _ _ h _ => rests_pure h
  · simp at hcount

/-- One entry is brought, or none is. -/
theorem wp_claimOne (pages : Nat) (cursor : EntryId) (h : L.stage .free g) :
    wp C (claimOne settings name pages cursor) (fun r self' g' => self' = self ∧
      L.Recalls g g' ∧ match r with
        | .ok (some e) => L.stage (.claimed e) g'
        | _ => L.stage .free g') self g := by
  induction pages generalizing cursor g with
  | zero => exact wp_pure ⟨rfl, .refl, h⟩
  | succ pages ih =>
    refine L.wp_leads L.claim h fun (r : Except PyError Claimed) g₁ hstage hr₁ => ?_
    rcases r with x | ⟨next, ⟨_ | ⟨e, es⟩, hcount⟩⟩
    · exact wp_raise ⟨rfl, hr₁, hstage⟩
    · refine wp_ite (fun _ => wp_pure ⟨rfl, hr₁, hstage⟩) fun _ => ?_
      exact wp_mono (ih next hstage) fun r _ _ _ h => ⟨h.1, hr₁.trans h.2.1, h.2.2⟩
    · exact wp_pure ⟨rfl, hr₁, hstage⟩

theorem wp_ownPending {e : StreamEntry} (h : L.stage (.claimed e) g) :
    wp C (ownPending name e.id) (fun r self' g' => self' = self ∧ L.Recalls g g' ∧ match r with
      | .ok (some n) => L.stage (.checked e n) g'
      | _ => L.stage .free g') self g := by
  refine wp_tryExcept (R := fun r self' g' => self' = self ∧ L.Recalls g g' ∧ match r with
    | .ok (some n) => L.stage (.checked e n) g'
    | _ => L.stage .free g') ?_ (fun _ _ _ h => h) fun x _ _ h => ?_
  · refine L.wp_leads L.count h fun (r : Except PyError (Option (Int × String))) g₁ hstage hr₁ => ?_
    rcases r with x | _ | ⟨n, owner⟩
    · exact wp_raise ⟨rfl, hr₁, hstage⟩
    · exact wp_pure ⟨rfl, hr₁, hstage⟩
    · simp only [Stage.ofPending] at hstage
      split at hstage
      case isTrue ho => exact wp_pure ⟨rfl, hr₁, by simpa [ho] using hstage⟩
      case isFalse ho => exact wp_pure ⟨rfl, hr₁, by simpa [ho] using hstage⟩
  · exact wp_ite (fun _ => wp_pure h) fun _ => wp_raise h

theorem rests_claimAndProcess (jobs : Nat) (h : L.Idle self g) :
    L.Rests (claimAndProcess settings name jobs) self g := by
  induction jobs generalizing self g with
  | zero => exact rests_pure h
  | succ jobs ih =>
    refine wp_bind (wp_claimOne maxClaimPages 0 h.1)
      (fun _ _ _ h' => ⟨h'.1 ▸ h.recalls h'.2.2 h'.2.1, h'.2.1⟩) ?_
    rintro (_ | e) _ g₁ ⟨rfl, hr₁, hstage⟩
    · exact wp_pure ⟨h.recalls hstage hr₁, hr₁⟩
    have hheld := fun id status hs => hr₁ _ (h.2 id status hs)
    refine Rests.mono (rests_parse (.inr hstage) hheld (fun _ _ h => ih h) fun event ha => ?_) hr₁
    refine wp_bind (wp_ownPending hstage)
      (fun _ _ _ h => ⟨h.1 ▸ ⟨h.2.2, fun id status hs => h.2.1 _ (hheld id status hs)⟩, h.2.1⟩) ?_
    rintro (_ | n) _ g₂ ⟨rfl, hr₂, hstage₂⟩
    all_goals have hheld₂ := fun id status hs => hr₂ _ (hheld id status hs)
    · exact Rests.mono (ih ⟨hstage₂, hheld₂⟩) hr₂
    · have hrest (self : ConsumerState) (g : G) (h : L.Idle self g) :
          L.Rests (Method.self >>= fun s => if s.held.isSome then pure ()
            else claimAndProcess settings name jobs) self g :=
        rests_self (rests_ite (fun _ => rests_pure h) fun _ => ih h)
      refine Rests.mono (rests_ite (fun hgt => ?_) fun hle => ?_) hr₂
      · refine wp_of_inv fun hinv => ?_
        obtain ⟨hfree, hsay⟩ := L.condemn hinv hstage₂ hgt ha
        refine rests_bind (rests_reportPoison hsay ⟨hfree, hheld₂⟩) ?_
        exact fun _ self g h _ => hrest self g h
      · have hstart := rests_handle ha hheld₂ hstage₂ (.inr ⟨n, Int.not_lt.1 hle, rfl⟩)
        exact rests_bind hstart fun _ self g h _ => hrest self g h

theorem rests_recoverOnce (h : L.Idle self g) : L.Rests (recoverOnce settings name) self g := by
  refine rests_bind (rests_tryExcept (rests_bind (rests_claimAndProcess _ h)
    fun _ _ _ h _ => rests_pure h) fun e _ _ h => ?_) fun claimError _ _ h _ => ?_
  · exact rests_ite (fun _ => rests_pure h) fun _ => rests_raise h
  · refine rests_bind (rests_cleanupConsumers h) fun _ _ _ h _ => ?_
    split
    · exact rests_raise h
    · exact rests_pure h

theorem rests_sleep {duration : Micros} (h : L.Idle self g) : L.Rests (sleep duration) self g :=
  rests_plain (c := .sleep duration) trivial h

theorem rests_guarded {step : Consumer Unit} (hstep : L.Rests step self g) :
    L.Rests (guarded settings step) self g := by
  refine rests_tryExcept hstep fun e _ _ h => rests_ite (fun _ => rests_ite (fun _ => ?_)
    fun _ => ?_) fun _ => rests_ite (fun _ => ?_) fun _ => rests_raise h
  · exact rests_bind (rests_ensureGroupUntilReady h) fun _ _ _ h _ => rests_pure h
  · exact rests_bind (rests_sleep h) fun _ _ _ h _ => rests_pure h
  · exact rests_bind (rests_sleep h) fun _ _ _ h _ => rests_pure h

theorem rests_turn (nextRecovery : Micros) (h : L.Idle self g) :
    L.Rests (turn settings name nextRecovery) self g := by
  have hread (nextRecovery : Micros) {self : ConsumerState} {g : G} (h : L.Idle self g) :
      L.Rests (do guarded settings (readOnce settings name); return .inl nextRecovery :
        Consumer (Micros ⊕ Unit)) self g :=
    rests_bind (rests_guarded (rests_readOnce h)) fun _ _ _ h _ => rests_pure h
  refine rests_plain_bind (c := .stopped) trivial h fun (stop : Bool) g₁ h₁ _ => ?_
  refine rests_ite (fun _ => rests_pure h₁) fun _ => ?_
  refine rests_self (rests_ite (fun _ => ?_) fun _ => ?_)
  · -- a status is held: one more try, nothing is read
    refine rests_bind (rests_guarded (rests_bind (rests_retryHeld h₁)
      fun _ _ _ h _ => rests_pure h)) fun _ _ _ h _ => ?_
    refine rests_self (rests_ite (fun _ => ?_) fun _ => ?_)
    · exact rests_bind (rests_sleep h) fun _ _ _ h _ => rests_pure h
    · exact rests_pure h
  · refine rests_plain_bind (c := .clock) trivial h₁ fun (now : Micros) g₂ h₂ _ => ?_
    refine rests_ite (fun _ => ?_) fun _ => hread nextRecovery h₂
    refine rests_bind (rests_guarded (rests_recoverOnce h₂)) fun _ _ g₃ h₃ _ => ?_
    refine rests_plain_bind (c := .clock) trivial h₃ fun (now : Micros) g₄ h₄ _ => ?_
    exact rests_self (rests_ite (fun _ => rests_pure h₄) fun _ => hread _ h₄)

theorem rests_run (h : L.Idle self g) : L.Rests (run settings name) self g := by
  refine rests_bind (rests_ensureGroupUntilReady h) fun ready _ _ h _ => ?_
  exact rests_ite (fun _ => rests_loop h fun t _ _ h => rests_turn t h) fun _ => rests_pure h

end Run

/-- Every command a consumer issues is issued at a stage that permits it. -/
theorem wp_main {g : G} (h : L.stage .free g) :
    Prog.wp C (main settings name) (fun _ _ => True) g := by
  have hrun : L.Rests (run settings name) ⟨none, 0⟩ g := rests_run ⟨h, nofun⟩
  exact Prog.wp_bind (Prog.wp_mono _ hrun fun _ _ _ _ => Prog.wp_ret trivial)

end Custody

end Rag
