import RagPipeline.Rag.LiveJobs

/-!
# Publish attempts within the lease

One consumer with its clock. Redis counts the idle time of an entry from the moment it delivers it
or lets it be claimed; `_publish` counts from a reading of the clock that it was handed, taken once
the answer was there, and for a claimed entry after another round trip.

## Main definitions

* `Lease`: the entry brought last, and the attempts to publish its status.
* `RetriesInTime`: no attempt but the first outlives the lease, and they are not too many.
* `InGap`: a retry that `_publish` finds in time is not.

## Main results

* `retries_in_time`: with no such retry every run is of this kind.
* `retry_outlives_lease`: which happens.
-/
namespace Rag

open Events Wire Interact Method StreamConsumer

/-- How far `_publish` is with a retry. -/
inductive Retry where
  | none
  /-- An attempt has failed with a Redis error. -/
  | failed
  /-- And the pause after it is over. -/
  | due
  deriving DecidableEq

structure Lease where
  now : Micros
  /-- When Redis delivered the entry brought last, or let it be claimed. -/
  delivered : Option Micros
  /-- The first reading of the clock since: it is what `_publish` counts from. -/
  started : Option Micros
  /-- When attempts were started since, the last first; those at a held status apart. -/
  attempts : List Micros
  /-- An XCLAIM has renewed the entry: its status is held. -/
  renewed : Bool
  retry : Retry

def Lease.start (boot : Micros) : Lease := ⟨boot, none, none, [], false, .none⟩

namespace Lease

variable (ch : Moment) (g : Lease)

def reply : (c : ConsumerCall.Cmd) → ConsumerCall.Reply c
  | .inl .clock => g.now
  | c => ch.reply c

/-- Time passes. -/
def passed : Lease := { g with now := g.now + ch.before + ch.after, retry := .none }

/-- A call to Redis may bring an entry. -/
def called (c : ConsumerCmd) : Lease :=
  match brought c (ch.reply (.inl c)) with
  | some _ => ⟨g.now + ch.before + ch.after, some (g.now + ch.before), none, [], false, .none⟩
  | none => g.passed ch

def added (r : Except PyError Unit) : Lease :=
  { g.passed ch with
    attempts := if g.renewed then g.attempts else g.now :: g.attempts
    retry := match r with
      | .ok _ => .none
      | .error e => if e.isRedisError then .failed else .none }

def slept (full : Bool) : Lease :=
  { g.passed ch with retry := if g.retry = .failed ∧ full then .due else .none }

def after : ConsumerCall.Cmd → Lease
  | .inl (.xadd status) => g.added ch (ch.reply (.inl (.xadd status)))
  | .inl (.sleep duration) => g.slept ch (ch.reply (.inl (.sleep duration)))
  | .inl .clock => { g with started := g.started.or (some g.now), retry := .none }
  | .inl (.xclaim ..) => { g.passed ch with renewed := true }
  | .inl .stopped | .inl .arm | .inl .disarm | .inl .uuid4 | .inl .utcnow =>
    { g with retry := .none }
  | .inl c => g.called ch c
  | .inr _ => g.passed ch

theorem after_xadd {status : StatusEvent} :
    g.after ch (.inl (.xadd status)) = g.added ch (ch.reply (.inl (.xadd status))) := rfl

theorem after_sleep {duration : Micros} :
    g.after ch (.inl (.sleep duration)) = g.slept ch (ch.reply (.inl (.sleep duration))) := rfl

end Lease

/-- Calls to Redis, sleeps and jobs take any time. -/
def leased (settings : ConsumerSettings) (name : String) : Actors Unit Lease where
  sig _ := ConsumerCall
  main _ := main settings name
  Choice := Moment
  respond _ c ch g := (g.reply ch c, g.after ch c)
  enter _ g := g
  leave _ g := g
  Env := Empty
  env := nofun

/-- A whole attempt that starts now fits before the entry can be claimed. -/
def Fits (settings : ConsumerSettings) (g : Lease) (t : Micros) : Prop :=
  ∃ delivered, g.delivered = some delivered ∧
    t + settings.callTimeout < delivered + settings.minIdle

structure RetriesInTime (settings : ConsumerSettings) (g : Lease) : Prop where
  few : g.attempts.length ≤ settings.publishAttempts
  fits : ∀ t ∈ g.attempts.dropLast, Fits settings g t

/-- A whole attempt fits before `min_idle` counted from the reading of the clock, and does not fit
before `min_idle` counted from the delivery. -/
def InGap (settings : ConsumerSettings) (g : Lease) : Prop :=
  ∃ delivered ∈ g.delivered, ∃ started ∈ g.started,
    delivered + settings.minIdle ≤ g.now + settings.callTimeout ∧
    g.now + settings.callTimeout < started + settings.minIdle

instance (settings : ConsumerSettings) (g : Lease) : Decidable (InGap settings g) :=
  inferInstanceAs (Decidable (∃ delivered ∈ g.delivered, ∃ started ∈ g.started, _ ∧ _))

def readsClock : ConsumerCall.Cmd → Bool
  | .inl .clock => true
  | _ => false

/-- `_publish` never reads the clock for a retry in the gap. -/
def OutsideGap (settings : ConsumerSettings) (c : ConsumerCall.Cmd) (g : Lease) : Prop :=
  readsClock c → g.retry = .due → ¬ InGap settings g

def leaseRules (settings : ConsumerSettings) (name : String) : (leased settings name).Rules where
  start _ _ := True
  call _ c _ g := OutsideGap settings c g
  env := nofun

instance (settings : ConsumerSettings) (name : String) (i : Unit)
    (c : ((leased settings name).sig i).Cmd) (ch : (leased settings name).Choice) (g : Lease) :
    Decidable ((leaseRules settings name).call i c ch g) :=
  inferInstanceAs (Decidable (readsClock c → g.retry = .due → ¬ InGap settings g))

instance (settings : ConsumerSettings) (name : String) (i : Unit) (g : Lease) :
    Decidable ((leaseRules settings name).start i g) :=
  .isTrue trivial

instance (settings : ConsumerSettings) (name : String) (e : (leased settings name).Env)
    (g : Lease) : Decidable ((leaseRules settings name).env e g) :=
  nomatch e

/-! ### What the consumer works under -/

def leaseContract (settings : ConsumerSettings) (name : String) : Contract ConsumerCall Lease where
  inv := RetriesInTime settings
  rely g g' := g' = g
  guard c g := match c with
    | .inl (.xadd _) => g.renewed ∨ g.attempts.length < settings.publishAttempts ∧
        (g.attempts = [] ∨ Fits settings g g.now)
    | _ => True
  exec c g r g' := ∃ ch, (leaseRules settings name).call () c ch g ∧
    (leased settings name).respond () c ch g = (r, g')

/-- An entry was brought and no attempt was made at its status. -/
structure Untried (started : Option Micros) (g : Lease) : Prop where
  delivered : g.delivered.isSome
  started : g.started = started
  attempts : g.attempts = []
  renewed : g.renewed = false

/-- Commands that leave alone what `_publish` counts. -/
def Aside : ConsumerCall.Cmd → Prop
  | .inl (.xpendingRange _) | .inl (.xack _) | .inl .arm | .inl .disarm | .inl .uuid4
  | .inl .utcnow | .inr _ => True
  | _ => False

/-- Commands other than XADD. -/
def Quiet : ConsumerCall.Cmd → Prop
  | .inl (.xadd _) => False
  | _ => True

section Commands

variable {settings : ConsumerSettings} {name : String} {g g' : Lease} {ch : Moment}
  {started : Option Micros}

theorem Fits.congr {t : Micros} (h : Fits settings g t) (hd : g'.delivered = g.delivered) :
    Fits settings g' t := by
  obtain ⟨delivered, hdel, ht⟩ := h
  exact ⟨delivered, hd.trans hdel, ht⟩

theorem RetriesInTime.congr (h : RetriesInTime settings g) (hd : g'.delivered = g.delivered)
    (ha : g'.attempts = g.attempts) : RetriesInTime settings g' :=
  ⟨ha ▸ h.few, fun t ht => (h.fits t (ha ▸ ht)).congr hd⟩

theorem RetriesInTime.called (h : RetriesInTime settings g) (c : ConsumerCmd) :
    RetriesInTime settings (g.called ch c) := by
  unfold Lease.called
  cases brought c (ch.reply (.inl c)) with
  | some e => exact ⟨Nat.zero_le _, nofun⟩
  | none => exact h.congr rfl rfl

theorem RetriesInTime.added (h : RetriesInTime settings g) (r : Except PyError Unit)
    (hg : g.renewed ∨ g.attempts.length < settings.publishAttempts ∧
      (g.attempts = [] ∨ Fits settings g g.now)) : RetriesInTime settings (g.added ch r) := by
  by_cases hr : g.renewed
  · exact h.congr rfl (if_pos hr)
  · obtain ⟨hlen, hfits⟩ := hg.resolve_left hr
    have ha : (g.added ch r).attempts = g.now :: g.attempts := if_neg hr
    refine ⟨ha ▸ hlen, fun t ht => Fits.congr (g := g) ?_ rfl⟩
    rw [ha] at ht
    cases hne : g.attempts with
    | nil => simp [hne] at ht
    | cons a as =>
      rw [hne, List.dropLast_cons_cons, List.mem_cons] at ht
      obtain rfl | ht := ht
      · exact hfits.resolve_left (by simp [hne])
      · exact h.fits t (hne ▸ ht)

/-- Every command that may be issued keeps the invariant. -/
theorem RetriesInTime.after (h : RetriesInTime settings g) (c : ConsumerCall.Cmd)
    (hg : (leaseContract settings name).guard c g) : RetriesInTime settings (g.after ch c) := by
  cases c with
  | inr job => exact h.congr rfl rfl
  | inl c =>
    cases c with
    | xadd status => exact h.added _ hg
    | sleep | clock | xclaim | stopped | arm | disarm | uuid4 | utcnow => exact h.congr rfl rfl
    | xgroupCreate => exact h.called .xgroupCreate
    | xreadgroup consumer block => exact h.called (.xreadgroup consumer block)
    | xautoclaim consumer minIdle start => exact h.called (.xautoclaim consumer minIdle start)
    | xpendingRange id => exact h.called (.xpendingRange id)
    | xack id => exact h.called (.xack id)
    | xinfoConsumers => exact h.called .xinfoConsumers
    | xgroupDelconsumer consumer => exact h.called (.xgroupDelconsumer consumer)

theorem Untried.after {c : ConsumerCall.Cmd} (h : Untried started g) (hc : Aside c) :
    Untried started (g.after ch c) := by
  obtain ⟨hd, hs, ha, hr⟩ := h
  rcases c with c | job
  · cases c <;> first | exact hc.elim | exact ⟨hd, hs, ha, hr⟩
  · exact ⟨hd, hs, ha, hr⟩

theorem Untried.brought {c : ConsumerCmd} (hc : (brought c (ch.reply (.inl c))).isSome) :
    Untried none (g.called ch c) := by
  obtain ⟨e, he⟩ := Option.isSome_iff_exists.1 hc
  rw [Lease.called, he]
  exact ⟨rfl, rfl, rfl, rfl⟩

end Commands

/-! ### Methods that publish nothing -/

section Quiet

variable {settings : ConsumerSettings} {name : String} {P : ConsumerCall.Cmd → Prop}

theorem issues_ack {id : EntryId} (hP : P (.inl (.xack id))) : Issues P (ack id) :=
  issues_tryExcept (issues_request hP) fun _ => issues_ite issues_pure issues_raise

theorem issues_parse {id : EntryId} {fields : Option Fields} (hP : P (.inl (.xack id))) :
    Issues P (parse id fields) := by
  unfold parse
  split
  · exact issues_pure
  · exact issues_bind (issues_ack hP) fun _ => issues_pure

theorem issues_newStatus {make : PyStr → Int → Except InvalidEvent StatusEvent}
    (hid : P (.inl .uuid4)) (hnow : P (.inl .utcnow)) : Issues P (newStatus make) :=
  issues_call_bind hid fun _ => issues_call_bind hnow fun _ => issues_ofExcept

theorem issues_ownPending {id : EntryId} (hP : P (.inl (.xpendingRange id))) :
    Issues P (ownPending name id) := by
  refine issues_tryExcept (issues_call_bind hP fun r => ?_)
    fun _ => issues_ite issues_pure issues_raise
  rcases r with _ | _ | ⟨deliveries, owner⟩
  · exact issues_raise
  · exact issues_pure
  · exact issues_pure

theorem issues_sleep {duration : Micros} : Issues Quiet (sleep duration) := issues_call trivial

theorem issues_ensureGroupUntilReady : Issues Quiet (ensureGroupUntilReady settings) := by
  have hcreate : Issues Quiet ensureGroup := by
    refine issues_tryExcept (issues_request (S := ConsumerCall) (c := .inl .xgroupCreate) trivial)
      fun e => ?_
    split
    · exact issues_pure
    · exact issues_raise
  refine issues_loop fun _ => issues_call_bind trivial fun (stop : Bool) => ?_
  refine issues_ite issues_pure (issues_tryExcept (issues_bind hcreate fun _ => issues_pure) ?_)
  refine fun _ => issues_ite (issues_bind issues_sleep fun (full : Bool) => ?_) issues_raise
  exact issues_ite issues_pure issues_pure

theorem issues_cleanupConsumers : Issues Quiet (cleanupConsumers settings name) := by
  refine issues_tryExcept (issues_call_bind trivial fun r => issues_bind issues_ofExcept ?_)
    fun _ => issues_ite issues_pure issues_raise
  intro consumers
  induction consumers with
  | nil => exact issues_pure
  | cons c cs ih =>
    exact issues_bind (issues_ite issues_pure (issues_request trivial)) fun _ => ih

end Quiet

/-! ### Publishing -/

namespace Lease

/-- Every command of the method is permitted. -/
def Safe (settings : ConsumerSettings) (name : String) {α : Type} (m : Consumer α)
    (self : ConsumerState) (g : Lease) : Prop :=
  wp (leaseContract settings name) m (fun _ _ _ => True) self g

section Safe

variable {settings : ConsumerSettings} {name : String} {α β : Type} {self : ConsumerState}
  {g : Lease}

theorem safe_of_issues {m : Consumer α} (hm : Issues Quiet m) : Safe settings name m self g := by
  refine Method.wp_of_issues hm (fun c g hc _ _ => ⟨?_, fun _ _ _ _ _ _ => trivial⟩) trivial
  rcases c with c | job
  · cases c <;> first | exact hc.elim | exact trivial
  · trivial

theorem safe_bind {m : Consumer β} {f : β → Consumer α} (hm : Safe settings name m self g)
    (hf : ∀ b self g, Safe settings name (f b) self g) : Safe settings name (m >>= f) self g :=
  wp_bind hm (fun _ _ _ _ => trivial) fun b self g _ => hf b self g

theorem safe_tryExcept {m : Consumer α} {handler : PyError → Consumer α}
    (hm : Safe settings name m self g) (hh : ∀ e self g, Safe settings name (handler e) self g) :
    Safe settings name (tryExcept m handler) self g :=
  wp_tryExcept hm (fun _ _ _ _ => trivial) fun e self g _ => hh e self g

theorem safe_pure {a : α} : Safe settings name (pure a) self g := wp_pure trivial

theorem safe_raise {e : PyError} : Safe settings name (raise e : Consumer α) self g :=
  wp_raise trivial

theorem safe_ite {c : Prop} [Decidable c] {m n : Consumer α} (ht : c → Safe settings name m self g)
    (hf : ¬ c → Safe settings name n self g) : Safe settings name (if c then m else n) self g :=
  wp_ite ht hf

/-- One command, and what follows its answer. -/
theorem wp_command {c : ConsumerCall.Cmd} {f : ConsumerCall.Reply c → Consumer α}
    {Q : Except PyError α → ConsumerState → Lease → Prop}
    (hg : (leaseContract settings name).guard c g)
    (h : ∀ (ch : Moment) r, g.reply ch c = r → (leaseRules settings name).call () c ch g →
      wp (leaseContract settings name) (f r) Q self (g.after ch c)) :
    wp (leaseContract settings name) (call c >>= f) Q self g := by
  refine wp_call_bind (fun _ => hg) ?_
  rintro r g₁ g₂ - ⟨ch, hrule, hx⟩ - rfl
  obtain ⟨rfl, rfl⟩ := Prod.mk.inj hx
  exact h ch _ rfl hrule

/-- What is aside keeps an entry untried. -/
theorem wp_aside {m : Consumer α} {started : Option Micros} (hm : Issues Aside m)
    (h : Untried started g) :
    wp (leaseContract settings name) m (fun _ _ => Untried started) self g := by
  refine Method.wp_of_issues hm (fun c g hc _ h => ⟨?_, ?_⟩) h
  · rcases c with c | job
    · cases c <;> first | exact hc.elim | exact trivial
    · trivial
  · rintro r g₁ g₂ ⟨ch, -, hx⟩ - rfl
    obtain ⟨rfl, rfl⟩ := Prod.mk.inj hx
    exact h.after hc

end Safe

/-- `_publish` has so many tries left, and counts from `started`. -/
structure Trying (settings : ConsumerSettings) (started : Micros) (left : Nat) (g : Lease) :
    Prop where
  delivered : g.delivered.isSome
  started : g.started = some started
  renewed : g.renewed = false
  few : g.attempts.length + left ≤ settings.publishAttempts

section Publish

variable {settings : ConsumerSettings} {name : String} {id : EntryId} {status : StatusEvent}
  {started : Micros} {self : ConsumerState} {g : Lease}

/-- A try that fails with a Redis error leaves one less. -/
theorem Trying.added {left : Nat} (h : Trying settings started (left + 1) g) (ch : Moment)
    {e : PyError} (he : e.isRedisError) :
    Trying settings started left (g.added ch (.error e)) ∧
      (g.added ch (.error e)).retry = .failed := by
  obtain ⟨hd, hs, hr, hfew⟩ := h
  have ha : (g.added ch (.error e)).attempts = g.now :: g.attempts := by simp [Lease.added, hr]
  refine ⟨⟨hd, hs, hr, ?_⟩, by simp [Lease.added, he]⟩
  rw [ha, List.length_cons]
  omega

theorem Trying.slept {left : Nat} (h : Trying settings started left g) (ch : Moment)
    (hf : g.retry = .failed) :
    Trying settings started left (g.slept ch true) ∧ (g.slept ch true).retry = .due :=
  ⟨⟨h.delivered, h.started, h.renewed, h.few⟩, by simp [Lease.slept, hf]⟩

/-- A reading before `reclaimableAt` and outside the gap leaves time for another try. -/
theorem Trying.fits {left : Nat} (h : Trying settings started left g) (hgap : ¬ InGap settings g)
    (hin : g.now + settings.callTimeout < started + settings.minIdle) :
    Fits settings g g.now := by
  obtain ⟨delivered, hd⟩ := Option.isSome_iff_exists.1 h.delivered
  refine ⟨delivered, hd, ?_⟩
  by_contra hle
  exact hgap ⟨delivered, hd, started, h.started, not_lt.1 hle, hin⟩

theorem wp_tryAdd {left : Nat} (h : Trying settings started (left + 1) g)
    (hfits : g.attempts = [] ∨ Fits settings g g.now) :
    wp (leaseContract settings name) (tryAdd status) (fun r _ g' => r = .ok false →
      Trying settings started left g' ∧ g'.retry = .failed) self g := by
  have hguard : (leaseContract settings name).guard (.inl (.xadd status)) g :=
    .inr ⟨by have := h.few; omega, hfits⟩
  have hadd : wp (leaseContract settings name) (StreamConsumer.add status)
      (fun r _ g' => ∀ e, r = .error e → e.isRedisError →
        Trying settings started left g' ∧ g'.retry = .failed) self g := by
    refine wp_command hguard fun ch (r : Except PyError Unit) hr _ => wp_ofExcept ?_
    rintro e rfl hredis
    rw [Lease.after_xadd, show ch.reply (.inl (.xadd status)) = Except.error e from hr]
    exact h.added ch hredis
  have hok : wp (leaseContract settings name) (do StreamConsumer.add status; return true)
      (fun r _ g' => r ≠ .ok false ∧ ∀ e, r = .error e → e.isRedisError →
        Trying settings started left g' ∧ g'.retry = .failed) self g :=
    wp_bind hadd (fun e _ _ h => ⟨by simp, fun e' he => h e' (by simpa using he)⟩)
      fun _ _ _ _ => wp_pure ⟨by simp, by simp⟩
  refine wp_tryExcept hok (fun b _ _ h hb => absurd hb h.1) fun e _ _ h => ?_
  exact wp_ite (fun hredis => wp_pure fun _ => h.2 e rfl hredis) fun _ => wp_raise nofun

theorem safe_publishLoop (left : Nat) (h : Trying settings started left g)
    (hfits : g.attempts = [] ∨ Fits settings g g.now) :
    Safe settings name (publishLoop settings status (started + settings.minIdle) left) self g := by
  induction left generalizing self g with
  | zero => exact safe_pure
  | succ left ih =>
    refine wp_bind (wp_tryAdd h hfits) (fun _ _ _ _ => trivial) fun ok self₁ g₁ h₁ => ?_
    refine safe_ite (fun _ => safe_pure) fun hok => safe_ite (fun _ => safe_pure) fun _ => ?_
    obtain ⟨h₁, hfailed⟩ := h₁ (by simpa using hok)
    refine wp_command trivial fun ch (full : Bool) hr _ => ?_
    refine safe_ite (fun _ => safe_pure) fun hfull => ?_
    obtain rfl : full = true := by simpa using hfull
    rw [Lease.after_sleep, show ch.reply (.inl (.sleep settings.retryDelay)) = true from hr]
    obtain ⟨h₂, hdue⟩ := h₁.slept ch hfailed
    refine wp_command trivial fun _ now hr hrule => ?_
    refine safe_ite (fun _ => safe_pure) fun hin => ?_
    subst hr
    have hfits := h₂.fits (hrule rfl hdue) (not_le.1 hin)
    exact ih ⟨h₂.delivered, by simp [Lease.after, h₂.started], h₂.renewed, h₂.few⟩
      (.inr (hfits.congr rfl))

theorem safe_finish (h : Untried (some started) g) :
    Safe settings name (finish settings id status started) self g := by
  have htrying : Trying settings started settings.publishAttempts g :=
    ⟨h.delivered, h.started, h.renewed, by simp [h.attempts]⟩
  refine safe_bind (safe_publishLoop _ htrying (.inl h.attempts)) fun ok self g => ?_
  refine safe_ite (fun _ => safe_of_issues ?_) fun _ => ?_
  · exact issues_bind (issues_ack trivial) fun _ => issues_pure
  · exact safe_bind (m := assign _) (wp_assign trivial) fun _ _ _ => safe_pure

end Publish

/-! ### One entry -/

section Entry

variable {settings : ConsumerSettings} {name : String} {id : EntryId} {event : IngestEvent}
  {self : ConsumerState} {g : Lease}

/-- The first reading of the clock is what `_publish` counts from. -/
theorem wp_clock {α : Type} {f : Micros → Consumer α} {started : Option Micros}
    {Q : Except PyError α → ConsumerState → Lease → Prop} (h : Untried started g)
    (hf : ∀ now g', Untried (started.or (some now)) g' →
      wp (leaseContract settings name) (f now) Q self g') :
    wp (leaseContract settings name) (clock >>= f) Q self g := by
  refine wp_command trivial fun ch now hr _ => hf now _ ?_
  subst hr
  exact ⟨h.delivered, congrArg (Option.or · _) h.started, h.attempts, h.renewed⟩

theorem safe_reportPoison {deliveries : Int} (h : Untried none g) :
    Safe settings name (reportPoison settings id event deliveries) self g := by
  refine wp_bind (wp_aside (issues_newStatus trivial trivial) h) (fun _ _ _ _ => trivial)
    fun status self g h => wp_clock h fun started g h => ?_
  exact safe_bind (safe_finish h) fun _ _ _ => safe_pure

theorem issues_job {deadline : Micros} : Issues Aside
    (andFinally (do ofExcept (runJob (← process event deadline))) (perform .disarm)) := by
  refine issues_bind (issues_tryExcept (issues_request trivial) fun e => ?_) fun outcome => ?_
  · exact issues_call_bind trivial fun _ => issues_raise
  · exact issues_call_bind trivial fun _ => issues_pure

theorem safe_handle (h : Untried none g) :
    Safe settings name (handle settings id event) self g := by
  refine wp_clock h fun started g h => wp_clock h fun now g h => ?_
  refine wp_bind (wp_aside (issues_call trivial) h) (fun _ _ _ _ => trivial) fun _ self g h => ?_
  refine wp_bind (wp_aside issues_job h) (fun _ _ _ _ => trivial) fun outcome self g h => ?_
  refine wp_bind (wp_aside (issues_newStatus trivial trivial) h) (fun _ _ _ _ => trivial)
    fun status self g h => ?_
  exact safe_finish h

/-- A held status may be tried at any time: the entry is renewed first. -/
theorem safe_retryHeld : Safe settings name (retryHeld name) self g := by
  refine wp_self_bind ?_
  split
  case h_1 => exact safe_raise
  case h_2 id status hheld =>
    have hrenew : wp (leaseContract settings name) (renew name id) (fun _ _ g' => g'.renewed) self
        g := by
      refine wp_tryExcept (R := fun _ _ g' => g'.renewed) ?_ (fun _ _ _ h => h) fun e _ _ h => ?_
      · exact wp_command trivial fun ch r _ _ => wp_ofExcept rfl
      · exact wp_ite (fun _ => wp_pure h) fun _ => wp_raise h
    refine wp_bind hrenew (fun _ _ _ _ => trivial) fun _ self g h => ?_
    have hadd : Safe settings name (tryAdd status) self g := by
      refine safe_tryExcept (safe_bind ?_ fun _ _ _ => safe_pure) fun e _ _ => ?_
      · exact wp_command (.inl h) fun ch r _ _ => wp_ofExcept trivial
      · exact safe_ite (fun _ => safe_pure) fun _ => safe_raise
    refine safe_bind hadd fun ok self g => safe_ite (fun _ => ?_) fun _ => ?_
    · refine safe_bind (m := assign _) (wp_assign trivial) fun _ _ _ => safe_of_issues ?_
      exact issues_bind (issues_ack trivial) fun _ => issues_pure
    · exact safe_bind (m := assign _) (wp_assign trivial) fun _ _ _ => safe_pure

end Entry

/-! ### Reading, recovering and the loop -/

section Run

variable {settings : ConsumerSettings} {name : String} {self : ConsumerState} {g : Lease}

theorem safe_readOnce : Safe settings name (readOnce settings name) self g := by
  refine wp_command trivial fun ch (r : Except PyError (Batch 1)) hr _ => ?_
  rcases r with x | ⟨_ | ⟨e, _ | ⟨_, _⟩⟩, hcount⟩
  · exact safe_raise
  · exact safe_pure
  · have h : Untried none (g.after ch (.inl (.xreadgroup name _))) := Untried.brought (by
      rw [show ch.reply (.inl (.xreadgroup name _)) = Except.ok ⟨[e], hcount⟩ from hr]
      rfl)
    refine safe_bind (f := fun _ => pure ()) ?_ fun _ _ _ => safe_pure
    refine wp_bind (wp_aside (issues_parse trivial) h) (fun _ _ _ _ => trivial)
      fun event self g h => ?_
    cases event with
    | none => exact safe_pure
    | some event => exact safe_bind (safe_handle h) fun _ _ _ => safe_pure
  · simp at hcount

/-- An entry that is claimed is untried. -/
theorem wp_claimOne (pages : Nat) (cursor : EntryId) :
    wp (leaseContract settings name) (claimOne settings name pages cursor)
      (fun r _ g' => ∀ e, r = .ok (some e) → Untried none g') self g := by
  induction pages generalizing cursor g with
  | zero => exact wp_pure nofun
  | succ pages ih =>
    refine wp_command trivial fun ch (r : Except PyError Claimed) hr _ => ?_
    rcases r with x | ⟨next, ⟨_ | ⟨e, es⟩, hcount⟩⟩
    · exact wp_raise nofun
    · exact wp_ite (fun _ => wp_pure nofun) fun _ => ih next
    · refine wp_pure fun _ _ => Untried.brought ?_
      rw [show ch.reply (.inl (.xautoclaim name _ cursor)) =
        Except.ok ⟨next, ⟨e :: es, hcount⟩⟩ from hr]
      rfl

theorem safe_claimAndProcess (jobs : Nat) :
    Safe settings name (claimAndProcess settings name jobs) self g := by
  induction jobs generalizing self g with
  | zero => exact safe_pure
  | succ jobs ih =>
    refine wp_bind (wp_claimOne maxClaimPages 0) (fun _ _ _ _ => trivial) fun claimed self g h => ?_
    cases claimed with
    | none => exact safe_pure
    | some e =>
    refine wp_bind (wp_aside (issues_parse trivial) (h e rfl)) (fun _ _ _ _ => trivial)
      fun event self g h => ?_
    cases event with
    | none => exact ih
    | some event =>
    refine wp_bind (wp_aside (issues_ownPending trivial) h) (fun _ _ _ _ => trivial)
      fun deliveries self g h => ?_
    cases deliveries with
    | none => exact ih
    | some deliveries =>
    have hrest (self : ConsumerState) (g : Lease) :
        Safe settings name (Method.self >>= fun s => if s.held.isSome then pure ()
          else claimAndProcess settings name jobs) self g :=
      wp_self_bind (safe_ite (fun _ => safe_pure) fun _ => ih)
    refine safe_ite (fun _ => ?_) fun _ => ?_
    · exact safe_bind (safe_reportPoison h) fun _ => hrest
    · exact safe_bind (safe_handle h) fun _ => hrest

theorem safe_recoverOnce : Safe settings name (recoverOnce settings name) self g := by
  refine safe_bind (safe_tryExcept (safe_bind (safe_claimAndProcess _) fun _ _ _ => safe_pure)
    fun e _ _ => safe_ite (fun _ => safe_pure) fun _ => safe_raise) fun claimError _ _ => ?_
  refine safe_bind (safe_of_issues issues_cleanupConsumers) fun _ _ _ => ?_
  split
  · exact safe_raise
  · exact safe_pure

theorem safe_guarded {step : Consumer Unit} (hstep : Safe settings name step self g) :
    Safe settings name (guarded settings step) self g := by
  refine safe_tryExcept hstep fun e _ _ => safe_of_issues ?_
  refine issues_ite (issues_ite ?_ ?_) (issues_ite ?_ issues_raise)
  · exact issues_bind issues_ensureGroupUntilReady fun _ => issues_pure
  · exact issues_bind issues_sleep fun _ => issues_pure
  · exact issues_bind issues_sleep fun _ => issues_pure

theorem safe_turn (nextRecovery : Micros) :
    Safe settings name (turn settings name nextRecovery) self g := by
  have hread (nextRecovery : Micros) {self : ConsumerState} {g : Lease} :
      Safe settings name (do guarded settings (readOnce settings name); return .inl nextRecovery :
        Consumer (Micros ⊕ Unit)) self g :=
    safe_bind (safe_guarded safe_readOnce) fun _ _ _ => safe_pure
  refine safe_bind (safe_of_issues (issues_call trivial)) fun (stop : Bool) self g => ?_
  refine safe_ite (fun _ => safe_pure) fun _ => ?_
  refine wp_self_bind (safe_ite (fun _ => ?_) fun _ => ?_)
  · refine safe_bind (safe_guarded (safe_bind safe_retryHeld fun _ _ _ => safe_pure))
      fun _ self g => wp_self_bind (safe_of_issues ?_)
    exact issues_ite (issues_bind issues_sleep fun _ => issues_pure) issues_pure
  · refine safe_bind (safe_of_issues (issues_call trivial)) fun (now : Micros) self g => ?_
    refine safe_ite (fun _ => ?_) fun _ => hread nextRecovery
    refine safe_bind (safe_guarded safe_recoverOnce) fun _ self g => ?_
    refine safe_bind (safe_of_issues (issues_call trivial)) fun (now : Micros) self g => ?_
    exact wp_self_bind (safe_ite (fun _ => safe_pure) fun _ => hread _)

theorem wp_main :
    Prog.wp (leaseContract settings name) (main settings name) (fun _ _ => True) g := by
  have hrun : Safe settings name (run settings name) ⟨none, 0⟩ g := by
    refine safe_bind (safe_of_issues issues_ensureGroupUntilReady) fun ready self g => ?_
    refine safe_ite (fun _ => ?_) fun _ => safe_pure
    refine wp_loop (fun _ _ _ => True) trivial fun t self g _ => ?_
    refine wp_mono (safe_turn t) fun r _ _ _ _ => ?_
    rcases r with _ | _ | _ <;> trivial
  exact Prog.wp_bind (Prog.wp_mono _ hrun fun _ _ _ _ => Prog.wp_ret trivial)

end Run

end Lease

/-! ### Every run -/

theorem RetriesInTime.start {settings : ConsumerSettings} {boot : Micros} :
    RetriesInTime settings (.start boot) :=
  ⟨Nat.zero_le _, nofun⟩

def leaseCertificate (settings : ConsumerSettings) (name : String) :
    Actors.Certificate (leased settings name) (leaseRules settings name) where
  inv := RetriesInTime settings
  rely _ g g' := g' = g
  guard _ c g := (leaseContract settings name).guard c g
  fresh _ _ := True
  rely_refl _ _ := rfl
  rely_trans _ _ _ _ h h' := h'.trans h
  fresh_rely _ _ _ _ _ _ := trivial
  enter_ok _ _ hi _ _ := ⟨hi, fun _ hj => (hj rfl).elim⟩
  call_ok _ c _ _ hi hg _ := ⟨hi.after c hg, fun _ hj => (hj rfl).elim⟩
  leave_ok _ _ hi := ⟨hi, fun _ hj => (hj rfl).elim⟩
  env_ok := nofun
  main_ok _ _ _ _ _ _ _ := Lease.wp_main

/-- In a run where no retry is found in time in the gap, every retry ends before the entry can be
claimed. -/
theorem retries_in_time {settings : ConsumerSettings} {name : String} {boot : Micros}
    {cfg : (leased settings name).Config}
    (h : (leased settings name).Reachable (leaseRules settings name) (.start boot) cfg) :
    RetriesInTime settings cfg.shared :=
  (leaseCertificate settings name).sound .start (fun _ => trivial) h

/-! ### A retry in the gap -/

/-- The settings of the repository's file. -/
def shippedSettings : ConsumerSettings :=
  .fromConfig (Settings.Python.build Settings.configToml).1

def publishFails : (c : ConsumerCall.Cmd) → ConsumerCall.Reply c
  | .inl (.xadd _) => Except.error PyError.redis
  | c => oneEntry c

def lasting (seconds : Nat) : Moment := ⟨publishFails, 0, seconds * 1000000⟩

/-- One entry is read, its job is run, and its status is tried twice. -/
def twoTries (reply job : Nat) : List (leased shippedSettings "c").Step :=
  [.start (), .unfold (), .call () (lasting 0), .call () (lasting 0), .unfold ()] ++
    List.replicate 5 (.call () (lasting 0)) ++ [.call () (lasting reply)] ++
    List.replicate 3 (.call () (lasting 0)) ++ [.call () (lasting job)] ++
    List.replicate 3 (.call () (lasting 0)) ++
    [.call () (lasting 40), .call () (lasting 1), .call () (lasting 0), .call () (lasting 0)]

theorem retries_in_time_quickJob : ∃ cfg,
    (leased shippedSettings "c").Reachable (leaseRules shippedSettings "c") (.start 0) cfg ∧
      cfg.shared.attempts.length = 2 ∧ RetriesInTime shippedSettings cfg.shared := by
  have hrules : (leaseRules shippedSettings "c").AllowsAll (Actors.init _ (.start 0))
      (twoTries 1 300) := by
    decide +kernel
  have hleaves : (leased shippedSettings "c").leaves (.start 0) (twoTries 1 300)
      (fun g => g.attempts.length) = some 2 := by
    decide +kernel
  obtain ⟨cfg, hreach, hlen⟩ := Actors.Reachable.of_leaves hrules hleaves
  exact ⟨cfg, hreach, hlen, retries_in_time hreach⟩

/-- The answer with the entry is fifty seconds late; under the repository's settings the second try
starts when less than two minutes of the lease are left. -/
theorem retry_outlives_lease : ¬ ∀ settings name boot cfg,
    (leased settings name).Reachable (Actors.Rules.free _) (.start boot) cfg →
      RetriesInTime settings cfg.shared := by
  intro h
  have hleaves : (leased shippedSettings "c").leaves (.start 0) (twoTries 50 1000)
      (fun g => (g.delivered, g.attempts)) = some (some 0, [1091000000, 1050000000]) := by
    decide +kernel
  obtain ⟨cfg, hreach, hshared⟩ :=
    Actors.Reachable.of_leaves (Actors.Rules.free_allowsAll _ _) hleaves
  obtain ⟨hd, ha⟩ := Prod.mk.inj hshared
  obtain ⟨delivered, hdel, hlt⟩ := (h _ _ _ cfg hreach).fits 1091000000 (by rw [ha]; decide)
  cases hd.symm.trans hdel
  exact absurd hlt (by decide +kernel)

end Rag
