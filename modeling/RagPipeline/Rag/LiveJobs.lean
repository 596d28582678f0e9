import RagPipeline.Interact.Runs
import RagPipeline.Rag.AckOrder
import RagPipeline.Rag.Custody

/-!
# How long the entry of a running job has been idle

One consumer on its own timeline: a Redis call takes effect some time after it is sent, its answer
is there some time later, and a job runs until it returns or the watchdog ends the process. What
others do shows only in the replies, which are arbitrary.

## Main definitions

* `timed`, `timedRules`: the consumer with its clock, and how long things may take.
* `Timeline.Fresh`: an entry whose job is running has been idle for less than `min_idle`.

## Main results

* `live_job_unclaimed`: the files with which that always holds.
-/
namespace Rag

open Events Wire Interact StreamConsumer

/-- Commands that are a call to Redis. -/
def ConsumerCmd.Remote : ConsumerCmd → Prop
  | .xgroupCreate | .xreadgroup .. | .xautoclaim .. | .xpendingRange _ | .xack _ | .xclaim ..
  | .xinfoConsumers | .xgroupDelconsumer _ | .xadd _ => True
  | _ => False

structure Timeline where
  now : Micros
  /-- The entry brought last, and when Redis delivered it or let it be claimed. -/
  hand : Option (StreamEntry × Micros)
  /-- When the watchdog was armed. -/
  armed : Option Micros

def Timeline.start (boot : Micros) : Timeline := ⟨boot, none, none⟩

/-- What the surroundings decide about a command. -/
structure Moment where
  reply : (c : ConsumerCall.Cmd) → ConsumerCall.Reply c
  /-- Until a call takes effect, and from there until its answer is read. -/
  before : Nat
  after : Nat

namespace Timeline

variable (ch : Moment) (g : Timeline)

def reply : (c : ConsumerCall.Cmd) → ConsumerCall.Reply c
  | .inl .clock => g.now
  | c => ch.reply c

def after : ConsumerCall.Cmd → Timeline
  | .inl .arm => { g with armed := some g.now }
  | .inl .disarm => { g with armed := none }
  | .inl .clock | .inl .stopped | .inl .uuid4 | .inl .utcnow | .inr _ => g
  | .inl c => { g with
      now := g.now + ch.before + ch.after
      hand := ((brought c (ch.reply (.inl c))).map fun e => (e, g.now + ch.before)).or g.hand }

/-- While a job runs its entry has been idle for less than `min_idle`. -/
def Fresh (settings : ConsumerSettings) : Prop :=
  g.armed.isSome → ∃ e since, g.hand = some (e, since) ∧ g.now - since < settings.minIdle

end Timeline

/-- The surroundings let a running job take its time. -/
def timed (settings : ConsumerSettings) (name : String) : Actors Unit Timeline where
  sig _ := ConsumerCall
  main _ := main settings name
  Choice := Moment
  respond _ c ch g := (g.reply ch c, g.after ch c)
  enter _ g := g
  leave _ g := { g with armed := none }
  Env := Nat
  env := fun (duration : Nat) g => { g with now := g.now + duration }

/-- Redis answers within the socket timeout, and the process does not outlive its watchdog. Only
calls, sleeping and jobs take time. -/
def timedRules (settings : ConsumerSettings) (name : String) (socketTimeout watchdog : Micros) :
    (timed settings name).Rules where
  start _ _ := True
  call _ c ch _ := match c with
    | .inl c => c.Remote → ((Moment.before ch + Moment.after ch : Nat) : Int) ≤ socketTimeout
    | .inr _ => True
  env := fun (duration : Nat) g => ∃ since, g.armed = some since ∧
    g.now + duration ≤ since + watchdog

/-! ### Every job starts soon enough -/

section Account

variable {settings : ConsumerSettings} {name : String} {socketTimeout watchdog : Micros}

namespace Timeline

variable (socketTimeout watchdog)

/-- An entry in hand and the bound on how long it has been idle. -/
def Within (limit : Micros) (e : StreamEntry) (g : Timeline) : Prop :=
  g.armed = none ∧ ∃ since, g.hand = some (e, since) ∧ g.now ≤ since + limit

def Inv (g : Timeline) : Prop :=
  ∀ start, g.armed = some start → g.now ≤ start + watchdog ∧
    ∃ e since, g.hand = some (e, since) ∧ start ≤ since + 2 * socketTimeout

/-- Time passes for a running job only. -/
structure Elapses (g g' : Timeline) : Prop where
  hand : g'.hand = g.hand
  armed : g'.armed = g.armed
  now : g.armed = none → g'.now = g.now

def Permits (g : Timeline) : ConsumerCall.Cmd → Prop
  | .inl .arm => ∃ e, g.Within (2 * socketTimeout) e
  | .inl .disarm | .inl .clock | .inl .stopped | .inl .uuid4 | .inl .utcnow => True
  | .inl _ => g.armed = none
  | .inr job => g.armed.isSome ∧
      ∃ e since, g.hand = some (e, since) ∧ accepted e.fields = some job.event

def At : Stage → Timeline → Prop
  | .free, g => g.armed = none
  | .fresh e, g | .claimed e, g => g.Within socketTimeout e
  | .checked e _, g => g.Within (2 * socketTimeout) e
  | .armed e event, g => accepted e.fields = some event ∧ g.armed.isSome ∧
      ∃ since, g.hand = some (e, since)
  | .ran, _ => True

variable {socketTimeout watchdog} {g g' : Timeline}

theorem Elapses.refl : g.Elapses g := ⟨rfl, rfl, fun _ => rfl⟩

theorem Elapses.trans {g'' : Timeline} (h : g.Elapses g') (h' : g'.Elapses g'') :
    g.Elapses g'' :=
  ⟨h'.hand.trans h.hand, h'.armed.trans h.armed,
    fun ha => (h'.now (h.armed.trans ha)).trans (h.now ha)⟩

theorem Within.elapses {limit : Micros} {e : StreamEntry} (h : g.Within limit e)
    (he : g.Elapses g') : g'.Within limit e := by
  obtain ⟨ha, since, hhand, hnow⟩ := h
  exact ⟨he.armed.trans ha, since, he.hand.trans hhand, (he.now ha).symm ▸ hnow⟩

theorem At.elapses {σ : Stage} (h : g.At socketTimeout σ) (he : g.Elapses g') :
    g'.At socketTimeout σ := by
  cases σ with
  | free => exact he.armed.trans h
  | fresh e => exact Within.elapses h he
  | claimed e => exact Within.elapses h he
  | checked e n => exact Within.elapses h he
  | armed e event =>
    obtain ⟨ha, harmed, since, hhand⟩ := h
    exact ⟨ha, he.armed ▸ harmed, since, he.hand.trans hhand⟩
  | ran => trivial

section Remote

variable {ch : Moment} {c : ConsumerCmd} {e : StreamEntry} (hc : c.Remote)

include hc

theorem reply_remote : g.reply ch (.inl c) = ch.reply (.inl c) := by
  cases c <;> first | rfl | exact hc.elim

theorem after_remote : g.after ch (.inl c) = { g with
    now := g.now + ch.before + ch.after
    hand := ((brought c (ch.reply (.inl c))).map fun e => (e, g.now + ch.before)).or g.hand } := by
  cases c <;> first | rfl | exact hc.elim

theorem permits_remote (ha : g.armed = none) : g.Permits socketTimeout (.inl c) := by
  cases c <;> first | exact ha | exact hc.elim

theorem within_of_brought (ha : g.armed = none)
    (ht : ((ch.before + ch.after : Nat) : Int) ≤ socketTimeout)
    (hb : brought c (ch.reply (.inl c)) = some e) :
    (g.after ch (.inl c)).Within socketTimeout e := by
  rw [after_remote hc]
  exact ⟨ha, g.now + ch.before, by simp [hb], by grind⟩

theorem Within.after {limit : Micros} (h : g.Within limit e)
    (ht : ((ch.before + ch.after : Nat) : Int) ≤ socketTimeout)
    (hb : brought c (ch.reply (.inl c)) = none) :
    (g.after ch (.inl c)).Within (limit + socketTimeout) e := by
  rw [after_remote hc]
  obtain ⟨ha, since, hhand, hnow⟩ := h
  exact ⟨ha, since, by simp [hb, hhand], by grind⟩

end Remote

/-- Once it is armed, the watchdog bounds how long the entry in hand has been idle. -/
theorem Inv.fresh (h : g.Inv socketTimeout watchdog)
    (hlimit : 2 * socketTimeout + watchdog < settings.minIdle) : g.Fresh settings := by
  intro harmed
  obtain ⟨start, hs⟩ := Option.isSome_iff_exists.1 harmed
  obtain ⟨hnow, e, since, hhand, hstart⟩ := h start hs
  exact ⟨e, since, hhand, by grind⟩

end Timeline

open Timeline

def timedContract (settings : ConsumerSettings) (name : String)
    (socketTimeout watchdog : Micros) : Contract ConsumerCall Timeline where
  inv := Timeline.Inv socketTimeout watchdog
  rely := Timeline.Elapses
  guard c g := g.Permits socketTimeout c
  exec c g r g' := ∃ ch, (timedRules settings name socketTimeout watchdog).call () c ch g ∧
    (timed settings name).respond () c ch g = (r, g')

/-- One command of the account. -/
theorem leads {P : Timeline → Prop} {c : ConsumerCall.Cmd} {s : ConsumerCall.Reply c → Stage}
    (hg : ∀ g, P g → g.Permits socketTimeout c)
    (h : ∀ g (ch : Moment), P g →
      (timedRules settings name socketTimeout watchdog).call () c ch g →
      (g.after ch c).At socketTimeout (s (g.reply ch c))) :
    Leads (timedContract settings name socketTimeout watchdog) P c
      fun r => Timeline.At socketTimeout (s r) := by
  refine fun g _ hP => ⟨hg g hP, ?_⟩
  rintro r g₁ g₂ ⟨ch, hrule, hx⟩ - he
  obtain ⟨rfl, rfl⟩ := Prod.mk.inj hx
  exact (h g ch hP hrule).elapses he

/-- A call to Redis takes its time. -/
theorem leads_remote {P : Timeline → Prop} {c : ConsumerCmd} {σ : ConsumerSig.Reply c → Stage}
    (hc : c.Remote) (hg : ∀ g, P g → g.armed = none)
    (h : ∀ (g : Timeline) (ch : Moment), P g →
      ((ch.before + ch.after : Nat) : Int) ≤ socketTimeout →
      (g.after ch (.inl c)).At socketTimeout (σ (ch.reply (.inl c)))) :
    Leads (timedContract settings name socketTimeout watchdog) P (.inl c)
      fun r => Timeline.At socketTimeout (σ r) := by
  refine leads (fun g hP => permits_remote hc (hg g hP)) fun g (ch : Moment) hP hrule => ?_
  rw [reply_remote hc]
  exact h g ch hP (hrule hc)

section Fields

variable {e : StreamEntry} {event : IngestEvent} {c : ConsumerCmd} {stage : Stage}

theorem leads_plain (hc : c.Plain) : Leads (timedContract settings name socketTimeout watchdog)
    (Timeline.At socketTimeout .free) (.inl c) fun _ => Timeline.At socketTimeout .free := by
  refine leads (s := fun _ => .free) (fun g h => ?_) fun g ch h _ => ?_
  · cases c <;> first | exact False.elim hc | exact h | exact trivial
  · cases c <;> first | exact False.elim hc | exact h

theorem leads_look (hc : c.Looks) : Leads (timedContract settings name socketTimeout watchdog)
    (Timeline.At socketTimeout stage) (.inl c) fun _ => Timeline.At socketTimeout stage := by
  refine leads (s := fun _ => stage) (fun g h => ?_) fun g ch h _ => ?_
  · cases c <;> first | exact False.elim hc | exact trivial
  · cases c <;> first | exact False.elim hc | exact h

theorem leads_read {block : Int} : Leads (timedContract settings name socketTimeout watchdog)
    (Timeline.At socketTimeout .free) (.inl (.xreadgroup name block))
    fun (r : Except PyError (Batch 1)) => Timeline.At socketTimeout (.ofRead r) := by
  refine leads_remote trivial (fun g h => h) fun g ch h ht => ?_
  have hfree : (g.after ch (.inl (.xreadgroup name block))).armed = none := h
  rcases hr : ch.reply (.inl (.xreadgroup name block)) with x | ⟨_ | ⟨e, es⟩, hcount⟩
  · exact hfree
  · exact hfree
  · exact within_of_brought trivial h ht (congrArg (brought (.xreadgroup ..)) hr)

theorem leads_claim {minIdle : Int} {start : EntryId} :
    Leads (timedContract settings name socketTimeout watchdog) (Timeline.At socketTimeout .free)
      (.inl (.xautoclaim name minIdle start))
      fun (r : Except PyError Claimed) => Timeline.At socketTimeout (.ofClaim r) := by
  refine leads_remote trivial (fun g h => h) fun g ch h ht => ?_
  have hfree : (g.after ch (.inl (.xautoclaim name minIdle start))).armed = none := h
  rcases hr : ch.reply (.inl (.xautoclaim name minIdle start)) with
    x | ⟨next, ⟨_ | ⟨e, es⟩, hcount⟩⟩
  · exact hfree
  · exact hfree
  · exact within_of_brought trivial h ht (congrArg (brought (.xautoclaim ..)) hr)

/-- The look-up costs a second round trip. -/
theorem leads_count : Leads (timedContract settings name socketTimeout watchdog)
    (Timeline.At socketTimeout (.claimed e)) (.inl (.xpendingRange e.id))
    fun (r : Except PyError (Option (Int × String))) =>
      Timeline.At socketTimeout (.ofPending name e r) := by
  refine leads_remote trivial (fun g h => h.1) fun g ch h ht => ?_
  have hafter : (g.after ch (.inl (.xpendingRange e.id))).Within (2 * socketTimeout) e := by
    rw [Int.two_mul]
    exact Within.after (c := .xpendingRange e.id) trivial h ht rfl
  rcases hr : ch.reply (.inl (.xpendingRange e.id)) with x | _ | ⟨n, owner⟩
  · exact hafter.1
  · exact hafter.1
  · simp only [Stage.ofPending]
    split
    · exact hafter
    · exact hafter.1

theorem leads_discard : Leads (timedContract settings name socketTimeout watchdog)
    (fun g => g.At socketTimeout (.fresh e) ∨ g.At socketTimeout (.claimed e)) (.inl (.xack e.id))
    fun _ => Timeline.At socketTimeout .free :=
  leads (s := fun _ => .free) (fun _ h => h.elim And.left And.left)
    fun _ _ h _ => h.elim And.left And.left

theorem leads_start (ht : 0 ≤ socketTimeout) (ha : accepted e.fields = some event) :
    Leads (timedContract settings name socketTimeout watchdog)
      (fun g => g.At socketTimeout (.fresh e) ∨
        ∃ n ≤ settings.poisonThreshold, g.At socketTimeout (.checked e n)) (.inl .arm)
      fun _ => Timeline.At socketTimeout (.armed e event) := by
  have hwithin : ∀ g, At socketTimeout (.fresh e) g ∨ (∃ n ≤ settings.poisonThreshold,
      At socketTimeout (.checked e n) g) → g.Within (2 * socketTimeout) e := by
    rintro g (⟨harmed, since, hhand, hnow⟩ | ⟨n, -, h⟩)
    · exact ⟨harmed, since, hhand, by grind⟩
    · exact h
  refine leads (s := fun _ => .armed e event) (fun g h => ⟨e, hwithin g h⟩) fun g ch h _ => ?_
  obtain ⟨-, since, hhand, -⟩ := hwithin g h
  exact ⟨ha, rfl, since, hhand⟩

theorem leads_job {deadline : Micros} : Leads (timedContract settings name socketTimeout watchdog)
    (Timeline.At socketTimeout (.armed e event)) (.inr ⟨event, deadline⟩)
    fun (r : Except JobError Outcome) g => g.At socketTimeout .ran ∧ ∀ outcome uuid now status,
      runJob r = .ok outcome → statusFor event outcome uuid now = .ok status → True := by
  refine fun g _ h => ⟨?_, fun r g₁ g₂ _ _ _ => ⟨trivial, fun _ _ _ _ _ _ => trivial⟩⟩
  obtain ⟨ha, harmed, since, hhand⟩ := h
  exact ⟨harmed, e, since, hhand, ha⟩

end Fields

def custody (ht : 0 ≤ socketTimeout) :
    Custody (timedContract settings name socketTimeout watchdog) settings name where
  stage σ g := g.At socketTimeout σ
  sayable _ _ := True
  sayable_stays _ _ _ := trivial
  plain := leads_plain
  look := leads_look
  read := leads_read
  claim := leads_claim
  count := leads_count
  discard _ := leads_discard
  start := leads_start ht
  job := leads_job
  disarm := leads (s := fun _ => .free) (fun _ _ => trivial) fun _ _ _ _ => rfl
  condemn _ h _ _ := ⟨h.1, fun _ _ _ _ => trivial⟩
  add := leads (s := fun _ => .free) (fun _ h => h.1) fun _ _ h _ => h.1

theorem Timeline.inv_start {boot : Micros} : (start boot).Inv socketTimeout watchdog := nofun

theorem Timeline.Inv.after {g : Timeline} {ch : Moment} {c : ConsumerCall.Cmd}
    (hi : g.Inv socketTimeout watchdog) (hw : 0 ≤ watchdog) (hg : g.Permits socketTimeout c) :
    (g.after ch c).Inv socketTimeout watchdog := by
  rcases c with c | job
  · cases c with
    | arm =>
      obtain ⟨e, -, since, hhand, hnow⟩ := hg
      rintro start ⟨⟩
      exact ⟨Int.le_add_of_nonneg_right hw, e, since, hhand, hnow⟩
    | disarm => exact nofun
    | clock | stopped | uuid4 | utcnow => exact hi
    | _ =>
      -- time passes, but no watchdog is armed
      exact fun start harmed => nomatch Eq.trans (Eq.symm hg) harmed
  · exact hi

def timedCertificate (settings : ConsumerSettings) (name : String) (ht : 0 ≤ socketTimeout)
    (hw : 0 ≤ watchdog) : Actors.Certificate (timed settings name)
      (timedRules settings name socketTimeout watchdog) where
  inv := Timeline.Inv socketTimeout watchdog
  rely _ := Timeline.Elapses
  guard _ c g := g.Permits socketTimeout c
  fresh _ g := g.armed = none
  rely_refl _ _ := .refl
  rely_trans _ _ _ _ := .trans
  fresh_rely _ _ _ _ h he := he.armed.trans h
  enter_ok i g hi _ _ := ⟨hi, fun j hj => (hj rfl).elim⟩
  call_ok i c ch g hi hg _ := ⟨hi.after hw hg, fun j hj => (hj rfl).elim⟩
  leave_ok i g _ := ⟨nofun, fun j hj => (hj rfl).elim⟩
  env_ok duration g hi hR := by
    obtain ⟨since, harmed, hnow⟩ := hR
    refine ⟨fun start hs => ⟨?_, (hi start hs).2⟩, fun j => ⟨rfl, rfl, fun h => ?_⟩⟩
    · cases harmed.symm.trans hs
      exact hnow
    · cases harmed.symm.trans h
  main_ok _ _ _ hf _ g' he := (custody ht).wp_main (he.armed.trans hf)

variable (ht : 0 ≤ socketTimeout) (hw : 0 ≤ watchdog) {boot : Micros}
  {cfg : (timed settings name).Config}
  (h : (timed settings name).Reachable (timedRules settings name socketTimeout watchdog)
    (.start boot) cfg)

include ht hw h

theorem fresh_of_reachable (hlimit : 2 * socketTimeout + watchdog < settings.minIdle) :
    cfg.shared.Fresh settings :=
  have hinv := (timedCertificate settings name ht hw).sound Timeline.inv_start (fun _ => rfl) h
  Timeline.Inv.fresh hinv hlimit

/-- While a job runs the watchdog is armed, and the entry in hand is the job's. -/
theorem hand_of_job {job : JobCall} (hjob : cfg.pending () = some (.inr job)) :
    cfg.shared.armed.isSome ∧
      ∃ e since, cfg.shared.hand = some (e, since) ∧ accepted e.fields = some job.event :=
  (timedCertificate settings name ht hw).guarded Timeline.inv_start (fun _ => rfl) h hjob

end Account

/-! ### Slow answers on the recovery path -/

def reclaimed : (c : ConsumerCall.Cmd) → ConsumerCall.Reply c
  | .inl (.xautoclaim ..) => Except.ok ⟨0, ⟨[⟨1, firstEvent.toEntry⟩], Nat.le_refl 1⟩⟩
  | .inl (.xpendingRange _) => Except.ok (some (1, "c"))
  | c => oneEntry c

def moment (after : Nat) : Moment := ⟨reclaimed, 0, after⟩

section Late

variable {settings : ConsumerSettings} {socketTimeout watchdog : Micros}

theorem exec_moment (c : ConsumerCmd) (after : Nat) (h : c.Remote → (after : Int) ≤ socketTimeout)
    (g : Timeline) : (timedContract settings "c" socketTimeout watchdog).exec (.inl c) g
      (g.reply (moment after) (.inl c)) (g.after (moment after) (.inl c)) :=
  ⟨moment after, by simpa [timedRules, moment] using h, rfl⟩

theorem gets_claimAndProcess (hp : 1 ≤ settings.poisonThreshold) {late : Nat}
    (hlate : (late : Int) ≤ socketTimeout) (jobs : Nat) (self : ConsumerState) (g : Timeline) :
    Prog.Gets (timedContract settings "c" socketTimeout watchdog).exec
      (claimAndProcess settings "c" (jobs + 1) self) g
      (((g.after (moment late) (.inl (.xautoclaim "c" (ms settings.minIdle) 0))).after (moment late)
        (.inl (.xpendingRange 1))).after (moment 0) (.inl .arm)) := by
  have hparse : ∃ event, accepted firstEvent.toEntry = some event := by
    refine Option.isSome_iff_exists.1 ?_
    decide +kernel
  obtain ⟨event, ha⟩ := hparse
  rw [claimAndProcess]
  refine Method.gets_bind
    (.call (exec_moment (.xautoclaim ..) late (fun _ => hlate) g) (.refl _ _)) ?_
  have hread {self : ConsumerState} {g : Timeline} :
      Prog.Runs (timedContract settings "c" socketTimeout watchdog).exec
        (parse 1 firstEvent.toEntry self) g (.ret (.ok (some event), self)) g := by
    rw [parse_eq_pure.2 ha]
    exact .refl _ _
  refine Method.gets_bind hread ?_
  refine Method.gets_bind
    (.call (exec_moment (.xpendingRange 1) late (fun _ => hlate) _) (.refl _ _)) ?_
  simp only [if_true, gt_iff_lt, Int.not_lt.2 hp, if_false]
  have hhandle (g : Timeline) : Prog.Gets (timedContract settings "c" socketTimeout watchdog).exec
      (handle settings 1 event self) g (g.after (moment 0) (.inl .arm)) :=
    Method.gets_bind (.call (exec_moment .clock 0 nofun _) (.refl _ _)) <|
      Method.gets_bind (.call (exec_moment .clock 0 nofun _) (.refl _ _)) <|
        Prog.gets_bind (Prog.gets_call (exec_moment .arm 0 nofun _) Prog.gets_refl) _
  exact Prog.gets_bind (hhandle _) _

theorem gets_main (hp : 1 ≤ settings.poisonThreshold) (hjobs : settings.maxRecoveryJobs ≠ 0)
    {late : Nat} (hlate : (late : Int) ≤ socketTimeout) :
    Prog.Gets (timedContract settings "c" socketTimeout watchdog).exec (main settings "c")
      (.start 0) ⟨0 + late + late, some (⟨1, firstEvent.toEntry⟩, 0), some (0 + late + late)⟩ := by
  obtain ⟨jobs, hjobs⟩ := Nat.exists_eq_succ_of_ne_zero hjobs
  have hzero : (0 : Int) ≤ socketTimeout := (Int.natCast_nonneg late).trans hlate
  have hgroup : Prog.Runs (timedContract settings "c" socketTimeout watchdog).exec
      (ensureGroupUntilReady settings ⟨none, 0⟩) (.start 0) (.ret (.ok true, ⟨none, 0⟩))
      (.start 0) :=
    .unfold (.call (exec_moment .stopped 0 nofun _)
      (.call (exec_moment .xgroupCreate 0 (fun _ => hzero) _) (.refl _ _)))
  refine Prog.gets_bind (Method.gets_bind hgroup (Prog.gets_iterate (Prog.gets_bind ?_ _))) _
  have hturn : Prog.Gets (timedContract settings "c" socketTimeout watchdog).exec
      (turn settings "c" 0 ⟨none, 0⟩) (.start 0)
      ⟨0 + late + late, some (⟨1, firstEvent.toEntry⟩, 0), some (0 + late + late)⟩ := by
    refine Method.gets_bind (.call (exec_moment .stopped 0 nofun _) (.refl _ _)) ?_
    refine Method.gets_bind (m := Method.self) (.refl _ _) ?_
    refine Method.gets_bind (.call (exec_moment .clock 0 nofun _) (.refl _ _)) ?_
    refine Prog.gets_bind (Method.gets_tryExcept (Prog.gets_bind (Method.gets_tryExcept
      (Prog.gets_bind ?_ _)) _)) _
    rw [hjobs]
    exact gets_claimAndProcess hp hlate jobs ⟨none, 0⟩ (.start 0)
  exact hturn

/-- Such a job has been idle for both round trips when the watchdog ends it. -/
theorem overdue_reachable (hp : 1 ≤ settings.poisonThreshold) (hjobs : settings.maxRecoveryJobs ≠ 0)
    (ht : 0 ≤ socketTimeout) (hw : 0 ≤ watchdog)
    (hlimit : settings.minIdle ≤ 2 * socketTimeout + watchdog) : ∃ cfg,
      (timed settings "c").Reachable (timedRules settings "c" socketTimeout watchdog) (.start 0)
        cfg ∧ ¬ cfg.shared.Fresh settings := by
  obtain ⟨late, rfl⟩ := Int.eq_ofNat_of_zero_le ht
  obtain ⟨long, rfl⟩ := Int.eq_ofNat_of_zero_le hw
  obtain ⟨cfg, hreach, hshared⟩ := Actors.Reachable.of_gets (A := timed settings "c")
    (R := timedRules settings "c" late long) (i := ()) trivial
    (gets_main hp hjobs (Int.le_refl late))
  have hallowed : (timedRules settings "c" late long).Allows cfg (.env long) := by
    exact ⟨0 + late + late, by rw [hshared], by rw [hshared]⟩
  refine ⟨_, hreach.step (.env long) hallowed rfl, fun hfresh => ?_⟩
  obtain ⟨e, since, hhand, hidle⟩ := hfresh (by simp [timed, hshared])
  simp only [timed, hshared, Option.some.injEq, Prod.mk.injEq] at hhand hidle
  obtain ⟨-, rfl⟩ := hhand
  grind

end Late

/-! ### Under a config file -/

/-- The client's read timeout, as `make_redis` sets it. -/
def socketTimeoutOf (config : Settings.Python.Config) : Micros :=
  socketTimeoutFor config.rag.callTimeout (2 * 10 ^ 6)

/-- When the watchdog that `main` sets up ends the process. -/
def watchdogOf (config : Settings.Python.Config) : Micros :=
  config.rag.consumer.jobTimeout + config.rag.consumer.watchdogGrace

theorem socketTimeoutOf_nonneg (config : Settings.Python.Config) : 0 ≤ socketTimeoutOf config :=
  le_max_of_le_right (by decide)

/-- With a loaded file, no running job's entry gets as idle as `min_idle` exactly if `min_idle`
also leaves room for the two answers a recovered job starts after. The entry meant is the one in
hand: while a job runs, that is its own. -/
theorem live_job_unclaimed {raw : Settings.Table} {config : Settings.Python.Config}
    (h : Settings.Python.load raw = .ok config) :
    ((∀ name boot cfg, (timed (.fromConfig config) name).Reachable
        (timedRules (.fromConfig config) name (socketTimeoutOf config) (watchdogOf config))
        (.start boot) cfg → cfg.shared.Fresh (.fromConfig config)) ↔
      config.rag.consumer.jobTimeout + config.rag.consumer.watchdogGrace +
        2 * socketTimeoutOf config < config.rag.consumer.minIdle) ∧
    ∀ name boot cfg, (timed (.fromConfig config) name).Reachable
        (timedRules (.fromConfig config) name (socketTimeoutOf config) (watchdogOf config))
        (.start boot) cfg → ∀ job, cfg.pending () = some (.inr job) →
      cfg.shared.armed.isSome ∧
        ∃ e since, cfg.shared.hand = some (e, since) ∧ accepted e.fields = some job.event := by
  have hsound := Settings.Python.sound_of_load h
  have ht := socketTimeoutOf_nonneg config
  have hw : 0 ≤ watchdogOf config :=
    Int.add_nonneg hsound.jobTimeout.le hsound.watchdogGrace.le
  refine ⟨⟨?_, ?_⟩, fun name boot cfg hreach job hjob => hand_of_job ht hw hreach hjob⟩
  · intro hall
    by_contra hlimit
    have hover : (ConsumerSettings.fromConfig config).minIdle ≤
        2 * socketTimeoutOf config + watchdogOf config := by
      change config.rag.consumer.minIdle ≤ _ + (_ + _)
      grind
    obtain ⟨cfg, hreach, hstale⟩ :=
      overdue_reachable hsound.poisonThreshold (Nat.succ_ne_zero 9) ht hw hover
    exact hstale (hall "c" 0 cfg hreach)
  · intro hlimit name boot cfg hreach
    refine fresh_of_reachable ht hw hreach ?_
    change _ + (_ + _) < config.rag.consumer.minIdle
    grind

/-- Under the repository's file live jobs are safe. -/
theorem live_job_unclaimed_shipped : ∃ config,
    Settings.Python.load Settings.configToml = .ok config ∧
    ∀ name boot cfg, (timed (.fromConfig config) name).Reachable
      (timedRules (.fromConfig config) name (socketTimeoutOf config) (watchdogOf config))
      (.start boot) cfg → cfg.shared.Fresh (.fromConfig config) := by
  have hsilent : (Settings.Python.build Settings.configToml).2 = [] := by decide +kernel
  have hload := Settings.Python.load_of_silent hsilent
  exact ⟨_, hload, (live_job_unclaimed hload).1.2 (by decide +kernel)⟩

/-- `min_idle` one second above `job_timeout + watchdog_grace`. -/
def tightToml : Settings.Table :=
  Settings.configToml.put ["rag", "consumer", "min_idle"] (.str "1021s")

theorem live_job_claimable : ∃ config, Settings.Python.load tightToml = .ok config ∧
    ∃ name boot cfg, (timed (.fromConfig config) name).Reachable
      (timedRules (.fromConfig config) name (socketTimeoutOf config) (watchdogOf config))
      (.start boot) cfg ∧ ¬ cfg.shared.Fresh (.fromConfig config) := by
  have hsilent : (Settings.Python.build tightToml).2 = [] := by decide +kernel
  have hload := Settings.Python.load_of_silent hsilent
  have hover : (ConsumerSettings.fromConfig (Settings.Python.build tightToml).1).minIdle ≤
      2 * socketTimeoutOf (Settings.Python.build tightToml).1 +
        watchdogOf (Settings.Python.build tightToml).1 := by decide +kernel
  have hsound := Settings.Python.sound_of_load hload
  obtain ⟨cfg, hreach, hstale⟩ := overdue_reachable hsound.poisonThreshold
    (Nat.succ_ne_zero 9) (socketTimeoutOf_nonneg _)
    (Int.add_nonneg hsound.jobTimeout.le hsound.watchdogGrace.le) hover
  exact ⟨_, hload, "c", 0, cfg, hreach, hstale⟩

end Rag
