import RagPipeline.Interact.Actors
import RagPipeline.Rag.Ledger

/-!
# Acknowledged only after reported

One consumer process against arbitrary replies. The shared state is the record of its commands
and their replies, the newest first.

## Main definitions

* `Exchange`, `consumerProcess`: commands with their replies, and the process that issues them.

## Main results

* `ack_after_report`: what stands before every XACK in the record.
-/
namespace Rag

open Events Wire Interact StreamConsumer

/-- A command a process issued, and the reply it got. -/
abbrev Exchange := (c : ConsumerCall.Cmd) × ConsumerCall.Reply c

namespace Exchange

def issue (c : ConsumerCmd) (r : ConsumerSig.Reply c) : Exchange := ⟨.inl c, r⟩

def job (event : IngestEvent) (deadline : Micros) (r : Except JobError Outcome) : Exchange :=
  ⟨.inr ⟨event, deadline⟩, r⟩

/-- The entries an exchange brought. -/
def delivered : Exchange → List StreamEntry
  | ⟨.inl (.xreadgroup ..), r⟩ => match (r : Except PyError (Batch 1)) with
    | .ok batch => batch.entries
    | .error _ => []
  | ⟨.inl (.xautoclaim ..), r⟩ => match (r : Except PyError Claimed) with
    | .ok claimed => claimed.batch.entries
    | .error _ => []
  | _ => []

def isQuiet (x : Exchange) : Bool := x.delivered.isEmpty

end Exchange

/-- The exchanges since the latest delivery, and from it on. -/
def since (record : List Exchange) : List Exchange := record.takeWhile Exchange.isQuiet
def upTo (record : List Exchange) : List Exchange := record.dropWhile Exchange.isQuiet

/-- One consumer process; a reply may be anything of its type. -/
def consumerProcess (settings : ConsumerSettings) (name : String) :
    Actors Unit (List Exchange) where
  sig _ := ConsumerCall
  main _ := main settings name
  Choice := (c : ConsumerCall.Cmd) → ConsumerCall.Reply c
  respond _ c reply record := (reply c, ⟨c, reply c⟩ :: record)
  enter _ record := record
  leave _ record := record
  Env := Empty
  env := nofun

variable {settings : ConsumerSettings} {name : String} {id : EntryId} {fields : Option Fields}
  {event : IngestEvent} {status : StatusEvent} {record : List Exchange}

/-- What a stretch of the record tells about jobs and delivery counts. -/
def recordFacts (name : String) : Facts (List Exchange) where
  ran event outcome record :=
    ∃ deadline r, .job event deadline r ∈ record ∧ runJob r = .ok outcome
  counted id n record := .issue (.xpendingRange id) (Except.ok (some (n, name))) ∈ record

/-- The newest delivery brought the entry. -/
def Got (id : EntryId) (fields : Option Fields) (record : List Exchange) : Prop :=
  ∃ x rest, upTo record = x :: rest ∧ ⟨id, fields⟩ ∈ x.delivered

/-- A report on the entry was added since the latest delivery, after the job it reports ran or
the delivery count it reports was read. -/
def Published (settings : ConsumerSettings) (name : String) (id : EntryId) (event : IngestEvent)
    (status : StatusEvent) (record : List Exchange) : Prop :=
  ∃ later earlier, since record = later ++ .issue (.xadd status) (Except.ok ()) :: earlier ∧
    Reported settings (recordFacts name) id event earlier status

/-- What must stand in the record before the entry is acknowledged. -/
def Answered (settings : ConsumerSettings) (name : String) (id : EntryId)
    (record : List Exchange) : Prop :=
  ∃ fields, Got id fields record ∧ ∀ event, accepted fields = some event →
    ∃ status, Published settings name id event status record

theorem since_append {new : List Exchange} (h : ∀ x ∈ new, x.isQuiet) :
    since (new ++ record) = new ++ since record :=
  List.takeWhile_append_of_pos h

theorem upTo_append {new : List Exchange} (h : ∀ x ∈ new, x.isQuiet) :
    upTo (new ++ record) = upTo record :=
  List.dropWhile_append_of_pos h

theorem since_cons {x : Exchange} (h : x.isQuiet) : since (x :: record) = x :: since record :=
  List.takeWhile_cons_of_pos h

/-- Nothing was delivered between two records. -/
def Keeps (record record' : List Exchange) : Prop :=
  ∃ new, record' = new ++ record ∧ ∀ x ∈ new, x.isQuiet

theorem Keeps.upTo {record' : List Exchange} (h : Keeps record record') :
    upTo record' = upTo record := by
  obtain ⟨new, rfl, hq⟩ := h
  exact upTo_append hq

theorem Keeps.since {record' : List Exchange} (h : Keeps record record') :
    ∃ new, since record' = new ++ since record := by
  obtain ⟨new, rfl, hq⟩ := h
  exact ⟨new, since_append hq⟩

theorem Keeps.mem_since {record' : List Exchange} {x : Exchange} (h : Keeps record record')
    (hx : x ∈ Rag.since record) : x ∈ Rag.since record' := by
  obtain ⟨new, hs⟩ := h.since
  simp [hs, hx]

theorem isQuiet_issue {c : ConsumerCmd} {r : ConsumerSig.Reply c} (h : ¬ c.Delivers) :
    (Exchange.issue c r).isQuiet := by
  cases c <;> first | rfl | exact absurd trivial h

theorem keeps_cons {x : Exchange} (h : x.isQuiet) : Keeps record (x :: record) :=
  ⟨[x], rfl, by simpa using h⟩

theorem got_cons {x : Exchange} {e : StreamEntry} (he : e ∈ x.delivered) :
    Got e.id e.fields (x :: record) := by
  have hq : x.isQuiet = false := by
    rw [Exchange.isQuiet, List.isEmpty_eq_false_iff]
    exact List.ne_nil_of_mem he
  exact ⟨x, record, by simp [upTo, hq], he⟩

/-- The contract of the process: an acknowledgement needs its answer in the record. -/
def recordContract (settings : ConsumerSettings) (name : String) :
    Contract ConsumerCall (List Exchange) where
  inv record := ∀ after id r before, record = after ++ .issue (.xack id) r :: before →
    Answered settings name id before
  rely record record' := record' = record
  guard
    | .inl (.xack id), record => Answered settings name id record
    | _, _ => True
  exec c record r record' := ∃ ch, True ∧
    (consumerProcess settings name).respond () c ch record = (r, record')

theorem exec_recordContract {c : ConsumerCall.Cmd} {r : ConsumerCall.Reply c}
    {record' record'' : List Exchange} (h : (recordContract settings name).exec c record r record')
    (hr : (recordContract settings name).rely record' record'') : record'' = ⟨c, r⟩ :: record := by
  obtain ⟨ch, -, h⟩ := h
  cases h
  exact hr

/-- The ledger a process's own record is. -/
def recordLedger (settings : ConsumerSettings) (name : String) :
    Ledger (recordContract settings name) settings name where
  ran event outcome record := (recordFacts name).ran event outcome (since record)
  counted id n record := (recordFacts name).counted id n (since record)
  got := Got
  sent := Published settings name
  keeps := Keeps
  keeps_refl record := ⟨[], rfl, by simp⟩
  keeps_trans := by
    rintro _ _ _ ⟨new₁, rfl, h₁⟩ ⟨new₂, rfl, h₂⟩
    refine ⟨new₂ ++ new₁, by simp, fun x hx => ?_⟩
    exact (List.mem_append.1 hx).elim (h₂ x) (h₁ x)
  got_keeps hk h := by
    obtain ⟨x, rest, hx⟩ := h
    exact ⟨x, rest, by rwa [hk.upTo]⟩
  ran_keeps hk h := by
    obtain ⟨deadline, r, hmem, hr⟩ := h
    exact ⟨deadline, r, hk.mem_since hmem, hr⟩
  counted_keeps hk h := hk.mem_since h
  sent_keeps hk h := by
    obtain ⟨new, hs⟩ := hk.since
    obtain ⟨later, earlier, he, hrep⟩ := h
    exact ⟨new ++ later, earlier, by rw [hs, he, List.append_assoc], hrep⟩
  quiet hd hx hr := by
    rw [exec_recordContract hx hr]
    exact keeps_cons (isQuiet_issue hd)
  worked hx hr := by
    rw [exec_recordContract hx hr]
    refine ⟨keeps_cons rfl, fun outcome h => ?_⟩
    rw [since_cons rfl]
    exact ⟨_, _, List.mem_cons_self, h⟩
  read hx _ hr e he := by
    rw [exec_recordContract hx hr]
    exact got_cons he
  claim hx _ hr e he := by
    rw [exec_recordContract hx hr]
    exact got_cons he
  count _ hx hr := by
    rw [exec_recordContract hx hr, since_cons rfl]
    exact List.mem_cons_self
  added hrep hx hr := by
    rw [exec_recordContract hx hr]
    refine ⟨[], _, since_cons rfl, ?_⟩
    cases hrep with
    | job ran made => exact .job ran made
    | poison counted exceeds made => exact .poison counted exceeds made
  free := by
    intro c g hv _
    cases c <;> first | trivial | exact absurd trivial hv
  free_job _ := trivial
  may_add _ _ _ _ := trivial
  may_ack _ hgot h := ⟨_, hgot, h⟩

/-- The process against any replies. -/
def recordCertificate (settings : ConsumerSettings) (name : String) :
    Actors.Certificate (consumerProcess settings name) (Actors.Rules.free _) where
  inv := (recordContract settings name).inv
  rely _ := (recordContract settings name).rely
  guard _ := (recordContract settings name).guard
  fresh _ _ := True
  rely_refl _ _ := rfl
  rely_trans _ _ _ _ h₁ h₂ := h₂.trans h₁
  fresh_rely _ _ _ _ _ _ := trivial
  enter_ok _ _ h _ _ := ⟨h, fun _ hj => absurd rfl hj⟩
  call_ok i c reply record hinv hguard _ := by
    refine ⟨fun after id r before h => ?_, fun _ hj => absurd rfl hj⟩
    cases after with
    | nil =>
      cases h
      exact hguard
    | cons x after => exact hinv after id r before (List.cons.inj h).2
  leave_ok _ _ h := ⟨h, fun _ hj => absurd rfl hj⟩
  env_ok := nofun
  main_ok _ _ _ _ _ g' _ := (recordLedger settings name).wp_main g'

/-- Before an entry that can be processed is acknowledged, the record holds, since the entry was
delivered, its job or its delivery count, and after that a report on it that was added. -/
theorem ack_after_report (settings : ConsumerSettings) (name : String)
    {cfg : (consumerProcess settings name).Config}
    (h : (consumerProcess settings name).Reachable (Actors.Rules.free _) [] cfg)
    {after before : List Exchange} {id : EntryId} {r : Except PyError Unit}
    (hack : cfg.shared = after ++ .issue (.xack id) r :: before) :
    ∃ delivery rest fields, upTo before = delivery :: rest ∧ ⟨id, fields⟩ ∈ delivery.delivered ∧
      ∀ event, accepted fields = some event → ∃ later status earlier,
        since before = later ++ .issue (.xadd status) (Except.ok ()) :: earlier ∧
        status.hash = event.hash ∧ status.attempts = event.attempts ∧
        Reported settings (recordFacts name) id event earlier status := by
  have hinv := (recordCertificate settings name).sound
    (fun _ _ _ _ h => absurd h (by simp)) (fun _ => trivial) h
  obtain ⟨fields, ⟨delivery, rest, hup, hmem⟩, hsent⟩ := hinv after id r before hack
  refine ⟨delivery, rest, fields, hup, hmem, fun event ha => ?_⟩
  obtain ⟨status, later, earlier, hs, hrep⟩ := hsent event ha
  exact ⟨later, status, earlier, hs, hrep.echo.1, hrep.echo.2, hrep⟩

/-! ### One entry -/

def usualSettings : ConsumerSettings where
  minIdle := 600000000
  recoveryInterval := 30000000
  poisonThreshold := 3
  cleanupIdle := 3600000000
  jobTimeout := 300000000
  readBlock := 2000000
  retryDelay := 1000000
  publishAttempts := 3
  callTimeout := 60000000
  maxRecoveryJobs := 10

def firstEvent : StreamIngestionEvent := ⟨"e", "h", "a.txt", "h/h/h", 3, 0, 0, 1⟩

/-- Redis without trouble, with one entry to read, and a processor that indexes it. -/
def oneEntry : (c : ConsumerCall.Cmd) → ConsumerCall.Reply c
  | .inl (.xgroupCreate) => Except.ok ()
  | .inl (.xack _) => Except.ok ()
  | .inl (.xclaim ..) => Except.ok ()
  | .inl (.xgroupDelconsumer _) => Except.ok ()
  | .inl (.xadd _) => Except.ok ()
  | .inl (.xreadgroup ..) => Except.ok ⟨[⟨1, firstEvent.toEntry⟩], by decide⟩
  | .inl (.xautoclaim ..) => Except.ok ⟨0, [], by decide⟩
  | .inl (.xpendingRange _) => Except.ok none
  | .inl .xinfoConsumers => Except.ok []
  | .inl .clock => (0 : Int)
  | .inl (.sleep _) => true
  | .inl .stopped => false
  | .inl .arm => ()
  | .inl .disarm => ()
  | .inl .uuid4 => ofString "u"
  | .inl .utcnow => (0 : Int)
  | .inr _ => Except.ok (.indexed (some 2))

def acked (x : Exchange) : Option EntryId :=
  match x with
  | ⟨.inl (.xack id), _⟩ => some id
  | _ => none

/-- From the start of the process to its first acknowledgement. -/
def firstAck : List (consumerProcess usualSettings "c").Step :=
  [.start (), .unfold (), .call () oneEntry, .call () oneEntry, .unfold ()] ++
    List.replicate 15 (.call () oneEntry)

/-- The record at the end of `firstAck`. -/
def firstRecord : List Exchange :=
  (((consumerProcess usualSettings "c").replay (Actors.init _ []) firstAck).map
    Actors.Config.shared).getD []

theorem ack_after_report_oneEntry : ∃ before r, firstRecord = .issue (.xack 1) r :: before ∧
    ∃ later status earlier,
      since before = later ++ .issue (.xadd status) (Except.ok ()) :: earlier ∧
      status.attempts = 0 := by
  have hreplay : ((consumerProcess usualSettings "c").replay (Actors.init _ []) firstAck).isSome :=
    by decide +kernel
  have hacked : firstRecord.head?.bind acked = some 1 := by decide +kernel
  have haccepted : ((upTo firstRecord.tail).head?.map fun x => x.delivered.map fun e =>
      (accepted e.fields).map IngestEvent.attempts) = some [some 0] := by decide +kernel
  obtain ⟨cfg, hcfg⟩ := Option.isSome_iff_exists.1 hreplay
  have hrecord : firstRecord = cfg.shared := by simp [firstRecord, hcfg]
  rw [hrecord] at hacked haccepted ⊢
  have hreach := (Actors.Reachable.init (A := consumerProcess usualSettings "c")).replay
    (Actors.Rules.free_allowsAll _ firstAck) hcfg
  rcases hshared : cfg.shared with _ | ⟨⟨c | c, r⟩, before⟩
  · simp [hshared] at hacked
  · cases c with
    | xack id =>
      rw [hshared] at hacked haccepted
      cases hacked
      obtain ⟨x, rest, fields, hup, hmem, hall⟩ :=
        @ack_after_report usualSettings "c" _ hreach [] _ _ _ hshared
      have hfields : (accepted fields).map IngestEvent.attempts = some 0 := by
        simp only [List.tail_cons, hup, List.head?_cons, Option.map_some,
          Option.some.injEq] at haccepted
        have := List.mem_map_of_mem (f := fun e => (accepted e.fields).map IngestEvent.attempts)
          hmem
        rw [haccepted] at this
        exact List.mem_singleton.1 this
      obtain ⟨event, ha, hattempts⟩ := Option.map_eq_some_iff.1 hfields
      obtain ⟨later, status, earlier, hs, -, hatt, -⟩ := hall event ha
      exact ⟨before, r, rfl, later, status, earlier, hs, hatt.trans hattempts⟩
    | _ => simp [hshared, acked] at hacked
  · simp [hshared, acked] at hacked

end Rag
