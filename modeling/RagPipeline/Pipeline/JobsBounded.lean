import RagPipeline.Pipeline.DeliverySystem
import RagPipeline.Rag.AckOrder
import Mathlib.Data.List.Perm.Subperm

/-!
# How often a job is started

A job is started for what its consumer was given last, each time for another delivery of the
entry, and never for one that comes after `poison_threshold` others.

## Main definitions

* `StartsInv`: no two deliveries are the same, and no delivery has two jobs.

## Main results

* `jobs_bounded`: the job of an entry is started at most `poison_threshold` times.
-/
namespace Pipeline

open Events Interact Rag StreamConsumer

/-- No two consumers have the same delivery, and no delivery has two jobs. -/
structure StartsInv (threshold : Int) (g : DeliveryWorld) : Prop where
  tally : g.ingest.Tally g.delivered
  hand : ∀ {name e n}, g.hand name = some (e, n) → 1 ≤ n ∧ n ≤ g.delivered.count e.id
  distinct : ∀ {name name' e e' n}, g.hand name = some (e, n) → g.hand name' = some (e', n) →
    e.id = e'.id → name = name'
  started : ∀ {id n}, (id, n) ∈ g.started → 1 ≤ n ∧ n ≤ g.delivered.count id ∧ (n : Int) ≤ threshold
  nodup : g.started.Nodup

/-- The consumer has a delivery that no job was started for. -/
def Unstarted (name : String) (e : StreamEntry) (n : Nat) (g : DeliveryWorld) : Prop :=
  g.hand name = some (e, n) ∧ (e.id, n) ∉ g.started

/-- Others leave a consumer with what it has. -/
structure HandKept (name : String) (g g' : DeliveryWorld) : Prop where
  hand : g'.hand name = g.hand name
  unstarted : ∀ e n, Unstarted name e n g → Unstarted name e n g'

/-- A job is started for a delivery that the threshold allows. -/
def MayStart (threshold : Int) (name : String) (g : DeliveryWorld) : ConsumerCall.Cmd → Prop
  | .inl _ => True
  | .inr job => ∃ e n, Unstarted name e n g ∧ (n : Int) ≤ threshold ∧
      accepted e.fields = some job.event

section Account

variable {threshold : Int} {name : String} {g g' : DeliveryWorld} {ch : DeliveryChoice}
  {c : ConsumerCmd} {e : StreamEntry} {n : Nat} {intents : Relational.Table Center.Intent}
  {index : IndexState}

theorem HandKept.refl : HandKept name g g := ⟨rfl, fun _ _ h => h⟩

theorem HandKept.trans {g'' : DeliveryWorld} (h : HandKept name g g') (h' : HandKept name g' g'') :
    HandKept name g g'' :=
  ⟨h'.hand.trans h.hand, fun e n hu => h'.unstarted e n (h.unstarted e n hu)⟩

/-- What a consumer has after a command is what it had, or is new. -/
theorem handAfter_cases (h : g.handAfter ch name c = some (e, n)) :
    (g.delivered.count e.id < n ∧ n = (g.deliveredAfter ch c).count e.id) ∨
      g.hand name = some (e, n) := by
  rw [DeliveryWorld.handAfter] at h
  cases hb : brought c (consumerReply ch.toPipelineChoice g.toWorld c) with
  | none =>
    rw [hb] at h
    exact .inr h
  | some e' =>
    rw [hb] at h
    cases h
    exact .inl ⟨DeliveryWorld.count_lt_of_brought hb, rfl⟩

/-- One command. -/
theorem StartsInv.after_inl (hi : StartsInv threshold g) :
    StartsInv threshold (g.after ch name (.inl c)) := by
  have hle (id : EntryId) : g.delivered.count id ≤ (g.deliveredAfter ch c).count id :=
    DeliveryWorld.count_le_after id
  -- a new delivery has a number that no consumer has
  have hnew {other : String} {e e' : StreamEntry} {n : Nat} (ho : g.hand other = some (e', n))
      (hid : e.id = e'.id) (hlt : g.delivered.count e.id < n) : False := by
    have := (hi.hand ho).2
    rw [hid] at hlt
    omega
  refine ⟨DeliveryWorld.tally_after hi.tally, ?_, ?_, ?_, hi.nodup⟩
  · intro name' e n hh
    simp only [DeliveryWorld.after, Function.update_apply] at hh
    split at hh
    · obtain ⟨hlt, rfl⟩ | hh := handAfter_cases hh
      · exact ⟨by omega, le_rfl⟩
      · exact (hi.hand hh).imp_right fun h => h.trans (hle e.id)
    · exact (hi.hand hh).imp_right fun h => h.trans (hle e.id)
  · intro name₁ name₂ e₁ e₂ n h₁ h₂ hid
    simp only [DeliveryWorld.after, Function.update_apply] at h₁ h₂
    split at h₁
    case isTrue hn₁ =>
      split at h₂
      case isTrue hn₂ => exact hn₁.trans hn₂.symm
      case isFalse hn₂ =>
        obtain ⟨hlt, -⟩ | h₁ := handAfter_cases h₁
        · exact (hnew h₂ hid hlt).elim
        · exact hn₁.trans (hi.distinct h₁ h₂ hid)
    case isFalse hn₁ =>
      split at h₂
      case isTrue hn₂ =>
        obtain ⟨hlt, -⟩ | h₂ := handAfter_cases h₂
        · exact (hnew h₁ hid.symm hlt).elim
        · exact (hi.distinct h₁ h₂ hid).trans hn₂.symm
      case isFalse hn₂ => exact hi.distinct h₁ h₂ hid
  · intro id n hs
    obtain ⟨hpos, hn, ht⟩ := hi.started hs
    exact ⟨hpos, hn.trans (hle id), ht⟩

/-- One job. -/
theorem StartsInv.after_inr {job : JobCall} (ch : DeliveryChoice) (hi : StartsInv threshold g)
    (hg : MayStart threshold name g (.inr job)) :
    StartsInv threshold (g.after ch name (.inr job)) := by
  obtain ⟨e, n, ⟨hhand, hnot⟩, hn, -⟩ := hg
  have hstarted : (g.after ch name (.inr job)).started = (e.id, n) :: g.started := by
    simp [DeliveryWorld.after, hhand]
  refine ⟨hi.tally, hi.hand, hi.distinct, fun {id m} hs => ?_, ?_⟩
  · rw [hstarted] at hs
    obtain he | hs := List.mem_cons.1 hs
    · cases he
      obtain ⟨hpos, hle⟩ := hi.hand hhand
      exact ⟨hpos, hle, hn⟩
    · exact hi.started hs
  · rw [hstarted]
    exact List.nodup_cons.2 ⟨hnot, hi.nodup⟩

theorem HandKept.after {other : String} {c : ConsumerCall.Cmd} (hi : StartsInv threshold g)
    (hne : other ≠ name) : HandKept other g (g.after ch name c) := by
  rcases c with c | job
  · have hhand : (g.after ch name (.inl c)).hand other = g.hand other :=
      Function.update_of_ne hne _ _
    exact ⟨hhand, fun e n h => ⟨hhand.trans h.1, h.2⟩⟩
  · refine ⟨rfl, fun e n h => ⟨h.1, fun hmem => ?_⟩⟩
    obtain hmem | hmem := List.mem_append.1 hmem
    · rw [Option.mem_toList] at hmem
      obtain ⟨⟨e', n'⟩, hh, he⟩ := Option.map_eq_some_iff.1 hmem
      obtain ⟨hid, rfl⟩ := Prod.mk.inj he
      exact hne (hi.distinct h.1 hh hid.symm)
    · exact h.2 hmem

/-- A command that brings nothing leaves the consumer what it has. -/
theorem HandKept.self (hb : brought c (consumerReply ch.toPipelineChoice g.toWorld c) = none) :
    HandKept name g (g.after ch name (.inl c)) := by
  have hhand : (g.after ch name (.inl c)).hand name = g.hand name :=
    DeliveryWorld.hand_of_not_brought hb
  exact ⟨hhand, fun e n h => ⟨hhand.trans h.1, h.2⟩⟩

theorem unstarted_of_brought (hi : StartsInv threshold g)
    (hb : brought c (consumerReply ch.toPipelineChoice g.toWorld c) = some e) :
    Unstarted name e ((g.deliveredAfter ch c).count e.id) (g.after ch name (.inl c)) := by
  refine ⟨DeliveryWorld.hand_of_brought hb, fun hs => ?_⟩
  have hlt := DeliveryWorld.count_lt_of_brought hb
  have hle := (hi.started hs).2.1
  omega

end Account

/-! ### The consumer's part -/

section Stages

variable (threshold : Int) (name : String)

/-- What is known of the delivery in hand. -/
def startStage : Stage → DeliveryWorld → Prop
  | .free, _ | .ran, _ => True
  | .fresh e, g => ∃ n ≤ 1, Unstarted name e n g
  | .claimed e, g => ∃ n, Unstarted name e n g
  | .checked e deliveries, g => ∃ n, Unstarted name e n g ∧ (n : Int) ≤ deliveries
  | .armed e event, g => accepted e.fields = some event ∧
      ∃ n, Unstarted name e n g ∧ (n : Int) ≤ threshold

variable {threshold name}

theorem startStage.kept {σ : Stage} {g g' : DeliveryWorld} (h : startStage threshold name σ g)
    (hk : HandKept name g g') : startStage threshold name σ g' := by
  cases σ with
  | free => trivial
  | fresh e =>
    obtain ⟨n, hn, hu⟩ := h
    exact ⟨n, hn, hk.unstarted e n hu⟩
  | claimed e =>
    obtain ⟨n, hu⟩ := h
    exact ⟨n, hk.unstarted e n hu⟩
  | checked e deliveries =>
    obtain ⟨n, hu, hn⟩ := h
    exact ⟨n, hk.unstarted e n hu, hn⟩
  | armed e event =>
    obtain ⟨ha, n, hu, hn⟩ := h
    exact ⟨ha, n, hk.unstarted e n hu, hn⟩
  | ran => trivial

end Stages

variable {settings : ConsumerSettings} {name : String} {e : StreamEntry}

def startsContract (settings : ConsumerSettings) (name : String) :
    Contract ConsumerCall DeliveryWorld where
  inv := StartsInv settings.poisonThreshold
  rely := HandKept name
  guard c g := MayStart settings.poisonThreshold name g c
  exec c g r g' := ∃ ch, True ∧ (deliverySystem settings).respond name c ch g = (r, g')

/-- One command of the account. -/
theorem leads_start {P : DeliveryWorld → Prop} {c : ConsumerCmd} {s : ConsumerSig.Reply c → Stage}
    (h : ∀ (g : DeliveryWorld) (ch : DeliveryChoice), StartsInv settings.poisonThreshold g → P g →
      startStage settings.poisonThreshold name (s (consumerReply ch.toPipelineChoice g.toWorld c))
        (g.after ch name (.inl c))) :
    Leads (startsContract settings name) P (.inl c)
      fun r => startStage settings.poisonThreshold name (s r) := by
  refine fun g hi hP => ⟨trivial, ?_⟩
  rintro r g₁ g₂ ⟨ch, -, hx⟩ - hk
  obtain ⟨rfl, rfl⟩ := Prod.mk.inj hx
  exact (h g ch hi hP).kept hk

/-- A command that tells nothing of the entry in hand. -/
theorem leads_start_keeping {c : ConsumerCmd} {σ : Stage} (hc : ∀ r, brought c r = none) :
    Leads (startsContract settings name) (startStage settings.poisonThreshold name σ) (.inl c)
      fun _ => startStage settings.poisonThreshold name σ :=
  leads_start (s := fun _ => σ) fun _ _ _ h => h.kept (HandKept.self (hc _))

/-- A command after which nothing is in hand. -/
theorem leads_start_free {P : DeliveryWorld → Prop} {c : ConsumerCmd} :
    Leads (startsContract settings name) P (.inl c)
      fun _ => startStage settings.poisonThreshold name .free :=
  leads_start (s := fun _ => .free) fun _ _ _ _ => trivial

theorem leads_start_read {block : Int} : Leads (startsContract settings name)
    (startStage settings.poisonThreshold name .free) (.inl (.xreadgroup name block))
    fun (r : Except PyError (Batch 1)) =>
      startStage settings.poisonThreshold name (.ofRead r) := by
  refine leads_start fun g ch hi _ => ?_
  rcases hr : consumerReply ch.toPipelineChoice g.toWorld (.xreadgroup name block) with
    x | ⟨_ | ⟨e, es⟩, hcount⟩
  · trivial
  · trivial
  · have hb := congrArg (brought (.xreadgroup name block)) hr
    refine ⟨_, ?_, unstarted_of_brought hi hb⟩
    obtain ⟨hfate, hmem⟩ := DeliveryWorld.gives_of_brought hb
    have hnew := hi.tally.not_mem_of_read hmem
    rw [DeliveryWorld.deliveredAfter, PipelineChoice.done, hfate, if_neg (by decide),
      List.count_append, List.count_eq_zero.2 hnew]
    exact List.count_le_length.trans Streams.length_delivers_le

theorem leads_start_claim {minIdle : Int} {start : EntryId} :
    Leads (startsContract settings name) (startStage settings.poisonThreshold name .free)
      (.inl (.xautoclaim name minIdle start))
      fun (r : Except PyError Claimed) =>
        startStage settings.poisonThreshold name (.ofClaim r) := by
  refine leads_start fun g ch hi _ => ?_
  rcases hr : consumerReply ch.toPipelineChoice g.toWorld (.xautoclaim name minIdle start) with
    x | ⟨next, ⟨_ | ⟨e, es⟩, hcount⟩⟩
  · trivial
  · trivial
  · exact ⟨_, unstarted_of_brought hi (congrArg (brought (.xautoclaim ..)) hr)⟩

/-- The count that is read includes the delivery in hand. -/
theorem leads_start_count : Leads (startsContract settings name)
    (startStage settings.poisonThreshold name (.claimed e)) (.inl (.xpendingRange e.id))
    fun (r : Except PyError (Option (Int × String))) =>
      startStage settings.poisonThreshold name (.ofPending name e r) := by
  refine leads_start fun g ch hi ⟨n, hu⟩ => ?_
  have hafter : Unstarted name e n (g.after ch name (.inl (.xpendingRange e.id))) :=
    (HandKept.self rfl).unstarted e n hu
  rcases hr : consumerReply ch.toPipelineChoice g.toWorld (.xpendingRange e.id) with
    x | _ | ⟨deliveries, owner⟩
  · trivial
  · trivial
  · simp only [Stage.ofPending]
    split
    · refine ⟨n, hafter, ?_⟩
      rw [DeliveryWorld.count_of_xpending hi.tally hr]
      exact_mod_cast (hi.hand hu.1).2
    · trivial

theorem leads_start_arm {event : IngestEvent} (hp : 1 ≤ settings.poisonThreshold)
    (ha : accepted e.fields = some event) : Leads (startsContract settings name)
      (fun g => startStage settings.poisonThreshold name (.fresh e) g ∨
        ∃ n ≤ settings.poisonThreshold,
          startStage settings.poisonThreshold name (.checked e n) g) (.inl .arm)
      fun _ => startStage settings.poisonThreshold name (.armed e event) := by
  refine leads_start (s := fun _ => .armed e event) fun g ch hi h => ?_
  have harmed : startStage settings.poisonThreshold name (.armed e event) g := by
    obtain ⟨n, hn, hu⟩ | ⟨m, hm, n, hu, hn⟩ := h
    · exact ⟨ha, n, hu, by omega⟩
    · exact ⟨ha, n, hu, hn.trans hm⟩
  exact harmed.kept (HandKept.self rfl)

theorem leads_start_job {event : IngestEvent} {deadline : Micros} :
    Leads (startsContract settings name)
      (startStage settings.poisonThreshold name (.armed e event)) (.inr ⟨event, deadline⟩)
      fun (r : Except JobError Outcome) g => startStage settings.poisonThreshold name .ran g ∧
        ∀ outcome uuid now status, runJob r = .ok outcome →
          statusFor event outcome uuid now = .ok status → True := by
  refine fun g hi h => ⟨?_, fun _ _ _ _ _ _ => ⟨trivial, fun _ _ _ _ _ _ => trivial⟩⟩
  obtain ⟨ha, n, hu, hn⟩ := h
  exact ⟨e, n, hu, hn, ha⟩

def startsCustody (settings : ConsumerSettings) (name : String)
    (hp : 1 ≤ settings.poisonThreshold) : Custody (startsContract settings name) settings name where
  stage := startStage settings.poisonThreshold name
  sayable _ _ := True
  sayable_stays _ _ _ := trivial
  plain _ := leads_start_free
  look {c _} hc := leads_start_keeping fun r => by cases c <;> first | rfl | exact hc.elim
  read := leads_start_read
  claim := leads_start_claim
  count := leads_start_count
  discard _ := leads_start_free
  start := leads_start_arm hp
  job := leads_start_job
  disarm := leads_start_free
  condemn _ _ _ _ := ⟨trivial, fun _ _ _ _ => trivial⟩
  add := leads_start_free

def startsCertificate (settings : ConsumerSettings) (hp : 1 ≤ settings.poisonThreshold) :
    Actors.Certificate (deliverySystem settings) (Actors.Rules.free _) where
  inv := StartsInv settings.poisonThreshold
  rely := HandKept
  guard name c g := MayStart settings.poisonThreshold name g c
  fresh _ _ := True
  rely_refl _ _ := .refl
  rely_trans _ _ _ _ := .trans
  fresh_rely _ _ _ _ _ _ := trivial
  enter_ok _ _ hi _ _ := ⟨hi, fun _ _ => .refl⟩
  call_ok name c ch g hi hg _ := by
    refine ⟨?_, fun other hne => HandKept.after hi hne⟩
    rcases c with c | job
    · exact hi.after_inl
    · exact hi.after_inr ch hg
  leave_ok _ _ hi := ⟨hi, fun _ _ => .refl⟩
  env_ok e g hi _ := by
    refine ⟨⟨DeliveryWorld.tally_apply hi.tally, hi.hand, hi.distinct, hi.started, hi.nodup⟩, ?_⟩
    exact fun _ => ⟨rfl, fun _ _ h => h⟩
  main_ok name _ _ _ _ _ _ := (startsCustody settings name hp).wp_main trivial

/-! ### Every run -/

/-- Each start is for a delivery of its own. -/
theorem StartsInv.count_le {threshold : Int} {g : DeliveryWorld} (hi : StartsInv threshold g)
    (hp : 0 ≤ threshold) (id : EntryId) :
    ((g.started.map Prod.fst).count id : Int) ≤ threshold := by
  have hnodup : ((g.started.filter fun d => d.1 = id).map Prod.snd).Nodup := by
    refine (hi.nodup.filter _).map_on fun d hd d' hd' he => Prod.ext ?_ he
    have h := (List.mem_filter.1 hd).2
    have h' := (List.mem_filter.1 hd').2
    simp only [decide_eq_true_eq] at h h'
    exact h.trans h'.symm
  have hsub : (g.started.filter fun d => d.1 = id).map Prod.snd ⊆
      List.range' 1 threshold.toNat := by
    intro n hn
    obtain ⟨⟨id', m⟩, hd, rfl⟩ := List.mem_map.1 hn
    obtain ⟨hpos, -, hle⟩ := hi.started (List.mem_filter.1 hd).1
    rw [List.mem_range'_1]
    omega
  have hlength := (List.Nodup.subperm hnodup hsub).length_le
  rw [List.length_map, List.length_range'] at hlength
  have hcount : (g.started.map Prod.fst).count id =
      (g.started.filter fun d => d.1 = id).length := by
    rw [List.count_eq_countP, List.countP_map, List.countP_eq_length_filter]
    exact congrArg List.length (List.filter_congr fun d _ => by simp [Bool.beq_eq_decide_eq])
  omega

theorem startsInv_start {threshold : Int} {w : World} (hw : w.ingest.group = none) :
    StartsInv threshold (.start w) where
  tally := DeliveryWorld.tally_start hw
  hand := nofun
  distinct := nofun
  started := nofun
  nodup := List.nodup_nil

/-- Over all consumers, the job of an entry is started at most `poison_threshold` times. A job is
that of the entry its consumer was given last. -/
theorem jobs_bounded {raw : Settings.Table} {config : Settings.Python.Config}
    (h : Settings.Python.load raw = .ok config) {intents : Relational.Table Center.Intent}
    {index : IndexState} {cfg : (deliverySystem (.fromConfig config)).Config}
    (hreach : (deliverySystem (.fromConfig config)).Reachable (Actors.Rules.free _)
      (.start (.start intents index)) cfg) :
    (∀ id, ((cfg.shared.started.map Prod.fst).count id : Int) ≤
      config.rag.consumer.poisonThreshold) ∧
    ∀ name job, cfg.pending name = some (.inr job) → ∃ e n,
      cfg.shared.hand name = some (e, n) ∧ accepted e.fields = some job.event := by
  have hp : 1 ≤ (ConsumerSettings.fromConfig config).poisonThreshold :=
    (Settings.Python.sound_of_load h).poisonThreshold
  have hinv := (startsCertificate (.fromConfig config) hp).sound (startsInv_start rfl)
    (fun _ => trivial) hreach
  refine ⟨hinv.count_le (by omega), fun name job hjob => ?_⟩
  obtain ⟨e, n, hu, -, ha⟩ := (startsCertificate (.fromConfig config) hp).guarded
    (startsInv_start rfl) (fun _ => trivial) hreach hjob
  exact ⟨e, n, hu.1, ha⟩

/-! ### A job that takes its process down -/

/-- Redis without trouble, and with entries pending for long enough. -/
def untroubled : DeliveryChoice :=
  ⟨⟨.ok, .redis, ⟨false, false⟩, .lostClaim, [], fun _ => true, fun _ => 0,
      ⟨.ok, .raised .exit, [], [], 0⟩, 0, false, "u"⟩, .ok (.indexed (some 2))⟩

def firstFields : Fields := firstEvent.toEntry.getD ⟨none, none⟩

/-- A process starts, and ends after so many commands of its first turn. -/
def life (settings : ConsumerSettings) (name : String) (commands : Nat) :
    List (deliverySystem settings).Step :=
  [.start name, .unfold name, .call name untroubled, .call name untroubled, .unfold name] ++
    List.replicate commands (.call name untroubled) ++ [.crash name]

/-- Three processes run the job of one entry and crash, and a fourth one condemns it. -/
def crashLoop (settings : ConsumerSettings) : List (deliverySystem settings).Step :=
  .env (.xadd firstFields) :: life settings "a" 10 ++ life settings "b" 8 ++ life settings "c" 8 ++
    life settings "d" 8

theorem jobs_bounded_shipped : ∃ config, Settings.Python.load Settings.configToml = .ok config ∧
    ∃ cfg, (deliverySystem (.fromConfig config)).Reachable (Actors.Rules.free _)
        (.start (.start .empty ⟨.empty, .empty⟩)) cfg ∧
      cfg.shared.started = [(1, 3), (1, 2), (1, 1)] ∧ cfg.shared.delivered.length = 4 ∧
      ∀ id, ((cfg.shared.started.map Prod.fst).count id : Int) ≤
        config.rag.consumer.poisonThreshold := by
  have hsilent : (Settings.Python.build Settings.configToml).2 = [] := by decide +kernel
  have hload := Settings.Python.load_of_silent hsilent
  have hrun : (deliverySystem (.fromConfig (Settings.Python.build Settings.configToml).1)).leaves
      (.start (.start .empty ⟨.empty, .empty⟩)) (crashLoop _)
      (fun g => (g.started, g.delivered.length)) = some ([(1, 3), (1, 2), (1, 1)], 4) := by
    decide +kernel
  obtain ⟨cfg, hreach, hleft⟩ := Actors.Reachable.of_leaves (Actors.Rules.free_allowsAll _ _) hrun
  obtain ⟨hstarted, hdelivered⟩ := Prod.mk.inj hleft
  exact ⟨_, hload, cfg, hreach, hstarted, hdelivered, (jobs_bounded hload hreach).1⟩

end Pipeline
