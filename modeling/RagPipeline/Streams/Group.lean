import Mathlib.Data.List.Range

/-!
# Streams with a consumer group

An append-only log with one consumer group over it, as Redis keeps them: what is read becomes
pending until it is acknowledged, and what stays pending can be claimed. An entry's ID is its
place in the log, from 1 on; 0 is before every entry. How long an entry has been pending is not
kept; a claim is told which entries count as stale.

## Main definitions

* `Stream`, `Group`: the log, and what the group has delivered.
* `Stream.Finished`: delivered, and not pending any more.
* `Stream.xreadgroup`, `Stream.xautoclaim`, …: the commands.

## Main results

* `get?_of_mem_read`, `get?_of_mem_claimed`: what a command brings is in the log.
* `finished_xreadgroup`, `finished_xack`, …: which entries a command finishes.
-/
namespace Streams

inductive GroupError where
  | noGroup
  | busyGroup
  deriving DecidableEq

/-- An entry that was delivered and not acknowledged. -/
structure PendingEntry (κ : Type) where
  id : Nat
  owner : κ
  deliveries : Nat
  deriving DecidableEq

structure Group (κ : Type) where
  lastDelivered : Nat
  /-- By ID. -/
  pending : List (PendingEntry κ)
  consumers : List κ
  deriving DecidableEq

structure Stream (F κ : Type) where
  /-- Everything that was ever added. -/
  log : List F
  /-- How many of the oldest entries are gone. -/
  trimmed : Nat
  group : Option (Group κ)

/-- Up to `count` entries with their IDs. -/
structure Batch (F : Type) (count : Nat) where
  entries : List (Nat × F)
  bounded : entries.length ≤ count

namespace Stream

variable {F κ : Type}

def empty : Stream F κ := ⟨[], 0, none⟩

def get? (s : Stream F κ) : Nat → Option F
  | 0 => none
  | i + 1 => s.log[i]?

def live (s : Stream F κ) (id : Nat) : Bool := s.trimmed < id ∧ (s.get? id).isSome

/-- No consumer of the group got the entry yet. -/
def Undelivered (s : Stream F κ) (id : Nat) : Prop :=
  ∀ gr, s.group = some gr → gr.lastDelivered < id

def Pending (s : Stream F κ) (id : Nat) : Prop :=
  ∃ gr, s.group = some gr ∧ ∃ p ∈ gr.pending, p.id = id

def Finished (s : Stream F κ) (id : Nat) : Prop := ¬ s.Undelivered id ∧ ¬ s.Pending id

/-- Nothing was trimmed, and what was delivered is there. -/
structure Whole (s : Stream F κ) : Prop where
  untrimmed : s.trimmed = 0
  delivered : ∀ gr, s.group = some gr → gr.lastDelivered ≤ s.log.length
  pending : ∀ gr, s.group = some gr → ∀ p ∈ gr.pending, s.live p.id

/-! ### The log -/

section Log

variable {s : Stream F κ} {id : Nat} {f : F}

theorem mem_of_get? (h : s.get? id = some f) : f ∈ s.log := by
  cases id with
  | zero => cases h
  | succ i => exact List.mem_of_getElem? h

theorem exists_get? (h : f ∈ s.log) : ∃ id, s.get? id = some f := by
  obtain ⟨i, hi⟩ := List.mem_iff_getElem?.1 h
  exact ⟨i + 1, hi⟩

/-- An entry stays where it is when the log grows. -/
theorem get?_of_prefix {s' : Stream F κ} (hp : s.log <+: s'.log) (h : s.get? id = some f) :
    s'.get? id = some f := by
  cases id with
  | zero => cases h
  | succ i =>
    obtain ⟨more, hm⟩ := hp
    obtain ⟨hi, hf⟩ := List.getElem?_eq_some_iff.1 h
    change s'.log[i]? = some f
    rw [← hm, List.getElem?_append_left hi, List.getElem?_eq_getElem hi, hf]

theorem get?_congr {s' : Stream F κ} (h : s'.log = s.log) (id : Nat) :
    s'.get? id = s.get? id := by
  cases id with
  | zero => rfl
  | succ i => exact congrArg (·[i]?) h

theorem get?_isSome : (s.get? id).isSome ↔ 0 < id ∧ id ≤ s.log.length := by
  cases id with
  | zero => simp [get?]
  | succ i =>
    have hget : (s.get? (i + 1)).isSome ↔ i < s.log.length := by simp [get?]
    rw [hget]
    omega

theorem live_iff : s.live id ↔ s.trimmed < id ∧ 0 < id ∧ id ≤ s.log.length := by
  rw [live, decide_eq_true_eq, get?_isSome]

/-- The entries of IDs, with what they hold. -/
def entriesAt (s : Stream F κ) (ids : List Nat) : List (Nat × F) :=
  ids.filterMap fun id => (s.get? id).map fun f => (id, f)

theorem mem_entriesAt {ids : List Nat} : (id, f) ∈ s.entriesAt ids ↔
    id ∈ ids ∧ s.get? id = some f := by
  simp only [entriesAt, List.mem_filterMap, Option.map_eq_some_iff, Prod.mk.injEq]
  constructor
  · rintro ⟨_, hid, _, hf, rfl, rfl⟩
    exact ⟨hid, hf⟩
  · rintro ⟨hid, hf⟩
    exact ⟨id, hid, f, hf, rfl, rfl⟩

end Log

/-! ### Commands -/

section Commands

def xadd (f : F) (s : Stream F κ) : Stream F κ := { s with log := s.log ++ [f] }

/-- `XADD … MAXLEN` may drop the oldest entries. -/
def trim (n : Nat) (s : Stream F κ) : Stream F κ := { s with trimmed := max s.trimmed n }

def loseGroup (s : Stream F κ) : Stream F κ := { s with group := none }

/-- `XGROUP CREATE … 0 MKSTREAM`. -/
def xgroupCreate (s : Stream F κ) : Except GroupError Unit × Stream F κ :=
  match s.group with
  | some _ => (.error .busyGroup, s)
  | none => (.ok (), { s with group := some ⟨0, [], []⟩ })

/-- A command on a group that may be missing. -/
def withGroup {α : Type} (s : Stream F κ) (f : Group κ → α × Group κ) :
    Except GroupError α × Stream F κ :=
  match s.group with
  | some gr => (.ok (f gr).1, { s with group := some (f gr).2 })
  | none => (.error .noGroup, s)

/-- The IDs a read of up to `count` new entries delivers. -/
def unread (s : Stream F κ) (lastDelivered : Nat) (count : Nat) : List Nat :=
  let start := max lastDelivered s.trimmed
  List.range' (start + 1) (min count (s.log.length - start))

theorem length_unread_le (s : Stream F κ) (lastDelivered count : Nat) :
    (s.unread lastDelivered count).length ≤ count := by
  rw [unread, List.length_range']
  exact Nat.min_le_left ..

def batchAt (s : Stream F κ) {count : Nat} (ids : List Nat) (h : ids.length ≤ count) :
    Batch F count :=
  ⟨s.entriesAt ids, (List.length_filterMap_le _ _).trans h⟩

/-- What one pass of a claim leaves: the claimed IDs, the pending entries, and where to go on. -/
structure Sweep (κ : Type) where
  claimed : List Nat
  pending : List (PendingEntry κ)
  cursor : Nat

/-- Look at up to `attempts` pending entries and claim up to `count` stale ones; entries that are
gone are forgotten, and count as claimed. -/
def sweep (live stale : Nat → Bool) (consumer : κ) :
    Nat → Nat → List (PendingEntry κ) → Sweep κ
  | _, _, [] => ⟨[], [], 0⟩
  | 0, _, p :: ps => ⟨[], p :: ps, p.id⟩
  | _, 0, p :: ps => ⟨[], p :: ps, p.id⟩
  | attempts + 1, count + 1, p :: ps =>
    if !live p.id then
      sweep live stale consumer attempts count ps
    else if !stale p.id then
      let r := sweep live stale consumer attempts (count + 1) ps
      { r with pending := p :: r.pending }
    else
      let r := sweep live stale consumer attempts count ps
      { r with
        claimed := p.id :: r.claimed
        pending := { p with owner := consumer, deliveries := p.deliveries + 1 } :: r.pending }

theorem length_sweep_le (live stale : Nat → Bool) (consumer : κ) (attempts count : Nat)
    (ps : List (PendingEntry κ)) :
    (sweep live stale consumer attempts count ps).claimed.length ≤ count := by
  induction ps generalizing attempts count with
  | nil => simp [sweep]
  | cons p ps ih =>
    cases attempts with
    | zero => simp [sweep]
    | succ attempts =>
      cases count with
      | zero => simp [sweep]
      | succ count =>
        have h₁ := ih attempts count
        have h₂ := ih attempts (count + 1)
        unfold sweep
        split
        · omega
        · split
          · exact h₂
          · exact Nat.succ_le_succ h₁

variable [DecidableEq κ]

/-- `XREADGROUP … >`. -/
def xreadgroup (consumer : κ) (count : Nat) (s : Stream F κ) :
    Except GroupError (Batch F count) × Stream F κ :=
  s.withGroup fun gr =>
    let ids := s.unread gr.lastDelivered count
    (s.batchAt ids (s.length_unread_le ..),
      { lastDelivered := ids.getLastD gr.lastDelivered
        pending := gr.pending ++ ids.map fun id => ⟨id, consumer, 1⟩
        consumers := gr.consumers.insert consumer })

/-- `XAUTOCLAIM`: the next cursor and the claimed entries. -/
def xautoclaim (consumer : κ) (stale : Nat → Bool) (start : Nat) (count : Nat)
    (s : Stream F κ) : Except GroupError (Nat × Batch F count) × Stream F κ :=
  s.withGroup fun gr =>
    let before := gr.pending.takeWhile fun p => p.id < start
    let r := sweep s.live stale consumer (10 * count) count
      (gr.pending.dropWhile fun p => p.id < start)
    ((r.cursor, s.batchAt r.claimed (length_sweep_le ..)),
      { gr with
        pending := before ++ r.pending
        consumers := gr.consumers.insert consumer })

/-- `XCLAIM … 0 id JUSTID`. -/
def xclaim (consumer : κ) (id : Nat) (s : Stream F κ) : Except GroupError Unit × Stream F κ :=
  s.withGroup fun gr =>
    ((), { gr with
      pending := (gr.pending.filter fun p => p.id ≠ id ∨ s.live id).map fun p =>
        if p.id = id then { p with owner := consumer } else p
      consumers := gr.consumers.insert consumer })

/-- `XPENDING … id id 1`: how often the entry was delivered, and whose it is. -/
def xpending (id : Nat) (s : Stream F κ) : Except GroupError (Option (Nat × κ)) :=
  (s.withGroup fun gr =>
    ((gr.pending.find? fun p => p.id = id).map fun p => (p.deliveries, p.owner), gr)).1

/-- `XACK`; of a missing group it acknowledges nothing. -/
def xack (id : Nat) (s : Stream F κ) : Stream F κ :=
  (s.withGroup fun gr => ((), { gr with pending := gr.pending.filter fun p => p.id ≠ id })).2

def Group.pendingOf (gr : Group κ) (consumer : κ) : Nat :=
  gr.pending.countP fun p => p.owner = consumer

/-- `XINFO CONSUMERS`: names with the numbers of their pending entries. -/
def xinfoConsumers (s : Stream F κ) : Except GroupError (List (κ × Nat)) :=
  (s.withGroup fun gr => (gr.consumers.map fun c => (c, Group.pendingOf gr c), gr)).1

/-- `XGROUP DELCONSUMER`: what is pending under the consumer is forgotten with it. -/
def delConsumer (consumer : κ) (s : Stream F κ) : Except GroupError Unit × Stream F κ :=
  s.withGroup fun gr =>
    ((), { gr with
      pending := gr.pending.filter fun p => p.owner ≠ consumer
      consumers := gr.consumers.filter (· ≠ consumer) })

end Commands

/-! ### What a command brings -/

section Brings

variable {s : Stream F κ} {id : Nat} {f : F} {consumer : κ} {count : Nat}

@[simp] theorem log_withGroup {α : Type} (g : Group κ → α × Group κ) :
    (s.withGroup g).2.log = s.log := by
  unfold withGroup; split <;> rfl

theorem withGroup_ok {α : Type} {g : Group κ → α × Group κ} {a : α}
    (h : (s.withGroup g).1 = .ok a) : ∃ gr, s.group = some gr ∧ (g gr).1 = a := by
  unfold withGroup at h
  split at h
  · cases h; exact ⟨_, ‹_›, rfl⟩
  · cases h

@[simp] theorem log_xgroupCreate : s.xgroupCreate.2.log = s.log := by
  unfold xgroupCreate; split <;> rfl

@[simp] theorem log_xack : (s.xack id).log = s.log := log_withGroup _

variable [DecidableEq κ]

@[simp] theorem log_xreadgroup : (s.xreadgroup consumer count).2.log = s.log := log_withGroup _

@[simp] theorem log_xautoclaim {stale : Nat → Bool} {start : Nat} :
    (s.xautoclaim consumer stale start count).2.log = s.log := log_withGroup _

@[simp] theorem log_xclaim : (s.xclaim consumer id).2.log = s.log := log_withGroup _

@[simp] theorem log_delConsumer : (s.delConsumer consumer).2.log = s.log := log_withGroup _

theorem get?_of_mem_read {batch : Batch F count}
    (h : (s.xreadgroup consumer count).1 = .ok batch) (hmem : (id, f) ∈ batch.entries) :
    s.get? id = some f := by
  obtain ⟨gr, -, rfl⟩ := withGroup_ok h
  exact (mem_entriesAt.1 hmem).2

theorem get?_of_mem_claimed {stale : Nat → Bool} {start cursor : Nat}
    {batch : Batch F count} (h : (s.xautoclaim consumer stale start count).1 = .ok (cursor, batch))
    (hmem : (id, f) ∈ batch.entries) : s.get? id = some f := by
  obtain ⟨gr, -, he⟩ := withGroup_ok h
  cases he
  exact (mem_entriesAt.1 hmem).2

end Brings

/-! ### What a command finishes -/

section Finishes

variable {s : Stream F κ} {id : Nat} {f : F} {consumer : κ} {count : Nat}

def Group.Finished (gr : Group κ) (id : Nat) : Prop :=
  id ≤ gr.lastDelivered ∧ ∀ p ∈ gr.pending, p.id ≠ id

theorem finished_iff : s.Finished id ↔ ∃ gr, s.group = some gr ∧ Group.Finished gr id := by
  unfold Finished Undelivered Pending Group.Finished
  cases s.group with
  | none => simp
  | some gr => simp

theorem finished_withGroup {α : Type} {g : Group κ → α × Group κ} :
    (s.withGroup g).2.Finished id ↔ ∃ gr, s.group = some gr ∧ Group.Finished (g gr).2 id := by
  rw [finished_iff]
  unfold withGroup
  cases hg : s.group with
  | none => simp [hg]
  | some gr => simp

theorem Whole.withGroup {α : Type} {g : Group κ → α × Group κ} (hw : s.Whole)
    (hd : ∀ gr, s.group = some gr → (g gr).2.lastDelivered ≤ s.log.length)
    (h : ∀ gr, s.group = some gr → ∀ p ∈ (g gr).2.pending, s.live p.id) :
    (s.withGroup g).2.Whole := by
  unfold Stream.withGroup
  split
  case h_1 gr hg =>
    exact ⟨hw.untrimmed, by rintro _ ⟨⟩; exact hd gr hg, by rintro _ ⟨⟩; exact h gr hg⟩
  case h_2 => exact hw

theorem whole_empty : (empty : Stream F κ).Whole := ⟨rfl, nofun, nofun⟩

theorem Whole.xadd (hw : s.Whole) : (s.xadd f).Whole := by
  have hlog : s.log.length ≤ (s.xadd f).log.length := by simp [Stream.xadd]
  refine ⟨hw.untrimmed, fun gr hg => (hw.delivered gr hg).trans hlog, fun gr hg p hp => ?_⟩
  obtain ⟨ht, h₀, hle⟩ := live_iff.1 (hw.pending gr hg p hp)
  exact live_iff.2 ⟨ht, h₀, hle.trans hlog⟩

/-- What is added is not delivered yet. -/
theorem finished_xadd (hw : s.Whole) {f' : F} (h : (s.xadd f).Finished id)
    (he : (s.xadd f).get? id = some f') : s.Finished id ∧ s.get? id = some f' := by
  refine ⟨h, ?_⟩
  obtain ⟨gr, hg, hle, -⟩ := finished_iff.1 h
  have hlast := hw.delivered gr hg
  cases id with
  | zero => exact he
  | succ i =>
    have hi : i < s.log.length := Nat.lt_of_succ_le (hle.trans hlast)
    exact (List.getElem?_append_left hi).symm.trans he

theorem Whole.xgroupCreate (hw : s.Whole) : s.xgroupCreate.2.Whole := by
  unfold Stream.xgroupCreate
  split
  · exact hw
  · exact ⟨hw.untrimmed, by rintro _ ⟨⟩; simp, by rintro _ ⟨⟩; simp⟩

/-- A group that is created has delivered nothing. -/
theorem finished_xgroupCreate (hid : 0 < id) (h : s.xgroupCreate.2.Finished id) :
    s.Finished id := by
  unfold xgroupCreate at h
  split at h
  · exact h
  · obtain ⟨_, hg, hle, -⟩ := finished_iff.1 h
    cases hg
    exact absurd hle (Nat.not_le.2 hid)

theorem mem_unread (hw : s.Whole) {last : Nat} :
    id ∈ s.unread last count ↔ last < id ∧ id ≤ last + min count (s.log.length - last) := by
  simp only [unread, hw.untrimmed, Nat.max_zero, List.mem_range'_1]
  omega

theorem ids_sweep {live stale : Nat → Bool} (attempts count : Nat)
    {ps : List (PendingEntry κ)} (h : ∀ p ∈ ps, live p.id) :
    (sweep live stale consumer attempts count ps).pending.map PendingEntry.id =
      ps.map PendingEntry.id := by
  induction ps generalizing attempts count with
  | nil => simp [sweep]
  | cons p ps ih =>
    cases attempts with
    | zero => simp [sweep]
    | succ attempts =>
      cases count with
      | zero => simp [sweep]
      | succ count =>
        have ih := fun attempts count =>
          ih attempts count fun q hq => h q (List.mem_cons_of_mem _ hq)
        unfold sweep
        rw [if_neg (by simp [h p List.mem_cons_self])]
        split <;> simp [ih]

theorem ids_xautoclaim (hw : s.Whole) {stale : Nat → Bool} {start : Nat} {gr : Group κ}
    (hg : s.group = some gr) :
    ((gr.pending.takeWhile fun p => p.id < start) ++ (sweep s.live stale consumer (10 * count) count
      (gr.pending.dropWhile fun p => p.id < start)).pending).map PendingEntry.id =
        gr.pending.map PendingEntry.id := by
  have hlive : ∀ p ∈ gr.pending.dropWhile fun p => p.id < start, s.live p.id := fun p hp =>
    hw.pending gr hg p ((List.dropWhile_sublist _).subset hp)
  rw [List.map_append, ids_sweep _ _ hlive, ← List.map_append, List.takeWhile_append_dropWhile]

theorem Whole.xack (hw : s.Whole) {acked : Nat} : (s.xack acked).Whole :=
  hw.withGroup hw.delivered fun gr hg p hp => hw.pending gr hg p (List.mem_filter.1 hp).1

/-- Only an acknowledgement finishes an entry. -/
theorem finished_xack {acked : Nat} (h : (s.xack acked).Finished id) :
    s.Finished id ∨ id = acked := by
  obtain ⟨gr, hg, hle, hne⟩ := finished_withGroup.1 h
  by_cases hid : id = acked
  · exact .inr hid
  · refine .inl (finished_iff.2 ⟨gr, hg, hle, fun p hp he => ?_⟩)
    exact hne p (List.mem_filter.2 ⟨hp, by simpa [he] using hid⟩) he

theorem last_unread (hw : s.Whole) (last : Nat) : (s.unread last count).getLastD last =
    if min count (s.log.length - last) = 0 then last
    else last + min count (s.log.length - last) := by
  simp only [unread, hw.untrimmed, Nat.max_zero, List.getLastD_eq_getLast?, List.getLast?_range']
  split
  · rfl
  · simp only [Option.getD_some]
    omega

variable [DecidableEq κ]

theorem Whole.xreadgroup (hw : s.Whole) : (s.xreadgroup consumer count).2.Whole := by
  refine hw.withGroup (fun gr hg => ?_) fun gr hg p hp => ?_
  · have := hw.delivered gr hg
    dsimp only
    rw [last_unread hw]
    split <;> omega
  · rcases List.mem_append.1 hp with hp | hp
    · exact hw.pending gr hg p hp
    · obtain ⟨id, hid, rfl⟩ := List.mem_map.1 hp
      have hmem := (mem_unread hw).1 hid
      have hwt := hw.untrimmed
      exact live_iff.2 (by dsimp only; omega)

/-- What is delivered is pending. -/
theorem finished_xreadgroup (hw : s.Whole) (h : (s.xreadgroup consumer count).2.Finished id) :
    s.Finished id := by
  obtain ⟨gr, hg, hle, hne⟩ := finished_withGroup.1 h
  have hnew : id ∉ s.unread gr.lastDelivered count := fun hid =>
    hne ⟨id, consumer, 1⟩ (List.mem_append_right _ (List.mem_map.2 ⟨id, hid, rfl⟩)) rfl
  refine finished_iff.2 ⟨gr, hg, ?_, fun p hp => hne p (List.mem_append_left _ hp)⟩
  rw [mem_unread hw] at hnew
  dsimp only at hle
  rw [last_unread hw] at hle
  split at hle <;> omega

theorem Whole.xautoclaim (hw : s.Whole) {stale : Nat → Bool} {start : Nat} :
    (s.xautoclaim consumer stale start count).2.Whole := by
  refine hw.withGroup hw.delivered fun gr hg p hp => ?_
  have hmem := List.mem_map_of_mem (f := PendingEntry.id) hp
  rw [ids_xautoclaim hw hg] at hmem
  obtain ⟨q, hq, he⟩ := List.mem_map.1 hmem
  exact he ▸ hw.pending gr hg q hq

/-- A claim moves entries between consumers. -/
theorem finished_xautoclaim (hw : s.Whole) {stale : Nat → Bool} {start : Nat}
    (h : (s.xautoclaim consumer stale start count).2.Finished id) : s.Finished id := by
  obtain ⟨gr, hg, hle, hne⟩ := finished_withGroup.1 h
  refine finished_iff.2 ⟨gr, hg, hle, fun p hp he => ?_⟩
  have hmem := List.mem_map_of_mem (f := PendingEntry.id) hp
  rw [← ids_xautoclaim hw hg] at hmem
  obtain ⟨q, hq, hqe⟩ := List.mem_map.1 hmem
  exact hne q hq (hqe.trans he)

theorem Whole.xclaim (hw : s.Whole) {claimed : Nat} : (s.xclaim consumer claimed).2.Whole := by
  refine hw.withGroup hw.delivered fun gr hg p hp => ?_
  obtain ⟨q, hq, rfl⟩ := List.mem_map.1 hp
  have := hw.pending gr hg q (List.mem_filter.1 hq).1
  split <;> exact this

theorem finished_xclaim (hw : s.Whole) {claimed : Nat}
    (h : (s.xclaim consumer claimed).2.Finished id) : s.Finished id := by
  obtain ⟨gr, hg, hle, hne⟩ := finished_withGroup.1 h
  refine finished_iff.2 ⟨gr, hg, hle, fun p hp he => ?_⟩
  have hlive := hw.pending gr hg p hp
  have hkept : p.id ≠ claimed ∨ s.live claimed := by
    by_cases hc : p.id = claimed
    · exact .inr (hc ▸ hlive)
    · exact .inl hc
  refine hne _ (List.mem_map_of_mem (List.mem_filter.2 ⟨hp, by simpa using hkept⟩)) ?_
  split <;> exact he

theorem Whole.delConsumer (hw : s.Whole) : (s.delConsumer consumer).2.Whole :=
  hw.withGroup hw.delivered fun gr hg p hp => hw.pending gr hg p (List.mem_filter.1 hp).1

/-- A consumer without pending entries can go. -/
def Idle (s : Stream F κ) (consumer : κ) : Prop :=
  ∀ gr, s.group = some gr → ∀ p ∈ gr.pending, p.owner ≠ consumer

instance : Decidable (s.Idle consumer) :=
  inferInstanceAs (Decidable (∀ gr ∈ s.group, ∀ p ∈ Group.pending gr, p.owner ≠ consumer))

theorem finished_delConsumer (hi : s.Idle consumer) (h : (s.delConsumer consumer).2.Finished id) :
    s.Finished id := by
  obtain ⟨gr, hg, hle, hne⟩ := finished_withGroup.1 h
  refine finished_iff.2 ⟨gr, hg, hle, fun p hp he => ?_⟩
  exact hne p (List.mem_filter.2 ⟨hp, by simpa using hi gr hg p hp⟩) he

end Finishes

end Stream

end Streams
