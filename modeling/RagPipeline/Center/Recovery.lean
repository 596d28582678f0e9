import RagPipeline.Center.StatusWorker
import RagPipeline.Interact.Total
import RagPipeline.Streams.Sweep

/-!
# One recovery pass

`claimAndProcess` claims stale status entries in rounds, each from the start of the pending list,
and takes a short batch for the last one. Here store and Redis work, and the entries that were
stale at the start are left to this worker; the clock goes on, and the others do what they like with
all other entries.

## Main definitions

* `RecoveryWorld`, `recoveryContract`: the stream, when its entries were delivered, and what this
  pass has claimed.
* `Complete`, `Covered`: all of the entries were claimed; the last claim came to all that were left.

## Main results

* `claimAndProcess_complete_iff`: the pass claims every stale entry if and only if its last claim
  comes to all that are left.
* `claimAndProcess_incomplete`: a hundred fresh entries keep it from the one behind them.
-/
namespace Center

open Events Interact
open Streams (Batch PendingEntry)

/-- What a claim found: the pending entries, and which of them it counts. -/
structure Scan where
  pending : List (PendingEntry String)
  counted : Nat → Bool

/-- The stream, and when its pending entries were delivered last. -/
structure Backlog where
  clock : Time
  stream : Streams.Stream Fields String
  deliveredAt : Nat → Time

namespace Backlog

variable (b : Backlog) (minIdle : Int) (id : Nat)

/-- Which entries `XAUTOCLAIM` takes for stale. -/
def stale : Bool := minIdle ≤ b.clock - b.deliveredAt id

/-- Pending for longer than that, and still in the stream. -/
def Overdue : Prop :=
  b.stream.Pending id ∧ b.stream.live id ∧ minIdle < b.clock - b.deliveredAt id

end Backlog

structure RecoveryWorld extends Backlog where
  /-- By this worker, in this pass. -/
  claimed : List Nat
  rounds : Nat
  /-- Of the last round. -/
  scan : Scan

namespace RecoveryWorld

/-- When the pass begins. -/
def start (b : Backlog) : RecoveryWorld := ⟨b, [], 0, ⟨[], fun _ => false⟩⟩

def afterClaim (g : RecoveryWorld) {count : Nat} (minIdle : Int) (batch : Batch Fields count)
    (stream : Streams.Stream Fields String) : RecoveryWorld where
  clock := g.clock
  stream := stream
  deliveredAt id := if id ∈ batch.entries.map Prod.fst then g.clock else g.deliveredAt id
  claimed := batch.entries.map Prod.fst ++ g.claimed
  rounds := g.rounds + 1
  scan := ⟨g.stream.pendingList, Streams.Stream.counts g.stream.live (g.stale minIdle)⟩

end RecoveryWorld

/-- Store and Redis do what they are asked. -/
inductive RecoveryExec :
    (c : StatusCmd) → RecoveryWorld → StatusSig.Reply c → RecoveryWorld → Prop
  | store {c : StoreCmd} {a : c.Result} {g : RecoveryWorld} : RecoveryExec (.store c) g (.ok a) g
  | claim {consumer : String} {minIdle : Int} {count cursor : Nat} {batch : Batch Fields count}
      {s : Streams.Stream Fields String} {g : RecoveryWorld}
      (h : g.stream.xautoclaim consumer (g.stale minIdle) 0 count = (.ok (cursor, batch), s)) :
      RecoveryExec (.xautoclaim consumer minIdle count) g
        (.ok (batch.entries.map fun e => ⟨e.1, e.2⟩)) (g.afterClaim minIdle batch s)
  | pending {id : Nat} {p : Option (Nat × String)} {g : RecoveryWorld}
      (h : g.stream.xpending id = .ok p) :
      RecoveryExec (.xpendingExt id) g (.ok (p.map fun p => (p.1 : Int))) g
  | ack {id : Nat} {g : RecoveryWorld} :
      RecoveryExec (.xack id) g (.ok ()) { g with stream := g.stream.xack id }
  | now {g : RecoveryWorld} : RecoveryExec .now g g.clock g
  | cancelled {b : Bool} {g : RecoveryWorld} : RecoveryExec .cancelled g b g
  | sleep {duration : Int} {b : Bool} {g : RecoveryWorld} : RecoveryExec (.sleep duration) g b g
  | logPoison {id : Nat} {g : RecoveryWorld} : RecoveryExec (.logPoison id) g () g

/-- Nobody else claims, acknowledges or removes an entry of `S`; time goes on. -/
structure Undisturbed (S : Nat → Prop) (g g' : RecoveryWorld) : Prop where
  clock : g.clock ≤ g'.clock
  claimed : g'.claimed = g.claimed
  rounds : g'.rounds = g.rounds
  scan : g'.scan = g.scan
  pending : ∀ id, S id → (g'.stream.Pending id ↔ g.stream.Pending id)
  live : ∀ id, S id → g'.stream.live id = g.stream.live id
  deliveredAt : ∀ id, S id → g'.deliveredAt id = g.deliveredAt id

theorem Undisturbed.refl {S : Nat → Prop} (g : RecoveryWorld) : Undisturbed S g g :=
  ⟨le_rfl, rfl, rfl, rfl, fun _ _ => .rfl, fun _ _ => rfl, fun _ _ => rfl⟩

def recoveryContract (S : Nat → Prop) : Contract StatusSig RecoveryWorld where
  inv _ := True
  rely := Undisturbed S
  guard _ _ := True
  exec := RecoveryExec

/-- Every entry of `S` was claimed. -/
def Complete (S : Nat → Prop) (g : RecoveryWorld) : Prop := ∀ id, S id → id ∈ g.claimed

/-- The last claim came to every entry of `S` that was left. -/
def Covered (S : Nat → Prop) (batchSize : Nat) (g : RecoveryWorld) : Prop :=
  ∀ id, S id → (∃ p ∈ g.scan.pending, p.id = id) →
    Streams.Stream.Reached g.scan.counted (10 * batchSize) batchSize g.scan.pending id

section Pass

open StatusWorker

variable {S : Nat → Prop} {cfg : StatusConfig} {maxAttempts : Int} {g g' : RecoveryWorld}
  {rest : List StatusEntry}

/-- Of the entries of `S`, those that were claimed are acknowledged, but for `rest`; the others are
still there to be claimed. -/
structure Accounted (S : Nat → Prop) (minIdle : Int) (rest : List StatusEntry) (g : RecoveryWorld) :
    Prop where
  live : ∀ id, S id → g.stream.live id
  cases : ∀ id, S id → id ∉ g.claimed ∧ g.stream.Pending id ∧ g.stale minIdle id ∨
    id ∈ g.claimed ∧ (g.stream.Pending id → ∃ e ∈ rest, e.id = id)
  rest : ∀ e ∈ rest, e.id ∈ g.claimed

theorem Accounted.undisturbed (h : Accounted S cfg.minIdle rest g) (hu : Undisturbed S g g') :
    Accounted S cfg.minIdle rest g' where
  live id hid := hu.live id hid ▸ h.live id hid
  cases id hid := by
    rw [hu.claimed, hu.pending id hid]
    refine (h.cases id hid).imp_left fun ⟨hc, hp, hs⟩ => ⟨hc, hp, ?_⟩
    simp only [Backlog.stale, decide_eq_true_eq, hu.deliveredAt id hid] at hs ⊢
    exact hs.trans (Int.sub_le_sub_right hu.clock _)
  rest e he := hu.claimed ▸ h.rest e he

/-- What was claimed and what the last round found stay as they are. -/
def Exact (S : Nat → Prop) (batchSize : Nat) (g : RecoveryWorld) : Prop :=
  Complete S g ↔ Covered S batchSize g

theorem Exact.undisturbed {batchSize : Nat} (h : Exact S batchSize g) (hu : Undisturbed S g g') :
    Exact S batchSize g' := by
  unfold Exact Complete Covered at h ⊢
  rwa [hu.claimed, hu.scan]

theorem pending_xack {s : Streams.Stream Fields String} {id acked : Nat} :
    (s.xack acked).Pending id ↔ s.Pending id ∧ id ≠ acked := by
  unfold Streams.Stream.xack Streams.Stream.withGroup Streams.Stream.Pending
  cases hg : s.group with
  | none => simp [hg]
  | some gr => simp; grind

theorem live_xack {s : Streams.Stream Fields String} {id acked : Nat} :
    (s.xack acked).live id = s.live id := by
  unfold Streams.Stream.xack Streams.Stream.withGroup
  split <;> rfl

theorem Accounted.acked {e : StatusEntry} (h : Accounted S cfg.minIdle (e :: rest) g) :
    Accounted S cfg.minIdle rest { g with stream := g.stream.xack e.id } where
  live id hid := live_xack.trans (h.live id hid)
  cases id hid := by
    rw [pending_xack]
    obtain ⟨hc, hp, hs⟩ | ⟨hc, hp⟩ := h.cases id hid
    · refine .inl ⟨hc, ⟨hp, ?_⟩, hs⟩
      rintro rfl
      exact hc (h.rest e List.mem_cons_self)
    · refine .inr ⟨hc, fun ⟨hp', hne⟩ => ?_⟩
      obtain ⟨e', he', rfl⟩ := hp hp'
      exact ⟨e', List.mem_of_ne_of_mem (by rintro rfl; exact hne rfl) he', rfl⟩
  rest e' he' := h.rest e' (List.mem_cons_of_mem _ he')

/-- A round claims what it comes to. -/
theorem Accounted.claim {count cursor : Nat} {consumer : String} {batch : Batch Fields count}
    {s : Streams.Stream Fields String} (h : Accounted S cfg.minIdle [] g)
    (hx : g.stream.xautoclaim consumer (g.stale cfg.minIdle) 0 count = (.ok (cursor, batch), s)) :
    Accounted S cfg.minIdle (batch.entries.map fun e => ⟨e.1, e.2⟩)
        (g.afterClaim cfg.minIdle batch s) ∧
      Exact S count (g.afterClaim cfg.minIdle batch s) := by
  have hlive : s.live = g.stream.live := (Streams.Stream.xautoclaim_cases hx).2.2
  have hclaimed {id : Nat} (hid : S id) : id ∈ (g.afterClaim cfg.minIdle batch s).claimed ↔
      (g.stream.Pending id → Streams.Stream.Reached (Streams.Stream.counts g.stream.live
        (g.stale cfg.minIdle)) (10 * count) count g.stream.pendingList id) := by
    have hl := h.live id hid
    refine List.mem_append.trans ?_
    rw [Streams.Stream.mem_xautoclaim hx]
    obtain ⟨hc, hp, hs⟩ | ⟨hc, hp⟩ := h.cases id hid
    · simp [hc, hp, hs, hl]
    · have hp : ¬ g.stream.Pending id := fun h => by simpa using hp h
      simp [hc, hp]
  refine ⟨⟨fun id hid => ?_, fun id hid => ?_, fun e he => ?_⟩, ?_⟩
  · exact (congrFun hlive id).trans (h.live id hid)
  · have hpending : s.Pending id ↔ g.stream.Pending id :=
      Streams.Stream.pending_xautoclaim hx (h.live id hid)
    change _ ∧ s.Pending id ∧ _ ∨ _ ∧ (s.Pending id → _)
    rw [hpending]
    by_cases hnew : id ∈ batch.entries.map Prod.fst
    · obtain ⟨e, he, rfl⟩ := List.mem_map.1 hnew
      exact .inr ⟨List.mem_append_left _ hnew, fun _ => ⟨_, List.mem_map_of_mem he, rfl⟩⟩
    · obtain ⟨hc, hp, hs⟩ | ⟨hc, hp⟩ := h.cases id hid
      · refine .inl ⟨by simpa [RecoveryWorld.afterClaim, hc] using hnew, hp, ?_⟩
        simpa [Backlog.stale, RecoveryWorld.afterClaim, hnew] using hs
      · exact .inr ⟨List.mem_append_right _ hc, fun h => by simpa using hp h⟩
  · obtain ⟨e, hbatch, rfl⟩ := List.mem_map.1 he
    exact List.mem_append_left _ (List.mem_map_of_mem hbatch)
  · refine forall₂_congr fun id hid => ?_
    rw [hclaimed hid, Streams.Stream.pending_iff]
    rfl

/-! ### The pass -/

section Ends

variable {α : Type} {Q : α → RecoveryWorld → Prop}

/-- A command, and what follows. -/
theorem recovery_call {c : StatusCmd} {k : StatusSig.Reply c → StatusProg α}
    (h : ∀ r g₁, RecoveryExec c g r g₁ → ∀ g₂, Undisturbed S g₁ g₂ →
      Prog.Ends (recoveryContract S) Q (k r) g₂) :
    Prog.Ends (recoveryContract S) Q (.call c k) g :=
  .call trivial h

/-- What this worker and the others preserve, whatever they do besides. -/
def Keeps (S : Nat → Prop) (P : RecoveryWorld → Prop) : Prop :=
  ∀ g g', P g → Undisturbed S g g' → P g'

variable {P : RecoveryWorld → Prop} {fields : Fields}

/-- The store being healthy, an entry is finished the first time. -/
theorem handle_ends (hP : Keeps S P) (h : P g) :
    Prog.Ends (recoveryContract S) (fun finished g' => finished = true ∧ P g')
      ((handler maxAttempts).handle fields) g := by
  rw [Handler.handle_eq]
  cases Handler.eventOf fields with
  | none => exact .ret ⟨rfl, h⟩
  | some ev =>
    cases hs : ev.status with
    | indexed =>
      simp only [hs]
      refine recovery_call ?_
      rintro _ _ ⟨⟩ g₁ hu
      refine recovery_call ?_
      rintro _ _ ⟨⟩ g₂ hu'
      exact .ret ⟨rfl, hP _ _ (hP _ _ h hu) hu'⟩
    | failed =>
      simp only [hs]
      refine recovery_call ?_
      rintro _ _ ⟨⟩ g₁ hu
      refine recovery_call ?_
      rintro _ _ ⟨⟩ g₂ hu'
      exact .ret ⟨rfl, hP _ _ (hP _ _ h hu) hu'⟩

/-- In the middle of a round. -/
def Round (S : Nat → Prop) (cfg : StatusConfig) (rest : List StatusEntry) (g : RecoveryWorld) :
    Prop :=
  Accounted S cfg.minIdle rest g ∧ Exact S cfg.batchSize g

theorem keeps_round : Keeps S (Round S cfg rest) :=
  fun _ _ h hu => ⟨h.1.undisturbed hu, h.2.undisturbed hu⟩

theorem Round.acked {e : StatusEntry} (h : Round S cfg (e :: rest) g) :
    Round S cfg rest { g with stream := g.stream.xack e.id } := ⟨h.1.acked, h.2⟩

theorem process_acks {e : StatusEntry} (h : Round S cfg (e :: rest) g) :
    Prog.Ends (recoveryContract S) (fun _ g' => Round S cfg rest g')
      (process cfg maxAttempts e) g := by
  refine Prog.ends_iterate (n := 0) (fun _ _ => Round S cfg (e :: rest)) h fun _ _ g h => ?_
  refine Prog.ends_bind (Prog.ends_mono (handle_ends keeps_round h) ?_)
  rintro _ g ⟨rfl, h⟩
  refine recovery_call ?_
  rintro _ _ ⟨⟩ g' hu
  exact .ret (keeps_round _ _ h.acked hu)

theorem takeOver_ends (h : Round S cfg rest g) :
    Prog.Ends (recoveryContract S) (fun finished g' => Exact S cfg.batchSize g' ∧
      (finished = true → Accounted S cfg.minIdle [] g')) (takeOver cfg maxAttempts rest) g := by
  induction rest generalizing g with
  | nil => exact .ret ⟨h.2, fun _ => h.1⟩
  | cons e rest ih =>
    refine recovery_call ?_
    rintro cancelled _ ⟨⟩ g₁ hu
    have h := keeps_round _ _ h hu
    cases cancelled with
    | true => exact .ret ⟨h.2, nofun⟩
    | false =>
      refine recovery_call ?_
      rintro _ _ ⟨-⟩ g₂ hu
      have h := keeps_round _ _ h hu
      refine Prog.ends_ite (fun _ => ?_) fun _ => ?_
      · -- poison: logged and acknowledged
        refine recovery_call ?_
        rintro _ _ ⟨⟩ g₃ hu
        have h := keeps_round _ _ h hu
        refine recovery_call ?_
        rintro _ _ ⟨⟩ g₄ hu
        exact ih (keeps_round _ _ h.acked hu)
      · exact Prog.ends_bind (Prog.ends_mono (process_acks h) fun _ _ h => ih h)

theorem claimAndProcess_ends {id : String} {n : Nat} (h : Accounted S cfg.minIdle [] g)
    (hn : n = 0 → Exact S cfg.batchSize g) :
    Prog.Ends (recoveryContract S) (fun r g' => r = .ok () ∧ Exact S cfg.batchSize g')
      (claimAndProcess cfg maxAttempts id n) g := by
  induction n generalizing g with
  | zero => exact .ret ⟨rfl, hn rfl⟩
  | succ n ih =>
    refine recovery_call ?_
    rintro _ _ (_ | ⟨hx⟩) g₁ hu
    have hround : Round S cfg _ g₁ := keeps_round _ _ (h.claim hx) hu
    change Prog.Ends _ _ ((takeOver cfg maxAttempts _).bind _) g₁
    refine Prog.ends_bind (Prog.ends_mono (takeOver_ends hround) ?_)
    rintro finished g₂ ⟨hexact, hacc⟩
    cases finished with
    | false => exact .ret ⟨rfl, hexact⟩
    | true =>
      refine Prog.ends_ite (fun _ => .ret ⟨rfl, hexact⟩) fun _ => ?_
      exact Prog.ends_ite (fun _ => .ret ⟨rfl, hexact⟩) fun _ => ih (hacc rfl) fun _ => hexact

end Ends

/-- Whatever else happens to the stream, a pass that ends before its last round has claimed every
entry that was overdue when it began, if and only if its last claim came to those that were left. -/
theorem claimAndProcess_complete_iff (cfg : StatusConfig) (maxAttempts : Int) (id : String)
    (b : Backlog) :
    Prog.Ends (recoveryContract (b.Overdue cfg.minIdle)) (fun r g => r = .ok () ∧
      (g.rounds < maxRecoveryRounds →
        (Complete (b.Overdue cfg.minIdle) g ↔ Covered (b.Overdue cfg.minIdle) cfg.batchSize g)))
      (claimAndProcess cfg maxAttempts id maxRecoveryRounds) (.start b) := by
  have h : Accounted (b.Overdue cfg.minIdle) cfg.minIdle [] (.start b) :=
    ⟨fun _ h => h.2.1, fun _ h => .inl ⟨List.not_mem_nil, h.1, decide_eq_true h.2.2.le⟩, nofun⟩
  refine Prog.ends_mono (claimAndProcess_ends h nofun) ?_
  exact fun _ _ ⟨hr, hexact⟩ => ⟨hr, fun _ => hexact⟩

/-! ### A crowd of fresh entries -/

/-- Entry 101 was delivered long ago, and the hundred before it just now. -/
def crowd : Backlog where
  clock := 61
  stream := ⟨List.replicate 101 ⟨none, none⟩, 0,
    some ⟨101, (List.range' 1 101).map fun i => ⟨i, "gone", 1⟩, ["gone"]⟩⟩
  deliveredAt id := if id = 101 then 0 else 61

/-- A batch of 10, and entries are stale after 60. -/
def crowdConfig : StatusConfig where
  minIdle := 60
  recoveryInterval := 30
  poisonThreshold := 5
  cleanupIdle := 600
  readBlock := 2
  batchSize := 10
  retryDelay := 1

theorem overdue_crowd : crowd.Overdue 60 101 := by
  refine ⟨⟨_, rfl, ⟨101, "gone", 1⟩, ?_, rfl⟩, by decide +kernel, by decide⟩
  exact List.mem_map.2 ⟨101, by decide +kernel, rfl⟩

/-- A pass claims nothing of them. -/
theorem sweep_crowd : (Streams.Stream.sweep crowd.stream.live (crowd.stale 60) "w" 100 10
    crowd.stream.pendingList).claimed = [] := by
  decide +kernel

/-- The pass ends after one round, and the entry behind the crowd stays where it is. -/
theorem claimAndProcess_incomplete :
    ¬ Prog.Ends (recoveryContract (crowd.Overdue crowdConfig.minIdle)) (fun r g => r = .ok () →
        g.rounds < maxRecoveryRounds → Complete (crowd.Overdue crowdConfig.minIdle) g)
      (claimAndProcess crowdConfig 3 "w" maxRecoveryRounds) (.start crowd) := by
  intro h
  obtain ⟨cursor, batch, s, hx⟩ : ∃ cursor batch s,
      crowd.stream.xautoclaim "w" (crowd.stale 60) 0 10 = (.ok (cursor, batch), s) :=
    ⟨_, _, _, rfl⟩
  have hnone : batch.entries = [] := by
    rw [(Streams.Stream.xautoclaim_cases hx).1, sweep_crowd]
    rfl
  cases h with
  | call _ h =>
    have h : Prog.Ends _ _ ((takeOver crowdConfig 3 (batch.entries.map _)).bind _) _ :=
      h _ _ (.claim hx) _ (.refl _)
    rw [hnone] at h
    have h : Prog.Ends _ _ (.ret (.ok ()) : StatusProg (Except RedisError Unit)) _ := h
    cases h with
    | ret h =>
      have h : 101 ∈ batch.entries.map Prod.fst ++ [] :=
        h rfl (show 1 < 10 by decide) 101 overdue_crowd
      simp [hnone] at h

end Pass

end Center
