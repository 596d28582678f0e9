import RagPipeline.Center.Attempts
import RagPipeline.Center.RetrySystem
import Mathlib.Data.List.Count

/-!
# Retries are bounded

The retries of a row cover its claims, whoever made them. A worker publishes only for the claim it
made last, and a document queues a row for each attempt. So over a whole run a hash is published at
most as often as it has attempts, times the tries of a row.

## Main definitions

* `RetryInv`: the rows account for the claims in the log.
* `unspent`: the claims that are the last thing their worker did.

## Main results

* `publications_le`: there is no more than one publish for each claim.
* `retries_bounded`: the bounds hold in every run.
-/
namespace Center

open Events Interact Relational

/-! ### Logs -/

/-- If each of some elements comes under one of the keys, and no key has more than `n` of them,
there are at most `n` for each key. -/
theorem countP_le_length_mul {α κ : Type} {q : α → Bool} {r : κ → α → Bool} {n : Nat} {l : List α}
    {ks : List κ} (hcover : ∀ a ∈ l, q a → ∃ k ∈ ks, r k a) (hks : ∀ k ∈ ks, l.countP (r k) ≤ n) :
    l.countP q ≤ ks.length * n := by
  induction ks generalizing q with
  | nil =>
    have hnone : l.countP q = 0 := by
      refine List.countP_eq_zero.2 fun a ha hq => ?_
      obtain ⟨k, hk, -⟩ := hcover a ha hq
      cases hk
    omega
  | cons k ks ih =>
    have hrest : (l.filter fun a => !r k a).countP q ≤ ks.length * n := by
      rw [List.countP_filter]
      refine ih (fun a ha hq => ?_) fun k' hk' => hks k' (List.mem_cons_of_mem k hk')
      obtain ⟨hq, hr⟩ : q a ∧ r k a = false := by simpa using hq
      obtain ⟨k', hk', hr'⟩ := hcover a ha hq
      obtain rfl | hk' := List.mem_cons.1 hk'
      · rw [hr] at hr'
        cases hr'
      · exact ⟨k', hk', hr'⟩
    have hkey : (l.filter (r k)).countP q ≤ n := by
      rw [List.countP_filter]
      refine (List.countP_mono_left fun a _ h => ?_).trans (hks k List.mem_cons_self)
      exact (Bool.and_eq_true_iff.1 h).2
    have hsplit := List.countP_eq_countP_filter_add l q (r k)
    rw [List.length_cons, Nat.succ_mul]
    omega

section Log

variable {who j : Claimant} {db : Database} {c : StoreCmd} {r : Except StoreError c.Result}
  {hash : String} {new log : List Deed}

theorem who_of_claimDeeds {d : Deed} (h : d ∈ claimDeeds who db c r) : d.who = who := by
  simp only [claimDeeds, List.mem_append, Option.mem_toList, Option.map_eq_some_iff] at h
  obtain ⟨id, -, rfl⟩ | ⟨m, -, rfl⟩ := h <;> rfl

theorem not_published_of_claimDeeds {d : Deed} (h : d ∈ claimDeeds who db c r) :
    ∀ who' hash', d ≠ .published who' hash' := by
  simp only [claimDeeds, List.mem_append, Option.mem_toList, Option.map_eq_some_iff] at h
  obtain ⟨id, -, rfl⟩ | ⟨m, -, rfl⟩ := h <;> exact fun _ _ => nofun

theorem countP_claimsIntent (id : String) :
    (claimDeeds who db c r).countP (Deed.claimsIntent id) =
      if claimedIntent c r = some id then 1 else 0 := by
  unfold claimDeeds
  cases claimedIntent c r <;> cases (claimedRow c r).bind db.row? <;>
    simp [Deed.claimsIntent, List.countP_cons]

theorem countP_claimsRow (id : Nat) :
    (claimDeeds who db c r).countP (Deed.claimsRow id) ≤
      if claimedRow c r = some id then 1 else 0 := by
  have hrow : (claimDeeds who db c r).countP (Deed.claimsRow id) =
      (((claimedRow c r).bind db.row?).toList.countP fun m => m.id = id) := by
    unfold claimDeeds
    cases claimedIntent c r <;> cases (claimedRow c r).bind db.row? <;>
      simp [Deed.claimsRow, List.countP_cons]
  rw [hrow]
  cases hc : claimedRow c r with
  | none => simp
  | some k =>
    rw [Option.bind_some]
    cases hm : db.row? k with
    | none => simp
    | some m =>
      have hk : m.id = k := by simpa using List.find?_some hm
      simp [List.countP_cons, hk]

theorem last_append (h : ∀ d ∈ new, d.who ≠ j) : Deed.last (new ++ log) j = Deed.last log j := by
  have hnone : new.find? (fun d => d.who = j) = none := by simpa using h
  rw [Deed.last, List.find?_append, hnone]
  rfl

theorem OnePerClaim.append (h : OnePerClaim log)
    (hnew : ∀ d ∈ new, ∀ who hash, d ≠ .published who hash) : OnePerClaim (new ++ log) := by
  induction new with
  | nil => exact h
  | cons d new ih =>
    intro who hash before hsuffix
    obtain he | hsuffix := List.suffix_cons_iff.1 hsuffix
    · cases he
      exact absurd rfl (hnew _ List.mem_cons_self who hash)
    · exact ih (fun d hd => hnew d (List.mem_cons_of_mem _ hd)) who hash before hsuffix

theorem OnePerClaim.published (h : OnePerClaim log)
    (hlast : ∃ id, Deed.last log who = some (.tookRow who id hash)) :
    OnePerClaim (.published who hash :: log) := by
  intro who' hash' before hsuffix
  obtain he | hsuffix := List.suffix_cons_iff.1 hsuffix
  · cases he
    exact hlast
  · exact h who' hash' before hsuffix

def claimOf : Deed → Option (Claimant × String)
  | .tookRow who _ hash => some (who, hash)
  | _ => none

/-- The claims that are the last thing their worker did, by their hashes. -/
def unspent : List Deed → List (Claimant × String)
  | [] => []
  | d :: log => (claimOf d).toList ++ (unspent log).filter fun x => x.1 ≠ d.who

theorem mem_unspent {id : Nat} (h : Deed.last log who = some (.tookRow who id hash)) :
    (who, hash) ∈ unspent log := by
  induction log with
  | nil => cases h
  | cons d log ih =>
    rw [Deed.last, List.find?_cons] at h
    rw [unspent]
    split at h
    case h_1 =>
      cases h
      simp [claimOf]
    case h_2 hd =>
      have hne : who ≠ d.who := fun he => by simp [he] at hd
      simp [ih h, hne]

/-- A publish spends a claim. -/
theorem publications_le (h : OnePerClaim log) (hash : String) :
    log.countP (Deed.publishes hash) + (unspent log).countP (fun x => x.2 = hash) ≤
      log.countP (Deed.claimsFor hash) := by
  induction log with
  | nil => simp [unspent]
  | cons d log ih =>
    have ih := ih fun who hash before hs => h who hash before (hs.trans (List.suffix_cons d log))
    have hle : ((unspent log).filter fun x => x.1 ≠ d.who).countP (fun x => x.2 = hash) ≤
        (unspent log).countP fun x => x.2 = hash :=
      List.filter_sublist.countP_le
    have hlt (hd : d = .published d.who hash) :
        ((unspent log).filter fun x => x.1 ≠ d.who).countP (fun x => x.2 = hash) <
          (unspent log).countP fun x => x.2 = hash := by
      obtain ⟨id, hlast⟩ := h d.who hash log (hd ▸ List.suffix_refl _)
      have hspent : 0 < ((unspent log).filter fun x => !decide (x.1 ≠ d.who)).countP
          fun x => x.2 = hash :=
        List.countP_pos_iff.2 ⟨(d.who, hash), by simp [mem_unspent hlast], by simp⟩
      have hsplit := List.countP_eq_countP_filter_add (unspent log) (fun x => x.2 = hash)
        fun x => x.1 ≠ d.who
      omega
    rw [unspent, List.countP_append, List.countP_cons, List.countP_cons]
    generalize ((unspent log).filter fun x => x.1 ≠ d.who).countP (fun x => x.2 = hash) = kept at *
    cases d with
    | tookIntent who id =>
      simp [claimOf, Deed.publishes, Deed.claimsFor]
      omega
    | tookRow who id hash' =>
      simp [claimOf, Deed.publishes, Deed.claimsFor, List.countP_singleton]
      omega
    | published who hash' =>
      by_cases hh : hash' = hash
      · have := hlt (hh ▸ rfl)
        simp [claimOf, Deed.publishes, Deed.claimsFor, hh]
        omega
      · simp [claimOf, Deed.publishes, Deed.claimsFor, hh]
        omega

end Log

/-! ### The invariant -/

structure RetryInv (cfg : RetryConfig) (g : RetryWorld) : Prop where
  agree : Agree cfg.maxAttempts g.db
  intents : ∀ id, Tries.Covers cfg.pools.hashing (g.db.intentTries id)
    (g.log.countP (Deed.claimsIntent id))
  rows : ∀ id, Tries.Covers cfg.pools.outbox (g.db.rowTries id)
    (g.log.countP (Deed.claimsRow id))
  /-- Rows keep their hashes. -/
  took : ∀ who id hash, .tookRow who id hash ∈ g.log → (id, hash) ∈ idsAndHashes g.db
  onePerClaim : OnePerClaim g.log

theorem RetryInv.start (cfg : RetryConfig) : RetryInv cfg .start where
  agree := agree_start _
  intents _ := rfl
  rows _ := rfl
  took _ _ _ := nofun
  onePerClaim _ _ _ h := by cases List.eq_nil_of_suffix_nil h

section Bounds

variable {cfg : RetryConfig} {g : RetryWorld}

/-- Every publish is paid by a claim of one of the rows of the hash. -/
theorem RetryInv.publications (h : RetryInv cfg g) (hash : String) :
    g.log.countP (Deed.publishes hash) ≤ cfg.maxAttempts.val * cfg.outbox.maxRetries := by
  have hpos : 1 ≤ cfg.outbox.maxRetries := cfg.outbox_pos
  have hpaid := publications_le h.onePerClaim hash
  let ids := ((idsAndHashes g.db).filter fun r => r.2 = hash).map Prod.fst
  have hclaims : g.log.countP (Deed.claimsFor hash) ≤ ids.length * cfg.outbox.maxRetries.toNat := by
    refine countP_le_length_mul (r := Deed.claimsRow) (fun d hd hfor => ?_) fun id _ => ?_
    · cases d with
      | tookIntent | published => cases hfor
      | tookRow who id hash' =>
        obtain rfl : hash' = hash := of_decide_eq_true hfor
        refine ⟨id, List.mem_map.2 ⟨(id, hash'), ?_, rfl⟩, decide_eq_true rfl⟩
        exact List.mem_filter.2 ⟨h.took who id hash' hd, decide_eq_true rfl⟩
    · have hle : _ ≤ cfg.outbox.maxRetries := (h.rows id).le hpos
      omega
  have hrows : (ids.length : Int) ≤ cfg.maxAttempts.val := by
    have hlen : ids.length = rowsOf g.db.outbox hash := by
      rw [rowsOf_eq, List.length_map, List.countP_eq_length_filter]
    cases hd : g.db.documents.find? hash with
    | none =>
      have hmax := cfg.maxAttempts.pos
      rw [hlen, h.agree.none hd]
      omega
    | some d =>
      have hagree := h.agree.some hd
      omega
  calc (g.log.countP (Deed.publishes hash) : Int)
      ≤ g.log.countP (Deed.claimsFor hash) := by omega
    _ ≤ ids.length * cfg.outbox.maxRetries.toNat := by exact_mod_cast hclaims
    _ = ids.length * cfg.outbox.maxRetries := by rw [Int.toNat_of_nonneg (by omega)]
    _ ≤ cfg.maxAttempts.val * cfg.outbox.maxRetries :=
        Int.mul_le_mul_of_nonneg_right hrows (by omega)

theorem RetryInv.bounded (h : RetryInv cfg g) : RetriesBounded cfg g.log where
  intents id := (h.intents id).le cfg.hash.maxRetries_pos
  rows id := (h.rows id).le cfg.outbox_pos
  onePerClaim := h.onePerClaim
  publications := h.publications

end Bounds

/-! ### One step -/

/-- What a process can count on: rows stay, and only it writes of itself. -/
def RetryRely (j : Claimant) (g g' : RetryWorld) : Prop :=
  idsAndHashes g.db ⊆ idsAndHashes g'.db ∧ Deed.last g'.log j = Deed.last g.log j

/-- The settings of a call are those of the configuration. -/
def Configured (cfg : RetryConfig) (c : StoreCmd) : Prop :=
  c.InPools cfg.pools ∧ c.Within cfg.maxAttempts

section Step

variable {cfg : RetryConfig} {g g' : RetryWorld} {c : StoreCmd} {ch : RetryChoice}
  {who j : Claimant}

theorem RetryRely.refl (j : Claimant) (g : RetryWorld) : RetryRely j g g :=
  ⟨fun _ h => h, rfl⟩

theorem RetryRely.trans {g'' : RetryWorld} (h : RetryRely j g g') (h' : RetryRely j g' g'') :
    RetryRely j g g'' :=
  ⟨fun _ hr => h'.1 (h.1 hr), h'.2.trans h.2⟩

/-- A call is answered, or nothing is heard of it. -/
theorem RetryChoice.store_cases (ch : RetryChoice) (c : StoreCmd) (db : Database) :
    (ch.storeReply c db = (c.apply ch.faults db).1 ∧
      ch.storeAfter c db = (c.apply ch.faults db).2) ∨
    ch.storeReply c db = .error ch.error ∧
      (ch.storeAfter c db = db ∨ ch.storeAfter c db = (c.apply ch.faults db).2) := by
  unfold storeReply storeAfter
  cases ch.fate <;> simp

theorem RetryChoice.apply_of_ok {db : Database} {r : c.Result} (h : ch.storeReply c db = .ok r) :
    (c.apply ch.faults db).1 = .ok r := by
  obtain ⟨hr, -⟩ | ⟨hr, -⟩ := ch.store_cases c db
  · exact hr.symm.trans h
  · cases hr.symm.trans h

theorem claimedIntent_error (e : StoreError) : claimedIntent c (.error e) = none := by
  cases c <;> rfl

theorem claimedRow_error (e : StoreError) : claimedRow c (.error e) = none := by
  cases c <;> rfl

theorem agree_storeAfter (h : Agree cfg.maxAttempts g.db) (hc : Configured cfg c) :
    Agree cfg.maxAttempts (ch.storeAfter c g.db) ∧ Evolves g.db (ch.storeAfter c g.db) := by
  have he := StoreCmd.effect c ch.faults g.db
  obtain ⟨-, hdb⟩ | ⟨-, hdb | hdb⟩ := ch.store_cases c g.db <;> rw [hdb]
  · exact ⟨he.agree hc.2 h, he.evolves hc.2 h⟩
  · exact ⟨h, .refl _⟩
  · exact ⟨he.agree hc.2 h, he.evolves hc.2 h⟩

theorem covers_intent_storeAfter {id : String} {n : Nat}
    (h : Tries.Covers cfg.pools.hashing (g.db.intentTries id) n) (hc : Configured cfg c) :
    Tries.Covers cfg.pools.hashing ((ch.storeAfter c g.db).intentTries id)
      (n + if claimedIntent c (ch.storeReply c g.db) = some id then 1 else 0) := by
  obtain ⟨hr, hdb⟩ | ⟨hr, hdb | hdb⟩ := ch.store_cases c g.db <;> rw [hr, hdb]
  · exact covers_intent h hc.1
  · simpa [claimedIntent_error] using h
  · simpa [claimedIntent_error] using (covers_intent h hc.1).mono (Nat.le_add_right n _)

theorem covers_row_storeAfter {id n : Nat}
    (h : Tries.Covers cfg.pools.outbox (g.db.rowTries id) n) (hc : Configured cfg c) :
    Tries.Covers cfg.pools.outbox ((ch.storeAfter c g.db).rowTries id)
      (n + if claimedRow c (ch.storeReply c g.db) = some id then 1 else 0) := by
  obtain ⟨hr, hdb⟩ | ⟨hr, hdb | hdb⟩ := ch.store_cases c g.db <;> rw [hr, hdb]
  · exact covers_row h hc.1
  · simpa [claimedRow_error] using h
  · simpa [claimedRow_error] using (covers_row h hc.1).mono (Nat.le_add_right n _)

theorem subset_of_evolves {db db' : Database} (h : Evolves db db') :
    idsAndHashes db ⊆ idsAndHashes db' :=
  h.outbox.subset

theorem mem_claimDeeds_row {db : Database} {r : Except StoreError c.Result} {who' : Claimant}
    {id : Nat} {hash : String} (h : .tookRow who' id hash ∈ claimDeeds who db c r) :
    (id, hash) ∈ idsAndHashes db := by
  simp only [claimDeeds, List.mem_append, Option.mem_toList, Option.map_eq_some_iff,
    Option.bind_eq_some_iff] at h
  obtain ⟨id', -, he⟩ | ⟨m, ⟨k, -, hm⟩, he⟩ := h
  · cases he
  · cases he
    exact List.mem_map_of_mem (f := fun m : OutboxMessage => (m.id, m.hash))
      (List.mem_of_find?_eq_some hm)

/-- A store call of somebody: the rows account for the claim it makes. -/
theorem RetryInv.store (h : RetryInv cfg g) (hc : Configured cfg c) (who : Claimant) :
    RetryInv cfg (g.afterStore ch who c) ∧
      ∀ j, j ≠ who → RetryRely j g (g.afterStore ch who c) := by
  obtain ⟨hagree, hevolves⟩ : Agree cfg.maxAttempts (ch.storeAfter c g.db) ∧
      Evolves g.db (ch.storeAfter c g.db) :=
    agree_storeAfter h.agree hc
  have hrows := subset_of_evolves hevolves
  refine ⟨⟨hagree, fun id => ?_, fun id => ?_, fun who' id hash hmem => ?_, ?_⟩,
    fun j hj => ⟨hrows, ?_⟩⟩
  · rw [RetryWorld.afterStore, List.countP_append, countP_claimsIntent, Nat.add_comm]
    exact covers_intent_storeAfter (h.intents id) hc
  · rw [RetryWorld.afterStore, List.countP_append, Nat.add_comm]
    exact (covers_row_storeAfter (h.rows id) hc).mono
      (Nat.add_le_add_left (countP_claimsRow id) _)
  · obtain hmem | hmem := List.mem_append.1 hmem
    · exact hrows (mem_claimDeeds_row hmem)
    · exact hrows (h.took who' id hash hmem)
  · exact h.onePerClaim.append fun d hd => not_published_of_claimDeeds hd
  · exact last_append fun d hd => who_of_claimDeeds hd ▸ hj.symm

/-- A publish for the claim that was made last. -/
theorem RetryInv.published (h : RetryInv cfg g) {hash : String}
    (hlast : ∃ id, Deed.last g.log who = some (.tookRow who id hash)) :
    RetryInv cfg { g with log := .published who hash :: g.log } ∧
      ∀ j, j ≠ who → RetryRely j g { g with log := .published who hash :: g.log } := by
  refine ⟨⟨h.agree, fun id => ?_, fun id => ?_, fun who' id hash' hmem => ?_,
    h.onePerClaim.published hlast⟩, fun j hj => ⟨fun _ hr => hr, ?_⟩⟩
  · simpa [Deed.claimsIntent] using h.intents id
  · simpa [Deed.claimsRow] using h.rows id
  · obtain he | hmem := List.mem_cons.1 hmem
    · cases he
    · exact h.took who' id hash' hmem
  · have hwho : ∀ d ∈ [Deed.published who hash], d.who ≠ j := fun d hd =>
      List.mem_singleton.1 hd ▸ hj.symm
    exact last_append hwho

theorem RetryEvent.configured (e : RetryEvent) : Configured cfg (e.cmd cfg) := by
  cases e with
  | createIntent now id fileName => exact ⟨⟨now, id, fileName, rfl⟩, trivial⟩
  | applyFailed => exact ⟨trivial, rfl⟩
  | updateIntentToUploaded | updateIntentToExpired | applyIndexed => exact ⟨trivial, trivial⟩

end Step

/-! ### The outbox worker -/

def outboxGuard (cfg : RetryConfig) : OutboxCmd → Prop
  | .store c => Configured cfg c
  | _ => True

def workerContract (cfg : RetryConfig) (id : String) : Contract NotedOutboxSig RetryWorld where
  inv := RetryInv cfg
  rely := RetryRely (.outboxWorker id)
  guard
    | .inl c => fun _ => outboxGuard cfg c
    | .inr event => fun g => ∃ row, Deed.last g.log (.outboxWorker id) =
        some (.tookRow (.outboxWorker id) row event.hash)
  exec c g r g' := ∃ ch, True ∧ Claimant.respond (.outboxWorker id) c ch g = (r, g')

/-- Commands that claim nothing. -/
def Unclaiming : OutboxCmd → Prop
  | .store c => ∀ r, claimedIntent c r = none ∧ claimedRow c r = none
  | _ => True

/-- The messages are copies of rows. -/
def Fetched (messages : List OutboxMessage) (g : RetryWorld) : Prop :=
  ∀ msg ∈ messages, (msg.id, msg.hash) ∈ idsAndHashes g.db

theorem Fetched.mono {messages : List OutboxMessage} {g g' : RetryWorld} (h : Fetched messages g)
    (hsub : idsAndHashes g.db ⊆ idsAndHashes g'.db) : Fetched messages g' :=
  fun msg hmsg => hsub (h msg hmsg)

/-- The last thing the worker did is a claim of a row of this hash. -/
def LastTook (id hash : String) (g : RetryWorld) : Prop :=
  ∃ row, Deed.last g.log (.outboxWorker id) = some (.tookRow (.outboxWorker id) row hash)

namespace NotedOutboxWorker

open Prog

variable {cfg : RetryConfig} {id hash : String} {g g' : RetryWorld} {α : Type}

theorem outboxAfter_unclaiming {c : OutboxCmd} {ch : RetryChoice} (h : RetryInv cfg g)
    (hc : outboxGuard cfg c) (hquiet : Unclaiming c) :
    RetryRely (.outboxWorker id) g (g.outboxAfter ch (.outboxWorker id) c) := by
  cases c with
  | store c =>
    refine ⟨subset_of_evolves (agree_storeAfter h.agree hc).2, ?_⟩
    obtain ⟨hintent, hrow⟩ := hquiet (ch.storeReply c g.db)
    simp [RetryWorld.outboxAfter, RetryWorld.afterStore, claimDeeds, hintent, hrow]
  | xadd | now | uuid | cancelled | tick | done => exact .refl _ g

/-- A row that was claimed has the hash it was fetched with. -/
theorem lastTook_of_claimed {now : Time} {row : Nat} {ch : RetryChoice}
    (hrow : (row, hash) ∈ idsAndHashes g.db)
    (hr : ch.storeReply (.claimOutboxMessage now id row) g.db = .ok true) :
    LastTook id hash (g.afterStore ch (.outboxWorker id) (.claimOutboxMessage now id row)) := by
  obtain ⟨m, hm, he⟩ := List.mem_map.1 hrow
  cases he
  refine ⟨m.id, ?_⟩
  have hclaim : claimDeeds (.outboxWorker id) g.db (.claimOutboxMessage now id m.id) (.ok true) =
      [.tookRow (.outboxWorker id) m.id m.hash] := by
    simp [claimDeeds, claimedIntent, claimedRow, tookRow, row?_of_mem hm]
  rw [RetryWorld.afterStore, hr, hclaim]
  simp [Deed.last, Deed.who]

/-- No command of the worker takes a row away. -/
theorem rows_of_exec {c : NotedOutboxSig.Cmd} {r : NotedOutboxSig.Reply c} (h : RetryInv cfg g)
    (hc : (workerContract cfg id).guard c g) (hx : (workerContract cfg id).exec c g r g') :
    idsAndHashes g.db ⊆ idsAndHashes g'.db := by
  obtain ⟨ch, -, he⟩ := hx
  cases c with
  | inr event =>
    cases he
    exact fun _ hr => hr
  | inl c =>
    cases he
    cases c with
    | store c => exact subset_of_evolves (agree_storeAfter h.agree hc).2
    | xadd | now | uuid | cancelled | tick | done => exact fun _ hr => hr

theorem wp_ask_bind {c : OutboxCmd} {f : OutboxSig.Reply c → Prog NotedOutboxSig α}
    {Q : α → RetryWorld → Prop} (hc : outboxGuard cfg c) (hquiet : Unclaiming c)
    (h : ∀ ch g', RetryRely (.outboxWorker id) g g' →
      wp (workerContract cfg id) (f (g.outboxReply ch c)) Q g') :
    wp (workerContract cfg id) ((ask c).bind f) Q g := by
  refine fun hinv => ⟨hc, ?_⟩
  rintro r g₁ ⟨ch, -, he⟩ - g₂ hr
  cases he
  exact h ch g₂ ((outboxAfter_unclaiming hinv hc hquiet).trans hr)

theorem wp_claim_bind {now : Time} {row : Nat} {f : Except StoreError Bool → Prog NotedOutboxSig α}
    {Q : α → RetryWorld → Prop} (hrow : (row, hash) ∈ idsAndHashes g.db)
    (h : ∀ r g', (r = .ok true → LastTook id hash g') →
      idsAndHashes g.db ⊆ idsAndHashes g'.db → wp (workerContract cfg id) (f r) Q g') :
    wp (workerContract cfg id)
      ((ask (.store (.claimOutboxMessage now id row))).bind f) Q g := by
  have hc : outboxGuard cfg (.store (.claimOutboxMessage now id row)) := ⟨trivial, trivial⟩
  refine fun hinv => ⟨hc, ?_⟩
  rintro r g₁ ⟨ch, -, he⟩ - g₂ hr
  cases he
  refine h _ g₂ (fun hok => ?_) fun x hx => hr.1 ?_
  · obtain ⟨row', hlast⟩ := lastTook_of_claimed hrow hok
    exact ⟨row', hr.2.trans hlast⟩
  · exact subset_of_evolves (agree_storeAfter hinv.agree hc).2 hx

theorem wp_lifted_free {p : OutboxProg α} (hp : Issues (outboxGuard cfg) p) :
    wp (workerContract cfg id) (p.lift StreamIngestionEvent) (fun _ _ => True) g :=
  wp_lift (wp_of_issues hp fun _ _ hc _ => hc)

theorem issues_releaseClaim {msgID : Nat} :
    Issues (outboxGuard cfg) (OutboxWorker.releaseClaim cfg.outbox id msgID) :=
  ⟨⟨rfl, trivial⟩, fun _ => trivial⟩

theorem issues_markBlocked {msgID : Nat} :
    Issues (outboxGuard cfg) (OutboxWorker.markBlocked id msgID) :=
  ⟨⟨trivial, trivial⟩, fun _ => trivial⟩

theorem issues_publishIngestionEvent {event : StreamIngestionEvent} :
    Issues (outboxGuard cfg) (OutboxWorker.publishIngestionEvent event) := by
  unfold OutboxWorker.publishIngestionEvent
  cases event.toEntry with
  | none => trivial
  | some fields => exact ⟨trivial, fun _ => trivial⟩

theorem issues_sweeper :
    Issues (outboxGuard cfg) (OutboxSweeper.run cfg.outbox) := by
  refine ⟨fun _ => ⟨trivial, fun (ticked : Bool) => ?_⟩, fun _ => trivial⟩
  cases ticked with
  | false => trivial
  | true => exact ⟨trivial, fun _ => ⟨⟨rfl, trivial⟩, fun _ => trivial⟩⟩

theorem wp_publishMessage {document : Document} (h : LastTook id document.hash g) :
    wp (workerContract cfg id) (publishMessage cfg.outbox document) (fun _ _ => True) g := by
  refine wp_ask_bind trivial trivial fun ch g₁ hr₁ => ?_
  refine wp_ask_bind trivial trivial fun ch' g₂ hr₂ => ?_
  have hlast : LastTook id document.hash g₂ := by
    obtain ⟨row, hrow⟩ := h
    exact ⟨row, (hr₁.trans hr₂).2.trans hrow⟩
  exact fun _ => ⟨hlast, fun _ _ _ _ _ _ => wp_lifted_free issues_publishIngestionEvent⟩

theorem wp_processMessage {msg : OutboxMessage} (h : LastTook id msg.hash g) :
    wp (workerContract cfg id) (processMessage cfg.outbox id msg) (fun _ _ => True) g := by
  refine wp_ask_bind ⟨trivial, trivial⟩ (fun _ => ⟨rfl, rfl⟩) fun ch g₁ hr => ?_
  generalize hfound : g.outboxReply ch (.store (.getDocumentByHash msg.hash)) = found
  change Except StoreError (Option Document) at found
  match found with
  | .error _ => exact wp_lifted_free issues_releaseClaim
  | .ok none => exact wp_lifted_free issues_markBlocked
  | .ok (some document) =>
    have hd := DocumentStore.getDocumentByHash_ok (RetryChoice.apply_of_ok hfound)
    have hhash : document.hash = msg.hash := Table.key_of_find? hd
    obtain ⟨row, hrow⟩ := h
    have hlast : LastTook id document.hash g₁ := ⟨row, hhash ▸ hr.2.trans hrow⟩
    refine wp_bind (wp_mono _ (wp_publishMessage hlast) fun (published : Bool) g₂ _ _ => ?_)
    refine wp_ite (fun _ => wp_lifted_free issues_releaseClaim) fun _ => ?_
    refine wp_ite (fun _ => ?_) fun _ => ?_
    · exact fun _ => ⟨trivial, fun _ _ _ _ _ _ => wp_ret trivial⟩
    · exact fun _ => ⟨⟨trivial, trivial⟩, fun _ _ _ _ _ _ => wp_ret trivial⟩

/-- What was fetched is still there after a message has been processed. -/
theorem wp_fetched {p : Prog NotedOutboxSig α} {Q : α → RetryWorld → Prop}
    {messages : List OutboxMessage} (h : wp (workerContract cfg id) p Q g)
    (hf : Fetched messages g) :
    wp (workerContract cfg id) p (fun a g => Q a g ∧ Fetched messages g) g :=
  wp_preserves (fun _ _ _ _ _ hf hi hc hx _ hr => (hf.mono (rows_of_exec hi hc hx)).mono hr.1) h hf

theorem wp_passOver {messages : List OutboxMessage} (h : Fetched messages g) :
    wp (workerContract cfg id) (passOver cfg.outbox id messages) (fun _ _ => True) g := by
  induction messages generalizing g with
  | nil => exact wp_ret trivial
  | cons msg rest ih =>
    have hrest : Fetched rest g := fun m hm => h m (List.mem_cons_of_mem _ hm)
    refine wp_ask_bind trivial trivial fun ch g₁ hr₁ => ?_
    generalize g.outboxReply ch .cancelled = cancelled
    change Bool at cancelled
    refine wp_ite (fun _ => wp_ret trivial) fun _ => ?_
    refine wp_ask_bind trivial trivial fun ch₂ g₂ hr₂ => ?_
    have hsub : idsAndHashes g.db ⊆ idsAndHashes g₂.db := (hr₁.trans hr₂).1
    refine wp_claim_bind (hsub (h msg List.mem_cons_self)) fun r g₃ hclaim hsub₃ => ?_
    have hrest₃ : Fetched rest g₃ := (hrest.mono hsub).mono hsub₃
    match r with
    | .error _ => exact ih hrest₃
    | .ok false => exact ih hrest₃
    | .ok true =>
      have hprocess : wp (workerContract cfg id) (processMessage cfg.outbox id msg)
          (fun _ => Fetched rest) g₃ :=
        wp_mono _ (wp_fetched (wp_processMessage (hclaim rfl)) hrest₃) fun _ _ _ hf => hf.2
      exact wp_bind (wp_mono _ hprocess fun _ _ _ hf => ih hf)

theorem wp_pass : wp (workerContract cfg id) (pass cfg.outbox id) (fun _ _ => True) g := by
  refine wp_of_inv fun hinv => ?_
  refine wp_ask_bind ⟨trivial, trivial⟩ (fun _ => ⟨rfl, rfl⟩) fun ch g₁ hr => ?_
  generalize hfetched : g.outboxReply ch (.store (.fetchCandidates cfg.outbox.batchSize)) = fetched
  change Except StoreError (List OutboxMessage) at fetched
  cases fetched with
  | error _ => exact wp_ret trivial
  | ok messages =>
    refine wp_passOver fun msg hmsg => hr.1 ?_
    have hrow := OutboxStore.fetchCandidates_ok (RetryChoice.apply_of_ok hfetched) msg hmsg
    exact List.mem_map_of_mem (f := fun m : OutboxMessage => (m.id, m.hash)) hrow

theorem wp_run : wp (workerContract cfg id) (run cfg.outbox id) (fun _ _ => True) g := by
  refine wp_iterate (fun _ _ => True) trivial fun _ g _ => ?_
  refine wp_ask_bind trivial trivial fun ch g₁ _ => ?_
  generalize g.outboxReply ch .tick = ticked
  change Bool at ticked
  refine wp_ite (fun _ => ?_) fun _ => wp_ret trivial
  exact wp_seq wp_pass fun _ _ => wp_ret trivial

end NotedOutboxWorker

/-! ### All of them -/

section System

variable {cfg : RetryConfig} {g : RetryWorld} {ch : RetryChoice} {who : Claimant}

theorem configured_of_hashCommands {c : StoreCmd} (h : hashCommands cfg.hash (.store c)) :
    Configured cfg c := by
  cases c with
  | releaseIntentClaim | recoverStaleIntents => exact ⟨h, trivial⟩
  | updateIntentToHashing | getIntentsForHashing | markIntentFailed | startIngestion =>
    exact ⟨trivial, trivial⟩
  | _ => exact h.elim

theorem RetryInv.hash (h : RetryInv cfg g) {c : HashCmd} (hc : hashCommands cfg.hash c) :
    RetryInv cfg (g.hashAfter ch who c) ∧ ∀ j, j ≠ who → RetryRely j g (g.hashAfter ch who c) := by
  cases c with
  | store c => exact h.store (configured_of_hashCommands hc) who
  | blob | now | cancelled | tick | done => exact ⟨h, fun j _ => .refl j g⟩

theorem RetryInv.outbox (h : RetryInv cfg g) {c : OutboxCmd} (hc : outboxGuard cfg c) :
    RetryInv cfg (g.outboxAfter ch who c) ∧
      ∀ j, j ≠ who → RetryRely j g (g.outboxAfter ch who c) := by
  cases c with
  | store c => exact h.store hc who
  | xadd | now | uuid | cancelled | tick | done => exact ⟨h, fun j _ => .refl j g⟩

theorem RetryInv.env (h : RetryInv cfg g) (e : RetryEvent) (faults : List Bool) :
    RetryInv cfg { g with db := ((e.cmd cfg).apply faults g.db).2 } ∧
      ∀ j, RetryRely j g { g with db := ((e.cmd cfg).apply faults g.db).2 } := by
  have hc : Configured cfg (e.cmd cfg) := e.configured
  have he := StoreCmd.effect (e.cmd cfg) faults g.db
  have hrows := subset_of_evolves (he.evolves hc.2 h.agree)
  refine ⟨⟨he.agree hc.2 h.agree, fun id => ?_, fun id => ?_, fun who id hash hmem => ?_,
    h.onePerClaim⟩, fun j => ⟨hrows, rfl⟩⟩
  · exact (covers_intent (h.intents id) hc.1).mono (Nat.le_add_right _ _)
  · exact (covers_row (h.rows id) hc.1).mono (Nat.le_add_right _ _)
  · exact hrows (h.took who id hash hmem)

def retryGuard (cfg : RetryConfig) : (who : Claimant) → who.sig.Cmd → RetryWorld → Prop
  | .hash _, c, _ => hashCommands cfg.hash c
  | .outboxWorker id, c, g => (workerContract cfg id).guard c g
  | .outboxSweeper _, c, _ => outboxGuard cfg c

def retryCertificate (cfg : RetryConfig) : Actors.Certificate (retrySystem cfg) (.free _) where
  inv := RetryInv cfg
  rely := RetryRely
  guard := retryGuard cfg
  fresh _ _ := True
  rely_refl := RetryRely.refl
  rely_trans _ _ _ _ := RetryRely.trans
  fresh_rely _ _ _ _ _ _ := trivial
  enter_ok _ g hinv _ _ := ⟨hinv, fun j _ => .refl j g⟩
  call_ok who c ch g hinv hg _ := by
    cases who with
    | hash p => exact hinv.hash hg
    | outboxWorker id =>
      cases c with
      | inl c => exact hinv.outbox hg
      | inr event => exact hinv.published hg
    | outboxSweeper n => exact hinv.outbox hg
  leave_ok _ g hinv := ⟨hinv, fun j _ => .refl j g⟩
  env_ok e g hinv _ := hinv.env e.1 e.2
  main_ok who g _ _ _ g' _ := by
    cases who with
    | hash p => exact Prog.wp_of_issues p.issues_main fun _ _ hc _ => hc
    | outboxWorker id => exact NotedOutboxWorker.wp_run
    | outboxSweeper n => exact Prog.wp_of_issues NotedOutboxWorker.issues_sweeper fun _ _ hc _ => hc

/-- In every run an intent and an outbox row are claimed at most as often as they have tries, each
publish has a claim of its own, and a hash is published at most as often as it has attempts, times
the tries of a row. -/
theorem retries_bounded {conf : (retrySystem cfg).Config}
    (hreach : (retrySystem cfg).Reachable (.free _) .start conf) :
    RetriesBounded cfg conf.shared.log :=
  ((retryCertificate cfg).sound (RetryInv.start cfg) (fun _ => trivial) hreach).bounded

end System

/-! ### Two claims of one row -/

def sampleRetries : RetryConfig where
  hash := ⟨1, 3, threeAttempts.pos, 60, false⟩
  outbox := ⟨1, 3, 60, 1, false⟩
  outbox_pos := threeAttempts.pos
  maxAttempts := threeAttempts

def foundObject : (c : BlobCmd) → Option c.Reply
  | .statUpload _ | .statIngestion _ => some true
  | .getUpload _ => some [97]
  | .copyToIngestion .. | .removeUpload _ => some ()

/-- An upload is hashed; outbox worker `w` calls the producer and crashes, its claim is swept, and
worker `v` calls it again. -/
def publishedTwice : List (retrySystem sampleRetries).Step :=
  let answers (who : Claimant) (time : Time) (flags : List Bool) :
      List (retrySystem sampleRetries).Step :=
    flags.map fun flag =>
      .call who (⟨.ok, .lostClaim, [], foundObject, time, flag, "e"⟩ : RetryChoice)
  let begins (who : Claimant) : List (retrySystem sampleRetries).Step := [.start who, .unfold who]
  [.env (.createIntent 0 "i" "a.pdf", []), .env (.updateIntentToUploaded "i" 1, [])] ++
    begins (.hash (.worker "h")) ++ answers (.hash (.worker "h")) 2
      [true, true, false, true, true, true, true, true, true, true, true, true] ++
    begins (.outboxWorker "w") ++ answers (.outboxWorker "w") 3
      [true, true, false, true, true, true, true, true, true] ++
    [.crash (.outboxWorker "w")] ++
    begins (.outboxSweeper 0) ++ answers (.outboxSweeper 0) 100 [true, true, true] ++
    begins (.outboxWorker "v") ++ answers (.outboxWorker "v") 101
      [true, true, false, true, true, true, true, true, true]

theorem retries_bounded_publishedTwice : ∃ conf,
    (retrySystem sampleRetries).Reachable (.free _) .start conf ∧
    conf.shared.log.map Deed.who = [.outboxWorker "v", .outboxWorker "v", .outboxWorker "w",
      .outboxWorker "w", .hash (.worker "h")] ∧
    RetriesBounded sampleRetries conf.shared.log := by
  have hleaves : (retrySystem sampleRetries).leaves .start publishedTwice
      (fun g => g.log.map Deed.who) = some [.outboxWorker "v", .outboxWorker "v",
        .outboxWorker "w", .outboxWorker "w", .hash (.worker "h")] := by
    decide +kernel
  obtain ⟨conf, hreach, hlog⟩ :=
    Actors.Reachable.of_leaves (Actors.Rules.free_allowsAll _ _) hleaves
  exact ⟨conf, hreach, hlog, retries_bounded hreach⟩

end Center
