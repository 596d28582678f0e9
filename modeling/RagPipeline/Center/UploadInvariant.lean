import RagPipeline.Center.UploadSystem

/-!
# What uploads and hash workers keep

## Main definitions

* `UploadInv`, `UploadRely`, `uploadGuard`: what holds throughout, what a process may count on,
  and what it may call.
* `IntentChange`: an update of `upload_intent` that keeps the invariant.

## Main results

* `upload_call_ok`, `upload_env_ok`: every step keeps the invariant, and what the others count on.
-/
namespace Center

open Interact Relational Wire IntentStore

variable {cfg : HashConfig} {care : Care} {g g' : UploadWorld}

/-- Attempts are counted: an intent that is still tried has failed less than `maxRetries` times. -/
def Counted (cfg : HashConfig) (i : Intent) : Prop :=
  match i.status with
  | .waiting => i.retries = 0
  | .uploaded | .hashing => i.retries < cfg.maxRetries
  | _ => True

/-- A recorded document points to its own key, and there is an object under it. -/
def Recorded (g : UploadWorld) (d : Document) : Prop :=
  d.permBucketPath = ingestionObjectKey d.hash ∧ (g.buckets.ingestion d.permBucketPath).isSome

structure UploadInv (cfg : HashConfig) (care : Care) (g : UploadWorld) : Prop where
  paths : ∀ i ∈ g.db.intents.rows, i.tempBucketPath = some i.id
  counted : ∀ i ∈ g.db.intents.rows, Counted cfg i
  confirmed : ∀ id ∈ g.confirmed, ∃ i ∈ g.db.intents.rows, i.id = id ∧ i.status ≠ .waiting
  recorded : ∀ d ∈ g.db.documents.rows, Recorded g d
  kept : care = .retryable → ∀ i ∈ g.db.intents.rows, i.id ∈ g.confirmed → i.status = .failed →
    i.retries = cfg.maxRetries
  owed : care = .retryable → ∀ i ∈ g.db.intents.rows, Owed g i → (g.buckets.upload i.id).isSome
  addressed : care = .addressed → ∀ key data, g.buckets.ingestion key = some data →
    key = ingestionObjectKey (Sha256.hexSum data)
  read : care = .addressed → ∀ r ∈ g.reading, ∀ data, g.buckets.upload r.key = some data →
    Sha256.hexSum data = r.digest

/-- The worker has the claim on the intent. -/
def Held (g : UploadWorld) (intentID id : String) : Prop :=
  ∃ i ∈ g.db.intents.rows, Store.heldBy intentID id i

structure UploadRely (p : HashProcess) (g g' : UploadWorld) : Prop where
  seen : ∀ id, (p, id) ∈ g'.seen ↔ (p, id) ∈ g.seen
  reading : ∀ r, r.process = p → (r ∈ g'.reading ↔ r ∈ g.reading)
  held : ∀ id, p = .worker id → ∀ intentID, Held g' intentID id →
    Held g intentID id ∧ (intentID ∈ g'.confirmed → intentID ∈ g.confirmed)
  stored : ∀ key, (g.buckets.ingestion key).isSome → (g'.buckets.ingestion key).isSome

def uploadGuard (cfg : HashConfig) (care : Care) (p : HashProcess) (c : HashCmd)
    (g : UploadWorld) : Prop :=
  match c with
  | .store (.getIntentsForHashing _) => True
  | .store (.updateIntentToHashing _ id _) => p = .worker id
  | .store (.markIntentFailed intentID id) => p = .worker id ∧
      (care = .retryable → intentID ∈ g.confirmed → ¬ Held g intentID id)
  | .store (.releaseIntentClaim _ id maxRetries) => p = .worker id ∧ maxRetries = cfg.maxRetries
  | .store (.recoverStaleIntents _ maxRetries) => maxRetries = cfg.maxRetries
  | .store (.startIngestion _ document _ id) => p = .worker id ∧ Recorded g document
  | .store _ => False
  | .blob (.copyToIngestion source key) => care = .addressed →
      ∃ digest, ⟨p, source, digest⟩ ∈ g.reading ∧ key = ingestionObjectKey digest
  | _ => True

theorem UploadRely.refl {p : HashProcess} : UploadRely p g g :=
  ⟨fun _ => Iff.rfl, fun _ _ => Iff.rfl, fun _ _ _ h => ⟨h, id⟩, fun _ h => h⟩

theorem UploadRely.trans {p : HashProcess} {g'' : UploadWorld} (h₁ : UploadRely p g g')
    (h₂ : UploadRely p g' g'') : UploadRely p g g'' where
  seen id := (h₂.seen id).trans (h₁.seen id)
  reading r hr := (h₂.reading r hr).trans (h₁.reading r hr)
  held id hp intentID h := by
    obtain ⟨h', hc₂⟩ := h₂.held id hp intentID h
    obtain ⟨h, hc₁⟩ := h₁.held id hp intentID h'
    exact ⟨h, hc₁ ∘ hc₂⟩
  stored key h := h₂.stored key (h₁.stored key h)

/-- An update of `upload_intent` that hands nothing back without its object and counts every
attempt. -/
structure IntentChange (cfg : HashConfig) (care : Care) (g g' : UploadWorld) (p : Intent → Bool)
    (f : Intent → Intent) : Prop where
  buckets : g'.buckets = g.buckets
  reading : g'.reading = g.reading
  confirmed : ∀ id ∈ g'.confirmed, id ∈ g.confirmed ∨ ∃ i ∈ g.db.intents.rows, p i ∧ i.id = id
  key : ∀ i, (f i).id = i.id
  path : ∀ i, (f i).tempBucketPath = i.tempBucketPath
  waiting : ∀ i, (f i).status ≠ .waiting
  counted : ∀ i ∈ g.db.intents.rows, p i → Counted cfg i → Counted cfg (f i)
  kept : care = .retryable → ∀ i ∈ g.db.intents.rows, p i → i.id ∈ g'.confirmed →
    (f i).status = .failed → (f i).retries = cfg.maxRetries
  owed : care = .retryable → ∀ i ∈ g.db.intents.rows, p i → Owed g' (f i) →
    (g.buckets.upload i.id).isSome
  others : ∀ i ∈ g.db.intents.rows, ¬ p i → Owed g' i → Owed g i

namespace IntentChange

variable {p : Intent → Bool} {f : Intent → Intent} {hf : ∀ i, (f i).id = i.id}
  (x : IntentChange cfg care g g' p f) (hx : g'.db.intents = g.db.intents.update p f hf)

include hx in
theorem mem {i : Intent} (hi : i ∈ g'.db.intents.rows) :
    ∃ j ∈ g.db.intents.rows, (p j ∧ i = f j) ∨ (¬ p j ∧ i = j) := by
  rw [hx] at hi
  obtain ⟨j, hj, rfl⟩ := mem_rewrite.1 hi
  refine ⟨j, hj, ?_⟩
  split
  · exact .inl ⟨‹_›, rfl⟩
  · exact .inr ⟨‹_›, rfl⟩

include x

/-- A row that is not selected is as confirmed as it was. -/
theorem confirmed_of_not {i : Intent} (hi : i ∈ g.db.intents.rows) (hp : ¬ p i)
    (hc : i.id ∈ g'.confirmed) : i.id ∈ g.confirmed := by
  rcases x.confirmed _ hc with hc | ⟨j, hj, hpj, hid⟩
  · exact hc
  · exact absurd (Table.eq_of_key_eq hj hi hid ▸ hpj) hp

include hx

theorem inv (h : UploadInv cfg care g)
    (hd : ∀ d ∈ g'.db.documents.rows, d ∈ g.db.documents.rows ∨ Recorded g d) :
    UploadInv cfg care g' where
  paths i hi := by
    obtain ⟨j, hj, ⟨-, rfl⟩ | ⟨-, rfl⟩⟩ := mem hx hi
    · rw [x.path, x.key]
      exact h.paths j hj
    · exact h.paths i hj
  counted i hi := by
    obtain ⟨j, hj, ⟨hp, rfl⟩ | ⟨-, rfl⟩⟩ := mem hx hi
    · exact x.counted j hj hp (h.counted j hj)
    · exact h.counted i hj
  confirmed id hid := by
    have hrow : ∃ j ∈ g.db.intents.rows, j.id = id ∧ (p j ∨ j.status ≠ .waiting) := by
      rcases x.confirmed id hid with hid | ⟨j, hj, hp, rfl⟩
      · obtain ⟨j, hj, rfl, hw⟩ := h.confirmed id hid
        exact ⟨j, hj, rfl, .inr hw⟩
      · exact ⟨j, hj, rfl, .inl hp⟩
    obtain ⟨j, hj, rfl, hor⟩ := hrow
    rw [hx]
    refine ⟨_, mem_rewrite.2 ⟨j, hj, rfl⟩, ?_⟩
    split
    · exact ⟨x.key j, x.waiting j⟩
    · exact ⟨rfl, hor.resolve_left ‹_›⟩
  recorded d hd' := by
    have hr : Recorded g d := (hd d hd').elim (h.recorded d) id
    exact ⟨hr.1, x.buckets ▸ hr.2⟩
  kept hcare i hi hc hfailed := by
    obtain ⟨j, hj, ⟨hp, rfl⟩ | ⟨hp, rfl⟩⟩ := mem hx hi
    · rw [x.key] at hc
      exact x.kept hcare j hj hp hc hfailed
    · exact h.kept hcare i hj (x.confirmed_of_not hj hp hc) hfailed
  owed hcare i hi ho := by
    rw [x.buckets]
    obtain ⟨j, hj, ⟨hp, rfl⟩ | ⟨hp, rfl⟩⟩ := mem hx hi
    · rw [x.key]
      exact x.owed hcare j hj hp ho
    · exact h.owed hcare i hj (x.others i hj hp ho)
  addressed hcare := x.buckets ▸ h.addressed hcare
  read hcare := by
    rw [x.buckets, x.reading]
    exact h.read hcare

/-- No claim is given to the process. -/
theorem rely {q : HashProcess} (hseen : ∀ id, (q, id) ∈ g'.seen ↔ (q, id) ∈ g.seen)
    (hheld : ∀ id, q = .worker id → ∀ i, (f i).status = .hashing → (f i).claimedBy ≠ some id) :
    UploadRely q g g' where
  seen := hseen
  reading r _ := by rw [x.reading]
  held id hq intentID := by
    rintro ⟨i, hi, hh⟩
    obtain ⟨j, hj, ⟨hp, rfl⟩ | ⟨hp, rfl⟩⟩ := mem hx hi
    · simp only [Store.heldBy, decide_eq_true_eq] at hh
      exact absurd hh.2.2 (hheld id hq j hh.2.1)
    · refine ⟨⟨i, hj, hh⟩, fun hc => ?_⟩
      simp only [Store.heldBy, decide_eq_true_eq] at hh
      rw [← hh.1] at hc ⊢
      exact x.confirmed_of_not hj hp hc
  stored key h := x.buckets ▸ h

end IntentChange

/-- Nothing changed but what is known of the objects. -/
theorem UploadInv.congr (h : UploadInv cfg care g) (hdb : g'.db = g.db)
    (hb : g'.buckets = g.buckets) (hc : g'.confirmed = g.confirmed)
    (hr : ∀ r ∈ g'.reading, r ∈ g.reading ∨
      ∀ data, g.buckets.upload r.key = some data → Sha256.hexSum data = r.digest)
    (ho : ∀ i ∈ g.db.intents.rows, Owed g' i → Owed g i) : UploadInv cfg care g' where
  paths := hdb ▸ h.paths
  counted := hdb ▸ h.counted
  confirmed := by
    rw [hc, hdb]
    exact h.confirmed
  recorded d hd := by
    obtain ⟨hp, hs⟩ := h.recorded d (hdb ▸ hd)
    exact ⟨hp, hb ▸ hs⟩
  kept := by
    rw [hc, hdb]
    exact h.kept
  owed hcare i hi hi' := by
    rw [hdb] at hi
    rw [hb]
    exact h.owed hcare i hi (ho i hi hi')
  addressed := hb ▸ h.addressed
  read hcare r hmem := by
    rw [hb]
    exact (hr r hmem).elim (h.read hcare r) id

theorem UploadRely.congr {q : HashProcess} (hdb : g'.db = g.db) (hb : g'.buckets = g.buckets)
    (hc : g'.confirmed = g.confirmed) (hs : ∀ id, (q, id) ∈ g'.seen ↔ (q, id) ∈ g.seen)
    (hr : ∀ r, r.process = q → (r ∈ g'.reading ↔ r ∈ g.reading)) : UploadRely q g g' where
  seen := hs
  reading := hr
  held id _ intentID := by
    rw [Held, hdb, hc]
    exact fun h => ⟨h, fun h => h⟩
  stored key h := hb ▸ h

theorem owed_iff {i : Intent} : Owed g i ↔ i.id ∈ g.confirmed ∧
    (i.status = .uploaded ∨ i.status = .hashing ∧
      ∀ id, i.claimedBy = some id → (HashProcess.worker id, i.id) ∉ g.seen) := by
  simp only [Owed, decide_eq_true_eq, Option.all_eq_true]

theorem owed_congr {i : Intent} (h : Owed g' i) (hc : g'.confirmed = g.confirmed)
    (hs : g'.seen = g.seen) : Owed g i := by
  rw [owed_iff, hc, hs] at h
  exact owed_iff.2 h

/-- An update by one statement, whether it fails or not. -/
theorem IntentChange.update {p : Intent → Bool} {f : Intent → Intent}
    (x : IntentChange cfg care g g' p f) (h : UploadInv cfg care g) {hf : ∀ i, (f i).id = i.id}
    {e : StoreError} {faults : List Bool}
    (hdb : g'.db =
      ((Tx.autocommit e (Database.updateIntents p f hf) : Store Nat).run faults g.db).2)
    (hc : g'.confirmed = g.confirmed) (hs : ∀ i ∈ g.db.intents.rows, Owed g' i → Owed g i) :
    UploadInv cfg care g' ∧ ∀ q, (∀ id, (q, id) ∈ g'.seen ↔ (q, id) ∈ g.seen) →
      (∀ id, q = .worker id → ∀ i, (f i).status = .hashing → (f i).claimedBy ≠ some id) →
      UploadRely q g g' := by
  obtain ⟨_, hr⟩ | hr := run_updateIntents e p f hf faults g.db
  · rw [hr] at hdb
    exact ⟨h.congr hdb x.buckets hc (fun _ hr => .inl (x.reading ▸ hr)) hs,
      fun q hq _ => .congr hdb x.buckets hc hq fun _ _ => by rw [x.reading]⟩
  · rw [hr] at hdb
    have hi : g'.db.intents = g.db.intents.update p f hf := congrArg Database.intents hdb
    exact ⟨x.inv hi h fun d hd => .inl (by rwa [hdb] at hd), fun q hq hh => x.rely hi hq hh⟩

section Store

variable {p : HashProcess} {ch : HashChoice} {id intentID : String} {now : Time}

theorem heldBy_iff {i : Intent} :
    Store.heldBy intentID id i ↔ i.id = intentID ∧ i.status = .hashing ∧ i.claimedBy = some id := by
  simp only [Store.heldBy, decide_eq_true_eq]

/-- A claim forgets only what was seen of an intent that nobody holds. -/
theorem owed_of_claim {i : Intent} (hi : i ∈ g.db.intents.rows)
    (ho : Owed (g.after p (.store (.updateIntentToHashing intentID id now)) ch) i) : Owed g i := by
  rw [owed_iff] at ho ⊢
  refine ho.imp_right (Or.imp_right fun ⟨hs, hall⟩ => ⟨hs, fun w hw hmem => hall w hw ?_⟩)
  simp only [UploadWorld.after, UploadWorld.seenAfter]
  split
  case isFalse => exact hmem
  case isTrue hup =>
    refine List.mem_filter.2 ⟨hmem, decide_eq_true fun heq => ?_⟩
    obtain ⟨j, hj, hju⟩ := (Option.any_eq_true _ _).1 hup
    obtain ⟨hj, hid⟩ := Table.find?_eq_some_iff.1 hj
    obtain rfl := Table.eq_of_key_eq hj hi (hid.trans (congrArg Prod.snd heq).symm)
    rw [hs] at hju
    cases hju

theorem claim_ok (h : UploadInv cfg care g) :
    let g' := g.after (.worker id) (.store (.updateIntentToHashing intentID id now)) ch
    UploadInv cfg care g' ∧ ∀ q, q ≠ .worker id → UploadRely q g g' := by
  intro g'
  have hchange : IntentChange cfg care g g' (claimable intentID) (claimed id now) := {
    buckets := rfl
    reading := rfl
    confirmed := fun _ => .inl
    key := fun _ => rfl
    path := fun _ => rfl
    waiting := fun _ => nofun
    counted := fun i _ hp hc => by
      simp only [claimable, decide_eq_true_eq] at hp
      rw [Counted, hp.2] at hc
      exact hc
    kept := fun _ _ _ _ _ => nofun
    owed := fun hcare i hi hp ho => by
      simp only [claimable, decide_eq_true_eq] at hp
      exact h.owed hcare i hi (owed_iff.2 ⟨(owed_iff.1 ho).1, .inl hp.2⟩)
    others := fun i hi _ ho => owed_of_claim hi ho }
  obtain ⟨hinv, hrely⟩ := hchange.update h rfl rfl fun i hi ho => owed_of_claim hi ho
  refine ⟨hinv, fun q hq => hrely q (fun k => ?_) ?_⟩
  · simp only [g', UploadWorld.after, UploadWorld.seenAfter]
    split
    · simp [hq]
    · rfl
  · rintro w rfl i - hw
    cases hw
    exact hq rfl

/-- A failed attempt is handed back with its object, or is the last. -/
theorem release_change {c : StoreCmd} {q : Intent → Bool}
    (hs : g.seenAfter p (.store c) ch = g.seen) (hr : g.readingAfter p (.store c) ch = g.reading)
    (hq : ∀ i, q i → i.status = .hashing)
    (hreturn : care = .retryable → ∀ i ∈ g.db.intents.rows, q i → Returnable cfg g i)
    (h : UploadInv cfg care g) :
    IntentChange cfg care g (g.after p (.store c) ch) q (released cfg.maxRetries) where
  buckets := rfl
  reading := hr
  confirmed _ := .inl
  key _ := rfl
  path _ := rfl
  waiting i := by
    simp only [released]
    split <;> nofun
  counted i _ hp _ := by
    simp only [Counted, released]
    grind
  kept _ i hi hp _ hfailed := by
    have hc := h.counted i hi
    simp only [Counted, hq i hp] at hc
    simp only [released] at hfailed ⊢
    split at hfailed
    · omega
    · cases hfailed
  owed hcare i hi hp ho := by
    obtain ⟨hc, hup⟩ := owed_iff.1 ho
    have hret := hreturn hcare i hi hp
    simp only [Returnable, decide_eq_true_eq] at hret
    refine hret hc ?_
    by_contra hlast
    simp [released, not_lt.1 hlast] at hup
  others i hi _ ho := owed_congr ho rfl hs

theorem released_status (i : Intent) : (released cfg.maxRetries i).status ≠ .hashing := by
  simp only [released]
  split <;> nofun

theorem markFailed_change
    (hguard : care = .retryable → intentID ∈ g.confirmed → ¬ Held g intentID id) :
    IntentChange cfg care g (g.after p (.store (.markIntentFailed intentID id)) ch)
      (Store.heldBy intentID id) givenUp where
  buckets := rfl
  reading := rfl
  confirmed _ := .inl
  key _ := rfl
  path _ := rfl
  waiting _ := nofun
  counted _ _ _ _ := trivial
  kept hcare i hi hp hc _ := by
    rw [(heldBy_iff.1 hp).1] at hc
    exact absurd ⟨i, hi, hp⟩ (hguard hcare hc)
  owed _ i _ _ ho := by simp [owed_iff, givenUp] at ho
  others i hi _ ho := owed_congr ho rfl rfl

/-- A store call that gives no claim. -/
theorem quiet_update {c : StoreCmd} {q : Intent → Bool} {f : Intent → Intent}
    {hf : ∀ i, (f i).id = i.id} {e : StoreError} (h : UploadInv cfg care g)
    (x : IntentChange cfg care g (g.after p (.store c) ch) q f)
    (hdb : (c.apply ch.faults g.db).2 =
      ((Tx.autocommit e (Database.updateIntents q f hf) : Store Nat).run ch.faults g.db).2)
    (hs : g.seenAfter p (.store c) ch = g.seen) (hf' : ∀ i, (f i).status ≠ .hashing) :
    UploadInv cfg care (g.after p (.store c) ch) ∧
      ∀ q, q ≠ p → UploadRely q g (g.after p (.store c) ch) := by
  obtain ⟨hinv, hrely⟩ := x.update h hdb rfl fun i _ ho => owed_congr ho rfl hs
  refine ⟨hinv, fun q _ => hrely q (fun k => ?_) fun _ _ i hi => absurd hi (hf' i)⟩
  rw [show (g.after p (.store c) ch).seen = g.seen from hs]

theorem startIngestion_ok (h : UploadInv cfg care g) {document : Document}
    (hd : Recorded g document) :
    let g' := g.after p (.store (.startIngestion now document intentID id)) ch
    UploadInv cfg care g' ∧ ∀ q, q ≠ p → UploadRely q g g' := by
  intro g'
  obtain ⟨e, hr⟩ | ⟨-, hr⟩ := @Store.startIngestion_cases g.db ch.faults now
    document intentID id
  · have hdb : g'.db = g.db := congrArg Prod.snd hr
    exact ⟨h.congr hdb rfl rfl (fun _ => .inl) fun i _ ho => owed_congr ho rfl rfl,
      fun q _ => .congr hdb rfl rfl (fun _ => Iff.rfl) fun _ _ => Iff.rfl⟩
  · have hdb : g'.db = Store.started g.db now document intentID id := congrArg Prod.snd hr
    have hi : g'.db.intents =
        Database.linked g.db.intents (Store.heldBy intentID id) document.hash :=
      congrArg Database.intents hdb
    have hchange : IntentChange cfg care g g' (Store.heldBy intentID id)
        fun i => { i with status := .hashed, hash := some document.hash } := {
      buckets := rfl
      reading := rfl
      confirmed := fun _ => .inl
      key := fun _ => rfl
      path := fun _ => rfl
      waiting := fun _ => nofun
      counted := fun _ _ _ _ => trivial
      kept := fun _ _ _ _ _ => nofun
      owed := fun _ i _ _ ho => by simp [owed_iff] at ho
      others := fun i _ _ ho => owed_congr ho rfl rfl }
    refine ⟨hchange.inv hi h fun d hmem => ?_,
      fun q _ => hchange.rely hi (fun _ => Iff.rfl) fun _ _ _ => nofun⟩
    rw [hdb] at hmem
    exact (Table.mem_insertOrIgnore.1 hmem).imp_right fun ⟨_, he⟩ => he ▸ hd

end Store

section Blob

variable {p : HashProcess} {ch : HashChoice} {c : BlobCmd}

/-- An object store call that writes to neither bucket. -/
theorem look_ok (h : UploadInv cfg care g) (hc : ∀ s, c.effect s = s)
    (hs : ∀ x ∈ g.seen, x ∈ g.seenAfter p (.blob c) ch)
    (hother : ∀ q id, q ≠ p → (q, id) ∈ g.seenAfter p (.blob c) ch → (q, id) ∈ g.seen)
    (hr : g.readingAfter p (.blob c) ch = g.reading) :
    UploadInv cfg care (g.after p (.blob c) ch) ∧
      ∀ q, q ≠ p → UploadRely q g (g.after p (.blob c) ch) := by
  have hb : (g.after p (.blob c) ch).buckets = g.buckets := by
    simp [UploadWorld.after, BlobCmd.respond, hc]
  refine ⟨h.congr rfl hb rfl (fun _ hm => .inl (hr ▸ hm)) fun i _ ho => ?_, fun q hq =>
    .congr rfl hb rfl (fun id => ⟨hother q id hq, hs _⟩) fun r _ => by
      rw [show (g.after p (.blob c) ch).reading = g.reading from hr]⟩
  rw [owed_iff] at ho ⊢
  refine ho.imp_right (Or.imp_right fun hwait => ⟨hwait.1, fun w hw hmem => ?_⟩)
  exact hwait.2 w hw (hs _ hmem)

theorem get_ok (h : UploadInv cfg care g) {key : String} :
    let g' := g.after p (.blob (.getUpload key)) ch
    UploadInv cfg care g' ∧ ∀ q, q ≠ p → UploadRely q g g' := by
  intro g'
  have hb : g'.buckets = g.buckets := by
    simp [g', UploadWorld.after, BlobCmd.respond, BlobCmd.effect]
  have hmem (r : Reading) (hr : r ∈ g'.reading) : r ∈ g.reading ∨
      ∀ data, g.buckets.upload r.key = some data → Sha256.hexSum data = r.digest := by
    simp only [g', UploadWorld.after, UploadWorld.readingAfter] at hr
    split at hr
    case h_1 data _ hdata =>
      rcases List.mem_cons.1 hr with rfl | hr
      · refine .inr fun data' hdata' => ?_
        rw [Option.some.inj (hdata'.symm.trans hdata)]
      · exact .inl (List.mem_of_mem_filter hr)
    case h_2 => exact .inl hr
  have hothers (q : HashProcess) (hq : q ≠ p) (r : Reading) (hrq : r.process = q) :
      r ∈ g'.reading ↔ r ∈ g.reading := by
    simp only [g', UploadWorld.after, UploadWorld.readingAfter]
    subst hrq
    split
    · simp only [List.mem_cons, List.mem_filter, decide_eq_true_eq]
      exact ⟨fun hr => hr.elim (fun he => absurd (congrArg Reading.process he) hq) And.left,
        fun hr => .inr ⟨hr, hq⟩⟩
    · rfl
  exact ⟨h.congr rfl hb rfl hmem fun i _ ho => owed_congr ho rfl rfl,
    fun q hq => .congr rfl hb rfl (fun _ => Iff.rfl) (hothers q hq)⟩

theorem copy_ok (h : UploadInv cfg care g) {source key : String}
    (hguard : care = .addressed →
      ∃ digest, ⟨p, source, digest⟩ ∈ g.reading ∧ key = ingestionObjectKey digest) :
    let g' := g.after p (.blob (.copyToIngestion source key)) ch
    UploadInv cfg care g' ∧ ∀ q, q ≠ p → UploadRely q g g' := by
  intro g'
  have hupload : g'.buckets.upload = g.buckets.upload := BlobCmd.upload_copy ..
  have hingestion (k : String) : g'.buckets.ingestion k = g.buckets.ingestion k ∨
      ∃ data, g.buckets.upload source = some data ∧ k = key ∧
        g'.buckets.ingestion k = some data :=
    BlobCmd.ingestion_copy source key ch.fate g.buckets k
  have hstored (k : String) (hk : (g.buckets.ingestion k).isSome) :
      (g'.buckets.ingestion k).isSome := by
    rcases hingestion k with he | ⟨data, -, -, he⟩
    · rwa [he]
    · rw [he]
      rfl
  have hreading (r : Reading) (hr : r ∈ g'.reading) : r ∈ g.reading := List.mem_of_mem_filter hr
  refine ⟨⟨h.paths, h.counted, h.confirmed, fun d hd => ?_, h.kept, fun hcare i hi ho => ?_,
    fun hcare k data hk => ?_, fun hcare r hr => ?_⟩, fun q hq => ⟨fun _ => Iff.rfl, fun r hr => ?_,
    fun _ _ _ h => ⟨h, fun h => h⟩, hstored⟩⟩
  · exact (h.recorded d hd).imp_right (hstored _)
  · rw [hupload]
    exact h.owed hcare i hi (owed_congr ho rfl rfl)
  · rcases hingestion k with he | ⟨data', hdata, rfl, he⟩
    · exact h.addressed hcare k data (he ▸ hk)
    · obtain ⟨digest, hmem, rfl⟩ := hguard hcare
      rw [Option.some.inj (hk.symm.trans he), h.read hcare _ hmem data' hdata]
  · rw [hupload]
    exact h.read hcare r (hreading r hr)
  · exact ⟨hreading r, fun hm => List.mem_filter.2 ⟨hm, decide_eq_true (hr ▸ hq)⟩⟩

theorem remove_ok (h : UploadInv cfg care g) {key : String}
    (hrule : care = .retryable → ch.fate ≠ .refused →
      ∀ i ∈ g.db.intents.rows, i.id = key → ¬ Owed g i) :
    let g' := g.after p (.blob (.removeUpload key)) ch
    UploadInv cfg care g' ∧ ∀ q, q ≠ p → UploadRely q g g' := by
  intro g'
  have hingestion : g'.buckets.ingestion = g.buckets.ingestion := BlobCmd.ingestion_remove ..
  have hupload (k : String) : g'.buckets.upload k = g.buckets.upload k ∨
      ch.fate ≠ .refused ∧ k = key ∧ g'.buckets.upload k = none :=
    BlobCmd.upload_remove key ch.fate g.buckets k
  have hsome (k : String) (data : Bytes) (hk : g'.buckets.upload k = some data) :
      g.buckets.upload k = some data := by
    rcases hupload k with he | ⟨-, -, he⟩
    · exact he ▸ hk
    · cases hk.symm.trans he
  refine ⟨⟨h.paths, h.counted, h.confirmed, fun d hd => ?_, h.kept, fun hcare i hi ho => ?_,
    hingestion ▸ h.addressed,
    fun hcare r hr data hdata => h.read hcare r hr data (hsome _ _ hdata)⟩,
    fun q hq => ⟨fun _ => Iff.rfl, fun _ _ => Iff.rfl, fun _ _ _ h => ⟨h, fun h => h⟩,
      fun k hk => hingestion ▸ hk⟩⟩
  · exact (h.recorded d hd).imp_right fun hs => hingestion ▸ hs
  · have ho' : Owed g i := owed_congr ho rfl rfl
    rcases hupload i.id with he | ⟨hf, hk, -⟩
    · exact he ▸ h.owed hcare i hi ho'
    · exact absurd ho' (hrule hcare hf i hi hk)

end Blob

section Env

variable {id fileName key : String} {faults : List Bool} {data : Bytes}

theorem createIntent_ok (h : UploadInv cfg care g) :
    let g' := (UploadEvent.createIntent id fileName faults).apply g
    UploadInv cfg care g' ∧ ∀ q, UploadRely q g g' := by
  intro g'
  obtain ⟨_, hr⟩ | ⟨hnone, hr⟩ :=
    createIntent_cases (UploadWorld.intentAt g.clock id fileName) faults g.db
  · have hdb : g'.db = g.db := congrArg Prod.snd hr
    exact ⟨h.congr hdb rfl rfl (fun _ => .inl) fun i _ ho => owed_congr ho rfl rfl,
      fun q => .congr hdb rfl rfl (fun _ => Iff.rfl) fun _ _ => Iff.rfl⟩
  · have hdb : g'.db = _ := congrArg Prod.snd hr
    have hnone : ∀ i ∈ g.db.intents.rows, i.id ≠ id := Table.find?_eq_none_iff.1 hnone
    have hmem (i : Intent) (hi : i ∈ g'.db.intents.rows) : i ∈ g.db.intents.rows ∨
        i = newIntent (UploadWorld.intentAt g.clock id fileName) := by
      rw [hdb] at hi
      exact (Table.mem_insertOrIgnore.1 hi).imp_right And.right
    have hold (i : Intent) (hi : i ∈ g.db.intents.rows) : i ∈ g'.db.intents.rows := by
      rw [hdb]
      exact Table.mem_insertOrIgnore.2 (.inl hi)
    have hnew : id ∉ g.confirmed := fun hc => by
      obtain ⟨i, hi, he, -⟩ := h.confirmed id hc
      exact hnone i hi he
    refine ⟨⟨fun i hi => ?_, fun i hi => ?_, fun k hk => ?_, fun d hd => ?_,
      fun hcare i hi hc hf => ?_, fun hcare i hi ho => ?_, h.addressed, h.read⟩,
      fun q => ⟨fun _ => Iff.rfl, fun _ _ => Iff.rfl, fun w _ intentID => ?_, fun _ h => h⟩⟩
    · rcases hmem i hi with hi | rfl
      · exact h.paths i hi
      · rfl
    · rcases hmem i hi with hi | rfl
      · exact h.counted i hi
      · exact rfl
    · obtain ⟨i, hi, he⟩ := h.confirmed k hk
      exact ⟨i, hold i hi, he⟩
    · exact h.recorded d (by rwa [hdb] at hd)
    · rcases hmem i hi with hi | rfl
      · exact h.kept hcare i hi hc hf
      · exact absurd hc hnew
    · rcases hmem i hi with hi | rfl
      · exact h.owed hcare i hi (owed_congr ho rfl rfl)
      · exact absurd (owed_iff.1 ho).1 hnew
    · rintro ⟨i, hi, hh⟩
      refine ⟨?_, fun h => h⟩
      rcases hmem i hi with hi | rfl
      · exact ⟨i, hi, hh⟩
      · cases (heldBy_iff.1 hh).2.1

theorem put_ok (h : UploadInv cfg care g)
    (hrule : care = .addressed → ∀ r ∈ g.reading, r.key = key → Sha256.hexSum data = r.digest) :
    let g' := (UploadEvent.put key data).apply g
    UploadInv cfg care g' ∧ ∀ q, UploadRely q g g' := by
  intro g'
  by_cases hp : g.presigned key
  · have hg' : g' = { g with buckets :=
        { g.buckets with upload := Function.update g.buckets.upload key data } } := if_pos hp
    rw [hg']
    refine ⟨⟨h.paths, h.counted, h.confirmed, h.recorded, h.kept, fun hcare i hi ho => ?_,
      h.addressed, fun hcare r hr d hd => ?_⟩, fun q => ⟨fun _ => Iff.rfl, fun _ _ => Iff.rfl,
      fun _ _ _ h => ⟨h, fun h => h⟩, fun _ h => h⟩⟩
    · by_cases hk : i.id = key
      · simp [hk]
      · simpa [Function.update_of_ne hk] using h.owed hcare i hi (owed_congr ho rfl rfl)
    · by_cases hk : r.key = key
      · simp only [hk, Function.update_self, Option.some.injEq] at hd
        exact hd ▸ hrule hcare r hr hk
      · simp only [Function.update_of_ne hk] at hd
        exact h.read hcare r hr d hd
  · rw [show g' = g from if_neg hp]
    exact ⟨h, fun _ => .refl⟩

theorem confirm_ok (h : UploadInv cfg care g) :
    let g' := (UploadEvent.confirmUpload id faults).apply g
    UploadInv cfg care g' ∧ ∀ q, UploadRely q g g' := by
  intro g'
  obtain ⟨e, hr⟩ | hr := run_updateIntents (.driver "update upload_intent") (inTime id g.clock)
    (uploaded g.clock) (fun _ => rfl) faults g.db
  · have hdb : g'.db = g.db := congrArg Prod.snd hr
    have hc : g'.confirmed = g.confirmed := by
      have he : ((StoreCmd.updateIntentToUploaded id g.clock).apply faults g.db).1 = .error e :=
        congrArg Prod.fst hr
      change g.confirmedAfter id faults = _
      rw [UploadWorld.confirmedAfter, he]
    exact ⟨h.congr hdb rfl hc (fun _ => .inl) fun i _ ho => owed_congr ho hc rfl,
      fun q => .congr hdb rfl hc (fun _ => Iff.rfl) fun _ _ => Iff.rfl⟩
  · have hdb : g'.db = _ := congrArg Prod.snd hr
    have hconfirmed (k : String) (hk : k ∈ g'.confirmed) : k ∈ g.confirmed ∨
        (g.buckets.upload k).isSome ∧ ∃ i ∈ g.db.intents.rows, inTime id g.clock i ∧ i.id = k := by
      have hn : ((StoreCmd.updateIntentToUploaded id g.clock).apply faults g.db).1 =
          .ok (g.db.intents.affected (inTime id g.clock)) := congrArg Prod.fst hr
      change k ∈ g.confirmedAfter id faults at hk
      rw [UploadWorld.confirmedAfter, hn] at hk
      dsimp only at hk
      split at hk
      case isFalse => exact .inl hk
      case isTrue hpos =>
        rcases List.mem_cons.1 hk with rfl | hk
        · obtain ⟨i, hi, hp⟩ := List.countP_pos_iff.1 (Nat.pos_of_ne_zero hpos.1)
          have hid : i.id = k := by
            simp only [inTime, decide_eq_true_eq] at hp
            exact hp.1
          exact .inr ⟨hpos.2, i, hi, hp, hid⟩
        · exact .inl hk
    have hchange : IntentChange cfg care g g' (inTime id g.clock) (uploaded g.clock) := {
      buckets := rfl
      reading := rfl
      confirmed := fun k hk => (hconfirmed k hk).imp_right And.right
      key := fun _ => rfl
      path := fun _ => rfl
      waiting := fun _ => nofun
      counted := fun i _ hp hc => by
        simp only [inTime, decide_eq_true_eq] at hp
        rw [Counted, hp.2.1] at hc
        simp only [Counted, uploaded]
        have := cfg.maxRetries_pos
        omega
      kept := fun _ _ _ _ _ => nofun
      owed := fun _ i hi hp ho => by
        rcases hconfirmed _ (owed_iff.1 ho).1 with hc | ⟨hsome, -⟩
        · obtain ⟨j, hj, hid, hw⟩ := h.confirmed _ hc
          simp only [inTime, decide_eq_true_eq] at hp
          exact absurd (Table.eq_of_key_eq hj hi hid ▸ hp.2.1) hw
        · exact hsome
      others := fun i hi hp ho => by
        refine owed_iff.2 ⟨?_, (owed_iff.1 ho).2⟩
        rcases hconfirmed _ (owed_iff.1 ho).1 with hc | ⟨-, j, hj, hpj, hid⟩
        · exact hc
        · exact absurd (Table.eq_of_key_eq hj hi hid ▸ hpj) hp }
    have hi : g'.db.intents =
        g.db.intents.update (inTime id g.clock) (uploaded g.clock) fun _ => rfl :=
      congrArg Database.intents hdb
    exact ⟨hchange.inv hi h fun d hd => .inl (by rwa [hdb] at hd),
      fun q => hchange.rely hi (fun _ => Iff.rfl) fun _ _ _ => nofun⟩

theorem expire_ok (h : UploadInv cfg care g) :
    let g' := (UploadEvent.expire id faults).apply g
    UploadInv cfg care g' ∧ ∀ q, UploadRely q g g' := by
  intro g'
  have hchange : IntentChange cfg care g g' (late id g.clock) expired := {
    buckets := rfl
    reading := rfl
    confirmed := fun _ => .inl
    key := fun _ => rfl
    path := fun _ => rfl
    waiting := fun _ => nofun
    counted := fun _ _ _ _ => trivial
    kept := fun _ _ _ _ _ => nofun
    owed := fun _ i _ _ ho => by simp [owed_iff, expired] at ho
    others := fun i _ _ ho => owed_congr ho rfl rfl }
  obtain ⟨hinv, hrely⟩ := hchange.update h rfl rfl fun i _ ho => owed_congr ho rfl rfl
  exact ⟨hinv, fun q => hrely q (fun _ => Iff.rfl) fun _ _ _ => nofun⟩

/-- Every move of the clients and the clock. -/
theorem upload_env_ok {e : UploadEvent} (h : UploadInv cfg care g)
    (hr : (uploadRules cfg care).env e g) :
    UploadInv cfg care (e.apply g) ∧ ∀ q, UploadRely q g (e.apply g) := by
  cases e with
  | tick duration =>
    exact ⟨h.congr rfl rfl rfl (fun _ => .inl) fun i _ ho => owed_congr ho rfl rfl,
      fun q => .congr rfl rfl rfl (fun _ => Iff.rfl) fun _ _ => Iff.rfl⟩
  | createIntent id fileName faults => exact createIntent_ok h
  | put key data =>
    refine put_ok h ?_
    rintro rfl
    exact hr
  | confirmUpload id faults => exact confirm_ok h
  | expire id faults => exact expire_ok h

end Env

/-- Every call of a process. -/
theorem upload_call_ok {p : HashProcess} {c : HashCmd} {ch : HashChoice}
    (h : UploadInv cfg care g) (hg : uploadGuard cfg care p c g)
    (hr : (uploadRules cfg care).call p c ch g) :
    UploadInv cfg care (g.after p c ch) ∧ ∀ q, q ≠ p → UploadRely q g (g.after p c ch) := by
  cases c with
  | store c =>
    cases c with
    | getIntentsForHashing limit =>
      have hdb : ((StoreCmd.getIntentsForHashing limit).apply ch.faults g.db).2 = g.db :=
        Tx.run_quiet (Tx.quiet_query _) ch.faults g.db
      exact ⟨h.congr hdb rfl rfl (fun _ => .inl) fun i _ ho => owed_congr ho rfl rfl,
        fun q _ => .congr hdb rfl rfl (fun _ => Iff.rfl) fun _ _ => Iff.rfl⟩
    | updateIntentToHashing intentID id now =>
      obtain rfl : p = .worker id := hg
      exact claim_ok h
    | markIntentFailed intentID id =>
      exact quiet_update h (markFailed_change hg.2) rfl rfl fun _ => nofun
    | releaseIntentClaim intentID id maxRetries =>
      obtain ⟨-, rfl⟩ : p = .worker id ∧ maxRetries = cfg.maxRetries := hg
      refine quiet_update h (release_change rfl rfl (fun i hi => (heldBy_iff.1 hi).2.1) ?_ h)
        rfl rfl released_status
      rintro rfl
      exact hr
    | recoverStaleIntents cutoff maxRetries =>
      obtain rfl : maxRetries = cfg.maxRetries := hg
      refine quiet_update h (release_change rfl rfl (fun i hi => ?_) ?_ h) rfl rfl released_status
      · simp only [stale, decide_eq_true_eq] at hi
        exact hi.1
      · rintro rfl
        exact hr
    | startIngestion now document intentID id => exact startIngestion_ok h hg.2
    | _ => exact hg.elim
  | blob c =>
    cases c with
    | statUpload key =>
      refine look_ok h (fun _ => rfl) (fun x hx => ?_) (fun q id hq hm => ?_) rfl
      · simp only [UploadWorld.seenAfter]
        split
        · exact List.mem_cons_of_mem _ hx
        · exact hx
      · simp only [UploadWorld.seenAfter] at hm
        split at hm
        · exact (List.mem_cons.1 hm).resolve_left fun he => hq (congrArg Prod.fst he)
        · exact hm
    | statIngestion key => exact look_ok h (fun _ => rfl) (fun _ hx => hx) (fun _ _ _ hm => hm) rfl
    | getUpload key => exact get_ok h
    | copyToIngestion source key => exact copy_ok h hg
    | removeUpload key =>
      refine remove_ok h ?_
      rintro rfl
      exact hr
  | _ => exact ⟨h, fun _ _ => .refl⟩

end Center
