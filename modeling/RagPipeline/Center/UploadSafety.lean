import RagPipeline.Center.UploadInvariant
import RagPipeline.Interact.Method

/-!
# Uploads are not given up early, and the ingestion bucket is content addressed

One walk along the worker and the sweeper, for either condition on the run.

## Main results

* `failed_only_after_max_retries`: while attempts stay retryable, an upload that reached the bucket
  fails only after `maxRetries` attempts.
* `ingestion_content_addressed`: while no put comes between a read and its copy, every object of
  the ingestion bucket lies under the key of its digest.
-/
namespace Center

open Interact Relational Wire IntentStore HashWorker Method

/-- What a process works under. -/
def uploadContract (cfg : HashConfig) (care : Care) (p : HashProcess) :
    Contract HashSig UploadWorld where
  inv := UploadInv cfg care
  rely := UploadRely p
  guard := uploadGuard cfg care p
  exec c g r g' := ∃ ch : HashChoice, (uploadRules cfg care).call p c ch g ∧
    (g.reply c ch, g.after p c ch) = (r, g')

section Worker

variable {cfg : HashConfig} {care : Care} {id : String} {intent : Intent} {s : Unit}
  {g : UploadWorld}

/-- The worker is about to look for the object of an intent it claimed. -/
def Unseen (id : String) (intent : Intent) (g : UploadWorld) : Prop :=
  (HashProcess.worker id, intent.id) ∉ g.seen

/-- An intent without its object is not, or no longer, the worker's to fail. -/
def NotHeld (care : Care) (id : String) (intent : Intent) (g : UploadWorld) : Prop :=
  care = .retryable → intent.id ∈ g.confirmed → ¬ Held g intent.id id

theorem NotHeld.rely {g' : UploadWorld} (h : NotHeld care id intent g)
    (hr : UploadRely (.worker id) g g') : NotHeld care id intent g' := by
  intro hcare hc hh
  obtain ⟨hh, hc'⟩ := hr.held id rfl intent.id hh
  exact h hcare (hc' hc) hh

/-- An object store call: only its answer matters, whatever an error does. -/
theorem wp_blob {p : HashProcess} {text : String} {c : BlobCmd}
    {Q : Except HashError c.Reply → Unit → UploadWorld → Prop}
    (hg : uploadGuard cfg care p (.blob c) g) (herr : ∀ g, Q (.error (.failed text)) s g)
    (hok : ∀ (ch : HashChoice) r g', UploadInv cfg care g → c.result g.buckets = some r →
      ch.fate = .ok → UploadRely p (g.after p (.blob c) ch) g' → Q (.ok r) s g') :
    wp (uploadContract cfg care p) (blob text c) Q s g := by
  refine fun hi => ⟨hg, ?_⟩
  rintro r g₁ ⟨ch, -, hx⟩ - g₂ hr
  obtain rfl : g.after p (.blob c) ch = g₁ := congrArg Prod.snd hx
  have hx : (c.respond ch.fate g.buckets).1 = r := congrArg Prod.fst hx
  change Option c.Reply at r
  cases r with
  | none => exact wp_raise (herr g₂)
  | some r =>
    obtain ⟨hf, hres⟩ := BlobCmd.respond_some hx
    exact wp_pure (hok ch r g₂ hi hres hf hr)

/-- An error that is not `noTempObject`, or a result of which `P` holds. -/
def OkOrFailed {α : Type} (P : α → UploadWorld → Prop) (r : Except HashError α) (_ : Unit)
    (g : UploadWorld) : Prop :=
  match r with
  | .ok a => P a g
  | .error e => e ≠ .noTempObject

/-- An object that is not there was not needed. -/
theorem wp_existsInUploadBucket (h : Unseen id intent g) :
    wp (uploadContract cfg care (.worker id)) (existsInUploadBucket intent.id)
      (OkOrFailed fun found g => found = false → NotHeld care id intent g) s g := by
  refine wp_blob trivial (fun _ => nofun) fun ch found g' hi hres _ hr hfalse => ?_
  subst hfalse
  refine NotHeld.rely ?_ hr
  rintro hcare hc ⟨i, hmem, hh⟩
  -- the worker has not seen the object since it took the claim, so the object is still owed
  obtain ⟨hid, hst, hby⟩ := heldBy_iff.1 hh
  have howed : Owed g i := by
    refine owed_iff.2 ⟨hid ▸ hc, .inr ⟨hst, fun w hw => ?_⟩⟩
    rw [hby, Option.some.injEq] at hw
    rw [← hw, hid]
    exact h
  have hsome := hi.owed hcare i hmem howed
  rw [hid] at hsome
  cases hsome.symm.trans (Option.some.inj hres)

theorem wp_hashUploadObject {key : String} :
    wp (uploadContract cfg care (.worker id)) (hashUploadObject key)
      (OkOrFailed fun x g => ⟨.worker id, key, x.1⟩ ∈ g.reading) s g := by
  have hread : wp (uploadContract cfg care (.worker id)) (blob "hash temp object" (.getUpload key))
      (OkOrFailed fun data g => ⟨.worker id, key, Sha256.hexSum data⟩ ∈ g.reading) s g := by
    refine wp_blob trivial (fun _ => nofun) fun ch data g' _ hres hf hr => ?_
    refine (hr.reading ⟨.worker id, key, Sha256.hexSum data⟩ rfl).2 ?_
    have hdata : g.buckets.upload key = some data := hres
    simp [UploadWorld.after, UploadWorld.readingAfter, hf, hdata]
  exact wp_bind hread (fun _ _ _ h => h) fun _ _ _ h => wp_pure h

theorem wp_migrateToIngestion {key hash : String} (h : ⟨.worker id, key, hash⟩ ∈ g.reading) :
    wp (uploadContract cfg care (.worker id)) (migrateToIngestion key hash)
      (OkOrFailed fun path g => path = ingestionObjectKey hash ∧
        (g.buckets.ingestion path).isSome) s g := by
  have hcopy : wp (uploadContract cfg care (.worker id))
      (blob "move to ingestion bucket" (.copyToIngestion key (ingestionObjectKey hash)))
      (OkOrFailed fun _ _ => True) s g :=
    wp_blob (fun _ => ⟨hash, h, rfl⟩) (fun _ => nofun) fun _ _ _ _ _ _ _ => trivial
  refine wp_bind hcopy (fun _ _ _ h => h) fun _ _ g _ => ?_
  have hstat : wp (uploadContract cfg care (.worker id))
      (blob "move to ingestion bucket" (.statIngestion (ingestionObjectKey hash)))
      (OkOrFailed fun found g =>
        found = true → (g.buckets.ingestion (ingestionObjectKey hash)).isSome) s g := by
    refine wp_blob trivial (fun _ => nofun) fun ch found g' _ hres _ hr hfound => ?_
    subst hfound
    refine hr.stored _ ?_
    have hfound : (g.buckets.ingestion (ingestionObjectKey hash)).isSome = true :=
      Option.some.inj hres
    simpa [UploadWorld.after, BlobCmd.respond, BlobCmd.effect] using hfound
  refine wp_bind hstat (fun _ _ _ h => h) fun (found : Bool) _ g hfound => ?_
  refine wp_ite (fun _ => wp_raise nofun) fun hf => ?_
  have hstored := hfound (by cases found; exacts [absurd rfl hf, rfl])
  have hremove : wp (uploadContract cfg care (.worker id))
      (blob "move to ingestion bucket" (.removeUpload key))
      (OkOrFailed fun _ g => (g.buckets.ingestion (ingestionObjectKey hash)).isSome) s g := by
    refine wp_blob trivial (fun _ => nofun) fun ch _ g' _ _ _ hr => hr.stored _ ?_
    have hsame : (g.after (.worker id) (.blob (.removeUpload key)) ch).buckets.ingestion =
      g.buckets.ingestion := BlobCmd.ingestion_remove ..
    rwa [hsame]
  exact wp_bind hremove (fun _ _ _ h => h) fun _ _ _ h => wp_pure ⟨rfl, h⟩

theorem wp_startIngestion {document : Document} {intentID : String}
    (h : Recorded g document) :
    wp (uploadContract cfg care (.worker id)) (startIngestion id document intentID)
      (OkOrFailed fun _ _ => True) s g := by
  refine wp_call_bind (fun _ => trivial) fun now g₁ g₂ _ hx _ hr => ?_
  obtain ⟨ch, -, hx⟩ := hx
  obtain rfl : g.after (.worker id) .now ch = g₁ := congrArg Prod.snd hx
  refine wp_call_bind (fun _ => ⟨rfl, h.imp_right (hr.stored _)⟩) fun r _ _ _ _ _ _ => ?_
  change Except StoreError Unit at r
  match r with
  | .ok _ => exact wp_pure trivial
  | .error .lostClaim => exact wp_raise nofun
  | .error (.driver _) => exact wp_raise nofun
  | .error (.intentNotFound _) => exact wp_raise nofun

theorem wp_hashAndRecord (hpath : intent.tempBucketPath = some intent.id)
    (h : Unseen id intent g) :
    wp (uploadContract cfg care (.worker id)) (hashAndRecord id intent)
      (fun r _ g => r = .error .noTempObject → NotHeld care id intent g) s g := by
  have hother {e : HashError} {g : UploadWorld} (he : e ≠ .noTempObject)
      (h : (.error e : Except HashError Unit) = .error .noTempObject) :
      NotHeld care id intent g := by
    cases h
    exact absurd rfl he
  rw [hashAndRecord, hpath]
  refine wp_bind (wp_existsInUploadBucket h) (fun e _ _ h => hother h) fun found _ g hf => ?_
  refine wp_ite (fun hn => wp_raise fun _ => hf (by simpa using hn)) fun _ => ?_
  refine wp_bind wp_hashUploadObject (fun e _ _ h => hother h) fun ⟨hash, size⟩ _ g hread => ?_
  refine wp_bind (wp_migrateToIngestion hread) (fun e _ _ h => hother h) fun path _ g hpath => ?_
  refine wp_mono (wp_startIngestion hpath) fun r _ g _ hr he => ?_
  subst he
  exact absurd rfl hr

/-- One claimed intent. -/
theorem wp_process (hpath : intent.tempBucketPath = some intent.id) (h : Unseen id intent g) :
    wp (uploadContract cfg care (.worker id)) (process cfg id intent) (fun _ _ _ => True) s g := by
  refine wp_ite (fun _ => wp_call (fun _ => trivial) fun _ _ _ _ _ _ _ => trivial) fun _ => ?_
  refine wp_tryExcept (wp_hashAndRecord hpath h) (fun _ _ _ _ => trivial) fun e _ g he => ?_
  cases e with
  | lostClaim => exact wp_pure trivial
  | noTempObject =>
    exact wp_call_bind (fun _ => ⟨rfl, he rfl⟩) fun _ _ _ _ _ _ _ => wp_pure trivial
  | failed text =>
    exact wp_call_bind (fun _ => ⟨rfl, rfl⟩) fun _ _ _ _ _ _ _ => wp_pure trivial

/-- A claim that succeeds is on an intent that was UPLOADED. -/
theorem unseen_of_claim {intentID : String} {now : Time} {ch : HashChoice} {n : Nat}
    (hr : g.reply (.store (.updateIntentToHashing intentID id now)) ch =
      (.ok n : Except StoreError Nat)) (hn : n ≠ 0) :
    (HashProcess.worker id, intentID) ∉
      (g.after (.worker id) (.store (.updateIntentToHashing intentID id now)) ch).seen := by
  obtain ⟨e, hrun⟩ | hrun := run_updateIntents (.driver "update upload_intent")
    (claimable intentID) (claimed id now) (fun _ => rfl) ch.faults g.db
  · cases hr.symm.trans (congrArg Prod.fst hrun)
  · have he : (.ok n : Except StoreError Nat) = .ok (g.db.intents.affected (claimable intentID)) :=
      hr.symm.trans (congrArg Prod.fst hrun)
    cases he
    obtain ⟨i, hi, hp⟩ := List.countP_pos_iff.1 (Nat.pos_of_ne_zero hn)
    simp only [claimable, decide_eq_true_eq] at hp
    have hfind : g.db.intents.find? intentID = some i := Table.find?_eq_some_iff.2 ⟨hi, hp.1⟩
    simp [UploadWorld.after, UploadWorld.seenAfter, hfind, hp.2]

theorem wp_passOver {intents : List Intent}
    (hpath : ∀ intent ∈ intents, intent.tempBucketPath = some intent.id) :
    wp (uploadContract cfg care (.worker id)) (passOver cfg id intents)
      (fun _ _ _ => True) s g := by
  induction intents generalizing g s with
  | nil => exact wp_pure trivial
  | cons intent rest ih =>
    obtain ⟨hintent, hrest⟩ := List.forall_mem_cons.1 hpath
    refine wp_call_bind (fun _ => trivial) fun (cancelled : Bool) _ g _ _ _ _ => ?_
    refine wp_ite (fun _ => wp_pure trivial) fun _ => ?_
    refine wp_call_bind (fun _ => trivial) fun now _ g _ _ _ _ => ?_
    refine wp_call_bind (fun _ => rfl) fun n g₁ g₂ _ hx _ hr => ?_
    obtain ⟨ch, -, hx⟩ := hx
    change Except StoreError Nat at n
    cases n with
    | error _ => exact ih hrest
    | ok n =>
      refine wp_ite (fun _ => ih hrest) fun hn => ?_
      have hunseen : Unseen id intent g₂ := by
        obtain rfl :
            g.after (.worker id) (.store (.updateIntentToHashing intent.id id now)) ch = g₁ :=
          congrArg Prod.snd hx
        exact (hr.seen intent.id).not.2 (unseen_of_claim (congrArg Prod.fst hx) hn)
      exact wp_bind (wp_process hintent hunseen) (fun _ _ _ _ => trivial) fun _ _ _ _ => ih hrest

theorem wp_pass :
    wp (uploadContract cfg care (.worker id)) (pass cfg id) (fun _ _ _ => True) s g := by
  refine wp_call_bind (fun _ => trivial) fun fetched g₁ g₂ hi hx _ _ => ?_
  obtain ⟨ch, -, hx⟩ := hx
  change Except StoreError (List Intent) at fetched
  cases fetched with
  | error _ => exact wp_pure trivial
  | ok intents =>
    have hfetched : ((getIntentsForHashing cfg.batchSize).run ch.faults g.db).1 = .ok intents :=
      congrArg Prod.fst hx
    exact wp_passOver fun intent hmem =>
      hi.paths intent (getIntentsForHashing_ok hfetched intent hmem)

theorem wp_worker : Prog.wp (uploadContract cfg care (.worker id))
    (HashProcess.main cfg (.worker id)) (fun _ _ => True) g := by
  have hrun : wp (uploadContract cfg care (.worker id)) (HashWorker.run cfg id)
      (fun _ _ _ => True) () g := by
    refine wp_loop (fun _ _ _ => True) trivial fun _ s g _ => ?_
    refine wp_call_bind (fun _ => trivial) fun (ticked : Bool) _ g _ _ _ _ => ?_
    refine wp_ite (fun _ => ?_) fun _ => wp_pure trivial
    exact wp_bind wp_pass (fun _ _ _ _ => trivial) fun _ _ _ _ => wp_pure trivial
  exact Prog.wp_bind (Prog.wp_mono _ hrun fun _ _ _ _ => Prog.wp_ret trivial)

end Worker

theorem wp_sweeper {cfg : HashConfig} {care : Care} {n : Nat} {g : UploadWorld} :
    Prog.wp (uploadContract cfg care (.sweeper n)) (HashProcess.main cfg (.sweeper n))
      (fun _ _ => True) g := by
  have hrun : wp (uploadContract cfg care (.sweeper n)) (HashSweeper.run cfg)
      (fun _ _ _ => True) () g := by
    refine wp_loop (fun _ _ _ => True) trivial fun _ s g _ => ?_
    refine wp_call_bind (fun _ => trivial) fun (ticked : Bool) _ g _ _ _ _ => ?_
    refine wp_ite (fun _ => ?_) fun _ => wp_pure trivial
    refine wp_call_bind (fun _ => trivial) fun now _ g _ _ _ _ => ?_
    exact wp_call_bind (fun _ => rfl) fun _ _ _ _ _ _ _ => wp_pure trivial
  exact Prog.wp_bind (Prog.wp_mono _ hrun fun _ _ _ _ => Prog.wp_ret trivial)

section Certificate

variable {cfg : HashConfig} {care : Care} {g : UploadWorld}

/-- A process that starts or ends takes with it what it read. -/
theorem upload_leave_ok {p : HashProcess} (h : UploadInv cfg care g) :
    UploadInv cfg care ((uploadSystem cfg).leave p g) ∧
      ∀ q, q ≠ p → UploadRely q g ((uploadSystem cfg).leave p g) := by
  refine ⟨h.congr rfl rfl rfl (fun r hr => .inl (List.mem_of_mem_filter hr))
    fun i _ ho => owed_congr ho rfl rfl, fun q hq => .congr rfl rfl rfl (fun _ => Iff.rfl) ?_⟩
  intro r hr
  refine ⟨List.mem_of_mem_filter, fun hm => List.mem_filter.2 ⟨hm, decide_eq_true ?_⟩⟩
  rw [hr]
  exact hq

def uploadCertificate (cfg : HashConfig) (care : Care) :
    Actors.Certificate (uploadSystem cfg) (uploadRules cfg care) where
  inv := UploadInv cfg care
  rely := UploadRely
  guard := uploadGuard cfg care
  fresh _ _ := True
  rely_refl _ _ := .refl
  rely_trans _ _ _ _ h₁ h₂ := h₁.trans h₂
  fresh_rely _ _ _ _ _ _ := trivial
  enter_ok _ _ h _ _ := ⟨h, fun _ _ => .refl⟩
  call_ok _ _ _ _ h hg hr := upload_call_ok h hg hr
  leave_ok _ _ h := upload_leave_ok h
  env_ok _ _ h hr := upload_env_ok h hr
  main_ok p _ _ _ _ _ _ := match p with
    | .worker _ => wp_worker
    | .sweeper _ => wp_sweeper

theorem uploadInv_start : UploadInv cfg care .start where
  paths _ h := by cases h
  counted _ h := by cases h
  confirmed _ h := by cases h
  recorded _ h := by cases h
  kept _ _ h := by cases h
  owed _ _ h := by cases h
  addressed _ _ _ h := by cases h
  read _ _ h := by cases h

end Certificate

/-! ### Runs of one worker with one upload -/

theorem one_le_three : (1 : Int) ≤ 3 := by decide

def sampleConfig : HashConfig := ⟨20, 3, one_le_three, 300000000000, false⟩

abbrev UploadStep := (uploadSystem sampleConfig).Step

def yes : HashChoice := ⟨.ok, [], 0, true⟩
def no : HashChoice := ⟨.ok, [], 0, false⟩
def refused : HashChoice := ⟨.refused, [true], 0, true⟩

/-- A client uploads `abc` and confirms; a worker starts. -/
def uploadedThen : List UploadStep :=
  [.env (.createIntent "u" "a.txt" []), .env (.put "u" [97, 98, 99]), .env (.confirmUpload "u" []),
    .start (.worker "w")]

def calls (chs : List HashChoice) : List UploadStep := chs.map (.call (.worker "w"))

/-- The worker wakes up, fetches and claims the intent. -/
def claims : List UploadStep := .unfold (.worker "w") :: calls [yes, yes, no, yes, yes]

/-- The object is gone when `StartIngestion` fails, and the next attempt misses it. -/
def lostUpload : List UploadStep :=
  uploadedThen ++ claims ++ calls [yes, yes, yes, yes, yes, yes, refused, yes] ++
    claims ++ calls [yes, yes]

/-- Every attempt fails at reading the object, which stays. -/
def threeFailures : List UploadStep :=
  uploadedThen ++ (List.replicate 3 (claims ++ calls [yes, refused, yes])).flatten

/-- The client puts `abd` between the worker's read and its copy. -/
def overwritten : List UploadStep :=
  uploadedThen ++ claims ++ calls [yes, yes] ++ [.env (.put "u" [97, 98, 100])] ++ calls [yes]

/-- An upload to its end. -/
def ingested : List UploadStep :=
  uploadedThen ++ claims ++ calls [yes, yes, yes, yes, yes, yes, yes]

def intentsOf (g : UploadWorld) : List (String × IntentState × Int × Bool) :=
  g.db.intents.rows.map fun i => (i.id, i.status, i.retries, i.id ∈ g.confirmed)

theorem mem_intentsOf {g : UploadWorld} {id : String} {status : IntentState} {retries : Int}
    (h : intentsOf g = [(id, status, retries, true)]) :
    ∃ i ∈ g.db.intents.rows, i.id ∈ g.confirmed ∧ i.status = status ∧ i.retries = retries := by
  obtain ⟨i, hrows, hi⟩ := List.map_eq_singleton_iff.1 h
  simp only [Prod.mk.injEq, decide_eq_true_eq] at hi
  exact ⟨i, by rw [hrows]; exact List.mem_singleton_self i, hi.2.2.2, hi.2.1, hi.2.2.1⟩

/-! ### Giving up -/

/-- While attempts stay retryable, an intent that was confirmed with its object in the bucket is
FAILED only once `maxRetries` attempts have failed. -/
theorem failed_only_after_max_retries {cfg : HashConfig} {run : (uploadSystem cfg).Config}
    (h : (uploadSystem cfg).Reachable (uploadRules cfg .retryable) .start run) :
    ∀ i ∈ run.shared.db.intents.rows, i.id ∈ run.shared.confirmed → i.status = .failed →
      i.retries = cfg.maxRetries :=
  ((uploadCertificate cfg .retryable).sound uploadInv_start (fun _ => trivial) h).kept rfl

theorem failed_only_after_three_failures : ∃ run,
    (uploadSystem sampleConfig).Reachable (uploadRules sampleConfig .retryable) .start run ∧
    ∃ i ∈ run.shared.db.intents.rows, i.id ∈ run.shared.confirmed ∧ i.status = .failed ∧
      i.retries = 3 := by
  have hleaves : (uploadSystem sampleConfig).leaves .start threeFailures intentsOf =
      some [("u", .failed, 3, true)] := by decide +kernel
  have hrules : (uploadRules sampleConfig .retryable).AllowsAll (Actors.init _ .start)
      threeFailures := by decide +kernel
  obtain ⟨run, hreach, hrun⟩ := Actors.Reachable.of_leaves hrules hleaves
  obtain ⟨i, hi, hc, hf, -⟩ := mem_intentsOf hrun
  exact ⟨run, hreach, i, hi, hc, hf, failed_only_after_max_retries hreach i hi hc hf⟩

/-- An upload that reached the bucket is given up at its second attempt of three. -/
theorem failed_early : ∃ run,
    (uploadSystem sampleConfig).Reachable (Actors.Rules.free _) .start run ∧
    ∃ i ∈ run.shared.db.intents.rows, i.id ∈ run.shared.confirmed ∧ i.status = .failed ∧
      i.retries ≠ sampleConfig.maxRetries := by
  have hleaves : (uploadSystem sampleConfig).leaves .start lostUpload intentsOf =
      some [("u", .failed, 1, true)] := by decide +kernel
  obtain ⟨run, hreach, hrun⟩ :=
    Actors.Reachable.of_leaves (Actors.Rules.free_allowsAll _ _) hleaves
  obtain ⟨i, hi, hc, hf, hr⟩ := mem_intentsOf hrun
  exact ⟨run, hreach, i, hi, hc, hf, by rw [hr]; decide⟩

/-! ### Content addressing -/

/-- While no put comes between a read and its copy, the ingestion bucket is content addressed, and
so are the bytes behind every recorded document; and a step loses no object and changes no
digest. -/
theorem ingestion_content_addressed {cfg : HashConfig} {run : (uploadSystem cfg).Config}
    (h : (uploadSystem cfg).Reachable (uploadRules cfg .addressed) .start run) :
    (∀ hash data, run.shared.buckets.ingestion (ingestionObjectKey hash) = some data →
      Sha256.hexSum data = hash) ∧
    (∀ d ∈ run.shared.db.documents.rows, ∃ data,
      run.shared.buckets.ingestion d.permBucketPath = some data ∧ Sha256.hexSum data = d.hash) ∧
    ∀ e run', (uploadRules cfg .addressed).Allows run e →
      (uploadSystem cfg).next run e = some run' →
      ∀ key data, run.shared.buckets.ingestion key = some data → ∃ data',
        run'.shared.buckets.ingestion key = some data' ∧
        Sha256.hexSum data' = Sha256.hexSum data := by
  have haddressed {run : (uploadSystem cfg).Config}
      (h : (uploadSystem cfg).Reachable (uploadRules cfg .addressed) .start run) :
      UploadInv cfg .addressed run.shared :=
    (uploadCertificate cfg .addressed).sound uploadInv_start (fun _ => trivial) h
  have hinv := haddressed h
  have hdigest (hash : String) (data : Bytes)
      (hdata : run.shared.buckets.ingestion (ingestionObjectKey hash) = some data) :
      Sha256.hexSum data = hash :=
    (ingestionObjectKey_injective (hinv.addressed rfl _ data hdata)).symm
  refine ⟨hdigest, fun d hd => ?_, fun e run' hR hn key data hdata => ?_⟩
  · obtain ⟨hpath, hsome⟩ := hinv.recorded d hd
    obtain ⟨data, hdata⟩ := Option.isSome_iff_exists.1 hsome
    exact ⟨data, hdata, hdigest d.hash data (hpath ▸ hdata)⟩
  · obtain ⟨who, hm⟩ :=
      (uploadCertificate cfg .addressed).moved uploadInv_start (fun _ => trivial) h hR hn
    -- some process does not move, and what is stored stays stored for it
    obtain ⟨q, hq⟩ : ∃ q, who ≠ some q := by
      by_cases hw : who = some (.sweeper 0)
      · exact ⟨.sweeper 1, by rw [hw]; nofun⟩
      · exact ⟨_, hw⟩
    have hsome := (hm.rely q hq).stored key (by rw [hdata]; rfl)
    obtain ⟨data', hdata'⟩ := Option.isSome_iff_exists.1 hsome
    have hkey := (haddressed (h.step e hR hn)).addressed rfl key data' hdata'
    exact ⟨data', hdata',
      ingestionObjectKey_injective (hkey.symm.trans (hinv.addressed rfl key data hdata))⟩

theorem ingestion_content_addressed_ingested : ∃ run,
    (uploadSystem sampleConfig).Reachable (uploadRules sampleConfig .addressed) .start run ∧
    ∃ d ∈ run.shared.db.documents.rows, ∃ data,
      run.shared.buckets.ingestion d.permBucketPath = some data ∧ Sha256.hexSum data = d.hash := by
  have hleaves : (uploadSystem sampleConfig).leaves .start ingested
      (fun g => g.db.documents.rows.length) = some 1 := by decide +kernel
  have hrules : (uploadRules sampleConfig .addressed).AllowsAll (Actors.init _ .start)
      ingested := by decide +kernel
  obtain ⟨run, hreach, hrun⟩ := Actors.Reachable.of_leaves hrules hleaves
  obtain ⟨d, hd⟩ := List.length_eq_one_iff.1 hrun
  have hmem : d ∈ run.shared.db.documents.rows := by
    rw [hd]
    exact List.mem_singleton_self d
  exact ⟨run, hreach, d, hmem, (ingestion_content_addressed hreach).2.1 d hmem⟩

/-- What was put after the read lies under the digest of what was read. -/
theorem ingestion_overwritten : ∃ run,
    (uploadSystem sampleConfig).Reachable (Actors.Rules.free _) .start run ∧
    ∃ hash data, run.shared.buckets.ingestion (ingestionObjectKey hash) = some data ∧
      Sha256.hexSum data ≠ hash := by
  have hleaves : (uploadSystem sampleConfig).leaves .start overwritten
      (fun g => g.buckets.ingestion (ingestionObjectKey (Sha256.hexSum [97, 98, 99]))) =
      some (some [97, 98, 100]) := by decide +kernel
  obtain ⟨run, hreach, hrun⟩ :=
    Actors.Reachable.of_leaves (Actors.Rules.free_allowsAll _ _) hleaves
  exact ⟨run, hreach, Sha256.hexSum [97, 98, 99], [97, 98, 100], hrun, by decide +kernel⟩

end Center
