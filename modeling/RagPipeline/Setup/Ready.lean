import RagPipeline.Setup.SetupSystem

/-!
# Prepared stores

Whatever runs of the two commands do to each other and wherever they stop, they only add to the
stores, and one that has exited with 0 has left what it is for.

## Main definitions

* `Evolves`: what becomes of the stores in any number of steps.
* `Prepared`: what a command is for.
* `setupCertificate`: the rely-guarantee proof.

## Main results

* `setup_only_adds`: no run destroys or changes what it found.
* `exit_zero_prepared`: exit code 0 keeps its promise from then on.
-/
namespace Setup

open Wire Interact Method Rag

/-! ### How the stores grow -/

inductive Grown : Option Collection → Option Collection → Prop
  | same (c : Option Collection) : Grown c c
  | created {dim : Int} {index : Option String}
      (h : index = none ∨ index = some QdrantPayloadIndex.keyword) :
      Grown none (some ⟨some ⟨dim, false, .cosine⟩, index⟩)
  | indexed {vectors : Option VectorParams} :
      Grown (some ⟨vectors, none⟩) (some ⟨vectors, some QdrantPayloadIndex.keyword⟩)

namespace Grown

variable {a b c : Option Collection}

theorem trans (h₁ : Grown a b) (h₂ : Grown b c) : Grown a c := by
  cases h₁ with
  | same => exact h₂
  | created h =>
    cases h₂ with
    | same => exact .created h
    | indexed => exact .created (.inr rfl)
  | indexed =>
    cases h₂ with
    | same => exact .indexed

theorem vectors {x : Collection} (h : Grown (some x) b) :
    ∃ y, b = some y ∧ y.vectors = x.vectors := by
  cases h with
  | same => exact ⟨_, rfl, rfl⟩
  | indexed => exact ⟨_, rfl, rfl⟩

theorem hashIndex {x : Collection} {type : String} (h : Grown (some x) b)
    (hx : x.hashIndex = some type) : b = some x := by
  cases h with
  | same => rfl
  | indexed => cases hx

/-- Without an index, or with the one that the service needs. -/
theorem usable {x : Collection} (h : Grown (some x) b)
    (hx : ∀ type, x.hashIndex = some type → type = QdrantPayloadIndex.keyword) :
    ∃ y, b = some y ∧ ∀ type, y.hashIndex = some type → type = QdrantPayloadIndex.keyword := by
  cases h with
  | same => exact ⟨_, rfl, hx⟩
  | indexed => exact ⟨_, rfl, fun type h => (Option.some.inj h).symm⟩

end Grown

structure Evolves (s s' : Storage) : Prop where
  tables : ∀ path, s'.tables path = s.tables path ∨ s.tables path = [] ∧ s'.tables path = columns
  collections : ∀ name, Grown (s.collections name) (s'.collections name)
  buckets : s.buckets ⊆ s'.buckets

namespace Evolves

variable {s s' s'' : Storage}

theorem refl (s : Storage) : Evolves s s := ⟨fun _ => .inl rfl, fun _ => .same _, fun _ h => h⟩

theorem trans (h₁ : Evolves s s') (h₂ : Evolves s' s'') : Evolves s s'' where
  tables path := by
    rcases h₁.tables path with h | ⟨h, h'⟩
    · exact h ▸ h₂.tables path
    · rcases h₂.tables path with k | ⟨k, -⟩
      · exact .inr ⟨h, k.trans h'⟩
      · rw [h'] at k
        cases k
  collections name := (h₁.collections name).trans (h₂.collections name)
  buckets := fun _ h => h₂.buckets (h₁.buckets h)

end Evolves

/-! ### What the commands are for -/

/-- The collection has the vectors that the service writes. -/
def Vectors (config : MigrationConfig) (s : Storage) : Prop :=
  ∃ c, s.collections config.collection = some c ∧
    c.vectors = some ⟨config.embeddingDim, false, .cosine⟩

def Indexed (config : MigrationConfig) (s : Storage) : Prop :=
  ∃ c, s.collections config.collection = some c ∧ c.hashIndex = some QdrantPayloadIndex.keyword

def HasTable (config : MigrationConfig) (s : Storage) : Prop :=
  SameNames (s.tables config.path) columns

structure Ready (config : MigrationConfig) (s : Storage) : Prop where
  dim : 0 < config.embeddingDim
  table : HasTable config s
  vectors : Vectors config s
  indexed : Indexed config s

def Prepared : Command → Storage → Prop
  | .migrate config, s => Ready config s
  | .buckets upload ingestion, s => upload ∈ s.buckets ∧ ingestion ∈ s.buckets

section Stable

variable {config : MigrationConfig} {k : Command} {s s' : Storage} (h : Evolves s s')

include h

theorem HasTable.mono (ht : HasTable config s) : HasTable config s' := by
  rcases h.tables config.path with he | ⟨-, he⟩
  · rw [HasTable, he]
    exact ht
  · rw [HasTable, he]
    exact ⟨fun _ h => h, fun _ h => h⟩

theorem Vectors.mono (hv : Vectors config s) : Vectors config s' := by
  obtain ⟨c, hc, hv⟩ := hv
  have hg := h.collections config.collection
  rw [hc] at hg
  obtain ⟨c', hc', hv'⟩ := hg.vectors
  exact ⟨c', hc', hv'.trans hv⟩

theorem Indexed.mono (hi : Indexed config s) : Indexed config s' := by
  obtain ⟨c, hc, hi⟩ := hi
  have hg := h.collections config.collection
  rw [hc] at hg
  exact ⟨c, hg.hashIndex hi, hi⟩

theorem Prepared.mono (hp : Prepared k s) : Prepared k s' := by
  cases k with
  | migrate config =>
    exact ⟨hp.dim, hp.table.mono h, hp.vectors.mono h, hp.indexed.mono h⟩
  | buckets upload ingestion => exact ⟨h.buckets hp.1, h.buckets hp.2⟩

end Stable

/-! ### The steps -/

/-- MinIO says that a bucket is already there only if it is. -/
def Answered : (k : Command) → k.sig.Cmd → SetupChoice → Storage → Prop
  | .migrate _, _, _, _ => True
  | .buckets .., c, ch, s => match (c : BucketCmd) with
    | .makeBucket bucket =>
      ch.fate = .refused → (⟨ch.code⟩ : ErrorResponse).AlreadyThere → bucket ∈ s.buckets
    | _ => True

def setupRules (runs : Nat → Command) : (setupSystem runs).Rules where
  start _ _ := True
  call i c ch s := Answered (runs i) c ch s
  env := nofun

instance Answered.decidable (k : Command) (c : k.sig.Cmd) (ch : SetupChoice) (s : Storage) :
    Decidable (Answered k c ch s) :=
  match k, c with
  | .migrate _, _ => .isTrue trivial
  | .buckets .., .makeBucket bucket =>
    if h : ch.fate = .refused → (⟨ch.code⟩ : ErrorResponse).AlreadyThere → bucket ∈ s.buckets
    then .isTrue h else .isFalse h
  | .buckets .., .bucketExists _ | .buckets .., .exit _ => .isTrue trivial

instance (runs : Nat → Command) (i : Nat) (s : Storage) :
    Decidable ((setupRules runs).start i s) :=
  .isTrue trivial

instance (runs : Nat → Command) (i : Nat) (c : ((setupSystem runs).sig i).Cmd)
    (ch : (setupSystem runs).Choice) (s : Storage) : Decidable ((setupRules runs).call i c ch s) :=
  Answered.decidable (runs i) c ch s

instance (runs : Nat → Command) (e : (setupSystem runs).Env) (s : Storage) :
    Decidable ((setupRules runs).env e s) := e.elim

def setupGuard : (k : Command) → k.sig.Cmd → Storage → Prop
  | .migrate config, c, s => match (c : MigrationSig.Cmd) with
    | .inr (.createCollection name size) => name = config.collection ∧ size = config.embeddingDim
    | .inr (.createPayloadIndex name) => ∃ c, s.collections name = some c ∧
        ∀ type, c.hashIndex = some type → type = QdrantPayloadIndex.keyword
    | .inr (.exit code) => code = 0 → Ready config s
    | _ => True
  | .buckets upload ingestion, c, s => match (c : BucketCmd) with
    | .exit code => code = 0 → upload ∈ s.buckets ∧ ingestion ∈ s.buckets
    | _ => True

/-- What a call of run `i` leaves. -/
def Storage.after (s : Storage) (i : Nat) (k : Command) (c : k.sig.Cmd) (ch : SetupChoice) :
    Storage :=
  if ch.fate = .refused then s else s.effect i k c

section Steps

variable {i : Nat} {k : Command} {c : k.sig.Cmd} {ch : SetupChoice} {s : Storage}

/-- What a call of run `i` may do to the stores. -/
inductive Stored (i : Nat) (k : Command) (s : Storage) : Storage → Prop
  | nothing : Stored i k s s
  | table (path : PyStr) (h : s.tables path = []) :
      Stored i k s { s with tables := Function.update s.tables path columns }
  | collection (config : MigrationConfig) (hk : k = .migrate config)
      (h : s.collections config.collection = none) :
      Stored i k s { s with
        collections := Function.update s.collections config.collection
          (some (Storage.created config.embeddingDim)) }
  | index (name : PyStr) (c : Collection) (h : s.collections name = some c)
      (husable : ∀ type, c.hashIndex = some type → type = QdrantPayloadIndex.keyword) :
      Stored i k s { s with
        collections := Function.update s.collections name
          (some ⟨c.vectors, some QdrantPayloadIndex.keyword⟩) }
  | bucket (bucket : String) : Stored i k s { s with buckets := s.buckets.insert bucket }
  | exit (code : Nat) (h : code = 0 → Prepared k s) :
      Stored i k s { s with exits := Function.update s.exits i (some code) }

theorem stored_after (hg : setupGuard k c s) : Stored i k s (s.after i k c ch) := by
  rw [Storage.after]
  split
  · exact .nothing
  cases k with
  | migrate config =>
    change MigrationSig.Cmd at c
    cases c with
    | inl c =>
      cases c with
      | execute path c =>
        cases c with
        | tableInfo => exact .nothing
        | createTable =>
          change Stored i _ s (s.sqlEffect path .createTable)
          rw [Storage.sqlEffect]
          split
          · exact .table path ‹_›
          · exact .nothing
      | _ => exact .nothing
    | inr c =>
      cases c with
      | createCollection name size =>
        obtain ⟨rfl, rfl⟩ := hg
        change Stored i _ s (s.qdrantEffect i (.createCollection ..))
        rw [Storage.qdrantEffect]
        split
        case isTrue => exact .nothing
        case isFalse h => exact .collection config rfl (Option.not_isSome_iff_eq_none.1 h)
      | createPayloadIndex name =>
        obtain ⟨c, hc, h⟩ := hg
        change Stored i _ s (s.qdrantEffect i (.createPayloadIndex name))
        rw [Storage.qdrantEffect, hc]
        exact .index name c hc h
      | exit code => exact .exit code hg
      | _ => exact .nothing
  | buckets upload ingestion =>
    change BucketCmd at c
    cases c with
    | bucketExists bucket => exact .nothing
    | makeBucket bucket => exact .bucket bucket
    | exit code => exact .exit code hg

theorem evolves_update {name : PyStr} {c : Option Collection}
    (h : Grown (s.collections name) c) :
    Evolves s { s with collections := Function.update s.collections name c } := by
  refine ⟨fun _ => .inl rfl, fun n => ?_, fun _ h => h⟩
  change Grown _ (Function.update s.collections name c n)
  by_cases hn : n = name
  · rw [hn, Function.update_self]
    exact h
  · rw [Function.update_of_ne hn]
    exact .same _

/-- Every call only adds. -/
theorem evolves_after (hg : setupGuard k c s) : Evolves s (s.after i k c ch) := by
  have hstored : Stored i k s (s.after i k c ch) := stored_after hg
  generalize s.after i k c ch = s' at hstored
  cases hstored with
  | nothing => exact .refl s
  | table path h =>
    refine ⟨fun p => ?_, fun _ => .same _, fun _ h => h⟩
    by_cases hp : p = path
    · subst hp
      exact .inr ⟨h, Function.update_self ..⟩
    · exact .inl (Function.update_of_ne hp _ _)
  | collection config _ h => exact evolves_update (h ▸ .created (.inl rfl))
  | index name c h husable =>
    refine evolves_update (h ▸ ?_)
    obtain ⟨vectors, index⟩ := c
    cases index with
    | none => exact .indexed
    | some type =>
      cases husable type rfl
      exact .same _
  | bucket => exact ⟨fun _ => .inl rfl, fun _ => .same _, fun _ h => List.mem_insert_of_mem h⟩
  | exit => exact ⟨fun _ => .inl rfl, fun _ => .same _, fun _ h => h⟩

/-- Only its last call tells how a run ends. -/
theorem exits_after (hg : setupGuard k c s) {j : Nat}
    (h : (s.after i k c ch).exits j = some 0) : s.exits j = some 0 ∨ j = i ∧ Prepared k s := by
  have hstored : Stored i k s (s.after i k c ch) := stored_after hg
  generalize s.after i k c ch = s' at hstored h
  cases hstored with
  | exit code hcode =>
    change Function.update s.exits i (some code) j = some 0 at h
    by_cases hj : j = i
    · rw [hj, Function.update_self] at h
      exact .inr ⟨hj, hcode (Option.some.inj h)⟩
    · rw [Function.update_of_ne hj] at h
      exact .inl h
  | _ => exact .inl h

end Steps

/-! ### The programs -/

/-- What run `i` works under. -/
def setupContract (I : Storage → Prop) (i : Nat) (k : Command) : Contract k.sig Storage where
  inv := I
  rely := Evolves
  guard := setupGuard k
  exec c s r s' := ∃ ch, Answered k c ch s ∧ (s.reply ch k c, s.after i k c ch) = (r, s')

/-- The two commands of the stores that are looked at most. -/
abbrev migrateContract (I : Storage → Prop) (i : Nat) (config : MigrationConfig) :
    Contract MigrationSig Storage :=
  setupContract I i (.migrate config)

abbrev bucketContract (I : Storage → Prop) (i : Nat) (upload ingestion : String) :
    Contract BucketSig Storage :=
  setupContract I i (.buckets upload ingestion)

theorem Storage.answer_ok {ε α : Type} {ch : SetupChoice} {e : ε} {a b : α}
    (h : Storage.answer ch e a = .ok b) : ch.fate = .ok ∧ a = b := by
  rw [Storage.answer] at h
  split at h
  · cases h; exact ⟨‹_›, rfl⟩
  · cases h

section Migrate

variable {I : Storage → Prop} {i : Nat} {config : MigrationConfig} {b : Bool} {s : Storage}
  {α : Type}

theorem step_evolves {k : Command} {c : k.sig.Cmd} {r : k.sig.Reply c} {s s₁ s₂ : Storage}
    (hg : setupGuard k c s) (hx : (setupContract I i k).exec c s r s₁) (hr : Evolves s₁ s₂) :
    Evolves s s₂ := by
  obtain ⟨ch, -, h⟩ := hx
  cases h
  exact (evolves_after hg).trans hr

/-- What growing stores keep, a program keeps. -/
theorem wp_stays {P : Storage → Prop} {m : Migration α}
    {Q : Except MigrationError α → Storage → Prop} (hP : ∀ s s', Evolves s s' → P s → P s')
    (h : wp (migrateContract I i config) m (fun r _ => Q r) b s) (hs : P s) :
    wp (migrateContract I i config) m (fun r _ s => Q r s ∧ P s) b s :=
  Prog.wp_preserves (fun c _ _ _ _ hs _ hg hx _ hr =>
    hP _ _ (step_evolves (k := .migrate config) (c := c) hg hx hr) hs) h hs

theorem wp_plain {c : ConnCmd SqlSig} {P : Storage → Prop} (hP : ∀ s s', Evolves s s' → P s → P s')
    (hs : P s) : wp (migrateContract I i config)
      (SQLiteManager.conn (U := QdrantSig) MigrationError.sqlite c) (fun _ _ => P) b s :=
  SQLiteManager.wp_conn (fun _ => trivial) fun _ _ _ _ hx _ hr =>
    hP _ _ (step_evolves (k := .migrate config) (c := .inl c) trivial hx hr) hs

/-- The answer to a call, and the stores after it. -/
theorem exec_eq {k : Command} {c : k.sig.Cmd} {r : k.sig.Reply c} {s s₁ : Storage}
    (hx : (setupContract I i k).exec c s r s₁) :
    ∃ ch, Answered k c ch s ∧ s.reply ch k c = r ∧ s.after i k c ch = s₁ := by
  obtain ⟨ch, h, hx⟩ := hx
  exact ⟨ch, h, congrArg Prod.fst hx, congrArg Prod.snd hx⟩

theorem after_ok {k : Command} {c : k.sig.Cmd} {ch : SetupChoice} (h : ch.fate = .ok) :
    s.after i k c ch = s.effect i k c :=
  if_neg (by simp [h])

theorem hasTable_create (h : s.tables config.path = [] ∨ HasTable config s) :
    HasTable config (s.sqlEffect config.path .createTable) := by
  rw [Storage.sqlEffect]
  split
  · simp [HasTable, SameNames]
  · exact h.resolve_left ‹_›

theorem wp_tableInfo : wp (migrateContract I i config) (sql config.path .tableInfo)
    (fun r _ s => ∀ existing, r = .ok existing → s.tables config.path = existing ∨
      existing = [] ∧ HasTable config s) b s := by
  refine SQLiteManager.wp_conn (fun _ => trivial) fun r s₁ s₂ _ hx _ hr existing h => ?_
  cases r with
  | error e => cases h
  | ok names =>
    cases h
    obtain ⟨ch, -, hreply, hafter⟩ := exec_eq (k := .migrate config) hx
    obtain ⟨-, rfl⟩ := Storage.answer_ok hreply
    obtain rfl : s₁ = s := hafter.symm.trans (ite_self s)
    rcases hr.tables config.path with h | ⟨h, h'⟩
    · exact .inl h
    · refine .inr ⟨h, ?_⟩
      rw [HasTable, h']
      exact ⟨fun _ h => h, fun _ h => h⟩

theorem wp_createTable (h : s.tables config.path = [] ∨ HasTable config s) :
    wp (migrateContract I i config) (sql config.path .createTable)
      (fun r _ s => r = .ok () → HasTable config s) b s := by
  refine SQLiteManager.wp_conn (fun _ => trivial) fun r s₁ s₂ _ hx _ hr hok => ?_
  cases r with
  | error e => cases hok
  | ok _ =>
    obtain ⟨ch, -, hreply, hafter⟩ := exec_eq (k := .migrate config) hx
    obtain ⟨hfate, -⟩ := Storage.answer_ok hreply
    obtain rfl : s₁ = s.sqlEffect config.path .createTable := hafter.symm.trans (after_ok hfate)
    exact (hasTable_create h).mono hr

theorem wp_indexedDocumentsTable : wp (migrateContract I i config)
    (CreateSqLiteTables.indexedDocumentsTable config)
    (fun r _ s => r = .ok () → HasTable config s) b s := by
  refine wp_bind wp_tableInfo (fun _ _ _ _ => nofun) fun existing b s h => ?_
  specialize h existing rfl
  refine wp_ite (fun _ => wp_raise nofun) fun hnew => wp_createTable ?_
  rcases h with h | ⟨-, h⟩
  · by_cases hempty : existing = []
    · exact .inl (h.trans hempty)
    · refine .inr ?_
      rw [HasTable, h]
      exact not_not.1 fun hn => hnew ⟨hempty, hn⟩
  · exact .inr h

theorem wp_createTables : wp (migrateContract I i config) (CreateSqLiteTables.run config)
    (fun r _ s => r = .ok () → HasTable config s) b s := by
  have keep {s : Storage} {b : Bool} {c : ConnCmd SqlSig} (h : HasTable config s) :=
    @wp_plain I i config b s c _ (fun _ _ he h => HasTable.mono he h) h
  have free {s : Storage} {b : Bool} (c : ConnCmd SqlSig) :=
    @wp_plain I i config b s c (fun _ => True) (fun _ _ _ h => h) trivial
  refine SQLiteManager.wp_within (I := fun _ _ => True)
    (R := fun r _ s => r = .ok () → HasTable config s)
    (F := fun r _ s => r = .ok () → HasTable config s) ?_ (fun _ _ _ => wp_indexedDocumentsTable)
    (fun e b s _ => ?_) (fun _ b s h => ?_) fun r b s h => ?_
  · refine wp_mono (wp_of_issues (I := fun _ => True) (SQLiteManager.issues_enter _)
      (fun c s hc _ _ => ⟨?_, fun _ _ _ _ _ _ => trivial⟩) trivial) fun r _ _ _ _ => ?_
    · cases c with
      | inl c => trivial
      | inr c => exact hc.elim
    · cases r with
      | ok => trivial
      | error => exact nofun
  · exact wp_mono (free _) fun r _ _ _ _ => by cases r <;> exact nofun
  · refine wp_mono (keep (h rfl)) fun r _ _ _ h => ?_
    cases r with
    | ok => exact fun _ => h
    | error => exact nofun
  · by_cases hr : r = .ok ()
    · refine wp_mono (keep (h hr)) fun x _ _ _ h => ?_
      cases x with
      | ok => exact fun _ => h
      | error => exact nofun
    · refine wp_mono (free _) fun x _ _ _ _ => ?_
      cases x with
      | ok => exact fun h => absurd h hr
      | error => exact nofun

/-- The answer to a call of the Qdrant client, and the stores by then. -/
theorem exec_qdrant {c : QdrantCmd} {r : QdrantSig.Reply c} {s s₁ s₂ : Storage}
    (hg : setupGuard (.migrate config) (.inr c) s)
    (hx : (migrateContract I i config).exec (.inr c) s r s₁) (hr : Evolves s₁ s₂) :
    ∃ ch, s.qdrantReply ch c = r ∧ Evolves s s₂ ∧
      (ch.fate = .ok → Evolves (s.qdrantEffect i c) s₂) := by
  have he := step_evolves (k := .migrate config) hg hx hr
  obtain ⟨ch, -, rfl, rfl⟩ := exec_eq (k := .migrate config) hx
  refine ⟨ch, rfl, he, fun hf => ?_⟩
  have hafter : s.after i (.migrate config) (.inr c) ch = s.qdrantEffect i c := after_ok hf
  exact hafter ▸ hr

section Qdrant

variable {c : QdrantCmd} {β : Type} {x : QdrantSig.Reply c → Except QdrantError β}

/-- A call of the Qdrant client whose reply is the result. -/
theorem wp_qdrant {Q : Except MigrationError β → Storage → Prop}
    (hg : setupGuard (.migrate config) (.inr c) s) (herr : ∀ e s, Q (.error e) s)
    (hok : ∀ ch a s₂, x (s.qdrantReply ch c) = .ok a → Evolves s s₂ →
      (ch.fate = .ok → Evolves (s.qdrantEffect i c) s₂) → Q (.ok a) s₂) :
    wp (migrateContract I i config) (qdrant c >>= fun r => ofQdrant (x r))
      (fun r _ => Q r) b s := by
  refine wp_call_bind (fun _ => hg) fun r s₁ s₂ _ hx _ hr => ?_
  obtain ⟨ch, rfl, he, hf⟩ := exec_qdrant hg hx hr
  refine wp_ofExcept (Q := fun r _ => Q r) ?_
  cases hm : (x (s.qdrantReply ch c)).mapError MigrationError.qdrant with
  | error e => exact herr e s₂
  | ok a => exact hok ch a s₂ (of_mapError_ok hm) he hf

/-- A call of the Qdrant client, and what follows it. -/
theorem wp_qdrant_bind {f : β → Migration α} {Q : Except MigrationError α → Storage → Prop}
    (hg : setupGuard (.migrate config) (.inr c) s) (herr : ∀ e s, Q (.error e) s)
    (hok : ∀ ch a s₂, x (s.qdrantReply ch c) = .ok a → Evolves s s₂ →
      wp (migrateContract I i config) (f a) (fun r _ => Q r) b s₂) :
    wp (migrateContract I i config) (qdrant c >>= fun r => ofQdrant (x r) >>= f)
      (fun r _ => Q r) b s := by
  refine wp_call_bind (fun _ => hg) fun r s₁ s₂ _ hx _ hr => ?_
  obtain ⟨ch, rfl, he, -⟩ := exec_qdrant hg hx hr
  exact wp_ofExcept_bind (fun e _ => herr e s₂) fun a ha => hok ch a s₂ (of_mapError_ok ha) he

end Qdrant

theorem vectors_of_checkExisting {name : PyStr} {dim : Int} {vectors : Option VectorParams}
    (h : QdrantCollection.checkExisting name dim vectors = .ok ()) :
    vectors = some ⟨dim, false, .cosine⟩ := by
  unfold QdrantCollection.checkExisting at h
  split at h
  · cases h
  case h_2 v =>
    obtain ⟨size, multivector, distance⟩ := v
    split_ifs at h
    simp_all

theorem lookUp_ok {β : Type} {name : PyStr} {ch : SetupChoice} {f : Collection → β} {a : β}
    (h : s.lookUp ch name f = .ok a) :
    ch.fate = .ok ∧ ∃ c, s.collections name = some c ∧ f c = a := by
  rw [Storage.lookUp] at h
  split at h
  case h_1 c hc => exact ⟨(Storage.answer_ok h).1, c, hc, (Storage.answer_ok h).2⟩
  case h_2 => cases h

theorem make_ok {name : PyStr} {ch : SetupChoice} (h : s.make ch name = .ok ()) :
    ch.fate = .ok ∧ s.collections name = none := by
  rw [Storage.make] at h
  split at h
  case h_1 => cases h
  case h_2 hc => exact ⟨(Storage.answer_ok h).1, hc⟩

theorem wp_collection : wp (migrateContract I i config) (QdrantCollection.run config)
    (fun r _ s => r = .ok () → 0 < config.embeddingDim ∧ Vectors config s) b s := by
  refine wp_ite (fun _ => wp_raise nofun) fun hdim => ?_
  have hdim : 0 < config.embeddingDim := by omega
  refine wp_bind (R := fun _ _ _ => True) (wp_assign trivial) (fun _ _ _ _ => nofun)
    fun _ b s _ => ?_
  refine wp_qdrant_bind trivial (fun _ _ => nofun) fun _ found s _ _ => ?_
  refine wp_ite (fun _ => ?_) fun _ => ?_
  · refine wp_qdrant_bind trivial (fun _ _ => nofun) fun ch c s₂ hc he => wp_ofExcept fun hok => ?_
    obtain ⟨-, c, hfound, rfl⟩ := lookUp_ok hc
    exact ⟨hdim, Vectors.mono he ⟨c, hfound, vectors_of_checkExisting hok⟩⟩
  · refine wp_qdrant ⟨rfl, rfl⟩ (fun _ _ => nofun) fun ch _ s₂ hc _ he _ => ⟨hdim, ?_⟩
    obtain ⟨hfate, hnone⟩ := make_ok hc
    exact Vectors.mono (he hfate)
      ⟨Storage.created config.embeddingDim, by simp [Storage.qdrantEffect, hnone], rfl⟩

theorem wp_payloadIndex : wp (migrateContract I i config) (QdrantPayloadIndex.run config)
    (fun r _ s => r = .ok () → Indexed config s) b s := by
  refine wp_bind (R := fun _ _ _ => True) (wp_assign trivial) (fun _ _ _ _ => nofun)
    fun _ b s _ => ?_
  refine wp_qdrant_bind trivial (fun _ _ => nofun) fun ch c s₂ hc he => ?_
  obtain ⟨-, c, hfound, rfl⟩ := lookUp_ok hc
  cases hidx : c.hashIndex with
  | some type =>
    simp only [id, hidx]
    refine wp_ite (fun _ => wp_raise nofun) fun htype => wp_pure fun _ => ?_
    exact Indexed.mono he ⟨c, hfound, hidx.trans (congrArg some (not_not.1 htype))⟩
  | none =>
    simp only [id, hidx]
    have hg := he.collections config.collection
    rw [hfound] at hg
    obtain ⟨c₂, hc₂, husable⟩ := hg.usable fun _ h => nomatch hidx.symm.trans h
    refine wp_qdrant ⟨c₂, hc₂, husable⟩ (fun _ _ => nofun) fun ch _ s₃ hok _ he _ => ?_
    obtain ⟨hfate, -⟩ := lookUp_ok hok
    exact Indexed.mono (he hfate) ⟨⟨c₂.vectors, some QdrantPayloadIndex.keyword⟩,
      by simp [Storage.qdrantEffect, hc₂], rfl⟩

/-- All three migrations. -/
theorem wp_migrations : wp (migrateContract I i config) (migrations config)
    (fun r _ s => r = .ok () → Ready config s) b s := by
  unfold migrations
  refine wp_bind wp_createTables (fun _ _ _ _ => nofun) fun _ b s ht => ?_
  refine wp_bind (wp_stays (fun _ _ he h => h.mono he) wp_collection (ht rfl))
    (fun _ _ _ _ => nofun) fun _ b s ⟨hv, ht⟩ => ?_
  refine wp_mono (wp_stays (fun _ _ he (h : HasTable config _ ∧ Vectors config _) =>
    ⟨h.1.mono he, h.2.mono he⟩) wp_payloadIndex ⟨ht, (hv rfl).2⟩) ?_
  exact fun r b s _ h hok => ⟨(hv rfl).1, h.2.1, h.2.2, h.1 hok⟩

theorem wp_closeClient {P : Storage → Prop} (hP : ∀ s s', Evolves s s' → P s → P s') (hs : P s) :
    wp (migrateContract I i config) closeClient (fun r _ s => r = .ok () ∧ P s) b s := by
  refine wp_self_bind (wp_ite (fun _ => ?_) fun _ => wp_pure ⟨rfl, hs⟩)
  refine wp_bind (R := fun r _ s => r = .ok () ∧ P s) (wp_assign ⟨rfl, hs⟩)
    (fun _ _ _ h => nomatch h.1) fun _ b s ⟨_, h⟩ => ?_
  refine wp_tryExcept (R := fun _ _ => P) ?_ (fun _ _ _ h => ⟨rfl, h⟩)
    fun _ _ _ h => wp_pure ⟨rfl, h⟩
  refine wp_mono (wp_stays hP (wp_qdrant (Q := fun _ _ => True) trivial (fun _ _ => trivial)
    fun _ _ _ _ _ _ => trivial) h) ?_
  exact fun _ _ _ _ h => h.2

theorem wp_migrate : wp (migrateContract I i config) (migrate config)
    (fun r _ s => r = .ok 0 → Ready config s) b s := by
  apply wp_andFinally (R := fun r _ s => r = .ok 0 → Ready config s)
  · refine wp_tryExcept (R := fun r _ s => r = .ok 0 → Ready config s) ?_ (fun _ _ _ h => h)
      fun _ _ _ _ => wp_pure nofun
    exact wp_bind wp_migrations (fun _ _ _ _ => nofun) fun _ _ _ h => wp_pure fun _ => h rfl
  · intro r b s h
    refine wp_mono (wp_closeClient (P := fun s => r = .ok 0 → Ready config s)
      (fun _ _ he hp hr => Prepared.mono (k := .migrate config) he (hp hr)) h) fun x b s _ hx => ?_
    rw [hx.1]
    exact hx.2

end Migrate

section Buckets

variable {I : Storage → Prop} {i : Nat} {upload ingestion : String} {s : Storage}

/-- One bucket: it is there already, or it is made, or another run has made it. -/
theorem wp_makeBucket {bucket : String} {α : Type} {Q : α → Storage → Prop}
    {f : Except ErrorResponse Unit → Prog BucketSig α}
    (h : ∀ r s₂, Evolves s s₂ → ((∀ e, r = .error e → e.AlreadyThere) → bucket ∈ s₂.buckets) →
      Prog.wp (bucketContract I i upload ingestion) (f r) Q s₂) :
    Prog.wp (bucketContract I i upload ingestion) (bucketCall (.makeBucket bucket) >>= f) Q s := by
  refine Prog.wp_perform_bind (fun _ => trivial) fun r s₁ s₂ _ hx _ hr => ?_
  have he := step_evolves (k := .buckets upload ingestion) (c := .makeBucket bucket) trivial hx hr
  refine h r s₂ he fun hthere => hr.buckets ?_
  obtain ⟨ch, hanswered, rfl, rfl⟩ := exec_eq (k := .buckets upload ingestion) hx
  by_cases hf : ch.fate = .refused
  · have hstay : s.after i (.buckets upload ingestion) (.makeBucket bucket) ch = s := if_pos hf
    rw [hstay]
    by_contra hb
    refine hb (hanswered hf (hthere _ ?_))
    exact (if_neg hb).trans (if_neg (by simp [hf]))
  · have hdone : s.after i (.buckets upload ingestion) (.makeBucket bucket) ch =
        s.bucketEffect i (.makeBucket bucket) := if_neg hf
    rw [hdone]
    exact List.mem_insert_self

theorem wp_ensureBuckets (buckets : List String) : Prog.wp (bucketContract I i upload ingestion)
    (ensureBuckets buckets) (fun r s => r = .ok () → ∀ b ∈ buckets, b ∈ s.buckets) s := by
  induction buckets generalizing s with
  | nil => exact Prog.wp_ret fun _ => nofun
  | cons bucket rest ih =>
    have next {s : Storage} (h : bucket ∈ s.buckets) :
        Prog.wp (bucketContract I i upload ingestion) (ensureBuckets rest)
          (fun r s => r = .ok () → ∀ b ∈ bucket :: rest, b ∈ s.buckets) s := by
      refine Prog.wp_mono _ (Prog.wp_preserves (P := fun s => bucket ∈ s.buckets) ?_ ih h) ?_
      · exact fun c s r s₁ s₂ hs _ hg hx _ hr =>
          (step_evolves (k := .buckets upload ingestion) (c := c) hg hx hr).buckets hs
      · exact fun r s _ h hok => List.forall_mem_cons.2 ⟨h.2, h.1 hok⟩
    refine Prog.wp_perform_bind (fun _ => trivial) fun r s₁ s₂ _ hx _ hr => ?_
    have he :=
      step_evolves (k := .buckets upload ingestion) (c := .bucketExists bucket) trivial hx hr
    obtain ⟨ch, -, rfl, -⟩ := exec_eq (k := .buckets upload ingestion) hx
    generalize hm : s.reply ch (.buckets upload ingestion) (.bucketExists bucket) = found
    change Except ErrorResponse Bool at found
    cases found with
    | error e => exact Prog.wp_ret nofun
    | ok found =>
      cases found with
      | true => exact next (he.buckets (of_decide_eq_true (Storage.answer_ok hm).2))
      | false =>
        refine wp_makeBucket fun r s₂ _ hthere => ?_
        cases r with
        | error e =>
          refine Prog.wp_ite (fun h => next (hthere fun e' he => ?_)) fun _ => Prog.wp_ret nofun
          cases he
          exact h
        | ok => exact next (hthere nofun)

end Buckets

theorem wp_command {I : Storage → Prop} {i : Nat} {s : Storage} (k : Command) :
    Prog.wp (setupContract I i k) k.main (fun _ _ => True) s := by
  cases k with
  | migrate config =>
    refine Prog.wp_bind (Prog.wp_mono _ (@wp_migrate I i config false s) ?_)
    rintro ⟨_ | code, _⟩ s - h -
    · exact ⟨nofun, fun _ _ _ _ _ _ => Prog.wp_ret trivial⟩
    · exact ⟨fun hcode => h (congrArg Except.ok hcode), fun _ _ _ _ _ _ => Prog.wp_ret trivial⟩
  | buckets upload ingestion =>
    refine Prog.wp_bind (Prog.wp_mono _ (wp_ensureBuckets _) ?_)
    rintro (_ | _) s - h -
    · exact ⟨nofun, fun _ _ _ _ _ _ => Prog.wp_ret trivial⟩
    · have h := h rfl
      exact ⟨fun _ => ⟨h upload (by simp), h ingestion (by simp)⟩,
        fun _ _ _ _ _ _ => Prog.wp_ret trivial⟩

/-! ### Stores that can still be prepared -/

/-- Nothing is in the way: no old table, and no other kind of collection. -/
structure Compatible (config : MigrationConfig) (s : Storage) : Prop where
  dim : 0 < config.embeddingDim
  table : s.tables config.path = [] ∨ HasTable config s
  vectors : (s.collections config.collection).isSome → Vectors config s
  index : ∀ c, s.collections config.collection = some c →
    ∀ type, c.hashIndex = some type → type = QdrantPayloadIndex.keyword

/-- What a command needs to find. -/
def Repairable : Command → Storage → Prop
  | .migrate config, s => Compatible config s
  | .buckets .., _ => True

/-- Two configurations that name one collection name one vector size. -/
def Agree : Command → Command → Prop
  | .migrate config, .migrate config' =>
    config'.collection = config.collection → config'.embeddingDim = config.embeddingDim
  | _, _ => True

theorem repairable_after {k k' : Command} {i : Nat} {c : k'.sig.Cmd} {ch : SetupChoice}
    {s : Storage} (hg : setupGuard k' c s) (hagree : Agree k k') (h : Repairable k s) :
    Repairable k (s.after i k' c ch) := by
  cases k with
  | buckets => trivial
  | migrate config =>
    have he : Evolves s (s.after i k' c ch) := evolves_after hg
    have hstored : Stored i k' s (s.after i k' c ch) := stored_after hg
    generalize s.after i k' c ch = s' at he hstored
    have htable : s'.tables config.path = [] ∨ HasTable config s' := by
      rcases h.table with ht | ht
      · rcases he.tables config.path with hs | ⟨-, hs⟩
        · exact .inl (hs.trans ht)
        · exact .inr (by simp [HasTable, SameNames, hs])
      · exact .inr (ht.mono he)
    -- what is not created in this step grows out of what was there
    have kept (hnone : s.collections config.collection = none →
        s'.collections config.collection = none) : Compatible config s' := by
      cases hc : s.collections config.collection with
      | none =>
        have hc' := hnone hc
        exact ⟨h.dim, htable, fun hs => (by simp [hc'] at hs), fun c hs => (by simp [hc'] at hs)⟩
      | some c =>
        refine ⟨h.dim, htable, fun _ => (h.vectors (by simp [hc])).mono he, fun c' hc' => ?_⟩
        have hg := he.collections config.collection
        rw [hc] at hg
        obtain ⟨y, hy, husable⟩ := hg.usable (h.index c hc)
        cases hc'.symm.trans hy
        exact husable
    cases hstored with
    | collection config' hk hnone =>
      by_cases hname : config'.collection = config.collection
      · subst hk
        have hdim := hagree hname
        have hnew : Function.update s.collections config'.collection
            (some (Storage.created config'.embeddingDim)) config.collection =
              some (Storage.created config.embeddingDim) := by
          rw [hname, hdim, Function.update_self]
        refine ⟨h.dim, htable, fun _ => ⟨_, hnew, rfl⟩, fun c hc type ht => ?_⟩
        cases hnew.symm.trans hc
        cases ht
      · exact kept (Function.update_of_ne (Ne.symm hname) _ _).trans
    | index name c hc =>
      refine kept fun hnone => (Function.update_of_ne (fun hname => ?_) _ _).trans hnone
      rw [hname, hc] at hnone
      cases hnone
    | _ => exact kept fun hnone => hnone

/-! ### Any number of runs -/

/-- What holds in every run from these stores. -/
structure SetupInv (s₀ : Storage) (runs : Nat → Command) (s : Storage) : Prop where
  evolves : Evolves s₀ s
  prepared : ∀ i, s.exits i = some 0 → Prepared (runs i) s
  repairable : ∀ k, (∀ i, Agree k (runs i)) → Repairable k s₀ → Repairable k s

def setupCertificate (s₀ : Storage) (runs : Nat → Command) :
    (setupSystem runs).Certificate (setupRules runs) where
  inv := SetupInv s₀ runs
  rely _ := Evolves
  guard i := setupGuard (runs i)
  fresh _ _ := True
  rely_refl _ := .refl
  rely_trans _ _ _ _ := .trans
  fresh_rely _ _ _ _ _ _ := trivial
  enter_ok _ s hinv _ _ := ⟨hinv, fun _ _ => .refl s⟩
  call_ok i c ch s hinv hg _ := by
    have he : Evolves s (s.after i (runs i) c ch) := evolves_after hg
    refine ⟨⟨hinv.evolves.trans he, fun j hj => ?_, fun k hk h =>
      repairable_after hg (hk i) (hinv.repairable k hk h)⟩, fun _ _ => he⟩
    rcases exits_after hg hj with hj | ⟨rfl, hp⟩
    · exact (hinv.prepared j hj).mono he
    · exact hp.mono he
  leave_ok _ s hinv := ⟨hinv, fun _ _ => .refl s⟩
  env_ok e := e.elim
  main_ok i _ _ _ _ _ _ := wp_command (runs i)

section Runs

variable {s₀ : Storage} {runs : Nat → Command} (h₀ : ∀ i, s₀.exits i = none)
  {cfg : (setupSystem runs).Config} (h : (setupSystem runs).Reachable (setupRules runs) s₀ cfg)

include h₀ h

theorem setupInv : SetupInv s₀ runs cfg.shared :=
  (setupCertificate s₀ runs).sound
    ⟨.refl s₀, fun i hi => (by simp [h₀ i] at hi), fun _ _ h => h⟩ (fun _ => trivial) h

/-- Runs that overlap, fail and stop anywhere change nothing that was there: a table keeps its
columns, a collection its vectors and the index it has, and no bucket goes. -/
theorem setup_only_adds : Evolves s₀ cfg.shared := (setupInv h₀ h).evolves

/-- What has exited with 0 has left its stores as the services need them, and so they stay. -/
theorem exit_zero_prepared {i : Nat} (hi : cfg.shared.exits i = some 0) :
    Prepared (runs i) cfg.shared :=
  (setupInv h₀ h).prepared i hi

end Runs

/-! ### A run that is cut off, and others -/

def sampleConfig : MigrationConfig := ⟨ofString "db/documents.db", ofString "documents", 1024⟩

def sampleRuns : Nat → Command
  | 0 | 1 => .migrate sampleConfig
  | _ => .buckets "uploads" "ingestion"

def emptyStorage : Storage := ⟨fun _ => [], fun _ => none, [], fun _ => none⟩

abbrev SetupStep := (setupSystem sampleRuns).Step

def wellDone : SetupChoice := ⟨.ok, ""⟩

/-- The first run stops after it has created the collection, the second one finishes the work. Two
others make the buckets, and one finds the second bucket made in between. -/
def sampleSteps : List SetupStep := List.flatten
  [[.start 0], List.replicate 10 (.call 0 wellDone), [.crash 0, .start 1],
    List.replicate 14 (.call 1 wellDone), [.start 2, .start 3],
    List.replicate 3 (.call 2 wellDone), List.replicate 4 (.call 3 wellDone),
    [.call 2 ⟨.refused, "BucketAlreadyOwnedByYou"⟩, .call 2 wellDone]]

theorem sample_reachable : ∃ cfg,
    (setupSystem sampleRuns).Reachable (setupRules _) emptyStorage cfg ∧
    (cfg.shared.exits 0, cfg.shared.exits 1, cfg.shared.exits 2) = (none, some 0, some 0) := by
  have hrules : (setupRules sampleRuns).AllowsAll (Actors.init _ emptyStorage) sampleSteps := by
    decide +kernel
  have hleft : (setupSystem sampleRuns).leaves emptyStorage sampleSteps
      (fun s => (s.exits 0, s.exits 1, s.exits 2)) = some (none, some 0, some 0) := by
    decide +kernel
  exact Actors.Reachable.of_leaves hrules hleft

/-- A table in another order, a collection with its index and one of the buckets are there. -/
def usedStorage : Storage where
  tables path :=
    if path = sampleConfig.path then
      ["filename", "hash", "object_path", "chunk_count", "indexed_at"]
    else []
  collections name :=
    if name = sampleConfig.collection then
      some ⟨some ⟨1024, false, .cosine⟩, some QdrantPayloadIndex.keyword⟩
    else none
  buckets := ["uploads"]
  exits _ := none

/-- A run that stops and one that goes to its end, and two that both find a bucket missing. -/
def usedSteps : List SetupStep := List.flatten
  [[.start 0], List.replicate 4 (.call 0 wellDone), [.crash 0, .start 1],
    List.replicate 13 (.call 1 wellDone), [.start 2, .start 3],
    List.replicate 2 (.call 2 wellDone), List.replicate 4 (.call 3 wellDone),
    [.call 2 ⟨.ok, "BucketAlreadyOwnedByYou"⟩, .call 2 wellDone]]

/-- The runs end with exit code 0, and what they found is as it was. -/
theorem setup_only_adds_sample : ∃ cfg,
    (setupSystem sampleRuns).Reachable (setupRules _) usedStorage cfg ∧
    (cfg.shared.exits 1, cfg.shared.exits 2) = (some 0, some 0) ∧
    Evolves usedStorage cfg.shared ∧
    cfg.shared.tables sampleConfig.path = usedStorage.tables sampleConfig.path ∧
    cfg.shared.collections sampleConfig.collection =
      usedStorage.collections sampleConfig.collection ∧
    "uploads" ∈ cfg.shared.buckets := by
  have hrules : (setupRules sampleRuns).AllowsAll (Actors.init _ usedStorage) usedSteps := by
    decide +kernel
  have hleft : (setupSystem sampleRuns).leaves usedStorage usedSteps
      (fun s => (s.exits 1, s.exits 2)) = some (some 0, some 0) := by
    decide +kernel
  obtain ⟨cfg, h, hexits⟩ := Actors.Reachable.of_leaves hrules hleft
  have hkept := setup_only_adds (fun _ => rfl) h
  refine ⟨cfg, h, hexits, hkept, ?_, ?_, hkept.buckets (by decide)⟩
  · obtain htable | ⟨hnone, -⟩ := hkept.tables sampleConfig.path
    · exact htable
    · cases hnone
  · exact (hkept.collections sampleConfig.collection).hashIndex rfl

theorem exit_zero_prepared_sample : ∃ cfg,
    (setupSystem sampleRuns).Reachable (setupRules _) emptyStorage cfg ∧
    Ready sampleConfig cfg.shared ∧ "uploads" ∈ cfg.shared.buckets := by
  obtain ⟨cfg, h, hexits⟩ := sample_reachable
  obtain ⟨-, h₁, h₂⟩ := Prod.mk.inj hexits |>.imp_right Prod.mk.inj
  exact ⟨cfg, h, exit_zero_prepared (i := 1) (fun _ => rfl) h h₁,
    (exit_zero_prepared (i := 2) (fun _ => rfl) h h₂).1⟩

end Setup
