import RagPipeline.Interact.Total
import RagPipeline.Setup.Ready

/-!
# Running a command again

Whatever earlier runs have left behind, a command that is run again, alone and with every call
answered, ends with exit code 0.

## Main definitions

* `alone`: a run beside which nothing happens and to which nothing is refused.

## Main results

* `rerun_succeeds`: what a run that was cut off has finished is not in the way of the next one.
-/
namespace Setup

open Wire Interact Method Rag

def answered : SetupChoice := ⟨.ok, ""⟩

def alone (i : Nat) (k : Command) : Contract k.sig Storage where
  inv _ := True
  rely := Eq
  guard _ _ := True
  exec c s r s' := (s.reply answered k c, s.after i k c answered) = (r, s')

section Migrate

variable {i : Nat} {config : MigrationConfig} {b : Bool} {s : Storage}

theorem gives_sql (c : SqlCmd) : Gives (alone i (.migrate config)) (sql config.path c)
    (s.sqlResult config.path c) b s b (s.sqlEffect config.path c) :=
  SQLiteManager.gives_conn trivial fun x s₁ s₂ hx hr => by
    cases hr
    exact ⟨(congrArg Prod.fst hx).symm, (congrArg Prod.snd hx).symm⟩

theorem gives_qdrant {c : QdrantCmd} {β : Type} {x : QdrantSig.Reply c → Except QdrantError β}
    {a : β} (h : x (s.qdrantReply answered c) = .ok a) :
    Gives (alone i (.migrate config)) (qdrant c >>= fun r => ofQdrant (x r)) a b s b
      (s.qdrantEffect i c) :=
  ends_call_bind trivial fun r s₁ s₂ hx hr => by
    cases hr
    obtain rfl : s.qdrantReply answered c = r := congrArg Prod.fst hx
    obtain rfl : s.qdrantEffect i c = s₁ := congrArg Prod.snd hx
    exact gives_ofExcept (by rw [h]; rfl)

theorem gives_createTables (hg : s.tables config.path = [] ∨ HasTable config s) :
    Gives (alone i (.migrate config)) (CreateSqLiteTables.run config) () b s b
      (s.sqlEffect config.path .createTable) := by
  refine SQLiteManager.gives_within (fun _ _ _ => trivial) (fun c s x s₁ s₂ hc hx hr => ?_) ?_
  · cases hr
    cases c with
    | execute => exact hc.elim
    | _ => exact ⟨⟨_, (congrArg Prod.fst hx).symm⟩, (congrArg Prod.snd hx).symm⟩
  · refine gives_bind (gives_sql .tableInfo) ?_
    refine gives_ite_false (fun hold => ?_) (gives_sql .createTable)
    rcases hg with hg | hg
    · exact hold.1 hg
    · exact hold.2 hg

theorem gives_qdrant_bind {c : QdrantCmd} {α β : Type}
    {x : QdrantSig.Reply c → Except QdrantError β} {f : β → Migration α} {r : β} {a : α} {b' : Bool}
    {s' : Storage} (h : x (s.qdrantReply answered c) = .ok r)
    (hf : Gives (alone i (.migrate config)) (f r) a b (s.qdrantEffect i c) b' s') :
    Gives (alone i (.migrate config)) (qdrant c >>= fun r => ofQdrant (x r) >>= f) a b s b' s' :=
  ends_call_bind trivial fun r s₁ s₂ hx hr => by
    cases hr
    obtain rfl : s.qdrantReply answered c = r := congrArg Prod.fst hx
    obtain rfl : s.qdrantEffect i c = s₁ := congrArg Prod.snd hx
    exact gives_bind (gives_ofExcept (by rw [h]; rfl)) hf

theorem checkExisting_eq {name : PyStr} {dim : Int} {vectors : Option VectorParams}
    (h : vectors = some ⟨dim, false, .cosine⟩) :
    QdrantCollection.checkExisting name dim vectors = .ok () := by
  simp [h, QdrantCollection.checkExisting]

/-- No other run is needed for this step to keep what it was started with. -/
theorem repairable_step {c : QdrantCmd} (hg : setupGuard (.migrate config) (.inr c) s)
    (h : Compatible config s) : Compatible config (s.qdrantEffect i c) :=
  @repairable_after (.migrate config) (.migrate config) i (.inr c) answered s hg (fun _ => rfl) h

theorem evolves_step {c : QdrantCmd} (hg : setupGuard (.migrate config) (.inr c) s) :
    Evolves s (s.qdrantEffect i c) :=
  @evolves_after i (.migrate config) (.inr c) answered s hg

theorem gives_collection (h : Compatible config s) : ∃ s',
    Gives (alone i (.migrate config)) (QdrantCollection.run config) () b s true s' ∧
      Evolves s s' ∧ Compatible config s' ∧ Vectors config s' := by
  have hdim : ¬ config.embeddingDim ≤ 0 := by
    have := h.dim
    omega
  have hexists : s.qdrantReply answered (.collectionExists config.collection) =
      Except.ok (s.collections config.collection).isSome := rfl
  cases hc : s.collections config.collection with
  | some c =>
    have hv := h.vectors (by rw [hc]; rfl)
    refine ⟨s, gives_ite_false hdim (gives_bind gives_assign ?_), .refl s, h, hv⟩
    refine gives_qdrant_bind (hexists.trans (by rw [hc]; rfl)) (gives_ite_true rfl ?_)
    have hget : s.qdrantReply answered (.getCollection config.collection) = Except.ok c := by
      change s.lookUp answered config.collection id = .ok c
      rw [Storage.lookUp, hc]
      rfl
    obtain ⟨c', hc', hv⟩ := hv
    cases hc.symm.trans hc'
    exact gives_qdrant_bind hget (gives_ofExcept (checkExisting_eq hv))
  | none =>
    have hmake : s.qdrantReply answered (.createCollection config.collection config.embeddingDim) =
        Except.ok () := by
      change s.make answered config.collection = .ok ()
      rw [Storage.make, hc]
      rfl
    refine ⟨s.qdrantEffect i (.createCollection config.collection config.embeddingDim),
      gives_ite_false hdim (gives_bind gives_assign ?_), evolves_step ⟨rfl, rfl⟩,
      repairable_step ⟨rfl, rfl⟩ h, Storage.created config.embeddingDim, ?_, rfl⟩
    · have hno : s.qdrantReply answered (.collectionExists config.collection) =
          Except.ok false := hexists.trans (by rw [hc]; rfl)
      exact gives_qdrant_bind hno (gives_ite_false Bool.false_ne_true (gives_qdrant hmake))
    · simp [Storage.qdrantEffect, hc]

theorem gives_payloadIndex (h : Compatible config s) (hv : Vectors config s) : ∃ s',
    Gives (alone i (.migrate config)) (QdrantPayloadIndex.run config) () b s true s' ∧
      Evolves s s' ∧ Indexed config s' := by
  obtain ⟨c, hc, -⟩ := hv
  have husable := h.index c hc
  have hget : s.qdrantReply answered (.getCollection config.collection) = Except.ok c := by
    change s.lookUp answered config.collection id = .ok c
    rw [Storage.lookUp, hc]
    rfl
  cases hidx : c.hashIndex with
  | some type =>
    cases husable type hidx
    refine ⟨s, gives_bind gives_assign (gives_qdrant_bind hget ?_), .refl s, c, hc, hidx⟩
    simp only [hidx]
    exact gives_ite_false (fun h => h rfl) gives_pure
  | none =>
    have hmade : s.qdrantReply answered (.createPayloadIndex config.collection) = Except.ok () := by
      change s.lookUp answered config.collection (fun _ => ()) = .ok ()
      rw [Storage.lookUp, hc]
      rfl
    refine ⟨s.qdrantEffect i (.createPayloadIndex config.collection),
      gives_bind gives_assign (gives_qdrant_bind hget ?_),
      @evolves_step i config s _ ⟨c, hc, husable⟩,
      ⟨c.vectors, some QdrantPayloadIndex.keyword⟩, ?_, rfl⟩
    · simp only [hidx]
      exact gives_qdrant hmade
    · simp [Storage.qdrantEffect, hc]

theorem gives_migrations (h : Compatible config s) : ∃ s',
    Gives (alone i (.migrate config)) (migrations config) () b s true s' ∧ Ready config s' := by
  have htable : HasTable config (s.sqlEffect config.path .createTable) := hasTable_create h.table
  have hstep : Compatible config (s.sqlEffect config.path .createTable) :=
    @repairable_after (.migrate config) (.migrate config) i
      (.inl (.execute config.path .createTable)) answered s trivial (fun _ => rfl) h
  obtain ⟨s₂, hg₂, he₂, hc₂, hv₂⟩ := gives_collection (i := i) (b := b) hstep
  obtain ⟨s₃, hg₃, he₃, hi₃⟩ := gives_payloadIndex (i := i) (b := true) hc₂ hv₂
  unfold migrations
  exact ⟨s₃, gives_bind (gives_createTables h.table) (gives_bind hg₂ hg₃),
    h.dim, (htable.mono he₂).mono he₃, hv₂.mono he₃, hi₃⟩

theorem gives_closeClient : Gives (alone i (.migrate config)) closeClient () true s false s :=
  gives_bind gives_self <| gives_ite_true rfl <| gives_bind gives_assign <|
    gives_tryExcept (gives_qdrant (c := .closeClient) rfl)

theorem gives_migrate (h : Compatible config s) : ∃ s',
    Gives (alone i (.migrate config)) (migrate config) 0 false s false s' ∧ Ready config s' := by
  obtain ⟨s', hg, hready⟩ := gives_migrations (i := i) (b := false) h
  refine ⟨s', ?_, hready⟩
  exact gives_andFinally (gives_tryExcept (gives_bind hg gives_pure)) gives_closeClient

end Migrate

/-! ### The buckets -/

theorem ends_ensureBuckets {i : Nat} {upload ingestion : String} {s : Storage}
    (buckets : List String) : Prog.Ends (alone i (.buckets upload ingestion))
      (fun r s' => r = .ok () ∧ s.buckets ⊆ s'.buckets ∧ ∀ b ∈ buckets, b ∈ s'.buckets)
      (ensureBuckets buckets) s := by
  induction buckets generalizing s with
  | nil => exact .ret ⟨rfl, fun _ h => h, nofun⟩
  | cons bucket rest ih =>
    have next {s' : Storage} (hs : s.buckets ⊆ s'.buckets) (hb : bucket ∈ s'.buckets) :
        Prog.Ends (alone i (.buckets upload ingestion))
          (fun r s' => r = .ok () ∧ s.buckets ⊆ s'.buckets ∧ ∀ b ∈ bucket :: rest, b ∈ s'.buckets)
          (ensureBuckets rest) s' := by
      refine Prog.ends_mono ih fun r s₂ h => ⟨h.1, fun b hb => h.2.1 (hs hb), ?_⟩
      exact List.forall_mem_cons.2 ⟨h.2.1 hb, h.2.2⟩
    refine .call trivial fun found s₁ hx s₂ hr => ?_
    cases hr
    have hfound : (found : Except ErrorResponse Bool) = .ok (decide (bucket ∈ s.buckets)) :=
      (congrArg Prod.fst hx).symm
    obtain rfl : s = s₁ := congrArg Prod.snd hx
    by_cases hb : bucket ∈ s.buckets
    · rw [decide_eq_true hb] at hfound
      subst hfound
      exact next (fun _ h => h) hb
    · rw [decide_eq_false hb] at hfound
      subst hfound
      refine .call trivial fun made s₁ hx s₂ hr => ?_
      cases hr
      have hmade : (made : Except ErrorResponse Unit) = .ok () :=
        (congrArg Prod.fst hx).symm.trans (if_neg hb)
      obtain rfl : s.bucketEffect i (.makeBucket bucket) = s₁ := congrArg Prod.snd hx
      subst hmade
      exact next (fun _ h => List.mem_insert_of_mem h) List.mem_insert_self

/-! ### Any command -/

theorem ends_command {i : Nat} {k : Command} {s : Storage} (h : Repairable k s) :
    Prog.Ends (alone i k) (fun _ s' => s'.exits i = some 0 ∧ Prepared k s') k.main s := by
  cases k with
  | migrate config =>
    obtain ⟨s', hg, hready⟩ := gives_migrate (i := i) h
    refine Prog.ends_bind (Prog.ends_mono hg fun x s₂ hx => ?_)
    obtain ⟨hcode, -, rfl⟩ := hx
    refine .call trivial fun r s₁ hx s₃ hr => .ret ?_
    cases hr
    obtain rfl : s₂.qdrantEffect i (.exit (Command.exitCode x.1)) = s₁ := congrArg Prod.snd hx
    refine ⟨?_, hready.dim, hready.table, hready.vectors, hready.indexed⟩
    simp [Storage.qdrantEffect, hcode, Command.exitCode]
  | buckets upload ingestion =>
    refine Prog.ends_bind (Prog.ends_mono (ends_ensureBuckets [upload, ingestion]) fun r s₂ h => ?_)
    obtain ⟨rfl, -, hmem⟩ := h
    refine .call trivial fun r s₁ hx s₃ hr => .ret ?_
    cases hr
    obtain rfl : s₂.bucketEffect i (.exit 0) = s₁ := congrArg Prod.snd hx
    exact ⟨Function.update_self .., hmem upload (by simp), hmem ingestion (by simp)⟩

/-- Any number of runs, failed or cut off anywhere, leave stores that one more run gets ready, if
the configurations agree and the stores were compatible to begin with. -/
theorem rerun_succeeds {s₀ : Storage} {runs : Nat → Command} (h₀ : ∀ i, s₀.exits i = none)
    {cfg : (setupSystem runs).Config} (h : (setupSystem runs).Reachable (setupRules runs) s₀ cfg)
    {k : Command} (hagree : ∀ i, Agree k (runs i)) (hk : Repairable k s₀) (i : Nat) :
    Prog.Ends (alone i k) (fun _ s => s.exits i = some 0 ∧ Prepared k s) k.main cfg.shared :=
  ends_command ((setupInv h₀ h).repairable k hagree hk)

theorem rerun_succeeds_sample : ∃ cfg,
    (setupSystem sampleRuns).Reachable (setupRules _) emptyStorage cfg ∧
    Prog.Ends (alone 0 (.migrate sampleConfig))
      (fun _ s => s.exits 0 = some 0 ∧ Prepared (.migrate sampleConfig) s)
      (Command.migrate sampleConfig).main cfg.shared := by
  obtain ⟨cfg, h, -⟩ := sample_reachable
  refine ⟨cfg, h, rerun_succeeds (k := .migrate sampleConfig) (fun _ => rfl) h (fun i => ?_) ?_ 0⟩
  · rcases i with _ | _ | i
    · exact fun _ => rfl
    · exact fun _ => rfl
    · trivial
  · exact ⟨by decide, .inl rfl, nofun, nofun⟩

end Setup
