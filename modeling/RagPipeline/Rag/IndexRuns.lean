import RagPipeline.Interact.Actors
import RagPipeline.Rag.IndexState
import RagPipeline.Rag.IngestLedger

/-!
# Runs of the ingest service

Any number of ingest runs and resets over one registry and one vector index. Two disciplines keep
a registered document complete: the runs take turns, or no run deletes a document that is
registered or being written.

## Main definitions

* `indexSystem`: the runs and what they share.
* `Discipline`, `indexRules`: the two ways to keep runs apart.
* `Completed`: the run behind a row, and the points it left.

## Main results

* `indexCertificate`: under either discipline every row stands for a completed run.
-/
namespace Rag

open Events Wire Interact Relational IngestService

inductive Run where
  | ingest (event : IngestEvent) (deadline : Micros) (service : IngestService)
  | reset (yes : Bool)

namespace Run

/-- The document a run is about. -/
def hash? : Run → Option PyStr
  | ingest event _ _ => some event.hash
  | reset _ => none

def main (uuid5 : PyStr → PyStr) : Run → Prog JobSig Unit
  | ingest event deadline service =>
    (process uuid5 service event deadline).bind fun _ => .ret ()
  | reset yes => (resetIndex yes ()).bind fun _ => .ret ()

end Run

abbrev JobExchange := (c : JobCmd) × JobSig.Reply c

/-- The two stores; who is running; who has deleted and not yet registered; and what each run
called and was told, the newest first. -/
structure IndexWorld where
  index : IndexState
  active : List Nat
  writing : List Nat
  log : Nat → List JobExchange

def IndexWorld.start : IndexWorld := ⟨⟨.empty, .empty⟩, [], [], fun _ => []⟩

def JobCmd.writers (c : JobCmd) (ch : JobChoice) (i : Nat) (writing : List Nat) : List Nat :=
  if ch.fate = .refused then writing
  else match c with
    | .deleteByHash _ => i :: writing
    | .register _ => writing.filter (· ≠ i)
    | _ => writing

/-- What a call of run `i` leaves. -/
def IndexWorld.after (g : IndexWorld) (i : Nat) (c : JobCmd) (ch : JobChoice) : IndexWorld where
  index := (c.respond ch g.index).2
  active := g.active
  writing := c.writers ch i g.writing
  log := Function.update g.log i (⟨c, c.reply ch g.index⟩ :: g.log i)

def indexSystem (uuid5 : PyStr → PyStr) (runs : Nat → Run) : Actors Nat IndexWorld where
  sig _ := JobSig
  main i := (runs i).main uuid5
  Choice := JobChoice
  respond i c ch g := (c.reply ch g.index, g.after i c ch)
  enter i g := { g with active := i :: g.active }
  leave i g := { g with active := g.active.filter (· ≠ i), writing := g.writing.filter (· ≠ i) }
  Env := Empty
  env := nofun

inductive Discipline where
  /-- The runs take turns. -/
  | sequential
  /-- No run deletes a document that has a row or that another run is writing. -/
  | exclusive
  deriving DecidableEq

def indexRules (uuid5 : PyStr → PyStr) (runs : Nat → Run) :
    Discipline → (indexSystem uuid5 runs).Rules
  | .sequential => {
      start := fun _ g => g.active = []
      call := fun _ c ch _ => match (c : JobCmd) with
        -- the embedder returns one vector for each text
        | .embed texts => JobChoice.fate ch = .ok → (JobChoice.vectors ch).length = texts.length
        | _ => True
      env := nofun }
  | .exclusive => {
      start := fun i _ => (runs i).hash?.isSome
      call := fun _ c ch g => match (c : JobCmd) with
        | .deleteByHash hash => JobChoice.fate ch ≠ .refused →
            g.index.rows.find? hash = none ∧ ∀ j ∈ g.writing, (runs j).hash? ≠ some hash
        | _ => True
      env := nofun }

section Decidable

variable {uuid5 : PyStr → PyStr} {runs : Nat → Run} {d : Discipline}

instance (i : Nat) (g : IndexWorld) : Decidable ((indexRules uuid5 runs d).start i g) :=
  match d with
  | .sequential => inferInstanceAs (Decidable (g.active = []))
  | .exclusive => inferInstanceAs (Decidable (_ = _))

instance (i : Nat) (c : ((indexSystem uuid5 runs).sig i).Cmd) (ch : (indexSystem uuid5 runs).Choice)
    (g : IndexWorld) : Decidable ((indexRules uuid5 runs d).call i c ch g) := by
  change JobCmd at c
  cases d <;> cases c <;>
    first | exact .isTrue trivial | exact inferInstanceAs (Decidable (_ → _))

instance (e : (indexSystem uuid5 runs).Env) (g : IndexWorld) :
    Decidable ((indexRules uuid5 runs d).env e g) := e.elim

end Decidable

/-! ### What the log of a run tells -/

/-- The embedding requests that were answered, the oldest first. -/
def embeds : List JobExchange → Embeddings
  | [] => []
  | ⟨.embed texts, r⟩ :: log => match (r : Except CallError (List Vector)) with
    | .ok vectors => embeds log ++ [(texts, vectors)]
    | .error _ => embeds log
  | _ :: log => embeds log

def Fetched (log : List JobExchange) (data : List UInt8) : Prop :=
  ∃ key maxBytes, (⟨.get key maxBytes, Except.ok data⟩ : JobExchange) ∈ log

theorem embeds_cons {c : JobCmd} {r : JobSig.Reply c} {log : List JobExchange}
    (h : ∀ texts, c ≠ .embed texts) : embeds (⟨c, r⟩ :: log) = embeds log := by
  cases c <;> first | rfl | exact absurd rfl (h _)

theorem mem_embeds_append {b : List PyStr × List Vector} {log : List JobExchange}
    (h : b ∈ embeds log) (more : List JobExchange) : b ∈ embeds (more ++ log) := by
  induction more with
  | nil => exact h
  | cons x more ih =>
    obtain ⟨c, r⟩ := x
    by_cases hc : ∃ texts, c = .embed texts
    · obtain ⟨texts, rfl⟩ := hc
      change Except CallError (List Vector) at r
      cases r with
      | ok vectors => exact List.mem_append_left _ ih
      | error e => exact ih
    · rw [List.cons_append, embeds_cons fun texts h => hc ⟨texts, h⟩]
      exact ih

/-- The run behind a row: what it fetched, chunked and embedded before it registered the row, and
that the points of the document are those it made. -/
structure Completed (uuid5 : PyStr → PyStr) (runs : Nat → Run) (g : IndexWorld)
    (row : IndexedDocument) where
  run : Nat
  event : IngestEvent
  deadline : Micros
  service : IngestService
  data : List UInt8
  later : List JobExchange
  reply : Except CallError Unit
  earlier : List JobExchange
  is_run : runs run = .ingest event deadline service
  log_eq : g.log run = later ++ ⟨.register row, reply⟩ :: earlier
  hash_eq : event.hash = row.hash
  fetched : Fetched earlier data
  chunked : Chunked service event data (embeds earlier).texts
  chunkCount : row.chunkCount = (embeds earlier).texts.length
  sameLength : (embeds earlier).texts.length = (embeds earlier).vectors.length
  stores : Stores g.index.points row.hash
    (pointsOf uuid5 event (embeds earlier).texts (embeds earlier).vectors)

namespace Completed

variable {uuid5 : PyStr → PyStr} {runs : Nat → Run} {g : IndexWorld} {row : IndexedDocument}
  (done : Completed uuid5 runs g row)

def chunks : List PyStr := (embeds done.earlier).texts

def vectors : List Vector := (embeds done.earlier).vectors

theorem length_chunks : done.chunks.length = row.chunkCount := done.chunkCount.symm

theorem length_vectors : done.vectors.length = row.chunkCount :=
  done.sameLength.symm.trans done.length_chunks

/-- The stored points of the document, as the list the run made. -/
theorem perm (hinj : Function.Injective uuid5) :
    (g.index.points.rows.filter fun p => p.hash = row.hash).Perm
      (pointsOf uuid5 done.event done.chunks done.vectors) :=
  done.stores.perm (.of_map _ (nodup_pointsOf hinj))

end Completed

structure IndexInv (uuid5 : PyStr → PyStr) (runs : Nat → Run) (d : Discipline)
    (g : IndexWorld) : Prop where
  shaped : Shaped uuid5 g.index.points
  complete : ∀ row ∈ g.index.rows.rows, Nonempty (Completed uuid5 runs g row)
  single : ∀ i ∈ g.writing, ∀ j ∈ g.writing, (runs i).hash? = (runs j).hash? → i = j
  unregistered : ∀ i ∈ g.writing, ∀ hash, (runs i).hash? = some hash →
    g.index.rows.find? hash = none
  running : ∀ i ∈ g.writing, i ∈ g.active
  alone : d = .sequential → ∀ i ∈ g.active, ∀ j ∈ g.active, i = j
  aligned : d = .sequential → ∀ i, ∀ b ∈ embeds (g.log i), b.1.length = b.2.length

/-- What a run may count on while the others go on. -/
structure IndexRely (runs : Nat → Run) (d : Discipline) (i : Nat) (g g' : IndexWorld) :
    Prop where
  log : g'.log i = g.log i
  active : i ∈ g'.active ↔ i ∈ g.active
  writing : i ∈ g'.writing ↔ i ∈ g.writing
  points : i ∈ g.writing → ∀ p : StoredPoint, (runs i).hash? = some p.hash →
    (p ∈ g'.index.points.rows ↔ p ∈ g.index.points.rows)
  still : d = .sequential → i ∈ g.active → g' = g

def indexGuard (uuid5 : PyStr → PyStr) (runs : Nat → Run) (d : Discipline) (i : Nat)
    (c : JobCmd) (g : IndexWorld) : Prop :=
  i ∈ g.active ∧ match c with
    | .deleteByHash hash => (runs i).hash? = some hash ∧
        (d = .sequential → g.index.rows.find? hash = none)
    | .upsert batch => i ∈ g.writing ∧ ∃ event deadline service,
        runs i = .ingest event deadline service ∧ ∃ chunks vectors ps rest,
          ps ++ batch ++ rest = pointsOf uuid5 event chunks vectors
    | .register row => i ∈ g.writing ∧ ∃ event deadline service data,
        runs i = .ingest event deadline service ∧ event.hash = row.hash ∧
        Fetched (g.log i) data ∧ Chunked service event data (embeds (g.log i)).texts ∧
        row.chunkCount = (embeds (g.log i)).texts.length ∧
        (embeds (g.log i)).texts.length = (embeds (g.log i)).vectors.length ∧
        Stores g.index.points row.hash
          (pointsOf uuid5 event (embeds (g.log i)).texts (embeds (g.log i)).vectors)
    | .clearRows => d = .sequential
    | .clearPoints => (runs i).hash? = none ∧ d = .sequential ∧ g.index.rows.rows = []
    | _ => True

section Steps

variable {uuid5 : PyStr → PyStr} {runs : Nat → Run} {d : Discipline} {g g' : IndexWorld}
  {i j : Nat} {c : JobCmd} {ch : JobChoice}

theorem IndexRely.refl : IndexRely runs d i g g :=
  ⟨rfl, Iff.rfl, Iff.rfl, fun _ _ _ => Iff.rfl, fun _ _ => rfl⟩

theorem IndexRely.trans {g'' : IndexWorld} (h₁ : IndexRely runs d i g g')
    (h₂ : IndexRely runs d i g' g'') : IndexRely runs d i g g'' where
  log := h₂.log.trans h₁.log
  active := h₂.active.trans h₁.active
  writing := h₂.writing.trans h₁.writing
  points hw p hp := (h₂.points (h₁.writing.2 hw) p hp).trans (h₁.points hw p hp)
  still hd ha := (h₂.still hd (h₁.active.2 ha)).trans (h₁.still hd ha)

/-- A completed run stays one as long as logs grow and its points stay. -/
theorem Completed.mono {row : IndexedDocument} (h : Completed uuid5 runs g row)
    (hlog : ∀ i, ∃ more, g'.log i = more ++ g.log i)
    (hpoints : ∀ p : StoredPoint, p.hash = row.hash →
      (p ∈ g'.index.points.rows ↔ p ∈ g.index.points.rows)) :
    Nonempty (Completed uuid5 runs g' row) := by
  obtain ⟨more, hmore⟩ := hlog h.run
  refine ⟨{ h with later := more ++ h.later, log_eq := ?_, stores := h.stores.congr hpoints }⟩
  rw [hmore, h.log_eq, List.append_assoc]

theorem log_after : ∃ more, (g.after i c ch).log j = more ++ g.log j := by
  by_cases hj : j = i
  · subst hj
    exact ⟨[⟨c, c.reply ch g.index⟩], by simp [IndexWorld.after]⟩
  · exact ⟨[], by simp [IndexWorld.after, Function.update_of_ne hj]⟩

theorem log_after_of_ne (hj : j ≠ i) : (g.after i c ch).log j = g.log j :=
  Function.update_of_ne hj _ _

theorem log_after_self : (g.after i c ch).log i = ⟨c, c.reply ch g.index⟩ :: g.log i :=
  Function.update_self ..

theorem writing_after_of_ne (hj : j ≠ i) : j ∈ (g.after i c ch).writing ↔ j ∈ g.writing := by
  simp only [IndexWorld.after, JobCmd.writers]
  split
  · rfl
  · split <;> simp [hj]

/-- A call that is refused, or that only looks, changes neither store. -/
theorem index_after_refused (h : ch.fate = .refused) :
    (g.after i c ch).index = g.index ∧ (g.after i c ch).writing = g.writing := by
  simp [IndexWorld.after, JobCmd.respond, JobCmd.writers, h]

theorem index_after (h : ch.fate ≠ .refused) : (g.after i c ch).index = c.effect g.index := by
  simp [IndexWorld.after, JobCmd.respond, h]

/-- No ingest run touches a point of another document. -/
theorem points_of_others (hinj : Function.Injective uuid5) (hs : Shaped uuid5 g.index.points)
    (hguard : indexGuard uuid5 runs d i c g) {hash : PyStr} (hhash : (runs i).hash? = some hash)
    {p : StoredPoint} (hp : p.hash ≠ hash) :
    p ∈ (g.after i c ch).index.points.rows ↔ p ∈ g.index.points.rows := by
  by_cases hf : ch.fate = .refused
  · rw [(index_after_refused hf).1]
  rw [index_after hf]
  cases c with
  | deleteByHash hash' =>
    cases hhash.symm.trans hguard.2.1
    simp [JobCmd.effect, Table.mem_delete, hp]
  | upsert batch =>
    obtain ⟨-, -, event, deadline, service, hrun, chunks, vectors, ps, rest, hsplit⟩ := hguard
    rw [hrun] at hhash
    cases hhash
    exact mem_upsertAll_of_ne hs hinj hsplit hp
  | clearPoints => cases hhash.symm.trans hguard.2.1
  | _ => rfl

variable (hinv : IndexInv uuid5 runs d g) (hguard : indexGuard uuid5 runs d i c g)
  (hrule : (indexRules uuid5 runs d).call i c ch g)

include hinv hrule in
theorem aligned_after (hd : d = .sequential) (j : Nat) :
    ∀ b ∈ embeds ((g.after i c ch).log j), b.1.length = b.2.length := by
  subst hd
  by_cases hj : j = i
  · subst hj
    rw [log_after_self]
    by_cases hc : ∃ texts, c = .embed texts
    · obtain ⟨texts, rfl⟩ := hc
      generalize hr : (JobCmd.embed texts).reply ch g.index = r
      change Except CallError (List Vector) at r
      cases r with
      | ok vectors =>
        obtain ⟨hok, rfl⟩ := JobCmd.answer_ok hr
        intro b hb
        rcases List.mem_append.1 hb with hb | hb
        · exact hinv.aligned rfl j b hb
        · rw [List.mem_singleton.1 hb]
          exact (hrule hok).symm
      | error e => exact hinv.aligned rfl j
    · rw [embeds_cons fun texts h => hc ⟨texts, h⟩]
      exact hinv.aligned rfl j
  · rw [log_after_of_ne hj]
    exact hinv.aligned rfl j

include hinv hguard hrule in
/-- Under either discipline a delete that is done meets no row and no other writer. -/
theorem delete_alone {hash : PyStr} (hc : c = .deleteByHash hash) (hf : ch.fate ≠ .refused) :
    g.index.rows.find? hash = none ∧
      ∀ j ∈ g.writing, j ≠ i → (runs j).hash? ≠ some hash := by
  subst hc
  cases d with
  | sequential =>
    refine ⟨hguard.2.2 rfl, fun j hj hne => absurd ?_ hne⟩
    exact hinv.alone rfl j (hinv.running j hj) i hguard.1
  | exclusive =>
    obtain ⟨hrow, hothers⟩ := hrule hf
    exact ⟨hrow, fun j hj _ => hothers j hj⟩

include hinv hguard hrule in
theorem inv_after (hinj : Function.Injective uuid5) :
    IndexInv uuid5 runs d (g.after i c ch) := by
  have haligned := fun hd j => aligned_after (c := c) hinv hrule hd j
  -- a call that leaves the two stores and the writers alone
  have quiet (hidx : (g.after i c ch).index = g.index)
      (hw : (g.after i c ch).writing = g.writing) : IndexInv uuid5 runs d (g.after i c ch) := by
    refine ⟨hidx ▸ hinv.shaped, fun row hrow => ?_, hw ▸ hinv.single, ?_, hw ▸ hinv.running,
      hinv.alone, haligned⟩
    · rw [hidx] at hrow
      obtain ⟨h⟩ := hinv.complete row hrow
      exact h.mono (fun _ => log_after) fun p _ => by rw [hidx]
    · rw [hidx, hw]
      exact hinv.unregistered
  by_cases hf : ch.fate = .refused
  · obtain ⟨hidx, hw⟩ := index_after_refused (c := c) (i := i) (g := g) hf
    exact quiet hidx hw
  have hidx := index_after (c := c) (i := i) (g := g) hf
  cases c with
  | deleteByHash hash =>
    obtain ⟨hrow, hothers⟩ := delete_alone hinv hguard hrule rfl hf
    have hw : (g.after i (.deleteByHash hash) ch).writing = i :: g.writing := by
      simp [IndexWorld.after, JobCmd.writers, hf]
    have hhash : (runs i).hash? = some hash := hguard.2.1
    refine ⟨?_, fun row hmem => ?_, ?_, ?_, ?_, hinv.alone, haligned⟩
    · rw [hidx]
      exact fun p hp => hinv.shaped p (Table.mem_delete.1 hp).1
    · rw [hidx] at hmem
      obtain ⟨h⟩ := hinv.complete row hmem
      refine h.mono (fun _ => log_after) fun p hp => ?_
      rw [hidx]
      simp only [JobCmd.effect, Table.mem_delete, and_iff_left_iff_imp, decide_eq_false_iff_not]
      rintro - rfl
      exact Table.find?_eq_none_iff.1 hrow row hmem hp.symm
    · rw [hw]
      have hfirst {a : Nat} (ha : a ∈ g.writing) (hh : (runs a).hash? = (runs i).hash?) :
          a = i := by
        by_contra hne
        exact hothers a ha hne (hh.trans hhash)
      intro a ha b hb hab
      rcases List.mem_cons.1 ha with ha | ha <;> rcases List.mem_cons.1 hb with hb | hb
      · rw [ha, hb]
      · rw [ha, hfirst hb (by rw [← hab, ha])]
      · rw [hb, hfirst ha (by rw [hab, hb])]
      · exact hinv.single a ha b hb hab
    · rw [hw, hidx]
      intro a ha h hh
      rcases List.mem_cons.1 ha with rfl | ha
      · cases hhash.symm.trans hh
        exact hrow
      · exact hinv.unregistered a ha h hh
    · rw [hw]
      intro a ha
      rcases List.mem_cons.1 ha with rfl | ha
      · exact hguard.1
      · exact hinv.running a ha
  | upsert batch =>
    obtain ⟨-, hi, event, deadline, service, hrun, chunks, vectors, ps, rest, hsplit⟩ := hguard
    have hhash : (runs i).hash? = some event.hash := by rw [hrun]; rfl
    have hw : (g.after i (.upsert batch) ch).writing = g.writing := by
      simp [IndexWorld.after, JobCmd.writers]
    refine ⟨?_, fun row hmem => ?_, hw ▸ hinv.single, ?_, hw ▸ hinv.running, hinv.alone, haligned⟩
    · rw [hidx]
      exact hinv.shaped.upsertAll hinj hsplit
    · rw [hidx] at hmem
      obtain ⟨h⟩ := hinv.complete row hmem
      refine h.mono (fun _ => log_after) fun p hp => ?_
      rw [hidx]
      refine mem_upsertAll_of_ne hinv.shaped hinj hsplit fun he => ?_
      exact Table.find?_eq_none_iff.1 (hinv.unregistered i hi _ hhash) row hmem (hp.symm.trans he)
    · rw [hw, hidx]
      exact hinv.unregistered
  | register row =>
    obtain ⟨hact, hi, event, deadline, service, data, hrun, hrow, hfetched, hchunked, hcount,
      hvectors, hstores⟩ := hguard
    have hhash : (runs i).hash? = some row.hash := by rw [hrun, ← hrow]; rfl
    have hnone := hinv.unregistered i hi _ hhash
    have hw : (g.after i (.register row) ch).writing = g.writing.filter (· ≠ i) := by
      simp [IndexWorld.after, JobCmd.writers, hf]
    refine ⟨?_, fun row' hmem => ?_, ?_, ?_, ?_, hinv.alone, haligned⟩
    · rw [hidx]
      exact hinv.shaped
    · rw [hidx] at hmem
      simp only [JobCmd.effect, Table.rows_insertOrIgnore hnone, List.mem_append,
        List.mem_singleton] at hmem
      rcases hmem with hmem | rfl
      · obtain ⟨h⟩ := hinv.complete row' hmem
        exact h.mono (fun _ => log_after) fun p _ => by rw [hidx]; rfl
      · exact ⟨{
          run := i, event, deadline, service, data, later := []
          reply := _, earlier := g.log i, is_run := hrun, log_eq := log_after_self
          hash_eq := hrow, fetched := hfetched, chunked := hchunked, chunkCount := hcount
          sameLength := hvectors, stores := by rw [hidx]; exact hstores }⟩
    · rw [hw]
      intro a ha b hb
      exact hinv.single a (List.mem_of_mem_filter ha) b (List.mem_of_mem_filter hb)
    · rw [hw, hidx]
      intro a ha h hh
      obtain ⟨ha, hne⟩ := List.mem_filter.1 ha
      have hne' : row.hash ≠ h := fun he => by
        simp only [decide_eq_true_eq, ne_eq] at hne
        exact hne (hinv.single a ha i hi (by rw [hh, hhash, he]))
      simp only [JobCmd.effect, Table.find?_insertOrIgnore, key_indexedDocument, hne', false_and,
        if_false]
      exact hinv.unregistered a ha h hh
    · rw [hw]
      exact fun a ha => hinv.running a (List.mem_of_mem_filter ha)
  | clearRows =>
    have hw : (g.after i .clearRows ch).writing = g.writing := by
      simp [IndexWorld.after, JobCmd.writers]
    refine ⟨?_, fun row hmem => ?_, hw ▸ hinv.single, ?_, hw ▸ hinv.running, hinv.alone, haligned⟩
    · rw [hidx]
      exact hinv.shaped
    · rw [hidx] at hmem
      cases hmem
    · rw [hw, hidx]
      exact fun _ _ _ _ => rfl
  | clearPoints =>
    have hw : (g.after i .clearPoints ch).writing = g.writing := by
      simp [IndexWorld.after, JobCmd.writers]
    refine ⟨?_, fun row hmem => ?_, hw ▸ hinv.single, ?_, hw ▸ hinv.running, hinv.alone, haligned⟩
    · rw [hidx]
      exact fun p hp => by cases hp
    · rw [hidx] at hmem
      have hmem : row ∈ g.index.rows.rows := hmem
      rw [hguard.2.2.2] at hmem
      cases hmem
    · rw [hw, hidx]
      exact hinv.unregistered
  | _ => exact quiet hidx (by simp [IndexWorld.after, JobCmd.writers])

include hinv hguard hrule in
theorem rely_after (hinj : Function.Injective uuid5) (hj : j ≠ i) :
    IndexRely runs d j g (g.after i c ch) where
  log := log_after_of_ne hj
  active := Iff.rfl
  writing := writing_after_of_ne hj
  points hw p hp := by
    by_cases hf : ch.fate = .refused
    · rw [(index_after_refused hf).1]
    rw [index_after hf]
    cases c with
    | deleteByHash hash =>
      obtain ⟨-, hothers⟩ := delete_alone hinv hguard hrule rfl hf
      simp only [JobCmd.effect, Table.mem_delete, and_iff_left_iff_imp, decide_eq_false_iff_not]
      rintro - rfl
      exact hothers j hw hj hp
    | upsert batch =>
      obtain ⟨-, hi, event, deadline, service, hrun, chunks, vectors, ps, rest, hsplit⟩ := hguard
      refine mem_upsertAll_of_ne hinv.shaped hinj hsplit fun he => ?_
      refine hj (hinv.single j hw i hi ?_)
      rw [hp, hrun, he]
      rfl
    | clearPoints =>
      exact absurd (hinv.alone hguard.2.2.1 j (hinv.running j hw) i hguard.1) hj
    | _ => rfl
  still hd ha := absurd (hinv.alone hd j ha i hguard.1) hj

end Steps

end Rag
