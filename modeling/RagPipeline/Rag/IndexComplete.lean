import RagPipeline.Rag.IndexRuns
import Mathlib.Logic.Equiv.Basic

/-!
# Registered documents are complete

The rely-guarantee proof over runs of the ingest service, and what it says of the two stores: for
runs that take turns, and for runs that overlap.

## Main definitions

* `indexCertificate`: the proof, for either discipline.
* `WellIndexed`: the points of a document are those its row promises.

## Main results

* `rows_complete`: runs that take turns leave every registered document complete.
-/
namespace Rag

open Events Wire Interact Relational IngestService Method

section Own

variable {uuid5 : PyStr → PyStr} {runs : Nat → Run} {d : Discipline} {i : Nat}

/-- What run `i` works under. -/
def indexContract (uuid5 : PyStr → PyStr) (runs : Nat → Run) (d : Discipline) (i : Nat) :
    Contract JobSig IndexWorld where
  inv := IndexInv uuid5 runs d
  rely := IndexRely runs d i
  guard := indexGuard uuid5 runs d i
  exec c g r g' := ∃ ch : JobChoice, (indexRules uuid5 runs d).call i c ch g ∧
    (c.reply ch g.index, g.after i c ch) = (r, g')

variable {c : JobCmd} {r : JobSig.Reply c} {g g₁ g₂ : IndexWorld}
  (hx : (indexContract uuid5 runs d i).exec c g r g₁) (hr : IndexRely runs d i g₁ g₂)

include hx hr

theorem own_log : g₂.log i = ⟨c, r⟩ :: g.log i := by
  obtain ⟨ch, -, h⟩ := hx
  cases h
  rw [hr.log]
  exact log_after_self

theorem own_active : i ∈ g₂.active ↔ i ∈ g.active := by
  obtain ⟨ch, -, h⟩ := hx
  cases h
  exact hr.active

theorem own_fetched {data : List UInt8} (h : Fetched (g.log i) data) :
    Fetched (g₂.log i) data := by
  obtain ⟨key, maxBytes, h⟩ := h
  rw [own_log hx hr]
  exact ⟨key, maxBytes, List.mem_cons_of_mem _ h⟩

theorem own_embeds (hc : ∀ texts, c ≠ .embed texts) : embeds (g₂.log i) = embeds (g.log i) := by
  rw [own_log hx hr, embeds_cons hc]

/-- A call that writes nothing leaves the writers and their points to run `i` as they were. -/
theorem own_still (hc : ∀ s, c.effect s = s) (hw : ∀ ch, c.writers ch i g.writing = g.writing) :
    (i ∈ g₂.writing ↔ i ∈ g.writing) ∧
    (i ∈ g.writing → ∀ p : StoredPoint, (runs i).hash? = some p.hash →
      (p ∈ g₂.index.points.rows ↔ p ∈ g.index.points.rows)) ∧
    (d = .sequential → i ∈ g.active → g₂.index = g.index) := by
  obtain ⟨ch, -, h⟩ := hx
  cases h
  have hidx : (g.after i c ch).index = g.index := by
    simp [IndexWorld.after, JobCmd.respond, hc]
  have hwr : (g.after i c ch).writing = g.writing := hw ch
  refine ⟨hr.writing.trans (by rw [hwr]), fun hi p hp => ?_, fun hd ha => ?_⟩
  · rw [hr.points (by rwa [hwr]) p hp, hidx]
  · rw [hr.still hd ha, hidx]

end Own

section Ledger

variable {uuid5 : PyStr → PyStr} (hinj : Function.Injective uuid5) {runs : Nat → Run}
  (d : Discipline) {i : Nat} {event : IngestEvent} {deadline : Micros} {service : IngestService}
  (hrun : runs i = .ingest event deadline service)

/-- One ingest run among others. -/
def indexLedger : IngestLedger (indexContract uuid5 runs d i) uuid5 service event where
  absent g := d = .sequential → i ∈ g.active → g.index.rows.find? event.hash = none
  fetched data g := Fetched (g.log i) data
  embedded bs g := i ∈ g.active ∧ embeds (g.log i) = bs
  writing ps g := i ∈ g.writing ∧ Stores g.index.points event.hash ps
  registered _ := True
  look {c g r g₁ g₂} hc hx hr := by
    have hembed : ∀ texts, c ≠ .embed texts := by rintro _ rfl; exact hc
    obtain ⟨hw, hp, hs⟩ := own_still hx hr (fun s => by cases c <;> first | rfl | exact hc.elim)
      (fun ch => by cases c <;> first | exact hc.elim | simp [JobCmd.writers])
    refine ⟨fun h => ?_, fun data h => own_fetched hx hr h, fun bs h => ?_, fun ps h => ?_⟩
    · intro hd ha
      rw [own_active hx hr] at ha
      rw [hs hd ha]
      exact h hd ha
    · exact ⟨(own_active hx hr).2 h.1, own_embeds hx hr hembed ▸ h.2⟩
    · refine ⟨hw.2 h.1, h.2.congr fun p hph => hp h.1 p ?_⟩
      rw [hrun, hph]
      rfl
  found _ _ := trivial
  missing {g g₁ g₂} hx hr hd ha := by
    obtain ⟨-, -, hs⟩ := own_still hx hr (fun _ => rfl) (fun _ => by simp [JobCmd.writers])
    rw [own_active hx hr] at ha
    rw [hs hd ha]
    obtain ⟨ch, -, h⟩ := hx
    simpa using (JobCmd.answer_ok (congrArg Prod.fst h)).2
  got {key maxBytes g g₁ g₂ data} hx hr :=
    ⟨key, maxBytes, by rw [own_log hx hr]; exact List.mem_cons_self ..⟩
  embeds {texts g g₁ g₂ r} hx hr := by
    obtain ⟨-, -, hs⟩ := own_still hx hr (fun _ => rfl) (fun _ => by simp [JobCmd.writers])
    refine ⟨fun h => ?_, fun data h => own_fetched hx hr h, ?_⟩
    · intro hd ha
      rw [own_active hx hr] at ha
      rw [hs hd ha]
      exact h hd ha
    · rintro bs vectors rfl ⟨ha, rfl⟩
      refine ⟨(own_active hx hr).2 ha, ?_⟩
      rw [own_log hx hr]
      rfl
  deletes {g g₁ g₂ r} hx hr := by
    refine ⟨fun data h => own_fetched hx hr h, fun bs h => ?_, ?_⟩
    · exact ⟨(own_active hx hr).2 h.1, own_embeds hx hr nofun ▸ h.2⟩
    · rintro rfl
      obtain ⟨ch, -, h⟩ := hx
      have hok := (JobCmd.answer_ok (congrArg Prod.fst h)).1
      obtain rfl : g.after i (.deleteByHash event.hash) ch = g₁ := congrArg Prod.snd h
      have hi : i ∈ (g.after i (.deleteByHash event.hash) ch).writing := by
        simp [IndexWorld.after, JobCmd.writers, hok]
      refine ⟨hr.writing.2 hi, Stores.congr (t := (JobCmd.deleteByHash event.hash).effect g.index
        |>.points) (fun p => ?_) fun p hp => ?_⟩
      · simp [JobCmd.effect, Table.mem_delete]
      · rw [hr.points hi p (by rw [hrun, hp]; rfl), index_after (by rw [hok]; nofun)]
  upserts {batch g g₁ g₂ r} hx hr := by
    refine ⟨fun data h => own_fetched hx hr h, fun bs h => ?_, ?_⟩
    · exact ⟨(own_active hx hr).2 h.1, own_embeds hx hr nofun ▸ h.2⟩
    · rintro chunks vectors ps rest rfl ⟨hi, hst⟩ hps
      obtain ⟨ch, -, h⟩ := hx
      have hok := (JobCmd.answer_ok (congrArg Prod.fst h)).1
      obtain rfl : g.after i (.upsert batch) ch = g₁ := congrArg Prod.snd h
      have hi : i ∈ (g.after i (.upsert batch) ch).writing := by
        simpa [IndexWorld.after, JobCmd.writers] using hi
      refine ⟨hr.writing.2 hi, (stores_upsertAll hst hinj hps).congr fun p hp => ?_⟩
      rw [hr.points hi p (by rw [hrun, hp]; rfl), index_after (by rw [hok]; nofun)]
      rfl
  registers _ _ _ := trivial
  may_look {c bs g} hc _ h := by
    refine ⟨h.1, ?_⟩
    cases c <;> trivial
  may_embed _ h := ⟨h.1, trivial⟩
  may_delete _ ha h := ⟨h.1, by rw [hrun]; rfl, fun hd => ha hd h.1⟩
  may_upsert {chunks vectors batch ps rest g} hi h hps :=
    ⟨hi.running i h.1, h.1, event, deadline, service, hrun, chunks, vectors, ps, rest, hps⟩
  may_register {data chunks bs now g} hi hf hch he ht hlen hw := by
    obtain ⟨ha, rfl⟩ := he
    subst ht
    exact ⟨ha, hw.1, event, deadline, service, data, hrun, rfl, hf, hch, rfl, hlen, hw.2⟩

end Ledger

section Reset

variable {uuid5 : PyStr → PyStr} {runs : Nat → Run} {d : Discipline} {i : Nat} {g : IndexWorld}

/-- A reset among runs that take turns: the points go after the rows have. -/
theorem wp_resetIndex (hnone : (runs i).hash? = none) (hd : d = .sequential) (yes : Bool)
    (h : i ∈ g.active) :
    wp (indexContract uuid5 runs d i) (resetIndex yes) (fun _ _ _ => True) () g := by
  have hnext {c : JobCmd} {r : JobSig.Reply c} {g g₁ g₂ : IndexWorld} (h : i ∈ g.active)
      (hx : (indexContract uuid5 runs d i).exec c g r g₁) (hr : IndexRely runs d i g₁ g₂) :
      i ∈ g₂.active := (own_active hx hr).2 h
  refine wp_request (fun _ => ⟨h, trivial⟩) (fun _ _ _ _ _ _ _ => trivial)
    fun r found g₁ g₂ _ hx _ hr => ?_
  have h := hnext h hx hr
  -- both branches go on with the count of the rows
  have htail {g : IndexWorld} (h : i ∈ g.active) : wp (indexContract uuid5 runs d i) (do
      let _ ← ofExcept (← IngestService.perform .countRows)
      if !yes then
        return 1
      ofExcept (← IngestService.perform .clearRows)
      if found then
        ofExcept (← IngestService.perform .clearPoints)
      return 0 : Job Nat) (fun _ _ _ => True) () g := by
    refine wp_request (fun _ => ⟨h, trivial⟩) (fun _ _ _ _ _ _ _ => trivial)
      fun r _ g₁ g _ hx _ hr => wp_ite (fun _ => wp_pure trivial) fun _ => ?_
    have h := hnext h hx hr
    refine wp_request (fun _ => ⟨h, hd⟩) (fun _ _ _ _ _ _ _ => trivial)
      fun r _ g₁ g₂ hok hx _ hr => wp_ite (fun _ => ?_) fun _ => wp_pure trivial
    have h' := hnext h hx hr
    have hrows : g₂.index.rows.rows = [] := by
      obtain ⟨ch, -, he⟩ := hx
      have hfate := (JobCmd.answer_ok ((congrArg Prod.fst he).trans hok)).1
      obtain rfl : g.after i .clearRows ch = g₁ := congrArg Prod.snd he
      rw [hr.still hd (by exact h), index_after (by rw [hfate]; nofun)]
      rfl
    exact wp_request (fun _ => ⟨h', hnone, hd, hrows⟩) (fun _ _ _ _ _ _ _ => trivial)
      fun _ _ _ _ _ _ _ _ => wp_pure trivial
  exact wp_ite (fun _ => wp_request (fun _ => ⟨h, trivial⟩) (fun _ _ _ _ _ _ _ => trivial)
    fun _ _ _ _ _ hx _ hr => htail (hnext h hx hr)) fun _ => htail h

end Reset

section Certificate

variable {uuid5 : PyStr → PyStr} {runs : Nat → Run} {d : Discipline} {i j : Nat}
  {g : IndexWorld}

/-- What changes when a run starts or ends. -/
theorem IndexInv.of_index_eq {g' : IndexWorld} (h : IndexInv uuid5 runs d g)
    (hi : g'.index = g.index) (hl : g'.log = g.log) (hw : ∀ i ∈ g'.writing, i ∈ g.writing)
    (hrun : ∀ i ∈ g'.writing, i ∈ g'.active)
    (halone : d = .sequential → ∀ i ∈ g'.active, ∀ j ∈ g'.active, i = j) :
    IndexInv uuid5 runs d g' where
  shaped := hi ▸ h.shaped
  complete row hrow := by
    obtain ⟨hc⟩ := h.complete row (hi ▸ hrow)
    exact hc.mono (fun i => ⟨[], by rw [hl]; rfl⟩) fun p _ => by rw [hi]
  single i hi' j hj := h.single i (hw i hi') j (hw j hj)
  unregistered i hi' hash hh := hi ▸ h.unregistered i (hw i hi') hash hh
  running := hrun
  alone := halone
  aligned := hl ▸ h.aligned

theorem enter_ok (h : IndexInv uuid5 runs d g)
    (hstart : (indexRules uuid5 runs d).start i g) :
    IndexInv uuid5 runs d { g with active := i :: g.active } ∧
      ∀ j, j ≠ i → IndexRely runs d j g { g with active := i :: g.active } := by
  refine ⟨h.of_index_eq rfl rfl (fun _ hj => hj) (fun j hj => .tail _ (h.running j hj)) ?_,
    fun j hj => ⟨rfl, by simp [hj], Iff.rfl, fun _ _ _ => Iff.rfl, ?_⟩⟩
  · rintro rfl a ha b hb
    have hnone : g.active = [] := hstart
    simp only [hnone, List.mem_singleton] at ha hb
    rw [ha, hb]
  · rintro rfl ha
    have hnone : g.active = [] := hstart
    rw [hnone] at ha
    cases ha

theorem leave_ok (h : IndexInv uuid5 runs d g) :
    IndexInv uuid5 runs d ((indexSystem uuid5 runs).leave i g) ∧
      ∀ j, j ≠ i → IndexRely runs d j g ((indexSystem uuid5 runs).leave i g) := by
  refine ⟨h.of_index_eq rfl rfl (fun _ => List.mem_of_mem_filter) (fun j hj => ?_)
    fun hd a ha b hb => ?_, fun j hj => ⟨rfl, by simp [indexSystem, hj], by simp [indexSystem, hj],
    fun _ _ _ => Iff.rfl, fun hd ha => ?_⟩⟩
  · obtain ⟨hj, hne⟩ := List.mem_filter.1 hj
    exact List.mem_filter.2 ⟨h.running j hj, hne⟩
  · exact h.alone hd a (List.mem_of_mem_filter ha) b (List.mem_of_mem_filter hb)
  · -- the run that is left is the only one, so nothing is filtered out
    have hkeep (a : Nat) (ha' : a ∈ g.active) : decide (a ≠ i) = true := by
      rw [h.alone hd a ha' j ha]
      exact decide_eq_true hj
    have hact := List.filter_eq_self.2 hkeep
    have hwr := List.filter_eq_self.2 fun a ha => hkeep a (h.running a ha)
    change { g with active := g.active.filter (· ≠ i), writing := g.writing.filter (· ≠ i) } = g
    rw [hact, hwr]

/-- Under either discipline every row stands for a completed run. -/
def indexCertificate (hinj : Function.Injective uuid5) (runs : Nat → Run) (d : Discipline) :
    Actors.Certificate (indexSystem uuid5 runs) (indexRules uuid5 runs d) where
  inv := IndexInv uuid5 runs d
  rely := IndexRely runs d
  guard := indexGuard uuid5 runs d
  fresh i g := i ∉ g.writing ∧ g.log i = []
  rely_refl _ _ := .refl
  rely_trans _ _ _ _ h₁ h₂ := h₁.trans h₂
  fresh_rely i g g' _ h hr := ⟨fun hi => h.1 (hr.writing.1 hi), hr.log.trans h.2⟩
  enter_ok i g h _ hstart := enter_ok h hstart
  call_ok i c ch g h hg hc := ⟨inv_after h hg hc hinj, fun j hj => rely_after h hg hc hinj hj⟩
  leave_ok i g h := leave_ok h
  env_ok e := e.elim
  main_ok i g h hfresh hstart g' hr := by
    have hact : i ∈ g'.active := hr.active.2 (List.mem_cons_self ..)
    have hlog : g'.log i = [] := hr.log.trans hfresh.2
    change Prog.wp (indexContract uuid5 runs d i) ((runs i).main uuid5) _ g'
    cases hrun : runs i with
    | ingest event deadline service =>
      exact Prog.wp_bind (Prog.wp_mono _
        ((indexLedger hinj d hrun).wp_process ⟨hact, by rw [hlog]; rfl⟩)
        fun _ _ _ _ => Prog.wp_ret trivial)
    | reset yes =>
      have hd : d = .sequential := by
        cases d with
        | sequential => rfl
        | exclusive =>
          have hsome : (runs i).hash?.isSome := hstart
          rw [hrun] at hsome
          cases hsome
      exact Prog.wp_bind (Prog.wp_mono _ (wp_resetIndex (by rw [hrun]; rfl) hd yes hact)
        fun _ _ _ _ => Prog.wp_ret trivial)

theorem inv_start : IndexInv uuid5 runs d .start where
  shaped _ h := by cases h
  complete _ h := by cases h
  single _ h := by cases h
  unregistered _ h := by cases h
  running _ h := by cases h
  alone _ _ h := by cases h
  aligned _ _ _ h := by cases h

end Certificate

theorem Embeddings.zip_eq {bs : Embeddings} (h : ∀ b ∈ bs, b.1.length = b.2.length) :
    bs.texts.zip bs.vectors = (bs.map fun b => b.1.zip b.2).flatten := by
  induction bs with
  | nil => rfl
  | cons b bs ih =>
    simp only [List.mem_cons, forall_eq_or_imp] at h
    simp only [texts, vectors, List.map_cons, List.flatten_cons] at ih ⊢
    rw [List.zip_append h.1, ih h.2]

/-- A row's number of points is there, one for each index. -/
def WellIndexed (s : IndexState) (hash : PyStr) : Prop :=
  ∀ row ∈ s.rows.rows, row.hash = hash →
    ((s.points.rows.filter fun p => p.hash = hash).map StoredPoint.chunkIndex).Perm
      (List.range row.chunkCount)

/-- No run over the document is in progress. -/
def Idle (runs : Nat → Run) (g : IndexWorld) (hash : PyStr) : Prop :=
  ∀ i ∈ g.active, (runs i).hash? ≠ some hash

section Runs

variable {uuid5 : PyStr → PyStr} (hinj : Function.Injective uuid5) {runs : Nat → Run}

include hinj

/-- Runs that take turns, each stopping where it may: the points of a document with a row are
those of the chunks and vectors of the run that registered it, each chunk with the vector it was
answered with, and no ingest run touches a point of another document. -/
theorem rows_complete {cfg : (indexSystem uuid5 runs).Config}
    (h : (indexSystem uuid5 runs).Reachable (indexRules uuid5 runs .sequential) .start cfg) :
    (∀ row ∈ cfg.shared.index.rows.rows, ∃ done : Completed uuid5 runs cfg.shared row,
      done.chunks.length = row.chunkCount ∧ done.vectors.length = row.chunkCount ∧
      (cfg.shared.index.points.rows.filter fun p => p.hash = row.hash).Perm
        (pointsOf uuid5 done.event done.chunks done.vectors) ∧
      done.chunks.zip done.vectors =
        ((embeds done.earlier).map fun b => b.1.zip b.2).flatten) ∧
    ∀ i hash, (runs i).hash? = some hash → ∀ ch cfg',
      (indexSystem uuid5 runs).next cfg (.call i ch) = some cfg' → ∀ p : StoredPoint,
        p.hash ≠ hash →
        (p ∈ cfg'.shared.index.points.rows ↔ p ∈ cfg.shared.index.points.rows) := by
  have hfresh (i : Nat) : (indexCertificate hinj runs .sequential).fresh i .start := ⟨nofun, rfl⟩
  have hinv : IndexInv uuid5 runs .sequential cfg.shared :=
    (indexCertificate hinj runs .sequential).sound inv_start hfresh h
  refine ⟨fun row hrow => ?_, fun i hash hhash ch cfg' hn p hp => ?_⟩
  · obtain ⟨done⟩ := hinv.complete row hrow
    have haligned : ∀ b ∈ embeds done.earlier, b.1.length = b.2.length := fun b hb => by
      refine hinv.aligned rfl done.run b ?_
      have hb : b ∈ embeds (⟨.register row, done.reply⟩ :: done.earlier) := hb
      rw [done.log_eq]
      exact mem_embeds_append hb _
    exact ⟨done, done.length_chunks, done.length_vectors, done.perm hinj,
      Embeddings.zip_eq haligned⟩
  · simp only [Actors.next] at hn
    split at hn
    case h_1 c k hl =>
      cases hn
      have hguard : indexGuard uuid5 runs .sequential i c cfg.shared :=
        (indexCertificate hinj runs .sequential).guarded inv_start hfresh h
          (by simp [Actors.Config.pending, hl])
      exact points_of_others hinj hinv.shaped hguard hhash hp
    case h_2 => cases hn

/-- Where no run deletes a document that has a row or that another run is writing, every row
keeps its promise, whether runs are in progress or not. -/
theorem wellIndexed_of_exclusive {cfg : (indexSystem uuid5 runs).Config}
    (h : (indexSystem uuid5 runs).Reachable (indexRules uuid5 runs .exclusive) .start cfg)
    (hash : PyStr) : WellIndexed cfg.shared.index hash := by
  have hinv : IndexInv uuid5 runs .exclusive cfg.shared :=
    (indexCertificate hinj runs .exclusive).sound inv_start (fun _ => ⟨nofun, rfl⟩) h
  rintro row hrow rfl
  obtain ⟨done⟩ := hinv.complete row hrow
  have hlen : (done.chunks.zip done.vectors).length = row.chunkCount := by
    rw [List.length_zip, done.length_chunks, done.length_vectors, min_self]
  have hperm := (done.perm hinj).map StoredPoint.chunkIndex
  rwa [chunkIndex_pointsOf, hlen] at hperm

end Runs

/-! ### Two runs over one document -/

section Sample

/-- The digest of `one`, an empty line and `two`. -/
def sampleHash : PyStr :=
  ofString "f1687a1c91e7dabb67da04e90073a106ff7ad470212e3c98986afd56472abef8"

def sampleData : List UInt8 := [111, 110, 101, 10, 10, 116, 119, 111]

def sampleEvent : IngestEvent :=
  ⟨ofString "e", sampleHash, ofString "a.txt", ofString "f1/68" ++ sampleHash, 8, 0, 0, 1⟩

/-- `uuid5` on the two names used here, and some injection elsewhere. -/
def sampleUuid5 : PyStr → PyStr :=
  Equiv.swap (pointName sampleHash 0) (ofString "10250b51-906e-5b3e-8827-57dbef52b12d") ∘
    Equiv.swap (pointName sampleHash 1) (ofString "5f54f5f2-9504-5342-bd15-5aaa1e4e30f3")

theorem sampleUuid5_injective : Function.Injective sampleUuid5 :=
  (Equiv.injective _).comp (Equiv.injective _)

/-- `str.split("\n\n")`. -/
def paragraphs : PyStr → List PyStr
  | [] => [[]]
  | [a] => [[a]]
  | a :: b :: rest =>
    if a.val = 10 ∧ b.val = 10 then [] :: paragraphs rest
    else match paragraphs (b :: rest) with
      | p :: ps => (a :: p) :: ps
      | [] => [[a]]

/-- Text files only, read as ASCII and chunked at empty lines. -/
def sampleService : IngestService where
  chunkSize := 3
  chunkOverlap := 0
  embedBatchSize := ⟨2, by decide⟩
  maxFileBytes := 100
  upsertBatch := ⟨1, by decide⟩
  parserFor filename :=
    if extension filename = ofString ".txt" then
      .ok fun data => .ok (data.map fun b => CodePoint.ofChar (Char.ofNat b.toNat))
    else .error (.permanent .unsupportedType none)
  splitText _ _ _ text := .ok (paragraphs text)

def sampleRuns (_ : Nat) : Run := .ingest sampleEvent 1000 sampleService

def answered : JobChoice := ⟨.ok, .unavailable [], sampleData, [[1], [2]], 0⟩

abbrev SampleStep := (indexSystem sampleUuid5 sampleRuns).Step

/-- One run from its start to its end. -/
def wholeRun (i : Nat) : List SampleStep :=
  [.start i] ++ List.replicate 12 (.call i answered) ++ [.finish i]

/-- A run that crashes between its two upserts, and a run after it. -/
def rerun : List SampleStep :=
  [.start 0] ++ List.replicate 9 (.call 0 answered) ++ [.crash 0] ++ wholeRun 1

/-- The second run looks for a row before the first registers it, deletes after that, and
crashes. -/
def overlap : List SampleStep :=
  [.start 1, .call 1 answered] ++ wholeRun 0 ++ List.replicate 7 (.call 1 answered) ++ [.crash 1]

def sampleRow : IndexedDocument :=
  ⟨sampleHash, sampleEvent.filename, sampleEvent.bucketPath, 2, 0⟩

/-- What is left after a list of steps: the two stores, and who is running. -/
def leftBy (es : List SampleStep) : Option (IndexState × List Nat) :=
  ((indexSystem sampleUuid5 sampleRuns).replay (Actors.init _ .start) es).map
    fun cfg => (cfg.shared.index, cfg.shared.active)

theorem rows_complete_rerun : ∃ cfg,
    (indexSystem sampleUuid5 sampleRuns).Reachable (indexRules _ _ .sequential) .start cfg ∧
    sampleRow ∈ cfg.shared.index.rows.rows ∧
    ∃ done : Completed sampleUuid5 sampleRuns cfg.shared sampleRow, done.chunks.length = 2 ∧
      (cfg.shared.index.points.rows.filter fun p => p.hash = sampleHash).Perm
        (pointsOf sampleUuid5 done.event done.chunks done.vectors) := by
  have hleft : (leftBy rerun).map (fun x => x.1.rows.rows) = some [sampleRow] := by decide +kernel
  have hrules : (indexRules sampleUuid5 sampleRuns .sequential).AllowsAll
      (Actors.init _ .start) rerun := by decide +kernel
  simp only [leftBy, Option.map_map, Option.map_eq_some_iff] at hleft
  obtain ⟨cfg, hreplay, hrows⟩ := hleft
  have hreach := Actors.Reachable.init.replay hrules hreplay
  have hmem : sampleRow ∈ cfg.shared.index.rows.rows := by
    rw [show cfg.shared.index.rows.rows = [sampleRow] from hrows]
    exact List.mem_singleton_self _
  obtain ⟨done, hchunks, -, hperm, -⟩ :=
    (rows_complete sampleUuid5_injective hreach).1 sampleRow hmem
  exact ⟨cfg, hreach, hmem, done, hchunks, hperm⟩

theorem wellIndexed_of_exclusive_rerun : ∃ cfg,
    (indexSystem sampleUuid5 sampleRuns).Reachable (indexRules _ _ .exclusive) .start cfg ∧
    sampleRow ∈ cfg.shared.index.rows.rows ∧ WellIndexed cfg.shared.index sampleHash := by
  have hleft : (leftBy rerun).map (fun x => x.1.rows.rows) = some [sampleRow] := by decide +kernel
  have hrules : (indexRules sampleUuid5 sampleRuns .exclusive).AllowsAll
      (Actors.init _ .start) rerun := by decide +kernel
  simp only [leftBy, Option.map_map, Option.map_eq_some_iff] at hleft
  obtain ⟨cfg, hreplay, hrows⟩ := hleft
  have hreach := Actors.Reachable.init.replay hrules hreplay
  refine ⟨cfg, hreach, ?_, wellIndexed_of_exclusive sampleUuid5_injective hreach sampleHash⟩
  rw [show cfg.shared.index.rows.rows = [sampleRow] from hrows]
  exact List.mem_singleton_self _

/-- Runs that overlap can leave a registered document without its points. -/
theorem halfIndexed_overlap : ∃ cfg,
    (indexSystem sampleUuid5 sampleRuns).Reachable (Actors.Rules.free _) .start cfg ∧
    Idle sampleRuns cfg.shared sampleHash ∧ ¬ WellIndexed cfg.shared.index sampleHash := by
  have hleft : (leftBy overlap).map (fun x => (x.1.rows.rows, x.1.points.rows, x.2)) =
      some ([sampleRow], [], []) := by decide +kernel
  simp only [leftBy, Option.map_map, Option.map_eq_some_iff, Function.comp_apply,
    Prod.mk.injEq] at hleft
  obtain ⟨cfg, hreplay, hrows, hpoints, hactive⟩ := hleft
  refine ⟨cfg, Actors.Reachable.init.replay (Actors.Rules.free_allowsAll _ _) hreplay, ?_,
    fun h => ?_⟩
  · intro i hi
    rw [hactive] at hi
    cases hi
  · have hperm := h sampleRow (by rw [hrows]; exact List.mem_singleton_self _) rfl
    rw [hpoints] at hperm
    exact absurd hperm.length_eq (by decide)

end Sample

end Rag
