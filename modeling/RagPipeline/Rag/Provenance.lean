import RagPipeline.Interact.Watchers
import RagPipeline.Rag.IndexComplete

/-!
# Where a stored chunk comes from

Runs may overlap, crash, lose replies and delete each other's points. A point that is stored is
still one that some ingest run made: of a chunk it cut from what it fetched for its event, and of
the vector it was given for that chunk.

## Main definitions

* `CutFrom`: a point was made in a run with such a log.
* `alignedRules`: the embedder returns one vector for each text, and nothing else is assumed.

## Main results

* `wp_work_cut`: a run upserts only points of that kind.
* `provenanceCertificate`: only such points are stored, whatever the runs do to each other.
-/
namespace Rag

open Events Wire Interact Relational Method IngestService

/-! ### Aligned requests -/

/-- Every request was answered with one vector for each text. -/
def Aligned (bs : Embeddings) : Prop := ∀ b ∈ bs, b.1.length = b.2.length

/-- A chunk stands beside a vector that was returned for it. -/
theorem Embeddings.mem_zip {bs : Embeddings} (h : Aligned bs) {chunk : PyStr} {vector : Vector}
    (hmem : (chunk, vector) ∈ bs.texts.zip bs.vectors) :
    ∃ b ∈ bs, (chunk, vector) ∈ b.1.zip b.2 := by
  rw [Embeddings.zip_eq h, List.mem_flatten] at hmem
  obtain ⟨pairs, hpairs, hmem⟩ := hmem
  obtain ⟨b, hb, rfl⟩ := List.mem_map.1 hpairs
  exact ⟨b, hb, hmem⟩

theorem aligned_after_reply {c : JobCmd} {r : JobSig.Reply c} {log : List JobExchange}
    (h : Aligned (embeds log)) (hr : ∀ texts vectors, c = .embed texts →
      HEq r (Except.ok vectors : Except CallError (List Vector)) → vectors.length = texts.length) :
    Aligned (embeds (⟨c, r⟩ :: log)) := by
  by_cases hc : ∃ texts, c = .embed texts
  · obtain ⟨texts, rfl⟩ := hc
    change Except CallError (List Vector) at r
    cases r with
    | error e => exact h
    | ok vectors =>
      intro b hb
      rcases List.mem_append.1 hb with hb | hb
      · exact h b hb
      · rw [List.mem_singleton.1 hb]
        exact (hr texts vectors rfl HEq.rfl).symm
  · rw [embeds_cons fun texts h => hc ⟨texts, h⟩]
    exact h

/-! ### One run -/

/-- The run fetched this from where its event says. -/
def Downloaded (service : IngestService) (event : IngestEvent) (data : List UInt8)
    (log : List JobExchange) : Prop :=
  (⟨.get event.bucketPath service.maxFileBytes, Except.ok data⟩ : JobExchange) ∈ log

/-- The point holds a chunk of what the run fetched, under a vector it was given for the chunk. -/
def CutFrom (uuid5 : PyStr → PyStr) (service : IngestService) (event : IngestEvent)
    (log : List JobExchange) (p : StoredPoint) : Prop :=
  p.hash = event.hash ∧ p.filename = event.filename ∧
  p.id = pointId uuid5 event.hash p.chunkIndex ∧
  (∃ data chunks, Downloaded service event data log ∧ Chunked service event data chunks ∧
    chunks[p.chunkIndex]? = some p.text) ∧
  ∃ b ∈ embeds log, (p.text, p.vector) ∈ b.1.zip b.2

variable {uuid5 : PyStr → PyStr} {service : IngestService} {event : IngestEvent}
  {log : List JobExchange} {data : List UInt8} {chunks : List PyStr} {p : StoredPoint}

theorem CutFrom.append (h : CutFrom uuid5 service event log p) (more : List JobExchange) :
    CutFrom uuid5 service event (more ++ log) p := by
  obtain ⟨hhash, hfilename, hid, ⟨data, chunks, hgot, hchunked, htext⟩, b, hb, hvector⟩ := h
  exact ⟨hhash, hfilename, hid, ⟨data, chunks, List.mem_append_right _ hgot, hchunked, htext⟩,
    b, mem_embeds_append hb more, hvector⟩

/-- The points a run makes are of that kind. -/
theorem cutFrom_pointsOf (haligned : Aligned (embeds log))
    (hgot : Downloaded service event data log)
    (hchunked : Chunked service event data (embeds log).texts)
    (hp : p ∈ pointsOf uuid5 event (embeds log).texts (embeds log).vectors) :
    CutFrom uuid5 service event log p := by
  obtain ⟨i, chunk, vector, hi, rfl⟩ := mem_pointsOf.1 hp
  have hchunk : (embeds log).texts[i]? = some chunk := (List.getElem?_zip_eq_some.1 hi).1
  exact ⟨rfl, rfl, rfl, ⟨data, _, hgot, hchunked, hchunk⟩,
    Embeddings.mem_zip haligned (List.mem_of_getElem? hi)⟩

/-- A run against its log. -/
def cutContract (uuid5 : PyStr → PyStr) (service : IngestService) (event : IngestEvent) :
    Contract JobSig (List JobExchange) where
  inv log := Aligned (embeds log)
  rely log log' := log' = log
  guard c log := match c with
    | .upsert batch => ∀ p ∈ batch, CutFrom uuid5 service event log p
    | _ => True
  exec c log r log' := log' = ⟨c, r⟩ :: log

/-- The calls that need nothing. -/
def JobCmd.Free : JobCmd → Prop
  | .upsert _ => False
  | _ => True

theorem cutContract_free {c : JobCmd} (hc : c.Free) :
    (cutContract uuid5 service event).guard c log := by
  cases c <;> trivial

section Walk

variable {α β : Type} {s : Unit} {deadline : Micros}

theorem wp_free {c : JobCmd} {f : JobSig.Reply c → Job α} {Q : Except CallError α → Unit →
    List JobExchange → Prop} (hc : c.Free)
    (h : ∀ r, wp (cutContract uuid5 service event) (f r) Q s (⟨c, r⟩ :: log)) :
    wp (cutContract uuid5 service event) (perform c >>= f) Q s log := by
  refine wp_call_bind (fun _ => cutContract_free hc) ?_
  rintro r _ _ - rfl - rfl
  exact h r

/-- What was fetched and embedded so far. -/
def Gathered (service : IngestService) (event : IngestEvent) (data : List UInt8)
    (bs : Embeddings) (log : List JobExchange) : Prop :=
  Downloaded service event data log ∧ embeds log = bs

theorem Gathered.cons {c : JobCmd} {r : JobSig.Reply c} {bs : Embeddings}
    (h : Gathered service event data bs log) (hc : ∀ texts, c ≠ .embed texts) :
    Gathered service event data bs (⟨c, r⟩ :: log) :=
  ⟨List.mem_cons_of_mem _ h.1, (embeds_cons hc).trans h.2⟩

theorem wp_check_cut {f : Unit → Job α} {Q : Except CallError α → Unit → List JobExchange → Prop}
    (hraise : ∀ e log, Q (.error e) s log)
    (h : ∀ now, wp (cutContract uuid5 service event) (f ()) Q s (⟨.monotonic, now⟩ :: log)) :
    wp (cutContract uuid5 service event) (check deadline >>= f) Q s log := by
  refine wp_bind
    (R := fun r s' log' => r = .ok () → s' = s ∧ ∃ now, log' = ⟨.monotonic, now⟩ :: log)
    (wp_free trivial fun (now : Micros) => wp_ite (fun _ => wp_raise nofun)
      fun _ => wp_pure fun _ => ⟨rfl, now, rfl⟩) (fun _ _ _ _ => hraise _ _) ?_
  rintro _ _ _ hok
  obtain ⟨rfl, now, rfl⟩ := hok rfl
  exact h now

theorem wp_embedAll_cut (batches : List (List PyStr)) {bs : Embeddings}
    (h : Gathered service event data bs log) :
    wp (cutContract uuid5 service event) (embedAll deadline batches) (fun r _ log =>
      ∀ vectors, r = .ok vectors → ∃ bs', Gathered service event data (bs ++ bs') log ∧
        Embeddings.texts bs' = batches.flatten ∧ Embeddings.vectors bs' = vectors) s log := by
  induction batches generalizing bs log with
  | nil => exact wp_pure fun vectors hv => ⟨[], by simpa using h, rfl, by cases hv; rfl⟩
  | cons texts rest ih =>
    refine wp_check_cut (fun _ _ _ => nofun) fun now => wp_free trivial fun r => ?_
    refine wp_ofExcept_bind (fun _ _ _ => nofun) fun vectors hr => ?_
    subst hr
    have h₁ := h.cons (c := .monotonic) (r := now) fun _ => nofun
    have h₂ : Gathered service event data (bs ++ [(texts, vectors)])
        (⟨.embed texts, Except.ok vectors⟩ :: ⟨.monotonic, now⟩ :: log) :=
      ⟨List.mem_cons_of_mem _ h₁.1, congrArg (· ++ _) h₁.2⟩
    refine wp_bind (ih h₂) (fun _ _ _ _ => nofun) fun more _ log h => wp_pure ?_
    rintro _ ⟨⟩
    obtain ⟨bs', hg, ht, hv⟩ := h more rfl
    exact ⟨(texts, vectors) :: bs', by simpa using hg, by simp [Embeddings.texts, ← ht],
      by simp [Embeddings.vectors, ← hv]⟩

theorem wp_upsertAll_cut (batches : List (List StoredPoint))
    (h : ∀ p ∈ batches.flatten, CutFrom uuid5 service event log p) :
    wp (cutContract uuid5 service event) (upsertAll batches) (fun _ _ _ => True) s log := by
  induction batches generalizing log with
  | nil => exact wp_pure trivial
  | cons batch rest ih =>
    have hbatch (p : StoredPoint) (hp : p ∈ batch) : CutFrom uuid5 service event log p :=
      h p (List.mem_append_left _ hp)
    refine wp_call_bind (S := JobSig) (c := JobCmd.upsert batch) (fun _ => hbatch) ?_
    rintro r _ _ - rfl - rfl
    refine wp_ofExcept_bind (fun _ _ => trivial) fun _ _ => ih fun p hp => ?_
    exact (h p (List.mem_append_right _ hp)).append [_]

theorem wp_store_cut (h : Gathered service event data [] log)
    (hchunked : Chunked service event data chunks) :
    wp (cutContract uuid5 service event) (store uuid5 service event deadline chunks)
      (fun _ _ _ => True) s log := by
  refine wp_bind (wp_embedAll_cut _ h) (fun _ _ _ _ => trivial) fun vectors _ log hembed => ?_
  obtain ⟨bs, hg, ht, rfl⟩ := hembed vectors rfl
  rw [flatten_slices] at ht
  refine wp_check_cut (fun _ _ => trivial) fun now => ?_
  refine wp_ite (fun _ => wp_raise trivial) fun _ => wp_of_inv fun haligned => ?_
  refine wp_free trivial fun r => wp_ofExcept_bind (fun _ _ => trivial) fun _ _ => ?_
  have hg' := (hg.cons (c := .monotonic) (r := now) fun _ => nofun).cons
    (c := .deleteByHash event.hash) (r := r) fun _ => nofun
  refine wp_bind (wp_upsertAll_cut _ fun p hp => ?_) (fun _ _ _ _ => trivial)
    fun _ _ _ _ => wp_pure trivial
  obtain ⟨hgot, hbs⟩ := hg'
  rw [flatten_slices] at hp
  refine cutFrom_pointsOf ?_ hgot ?_ ?_
  · rw [hbs, ← hg.2]
    exact haligned
  · rw [hbs, List.nil_append, ht]
    exact hchunked
  · rw [hbs, List.nil_append, ht]
    exact hp

theorem wp_work_cut : wp (cutContract uuid5 service event) (work uuid5 service event deadline)
    (fun _ _ _ => True) s [] := by
  refine wp_free trivial fun r => wp_ofExcept_bind (fun _ _ => trivial) fun found _ => ?_
  refine wp_ite (fun _ => wp_pure trivial) fun _ => ?_
  refine wp_ofExcept_bind (fun _ _ => trivial) fun parse hparse => ?_
  refine wp_ite (fun _ => wp_raise trivial) fun _ => ?_
  refine wp_check_cut (fun _ _ => trivial) fun now => ?_
  refine wp_free trivial fun r' => wp_ofExcept_bind (fun _ _ => trivial) fun data hdata => ?_
  subst hdata
  refine wp_check_cut (fun _ _ => trivial) fun now' => ?_
  refine wp_ofExcept_bind (fun _ _ => trivial) fun chunks hchunks => ?_
  have hchunked : Chunked service event data chunks :=
    ⟨parse, IngestLedger.ofJob_ok hparse, IngestLedger.ofJob_ok hchunks⟩
  have hg : Gathered service event data [] [⟨.monotonic, now'⟩,
      ⟨.get event.bucketPath service.maxFileBytes, Except.ok data⟩, ⟨.monotonic, now⟩,
      ⟨.exists event.hash, r⟩] :=
    ⟨List.mem_cons_of_mem _ (List.mem_cons_self ..), rfl⟩
  refine wp_bind (R := fun _ _ _ => True) (wp_tryExcept (wp_store_cut hg hchunked)
    (fun _ _ _ h => h) fun e _ _ _ => ?_) (fun _ _ _ _ => trivial) fun points _ _ _ => ?_
  · cases e <;> exact wp_raise trivial
  refine wp_free trivial fun now => wp_free trivial fun r => ?_
  exact wp_ofExcept_bind (fun _ _ => trivial) fun _ _ => wp_pure trivial

end Walk

/-! ### All runs -/

/-- `_embed` raises unless it got one vector for each text. -/
def alignedRules (uuid5 : PyStr → PyStr) (runs : Nat → Run) : (indexSystem uuid5 runs).Rules where
  start _ _ := True
  call _ c ch _ := match (c : JobCmd) with
    | .embed texts => JobChoice.fate ch = .ok → (JobChoice.vectors ch).length = texts.length
    | _ => True
  env := nofun

section Decidable

variable {runs : Nat → Run}

instance (i : Nat) (g : IndexWorld) : Decidable ((alignedRules uuid5 runs).start i g) :=
  .isTrue trivial

instance (i : Nat) (c : ((indexSystem uuid5 runs).sig i).Cmd) (ch : (indexSystem uuid5 runs).Choice)
    (g : IndexWorld) : Decidable ((alignedRules uuid5 runs).call i c ch g) :=
  match (c : JobCmd) with
  | .embed texts =>
    if h : JobChoice.fate ch = .ok → (JobChoice.vectors ch).length = texts.length then .isTrue h
    else .isFalse h
  | .exists _ | .get .. | .deleteByHash _ | .upsert _ | .register _ | .monotonic | .now
  | .collectionExists | .countPoints | .countRows | .clearRows | .clearPoints => .isTrue trivial

instance (e : (indexSystem uuid5 runs).Env) (g : IndexWorld) :
    Decidable ((alignedRules uuid5 runs).env e g) := e.elim

end Decidable

/-- Some ingest run made the point. -/
def Cut (uuid5 : PyStr → PyStr) (runs : Nat → Run) (g : IndexWorld) (p : StoredPoint) : Prop :=
  ∃ i event deadline service, runs i = .ingest event deadline service ∧
    CutFrom uuid5 service event (g.log i) p

section Certificate

variable {runs : Nat → Run} {g g' : IndexWorld} {i : Nat} {c : JobCmd} {ch : JobChoice}

theorem Cut.mono (h : Cut uuid5 runs g p) (hlog : ∀ i, ∃ more, g'.log i = more ++ g.log i) :
    Cut uuid5 runs g' p := by
  obtain ⟨i, event, deadline, service, hrun, hcut⟩ := h
  obtain ⟨more, hmore⟩ := hlog i
  exact ⟨i, event, deadline, service, hrun, hmore ▸ hcut.append more⟩

/-- The points after a call were stored before, or are those of an upsert. -/
theorem mem_points_after (h : p ∈ (g.after i c ch).index.points.rows) :
    p ∈ g.index.points.rows ∨ ∃ batch, c = .upsert batch ∧ p ∈ batch := by
  by_cases hf : ch.fate = .refused
  · rw [(index_after_refused hf).1] at h
    exact .inl h
  rw [index_after hf] at h
  cases c with
  | deleteByHash hash => exact .inl (Table.mem_delete.1 h).1
  | upsert batch =>
    exact (Table.mem_of_mem_upsertAll h).symm.imp id fun h => ⟨batch, rfl, h⟩
  | clearPoints => cases h
  | _ => exact .inl h

def provenanceGuard (uuid5 : PyStr → PyStr) (runs : Nat → Run) (c : JobCmd) (g : IndexWorld) :
    Prop :=
  match c with
  | .upsert batch => ∀ p ∈ batch, Cut uuid5 runs g p
  | _ => True

theorem cut_after (hi : (∀ p ∈ g.index.points.rows, Cut uuid5 runs g p) ∧
      ∀ j, Aligned (embeds (g.log j))) (hg : provenanceGuard uuid5 runs c g)
    (hR : (alignedRules uuid5 runs).call i c ch g) :
    (∀ p ∈ (g.after i c ch).index.points.rows, Cut uuid5 runs (g.after i c ch) p) ∧
      ∀ j, Aligned (embeds ((g.after i c ch).log j)) := by
  refine ⟨fun p hp => ?_, fun j => ?_⟩
  · rcases mem_points_after hp with hp | ⟨batch, rfl, hbatch⟩
    · exact (hi.1 p hp).mono fun _ => log_after
    · exact (hg p hbatch).mono fun _ => log_after
  · by_cases hj : j = i
    · subst hj
      rw [log_after_self]
      refine aligned_after_reply (hi.2 j) ?_
      rintro texts vectors rfl hr
      obtain ⟨hok, rfl⟩ := JobCmd.answer_ok (eq_of_heq hr)
      exact hR hok
    · rw [log_after_of_ne hj]
      exact hi.2 j

theorem provenanceGuard_free (hc : c.Free) : provenanceGuard uuid5 runs c g := by
  cases c <;> trivial

theorem issues_resetIndex {yes : Bool} : Method.Issues JobCmd.Free (resetIndex yes) := by
  refine issues_call_bind trivial fun r => issues_bind issues_ofExcept fun found => ?_
  have hrest : Method.Issues JobCmd.Free (do
      let _ ← ofExcept (← IngestService.perform .countRows)
      if !yes then
        return 1
      ofExcept (← IngestService.perform .clearRows)
      if found then
        ofExcept (← IngestService.perform .clearPoints)
      return 0 : Job Nat) := by
    refine issues_call_bind trivial fun r => issues_bind issues_ofExcept fun _ => ?_
    refine issues_ite issues_pure ?_
    refine issues_call_bind trivial fun r => issues_bind issues_ofExcept fun _ => ?_
    refine issues_ite (issues_call_bind trivial fun r => ?_) issues_pure
    exact issues_bind issues_ofExcept fun _ => issues_pure
  refine issues_ite (issues_call_bind trivial fun r => ?_) hrest
  exact issues_bind issues_ofExcept fun _ => hrest

def provenanceContract (uuid5 : PyStr → PyStr) (runs : Nat → Run) (i : Nat) :
    Contract JobSig IndexWorld where
  inv g := (∀ p ∈ g.index.points.rows, Cut uuid5 runs g p) ∧ ∀ i, Aligned (embeds (g.log i))
  rely g g' := g'.log i = g.log i
  guard c g := provenanceGuard uuid5 runs c g
  exec c g r g' := ∃ ch, (alignedRules uuid5 runs).call i c ch g ∧
    (indexSystem uuid5 runs).respond i c ch g = (r, g')

theorem wp_main_cut (hlog : g.log i = []) :
    Prog.wp (provenanceContract uuid5 runs i) ((runs i).main uuid5) (fun _ _ => True) g := by
  cases hrun : runs i with
  | reset yes =>
    exact Prog.wp_of_issues (Prog.issues_bind (issues_resetIndex ()) fun _ => trivial)
      fun _ _ hc _ => provenanceGuard_free hc
  | ingest event deadline service =>
    have hwork : wp (cutContract uuid5 service event) (work uuid5 service event deadline)
        (fun _ _ _ => True) () (g.log i) := hlog ▸ wp_work_cut
    refine Prog.wp_bind (Prog.wp_bind (Prog.wp_mono _ (Prog.wp_comap
      (D := provenanceContract uuid5 runs i) (fun g : IndexWorld => g.log i)
      (fun g hi => hi.2 i) ?_ ?_ (fun _ _ hr => hr) _ hwork)
      fun _ _ _ _ => Prog.wp_ret (Prog.wp_ret trivial)))
    · rintro c g - hg
      cases c with
      | upsert batch => exact fun p hp => ⟨i, event, deadline, service, hrun, hg p hp⟩
      | _ => trivial
    · rintro c g r g' ⟨ch, -, hx⟩
      cases hx
      exact log_after_self

/-- Only points that a run made are stored, whatever the runs do to each other. -/
def provenanceCertificate (uuid5 : PyStr → PyStr) (runs : Nat → Run) :
    Actors.Certificate (indexSystem uuid5 runs) (alignedRules uuid5 runs) where
  inv g := (∀ p ∈ g.index.points.rows, Cut uuid5 runs g p) ∧ ∀ i, Aligned (embeds (g.log i))
  rely i g g' := g'.log i = g.log i
  guard _ c g := provenanceGuard uuid5 runs c g
  fresh i g := g.log i = []
  rely_refl _ _ := rfl
  rely_trans _ _ _ _ h₁ h₂ := h₂.trans h₁
  fresh_rely _ _ _ _ hf hr := hr.trans hf
  enter_ok _ _ hi _ _ := ⟨hi, fun _ _ => rfl⟩
  call_ok _ _ _ _ hi hg hR := ⟨cut_after hi hg hR, fun _ hj => log_after_of_ne hj⟩
  leave_ok _ _ hi := ⟨hi, fun _ _ => rfl⟩
  env_ok e := e.elim
  main_ok _ _ _ hf _ _ hr := wp_main_cut (hr.trans hf)

end Certificate

end Rag
