import RagPipeline.Rag.IngestService

/-!
# What one ingest run knows

`IngestService.process` against abstract facts: what was fetched and embedded, what the run has
written since its delete. They say what each call gives and what it needs, so that the one walk
along the code serves runs that take turns, runs that overlap, and runs inside a consumer.

## Main definitions

* `IngestLedger`: the facts of one run, and how calls give and need them.

## Main results

* `IngestLedger.wp_process`: every call is made in a state that permits it, and an `Indexed`
  outcome means that the document is registered.
-/
namespace Rag

open Events Wire Interact Method IngestService

variable {G : Type}

/-- The calls that only look. -/
def JobCmd.Looks : JobCmd → Prop
  | .exists _ | .get .. | .monotonic | .now => True
  | _ => False

/-- Embedding requests in order, with what they returned. -/
abbrev Embeddings := List (List PyStr × List Vector)

def Embeddings.texts (bs : Embeddings) : List PyStr := (bs.map Prod.fst).flatten
def Embeddings.vectors (bs : Embeddings) : List Vector := (bs.map Prod.snd).flatten

/-- The chunks a service makes of fetched data. -/
def Chunked (service : IngestService) (event : IngestEvent) (data : List UInt8)
    (chunks : List PyStr) : Prop :=
  ∃ parse, service.parserFor event.filename = .ok parse ∧
    chunksOf service event parse data = .ok chunks

structure IngestLedger (C : Contract JobSig G) (uuid5 : PyStr → PyStr) (service : IngestService)
    (event : IngestEvent) where
  /-- No row was found, and none can have appeared. -/
  absent : G → Prop
  fetched : List UInt8 → G → Prop
  /-- The run goes on, and has embedded this so far. -/
  embedded : Embeddings → G → Prop
  /-- The run has deleted, and since then written exactly these points. -/
  writing : List StoredPoint → G → Prop
  registered : G → Prop
  look : ∀ {c g r g₁ g₂}, c.Looks → C.exec c g r g₁ → C.rely g₁ g₂ →
    (absent g → absent g₂) ∧ (∀ data, fetched data g → fetched data g₂) ∧
    (∀ bs, embedded bs g → embedded bs g₂) ∧ ∀ ps, writing ps g → writing ps g₂
  found : ∀ {g g₁ g₂}, C.exec (.exists event.hash) g (Except.ok true) g₁ → C.rely g₁ g₂ →
    registered g₂
  missing : ∀ {g g₁ g₂}, C.exec (.exists event.hash) g (Except.ok false) g₁ → C.rely g₁ g₂ →
    absent g₂
  got : ∀ {key maxBytes g g₁ g₂} {data : List UInt8},
    C.exec (.get key maxBytes) g (Except.ok data) g₁ → C.rely g₁ g₂ → fetched data g₂
  embeds : ∀ {texts g g₁ g₂} {r : Except CallError (List Vector)},
    C.exec (.embed texts) g r g₁ → C.rely g₁ g₂ →
    (absent g → absent g₂) ∧ (∀ data, fetched data g → fetched data g₂) ∧
    ∀ bs vectors, r = .ok vectors → embedded bs g → embedded (bs ++ [(texts, vectors)]) g₂
  deletes : ∀ {g g₁ g₂} {r : Except CallError Unit},
    C.exec (.deleteByHash event.hash) g r g₁ → C.rely g₁ g₂ →
    (∀ data, fetched data g → fetched data g₂) ∧ (∀ bs, embedded bs g → embedded bs g₂) ∧
    (r = .ok () → writing [] g₂)
  upserts : ∀ {batch g g₁ g₂} {r : Except CallError Unit},
    C.exec (.upsert batch) g r g₁ → C.rely g₁ g₂ →
    (∀ data, fetched data g → fetched data g₂) ∧ (∀ bs, embedded bs g → embedded bs g₂) ∧
    ∀ chunks vectors ps rest, r = .ok () → writing ps g →
      ps ++ batch ++ rest = pointsOf uuid5 event chunks vectors → writing (ps ++ batch) g₂
  registers : ∀ {document g g₁ g₂}, document.hash = event.hash →
    C.exec (.register document) g (Except.ok ()) g₁ → C.rely g₁ g₂ → registered g₂
  may_look : ∀ {c bs g}, c.Looks → C.inv g → embedded bs g → C.guard c g
  may_embed : ∀ {texts bs g}, C.inv g → embedded bs g → C.guard (.embed texts) g
  may_delete : ∀ {bs g}, C.inv g → absent g → embedded bs g →
    C.guard (.deleteByHash event.hash) g
  may_upsert : ∀ {chunks vectors batch ps rest g}, C.inv g → writing ps g →
    ps ++ batch ++ rest = pointsOf uuid5 event chunks vectors → C.guard (.upsert batch) g
  may_register : ∀ {data chunks bs now g}, C.inv g → fetched data g →
    Chunked service event data chunks → embedded bs g → bs.texts = chunks →
    chunks.length = bs.vectors.length → writing (pointsOf uuid5 event chunks bs.vectors) g →
    C.guard (.register ⟨event.hash, event.filename, event.bucketPath, chunks.length, now⟩) g

@[simp] theorem length_pointsOf {uuid5 : PyStr → PyStr} {event : IngestEvent}
    {chunks : List PyStr} {vectors : List Vector} (h : chunks.length = vectors.length) :
    (pointsOf uuid5 event chunks vectors).length = chunks.length := by
  simp [pointsOf, h]

namespace IngestLedger

variable {C : Contract JobSig G} {uuid5 : PyStr → PyStr} {service : IngestService}
  {event : IngestEvent} (L : IngestLedger C uuid5 service event)

/-- Before the delete. -/
def Prepared (data : Option (List UInt8)) (bs : Embeddings) (g : G) : Prop :=
  L.absent g ∧ (∀ d, data = some d → L.fetched d g) ∧ L.embedded bs g

section

variable {L} {data : Option (List UInt8)} {bs : Embeddings} {deadline : Micros} {s : Unit} {g : G}

theorem ofJob_ok {α : Type} {x : Except JobError α} {a : α}
    (h : x.mapError CallError.raised = .ok a) : x = .ok a := by
  cases x with
  | error e => cases h
  | ok b => cases h; rfl

theorem Prepared.look {c : JobCmd} {r : JobSig.Reply c} {g₁ g₂ : G} (h : L.Prepared data bs g)
    (hc : c.Looks) (hx : C.exec c g r g₁) (hr : C.rely g₁ g₂) : L.Prepared data bs g₂ := by
  obtain ⟨ha, hf, he, -⟩ := L.look hc hx hr
  exact ⟨ha h.1, fun d hd => hf d (h.2.1 d hd), he bs h.2.2⟩

theorem wp_check (h : L.Prepared data bs g) :
    wp C (check deadline) (fun r _ g => r = .ok () → L.Prepared data bs g) s g := by
  refine wp_bind (R := fun _ _ g => L.Prepared data bs g)
    (wp_call (fun hi => L.may_look trivial hi h.2.2) fun r g₁ g₂ _ hx _ hr =>
      h.look (c := .monotonic) trivial hx hr)
    (fun _ _ _ _ => nofun) fun now _ g hp => ?_
  exact wp_ite (fun _ => wp_raise nofun) fun _ => wp_pure fun _ => hp

theorem wp_embedAll (batches : List (List PyStr)) (h : L.Prepared data bs g) :
    wp C (embedAll deadline batches) (fun r _ g => ∀ vectors, r = .ok vectors →
      ∃ bs', L.Prepared data (bs ++ bs') g ∧ Embeddings.texts bs' = batches.flatten ∧
        Embeddings.vectors bs' = vectors) s g := by
  induction batches generalizing bs g with
  | nil => exact wp_pure fun vectors hv => ⟨[], by simpa using h, rfl, by cases hv; rfl⟩
  | cons texts rest ih =>
    refine wp_bind (wp_check h) (fun _ _ _ _ => nofun) fun _ _ g hp => ?_
    refine wp_request (fun hi => L.may_embed hi (hp rfl).2.2) (fun _ _ _ _ _ _ _ => nofun) ?_
    intro r vectors g₁ g₂ he hx _ hr
    obtain ⟨ha, hf, hem⟩ := L.embeds hx hr
    have hp₂ : L.Prepared data (bs ++ [(texts, vectors)]) g₂ :=
      ⟨ha (hp rfl).1, fun d hd => hf d ((hp rfl).2.1 d hd), hem bs vectors he (hp rfl).2.2⟩
    refine wp_bind (ih hp₂) (fun _ _ _ _ => nofun) fun more _ g h => wp_pure ?_
    rintro _ ⟨⟩
    obtain ⟨bs', hp', ht, hv⟩ := h more rfl
    exact ⟨(texts, vectors) :: bs', by simpa using hp', by simp [Embeddings.texts, ← ht],
      by simp [Embeddings.vectors, ← hv]⟩

variable (L) in
/-- After the delete. -/
def Written (data : List UInt8) (bs : Embeddings) (ps : List StoredPoint) (g : G) : Prop :=
  L.fetched data g ∧ L.embedded bs g ∧ L.writing ps g

theorem wp_upsertAll {d : List UInt8} {chunks : List PyStr} {vectors : List Vector}
    (ps : List StoredPoint) (batches : List (List StoredPoint))
    (hall : ps ++ batches.flatten = pointsOf uuid5 event chunks vectors) (h : L.Written d bs ps g) :
    wp C (upsertAll batches) (fun r _ g => r = .ok () →
      L.Written d bs (pointsOf uuid5 event chunks vectors) g) s g := by
  induction batches generalizing ps g with
  | nil => exact wp_pure fun _ => by simpa [← hall] using h
  | cons batch rest ih =>
    have hsplit : ps ++ batch ++ rest.flatten = pointsOf uuid5 event chunks vectors := by
      simpa using hall
    refine wp_request (fun hi => L.may_upsert hi h.2.2 hsplit) (fun _ _ _ _ _ _ _ => nofun)
      fun r _ g₁ g₂ hok hx _ hr => ?_
    obtain ⟨hf, he, hw⟩ := L.upserts hx hr
    exact ih (ps ++ batch) hsplit
      ⟨hf d h.1, he bs h.2.1, hw chunks vectors ps _ hok h.2.2 hsplit⟩

variable (L) in
/-- The chunks of `data` are embedded and stored. -/
def Stored (data : List UInt8) (chunks : List PyStr) (points : List StoredPoint) (g : G) : Prop :=
  ∃ bs : Embeddings, bs.texts = chunks ∧ chunks.length = bs.vectors.length ∧
    points = pointsOf uuid5 event chunks bs.vectors ∧ L.Written data bs points g

theorem wp_store {d : List UInt8} {chunks : List PyStr} (h : L.Prepared (some d) [] g) :
    wp C (store uuid5 service event deadline chunks) (fun r _ g => ∀ points, r = .ok points →
      L.Stored d chunks points g) s g := by
  refine wp_bind (wp_embedAll _ h) (fun _ _ _ _ => nofun) fun vectors _ g hembed => ?_
  obtain ⟨bs, hp, ht, rfl⟩ := hembed vectors rfl
  rw [flatten_slices] at ht
  refine wp_bind (wp_check hp) (fun _ _ _ _ => nofun) fun _ _ g hp => ?_
  replace hp := hp rfl
  refine wp_ite (fun _ => wp_raise nofun) fun hlen => ?_
  refine wp_request (fun hi => L.may_delete hi hp.1 hp.2.2) (fun _ _ _ _ _ _ _ => nofun)
    fun r _ g₁ g₂ hok hx _ hr => ?_
  obtain ⟨hf, he, hw⟩ := L.deletes hx hr
  have hwritten : L.Written d bs [] g₂ := ⟨hf d (hp.2.1 d rfl), by simpa using he _ hp.2.2, hw hok⟩
  refine wp_bind (@wp_upsertAll _ _ _ _ _ _ _ _ _ _ _ bs.vectors [] _ (by simp; rfl) hwritten)
    (fun _ _ _ _ => nofun) fun _ _ g h => wp_pure ?_
  rintro _ ⟨⟩
  exact ⟨bs, ht, not_not.1 hlen, rfl, h rfl⟩

theorem wp_work (h : L.embedded [] g) :
    wp C (work uuid5 service event deadline) (fun r _ g => ∀ chunkCount,
      r = .ok (.indexed chunkCount) → L.registered g) s g := by
  refine wp_request (fun hi => L.may_look (c := .exists event.hash) trivial hi h)
    (fun _ _ _ _ _ _ _ => nofun) fun r found g₁ g₂ hfound hx _ hr => ?_
  subst hfound
  refine wp_ite (fun hf => wp_pure fun _ _ => ?_) fun hf => ?_
  · rw [hf] at hx
    exact L.found hx hr
  rw [Bool.not_eq_true] at hf
  rw [hf] at hx
  have hp : L.Prepared none [] g₂ :=
    ⟨L.missing hx hr, nofun, (L.look (c := .exists event.hash) trivial hx hr).2.2.1 [] h⟩
  refine wp_ofExcept_bind (fun _ _ _ => nofun) fun parse hparse => ?_
  refine wp_ite (fun _ => wp_raise nofun) fun _ => ?_
  refine wp_bind (wp_check hp) (fun _ _ _ _ => nofun) fun _ _ g hp => ?_
  refine wp_request (fun hi => L.may_look (c := .get ..) trivial hi (hp rfl).2.2)
    (fun _ _ _ _ _ _ _ => nofun) fun r data g₁ g₂ hdata hx _ hr => ?_
  subst hdata
  have hp : L.Prepared (some data) [] g₂ := by
    obtain ⟨ha, -, he⟩ := (hp rfl).look (c := .get ..) trivial hx hr
    exact ⟨ha, by rintro _ ⟨⟩; exact L.got hx hr, he⟩
  refine wp_bind (wp_check hp) (fun _ _ _ _ => nofun) fun _ _ g hp => ?_
  refine wp_ofExcept_bind (fun _ _ _ => nofun) fun chunks hchunks => ?_
  have hchunked : Chunked service event data chunks := ⟨parse, ofJob_ok hparse, ofJob_ok hchunks⟩
  refine wp_bind (R := fun r _ g => ∀ points, r = .ok points → L.Stored data chunks points g)
    (wp_tryExcept (wp_store (hp rfl)) (fun _ _ _ h => h) fun e _ _ _ => ?_)
    (fun _ _ _ _ => nofun) fun points _ g hpoints => ?_
  · cases e <;> exact wp_raise nofun
  obtain ⟨bs, ht, hlen, rfl, hw⟩ := hpoints points rfl
  have hnow : wp C (perform .now)
      (fun _ _ g => L.Written data bs (pointsOf uuid5 event chunks bs.vectors) g) s g := by
    refine wp_call (fun hi => L.may_look (c := .now) trivial hi hw.2.1) fun r g₁ g₂ _ hx _ hr => ?_
    obtain ⟨-, hf, he, hps⟩ := L.look (c := .now) trivial hx hr
    exact ⟨hf data hw.1, he bs hw.2.1, hps _ hw.2.2⟩
  refine wp_bind hnow (fun _ _ _ _ => nofun) fun now _ g hw => ?_
  rw [length_pointsOf hlen]
  refine wp_request (fun hi => L.may_register hi hw.1 hchunked hw.2.1 ht hlen hw.2.2)
    (fun _ _ _ _ _ _ _ => nofun) fun r _ g₁ g₂ hok hx _ hr => wp_pure fun _ _ => ?_
  subst hok
  exact L.registers rfl hx hr

theorem wp_process (h : L.embedded [] g) :
    Prog.wp C (process uuid5 service event deadline) (fun r g => ∀ chunkCount,
      r = .ok (.indexed chunkCount) → L.registered g) g := by
  refine Prog.wp_bind (Prog.wp_mono _ (wp_work (s := ()) h) fun r g _ hr => Prog.wp_ret ?_)
  intro chunkCount hc
  cases hr' : r.1 with
  | error e => rw [hr'] at hc; cases hc
  | ok outcome => rw [hr'] at hc; cases hc; exact hr chunkCount hr'

end

end IngestLedger

end Rag
