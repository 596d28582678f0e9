import RagPipeline.Rag.Answers
import RagPipeline.Rag.Provenance

/-!
# RPCs among ingest runs

Any number of RPCs read the vector index while ingest runs and resets write to it. Ollama, Qdrant
and Groq answer an RPC as they like, and its client leaves when it likes; what Qdrant finds is
stored at that moment and passes the filter it was given.

## Main definitions

* `askers`: the RPCs, beside the ingest runs.
* `Drawn`: what a search brought comes from points of some kind.
* `askCertificate`: every RPC follows its protocol, and finds chunks that some ingest run cut.

## Main results

* `streamed_to_client`: what the client of `AskStream` receives.
* `ask_agrees`: `Ask` sends in one piece what `AskStream` streams.
* `groq_asked`: what Groq is told, and that its streams are closed.
* `ended_status`: the status of an RPC says why it ended.
* `hits_grounded`: what clients and Groq are shown was cut from documents that were fetched.
-/
namespace Rag

open Events Wire Interact Relational IngestService RpcExchange

/-! ### The system -/

/-- `found` are points of this kind, each once, that pass the filter. -/
structure Finds (P : StoredPoint → Prop) (limit : Int) (threshold : Option ℚ)
    (hashes : Option (List PyStr)) (found : List ScoredPoint) : Prop where
  count : found.length ≤ limit
  nodup : (found.map fun p => p.point.id).Nodup
  scored : ∀ p ∈ found, ∀ least ∈ threshold, least ≤ p.score
  asked : ∀ p ∈ found, ∀ hs ∈ hashes, p.point.hash ∈ hs
  stored : ∀ p ∈ found, P p.point

/-- What a search brought comes from points of this kind. -/
def Drawn (P : StoredPoint → Prop) : RpcExchange → Prop
  | ⟨.inl (.queryPoints _ limit threshold hashes), r⟩ =>
    match (r : Except ClientError (List ScoredPoint)) with
    | .ok found => Finds P limit threshold hashes found
    | .error _ => True
  | _ => True

theorem Drawn.mono {P P' : StoredPoint → Prop} {x : RpcExchange} (h : Drawn P x)
    (hP : ∀ p, P p → P' p) : Drawn P' x := by
  obtain ⟨c | response, r⟩ := x
  · cases c with
    | queryPoints _ limit threshold hashes =>
      change Except ClientError (List ScoredPoint) at r
      cases r with
      | ok found => exact { h with stored := fun p hp => hP _ (h.stored p hp) }
      | error e => trivial
    | _ => trivial
  · trivial

/-- Each RPC writes its own record. A choice says how the call that comes next is answered. -/
def askers (rpcs : Nat → Rpc) : Watchers Nat IndexWorld (Nat → RpcRecord) where
  sig _ := RpcSig
  main k := (rpcs k).main
  Choice := (c : RpcSig.Cmd) → RpcSig.Reply c
  respond k c ch _ h := (ch c, Function.update h k (⟨c, ch c⟩ :: h k))

/-- Qdrant finds what is stored. -/
def askRules (rpcs : Nat → Rpc) : (askers rpcs).Rules := fun _ c ch g _ =>
  Drawn (· ∈ g.index.points.rows) ⟨c, ch c⟩

section Decidable

instance {P : StoredPoint → Prop} [DecidablePred P] {limit : Int} {threshold : Option ℚ}
    {hashes : Option (List PyStr)} {found : List ScoredPoint} :
    Decidable (Finds P limit threshold hashes found) :=
  decidable_of_iff (found.length ≤ limit ∧ (found.map fun p => p.point.id).Nodup ∧
      (∀ p ∈ found, ∀ least ∈ threshold, least ≤ p.score) ∧
      (∀ p ∈ found, ∀ hs ∈ hashes, p.point.hash ∈ hs) ∧ ∀ p ∈ found, P p.point)
    ⟨fun ⟨h₁, h₂, h₃, h₄, h₅⟩ => ⟨h₁, h₂, h₃, h₄, h₅⟩,
      fun ⟨h₁, h₂, h₃, h₄, h₅⟩ => ⟨h₁, h₂, h₃, h₄, h₅⟩⟩

instance {P : StoredPoint → Prop} [DecidablePred P] (x : RpcExchange) : Decidable (Drawn P x) :=
  match x with
  | ⟨.inl (.queryPoints _ limit threshold hashes), r⟩ =>
    match (r : Except ClientError (List ScoredPoint)) with
    | .ok found => inferInstanceAs (Decidable (Finds P limit threshold hashes found))
    | .error _ => .isTrue trivial
  | ⟨.inl (.embed _), _⟩ | ⟨.inl (.createStream ..), _⟩ | ⟨.inl .nextChunk, _⟩
  | ⟨.inl .closeStream, _⟩ | ⟨.inl .isActive, _⟩ | ⟨.inl (.ended ..), _⟩ | ⟨.inr _, _⟩ =>
    .isTrue trivial

instance {rpcs : Nat → Rpc} (k : Nat) (c : ((askers rpcs).sig k).Cmd)
    (ch : (askers rpcs).Choice) (g : IndexWorld) (h : Nat → RpcRecord) :
    Decidable (askRules rpcs k c ch g h) :=
  inferInstanceAs (Decidable (Drawn (· ∈ g.index.points.rows) ⟨c, ch c⟩))

end Decidable

variable {uuid5 : PyStr → PyStr} {runs : Nat → Run} {rpcs : Nat → Rpc}

/-- Every RPC follows its protocol, and what it finds some ingest run made. -/
def AskInv (uuid5 : PyStr → PyStr) (runs : Nat → Run) (rpcs : Nat → Rpc) (g : IndexWorld)
    (h : Nat → RpcRecord) : Prop :=
  ∀ k, (rpcs k).Follows (h k) ∧ ∀ x ∈ h k, Drawn (Cut uuid5 runs g) x

theorem log_of_moves {g g' : IndexWorld}
    (hm : (indexSystem uuid5 runs).Moves (alignedRules uuid5 runs) g g') (i : Nat) :
    ∃ more, g'.log i = more ++ g.log i := by
  cases hm with
  | enter => exact ⟨[], rfl⟩
  | call i c ch _ => exact log_after
  | leave => exact ⟨[], rfl⟩
  | env e => exact e.elim

theorem AskInv.mono {g g' : IndexWorld} {h : Nat → RpcRecord} (hi : AskInv uuid5 runs rpcs g h)
    (hlog : ∀ i, ∃ more, g'.log i = more ++ g.log i) : AskInv uuid5 runs rpcs g' h :=
  fun k => ⟨(hi k).1, fun x hx => ((hi k).2 x hx).mono fun _ hcut => hcut.mono hlog⟩

theorem AskInv.call {g : IndexWorld} {h : Nat → RpcRecord} {k : Nat} {c : RpcSig.Cmd}
    {r : RpcSig.Reply c} (hi : AskInv uuid5 runs rpcs g h) (hg : (rpcs k).Permitted c (h k))
    (hr : Drawn (Cut uuid5 runs g) ⟨c, r⟩) :
    AskInv uuid5 runs rpcs g (Function.update h k (⟨c, r⟩ :: h k)) := by
  intro j
  by_cases hj : j = k
  · subst hj
    rw [Function.update_self]
    refine ⟨⟨hg, (hi j).1⟩, fun x hx => ?_⟩
    rcases List.mem_cons.1 hx with rfl | hx
    · exact hr
    · exact (hi j).2 x hx
  · rw [Function.update_of_ne hj]
    exact hi j

def askContract (uuid5 : PyStr → PyStr) (runs : Nat → Run) (rpcs : Nat → Rpc) (k : Nat) :
    Contract RpcSig (IndexWorld × (Nat → RpcRecord)) :=
  (askers rpcs).contract (askRules rpcs) k
    (fun x => (provenanceCertificate uuid5 runs).inv x.1 ∧ AskInv uuid5 runs rpcs x.1 x.2)
    (fun x y => y.2 k = x.2 k) fun c x => (rpcs k).Permitted c (x.2 k)

theorem wp_main_ask {k : Nat} {g : IndexWorld} {h : Nat → RpcRecord} (hf : h k = []) :
    Prog.wp (askContract uuid5 runs rpcs k) (rpcs k).main (fun _ _ => True) (g, h) := by
  have hmain := wp_rpc (rpcs k)
  rw [← hf] at hmain
  refine Prog.wp_comap (C := (rpcs k).contract) (D := askContract uuid5 runs rpcs k) (x := (g, h))
    (fun x : IndexWorld × (Nat → RpcRecord) => x.2 k) (fun x hi => (hi.2 k).1)
    (fun _ _ _ hg => hg) ?_ (fun _ _ hr => hr) _ hmain
  rintro c ⟨g, h⟩ r ⟨g', h'⟩ ⟨ch, -, hx⟩
  cases hx
  exact Function.update_self ..

def askCertificate (uuid5 : PyStr → PyStr) (runs : Nat → Run) (rpcs : Nat → Rpc) :
    Actors.WatchCertificate (provenanceCertificate uuid5 runs) (askers rpcs) (askRules rpcs) where
  inv := AskInv uuid5 runs rpcs
  rely k x y := y.2 k = x.2 k
  guard k c x := (rpcs k).Permitted c (x.2 k)
  fresh k h := h k = []
  rely_refl _ _ := rfl
  rely_trans _ _ _ _ h₁ h₂ := h₂.trans h₁
  fresh_rely _ _ _ hf hr := hr.trans hf
  move_ok _ _ _ _ _ hm hi := ⟨hi.mono (log_of_moves hm), fun _ => rfl⟩
  call_ok _ _ _ _ _ hK hi hg hR :=
    ⟨hi.call hg (hR.mono fun p hp => hK.1 p hp), fun _ hj => Function.update_of_ne hj _ _⟩
  main_ok _ _ _ _ _ hf := wp_main_ask hf

/-! ### What is found -/

/-- The chunks an RPC may show: the best ones first, each once, of the documents that were asked
for, good enough, and made by an ingest run. -/
structure Grounded (uuid5 : PyStr → PyStr) (runs : Nat → Run) (g : IndexWorld) (rpc : Rpc)
    (hits : List ScoredHit) : Prop where
  count : hits.length ≤ rpc.service.topK
  sorted : hits.Pairwise fun a b => b.score ≤ a.score
  nodup : (hits.map fun hit => (hit.hash, hit.chunkIndex)).Nodup
  scored : 0 < rpc.service.minScore → ∀ hit ∈ hits, rpc.service.minScore ≤ hit.score
  asked : rpc.request.documentIds ≠ [] → ∀ hit ∈ hits, hit.hash ∈ rpc.request.documentIds
  cut : ∀ hit ∈ hits, ∃ p, Cut uuid5 runs g p ∧ hit = QdrantIndex.hitOf ⟨p, hit.score⟩

instance : IsTrans ScoredHit fun a b => b.score ≤ a.score := ⟨fun _ _ _ h₁ h₂ => h₂.trans h₁⟩

instance : Std.Total fun a b : ScoredHit => b.score ≤ a.score := ⟨fun _ _ => le_total _ _⟩

theorem grounded_of_finds {g : IndexWorld} {rpc : Rpc} {points : List ScoredPoint}
    (h : Finds (Cut uuid5 runs g) rpc.service.topK
      (if rpc.service.minScore > 0 then some rpc.service.minScore else none)
      (if rpc.request.documentIds = [] then none else some rpc.request.documentIds) points) :
    Grounded uuid5 runs g rpc (QueryService.bestFirst (points.map QdrantIndex.hitOf)) := by
  have hperm := List.perm_insertionSort (fun a b : ScoredHit => b.score ≤ a.score)
    (points.map QdrantIndex.hitOf)
  have hmem {hit : ScoredHit} (hhit : hit ∈ QueryService.bestFirst (points.map QdrantIndex.hitOf)) :
      ∃ p ∈ points, QdrantIndex.hitOf p = hit :=
    List.mem_map.1 (hperm.mem_iff.1 hhit)
  refine ⟨?_, List.pairwise_insertionSort _ _, ?_, ?_, ?_, ?_⟩
  · have hlength := hperm.length_eq
    rw [List.length_map] at hlength
    exact (congrArg Int.ofNat hlength).trans_le h.count
  · refine (hperm.map _).nodup_iff.2 ?_
    rw [List.map_map]
    refine List.Nodup.of_map (fun x => pointId uuid5 x.1 x.2) ?_
    rw [List.map_map]
    refine (List.map_congr_left fun p hp => ?_).symm ▸ h.nodup
    obtain ⟨i, event, deadline, service, -, hhash, -, hid, -⟩ := h.stored p hp
    exact (congrArg (pointId uuid5 · _) hhash).trans hid.symm
  · intro hmin hit hhit
    obtain ⟨p, hp, rfl⟩ := hmem hhit
    exact h.scored p hp _ (if_pos hmin)
  · intro hne hit hhit
    obtain ⟨p, hp, rfl⟩ := hmem hhit
    exact h.asked p hp _ (if_neg hne)
  · intro hit hhit
    obtain ⟨p, hp, rfl⟩ := hmem hhit
    exact ⟨p.point, h.stored p hp, rfl⟩

/-- What was found came from one search. -/
theorem grounded_of_found {g : IndexWorld} {rpc : Rpc} {record : RpcRecord}
    (h : rpc.Follows record) (hd : ∀ x ∈ record, Drawn (Cut uuid5 runs g) x)
    {hits : List ScoredHit} (hfound : found record = some hits) :
    Grounded uuid5 runs g rpc hits := by
  induction record with
  | nil => cases hfound
  | cons x record ih =>
    replace ih := ih h.2 fun y hy => hd y (List.mem_cons_of_mem _ hy)
    obtain ⟨c | response, r⟩ := x
    · cases c with
      | queryPoints vector limit threshold hashes =>
        obtain ⟨⟨⟨input, rfl⟩, rfl, rfl, rfl⟩, -⟩ := h
        have hfinds := hd _ (List.mem_cons_self ..)
        change Except ClientError (List ScoredPoint) at r
        cases r with
        | error e => cases hfound
        | ok points =>
          cases hfound
          exact grounded_of_finds hfinds
      | _ => exact ih hfound
    · exact ih hfound

/-! ### What clients and Groq see -/

/-- The RPCs and the ingest runs. -/
abbrev askSystem (uuid5 : PyStr → PyStr) (runs : Nat → Run) (rpcs : Nat → Rpc) :
    Actors (Nat ⊕ Nat) (IndexWorld × (Nat → RpcRecord)) :=
  (indexSystem uuid5 runs).watched (askers rpcs)

abbrev askSystemRules (uuid5 : PyStr → PyStr) (runs : Nat → Run) (rpcs : Nat → Rpc) :
    (askSystem uuid5 runs rpcs).Rules :=
  (alignedRules uuid5 runs).watched (askRules rpcs)

def askStart : IndexWorld × (Nat → RpcRecord) := (.start, fun _ => [])

/-! Put together, what is streamed is the whole answer with its sources. -/

theorem answers_flatten {hits : List ScoredHit} {texts : List PyStr} :
    ((firstResponse hits :: texts.map deltaResponse).map Response.answer).flatten =
      texts.flatten := by
  rw [List.map_cons, List.map_map, List.flatten_cons]
  exact congrArg List.flatten (List.map_id texts)

theorem sources_flatten {hits : List ScoredHit} {texts : List PyStr} :
    ((firstResponse hits :: texts.map deltaResponse).map Response.contextUsed).flatten =
      hits.map RagEngineServicer.source := by
  rw [List.map_cons, List.map_map, List.flatten_cons]
  refine (congrArg (_ ++ ·) (List.flatten_eq_nil_iff.2 fun l hl => ?_)).trans (List.append_nil _)
  obtain ⟨text, -, rfl⟩ := List.mem_map.1 hl
  rfl

section Sound

variable {cfg : (askSystem uuid5 runs rpcs).Config}
  (h : (askSystem uuid5 runs rpcs).Reachable (askSystemRules uuid5 runs rpcs) askStart cfg)

include h

theorem ask_sound : AskInv uuid5 runs rpcs cfg.shared.1 cfg.shared.2 := by
  refine ((askCertificate uuid5 runs rpcs).sound ⟨?_, ?_⟩ (fun i => ?_) ?_ (fun _ => rfl) h).2
  · exact fun p hp => absurd hp List.not_mem_nil
  · exact fun i b hb => absurd hb List.not_mem_nil
  · exact (rfl : IndexWorld.start.log i = [])
  · exact fun k => ⟨trivial, fun x hx => absurd hx List.not_mem_nil⟩

/-- The client of `AskStream` receives the sources and then, in order, pieces of the answer. An RPC
that ends with OK has sent them all, unless its client was gone. -/
theorem streamed_to_client (k : Nat) (hs : (rpcs k).streaming = true) :
    (sent (cfg.shared.2 k) = [] ∨ ∃ hits texts, found (cfg.shared.2 k) = some hits ∧
      texts <+: transcript hits (cfg.shared.2 k) ∧
      sent (cfg.shared.2 k) = firstResponse hits :: texts.map deltaResponse) ∧
    ∀ after before details r,
      cfg.shared.2 k = after ++ issue (.ended .ok details) r :: before →
      issue .isActive false ∉ before → ∃ hits, found before = some hits ∧
        (hits = [] ∨ exhausted before = true) ∧
        sent before = firstResponse hits :: (transcript hits before).map deltaResponse := by
  have hfollows := (ask_sound h k).1
  refine ⟨hfollows.streamed hs, fun after before details r hrecord hactive => ?_⟩
  rw [hrecord] at hfollows
  obtain ⟨-, hends⟩ := hfollows.permitted
  exact ((if_pos hs).mp hends).resolve_right hactive

/-- For the same hits, and with the same pieces from Groq, `Ask` sends in one response what
`AskStream` sends one by one. -/
theorem ask_agrees (j k : Nat) (hj : (rpcs j).streaming = false) (hk : (rpcs k).streaming = true)
    (afterj afterk : RpcRecord) {beforej beforek : RpcRecord} {detailsj detailsk : PyStr}
    {rj rk : Unit}
    (hrecordj : cfg.shared.2 j = afterj ++ issue (.ended .ok detailsj) rj :: beforej)
    (hrecordk : cfg.shared.2 k = afterk ++ issue (.ended .ok detailsk) rk :: beforek)
    (hactive : issue .isActive false ∉ beforek) (hfound : found beforej = found beforek)
    (hcontents : contents beforej = contents beforek) :
    sent beforej = [⟨((sent beforek).map Response.answer).flatten,
      ((sent beforek).map Response.contextUsed).flatten⟩] := by
  obtain ⟨hits, hhits, -, hsent⟩ := (streamed_to_client h k hk).2 _ _ _ _ hrecordk hactive
  have hfollows := (ask_sound h j).1
  rw [hrecordj] at hfollows
  obtain ⟨hits', hhits', -, hsent'⟩ := (if_neg (Bool.eq_false_iff.mp hj)).mp hfollows.permitted.2
  obtain rfl : hits = hits' := Option.some.inj (hhits.symm.trans (hfound.symm.trans hhits'))
  have htranscript : transcript hits beforej = transcript hits beforek := by
    unfold transcript
    rw [hcontents]
  rw [hsent', hsent, htranscript, answers_flatten, sources_flatten]

/-- Groq is asked once, for a valid query for which chunks were found and, where the answer is
streamed, shown; it is told those chunks; and its stream is closed when the RPC ends. -/
theorem groq_asked (k : Nat) :
    (∀ after before system user r,
      cfg.shared.2 k = after ++ issue (.createStream system user) r :: before →
      (rpcs k).validate = .ok () ∧ asked before = false ∧
      system = (rpcs k).service.systemPrompt ∧ ∃ hits, hits ≠ [] ∧ found before = some hits ∧
        user = buildUserMessage (rpcs k).request.query (hits.map ScoredHit.toHit) ∧
        ((rpcs k).streaming = true → sent before = [firstResponse hits])) ∧
    (cfg.shared.2 k).countP creates ≤ 1 ∧
    ∀ after before code details r,
      cfg.shared.2 k = after ++ issue (.ended code details) r :: before →
      before.countP (fun x => x.opens = some true) =
        before.countP fun x => x.opens = some false := by
  have hfollows := (ask_sound h k).1
  refine ⟨fun after before system user r hrecord => ?_, ?_,
    fun after before code details r hrecord => ?_⟩
  · rw [hrecord] at hfollows
    obtain ⟨hasked, hsystem, hits, hne, hfound, huser, hsent⟩ := hfollows.permitted
    have hvalid := Rpc.Follows.valid_of_found (Rpc.Follows.of_append hfollows).2 hfound
    exact ⟨hvalid, hasked, hsystem, hits, hne, hfound, huser, hsent⟩
  · rw [hfollows.creates_le]
    split <;> omega
  · rw [hrecord] at hfollows
    have hopens := (Rpc.Follows.of_append hfollows).2.opens_eq
    rw [hfollows.permitted.1] at hopens
    exact hopens

/-- The status of an RPC. A query that is not valid is refused as such, and only that; OK says that
the client has the whole answer, or that the client of `AskStream` was gone. -/
theorem ended_status (k : Nat) (after : RpcRecord) {before : RpcRecord} {code : StatusCode}
    {details : PyStr} {r : Unit}
    (hrecord : cfg.shared.2 k = after ++ issue (.ended code details) r :: before) :
    (code = .invalidArgument ↔ (rpcs k).validate ≠ .ok ()) ∧ (rpcs k).Ends before code details := by
  have hfollows := (ask_sound h k).1
  rw [hrecord] at hfollows
  obtain ⟨-, hends⟩ := hfollows.permitted
  refine ⟨⟨?_, (Rpc.Follows.of_append hfollows).2.invalid_of_ends hends⟩, hends⟩
  rintro rfl
  rw [hends.2]
  exact nofun

/-- The sources a client is shown, and the passages Groq is given, are chunks that ingest runs cut
from what they fetched, whatever those runs and resets did to each other. -/
theorem hits_grounded (k : Nat) :
    (∀ response ∈ sent (cfg.shared.2 k), response.contextUsed = [] ∨
      ∃ hits, Grounded uuid5 runs cfg.shared.1 (rpcs k) hits ∧
        response.contextUsed = hits.map RagEngineServicer.source) ∧
    ∀ system user r, issue (.createStream system user) r ∈ cfg.shared.2 k →
      ∃ hits, Grounded uuid5 runs cfg.shared.1 (rpcs k) hits ∧ hits ≠ [] ∧
        user = buildUserMessage (rpcs k).request.query (hits.map ScoredHit.toHit) := by
  obtain ⟨hfollows, hdrawn⟩ := ask_sound h k
  refine ⟨fun response hresponse => ?_, fun system user r hmem => ?_⟩
  · obtain ⟨r, hmem⟩ := mem_sent hresponse
    obtain ⟨after, before, hrecord⟩ := List.append_of_mem hmem
    rw [hrecord] at hfollows hdrawn
    obtain ⟨hits, hfound, hmay⟩ := hfollows.permitted
    have hgrounded := grounded_of_found (Rpc.Follows.of_append hfollows).2 (fun x hx =>
      hdrawn x (List.mem_append_right _ (List.mem_cons_of_mem _ hx))) hfound
    unfold Rpc.MaySend at hmay
    split at hmay
    · rcases hmay with ⟨-, rfl⟩ | ⟨texts, text, rfl, -⟩
      · exact .inr ⟨hits, hgrounded, rfl⟩
      · exact .inl rfl
    · obtain ⟨-, -, -, rfl⟩ := hmay
      exact .inr ⟨hits, hgrounded, rfl⟩
  · obtain ⟨after, before, hrecord⟩ := List.append_of_mem hmem
    rw [hrecord] at hfollows hdrawn
    obtain ⟨-, -, hits, hne, hfound, huser, -⟩ := hfollows.permitted
    refine ⟨hits, grounded_of_found (Rpc.Follows.of_append hfollows).2 (fun x hx => ?_) hfound, hne,
      huser⟩
    exact hdrawn x (List.mem_append_right _ (List.mem_cons_of_mem _ hx))

end Sound

/-! ### One document, and an RPC of each kind -/

section Sample

def sampleQuery : QueryService where
  topK := 5
  minScore := 1 / 2
  maxQueryChars := 100
  maxDocumentIds := 10
  systemPrompt := ofString "Answer from the sources."
  queryInstruction := ofString "Retrieve"

/-- The first RPC is an `AskStream`, the others are `Ask`. -/
def sampleRpcs (k : Nat) : Rpc := ⟨k = 0, sampleQuery, ⟨ofString "what?", []⟩⟩

/-- Qdrant finds both chunks, the second one first. -/
def sampleFound : List ScoredPoint :=
  [⟨⟨pointId sampleUuid5 sampleHash 1, [2], sampleHash, ofString "a.txt", 1, ofString "two"⟩, 1⟩,
    ⟨⟨pointId sampleUuid5 sampleHash 0, [1], sampleHash, ofString "a.txt", 0, ofString "one"⟩, 2⟩]

/-- Every call succeeds; this chunk comes from Groq. -/
def replies (chunk : Option Chunk) : (c : RpcSig.Cmd) → RpcSig.Reply c
  | .inl (.embed _) => (.ok [[7]] : Except ClientError (List Vector))
  | .inl (.queryPoints ..) => (.ok sampleFound : Except ClientError (List ScoredPoint))
  | .inl (.createStream ..) => (.ok () : Except ClientError Unit)
  | .inl .nextChunk => (.ok chunk : Except ClientError (Option Chunk))
  | .inl .closeStream => (.ok () : Except ClientError Unit)
  | .inl .isActive => true
  | .inl (.ended ..) => ()
  | .inr _ => Resume.next

abbrev AskStep := (askSystem sampleUuid5 sampleRuns sampleRpcs).Step

def rpcCalls (k n : Nat) (chunk : Option Chunk) : List AskStep :=
  List.replicate n (.call (.inr k) (answered, replies chunk))

/-- The document is ingested, and then asked about in both ways. -/
def sampleAsking : List AskStep := List.flatten
  [[.start (.inl 0)], List.replicate 12 (.call (.inl 0) (answered, replies none)),
    [.finish (.inl 0), .start (.inr 0)], rpcCalls 0 5 none, [.unfold (.inr 0)],
    rpcCalls 0 3 (some ⟨some (ofString "yes")⟩), [.unfold (.inr 0)], rpcCalls 0 3 none,
    [.start (.inr 1)], rpcCalls 1 3 none, [.unfold (.inr 1)],
    rpcCalls 1 1 (some ⟨some (ofString "yes")⟩), [.unfold (.inr 1)], rpcCalls 1 4 none]

/-- What came before the OK at the end. -/
def beforeOk : RpcRecord → Option RpcRecord
  | ⟨.inl (.ended .ok _), _⟩ :: before => some before
  | _ => none

def clientStays : RpcExchange → Bool
  | ⟨.inl .isActive, r⟩ => r
  | _ => true

theorem eq_of_beforeOk {record before : RpcRecord} (h : beforeOk record = some before) :
    ∃ details r, record = issue (.ended .ok details) r :: before := by
  unfold beforeOk at h
  split at h
  · cases h
    exact ⟨_, _, rfl⟩
  · cases h

/-- The responses and the hits of an RPC that ended with OK, the pieces from Groq, how many streams
it opened, and whether the client stayed. -/
structure Summary where
  sent : List Response
  found : Option (List ScoredHit)
  contents : List PyStr
  opened : Nat
  stays : Bool
  deriving DecidableEq

def summary (record : RpcRecord) : Option Summary :=
  (beforeOk record).map fun before =>
    ⟨sent before, found before, contents before,
      before.countP fun x => x.opens = some true, before.all clientStays⟩

def sampleHits : List ScoredHit :=
  [⟨⟨ofString "a.txt", ofString "one"⟩, sampleHash, 0, 2⟩,
    ⟨⟨ofString "a.txt", ofString "two"⟩, sampleHash, 1, 1⟩]

def streamSummary : Summary :=
  ⟨[firstResponse sampleHits, deltaResponse (ofString "yes")], some sampleHits, [ofString "yes"],
    1, true⟩

def askSummary : Summary :=
  ⟨[⟨ofString "yes", sampleHits.map RagEngineServicer.source⟩], some sampleHits, [ofString "yes"],
    1, true⟩

theorem sample_reached : ∃ cfg, (askSystem sampleUuid5 sampleRuns sampleRpcs).Reachable
      (askSystemRules sampleUuid5 sampleRuns sampleRpcs) askStart cfg ∧
    summary (cfg.shared.2 0) = some streamSummary ∧
    summary (cfg.shared.2 1) = some askSummary := by
  have hleft : (askSystem sampleUuid5 sampleRuns sampleRpcs).leaves askStart sampleAsking
      (fun x => [summary (x.2 0), summary (x.2 1)]) =
        some [some streamSummary, some askSummary] := by
    decide +kernel
  have hrules : (askSystemRules sampleUuid5 sampleRuns sampleRpcs).AllowsAll
      (Actors.init _ askStart) sampleAsking := by decide +kernel
  obtain ⟨cfg, hreach, hsummaries⟩ := Actors.Reachable.of_leaves hrules hleft
  obtain ⟨h₀, hrest⟩ := List.cons.inj hsummaries
  exact ⟨cfg, hreach, h₀, (List.cons.inj hrest).1⟩

theorem of_summary {record : RpcRecord} {s : Summary} (h : summary record = some s) :
    ∃ details r before, record = issue (.ended .ok details) r :: before ∧ sent before = s.sent ∧
      found before = s.found ∧ contents before = s.contents ∧
      before.countP (fun x => x.opens = some true) = s.opened ∧
      (s.stays = true → issue .isActive false ∉ before) := by
  obtain ⟨before, hbefore, rfl⟩ := Option.map_eq_some_iff.1 h
  obtain ⟨details, r, rfl⟩ := eq_of_beforeOk hbefore
  refine ⟨details, r, before, rfl, rfl, rfl, rfl, rfl, fun hstays hmem => ?_⟩
  exact Bool.false_ne_true (List.all_eq_true.1 hstays _ hmem)

theorem streamed_to_client_sample : ∃ cfg : (askSystem sampleUuid5 sampleRuns sampleRpcs).Config,
    ∃ hits texts, hits ≠ [] ∧ texts ≠ [] ∧ texts <+: transcript hits (cfg.shared.2 0) ∧
      sent (cfg.shared.2 0) = firstResponse hits :: texts.map deltaResponse := by
  obtain ⟨cfg, hreach, hsummary, -⟩ := sample_reached
  obtain ⟨details, r, before, hrecord, hsent, -⟩ := of_summary hsummary
  have hsent' : sent (cfg.shared.2 0) =
      [firstResponse sampleHits, deltaResponse (ofString "yes")] := by
    rw [hrecord, sent_cons, hsent]
    rfl
  rcases (streamed_to_client hreach 0 rfl).1 with hnone | ⟨hits, texts, -, htexts, hstreamed⟩
  · rw [hsent'] at hnone
    cases hnone
  · refine ⟨cfg, hits, texts, ?_, ?_, htexts, hstreamed⟩
    · rintro rfl
      rw [hsent'] at hstreamed
      have hcount := congrArg (List.length ∘ Response.contextUsed) (List.cons.inj hstreamed).1
      exact absurd hcount (by decide)
    · rintro rfl
      rw [hsent'] at hstreamed
      exact absurd (congrArg List.length hstreamed) (by simp)

theorem ask_agrees_sample : ∃ cfg : (askSystem sampleUuid5 sampleRuns sampleRpcs).Config,
    ∃ beforej beforek : RpcRecord, beforeOk (cfg.shared.2 1) = some beforej ∧
      beforeOk (cfg.shared.2 0) = some beforek ∧
      sent beforej = [⟨((sent beforek).map Response.answer).flatten,
        ((sent beforek).map Response.contextUsed).flatten⟩] := by
  obtain ⟨cfg, hreach, hstream, hask⟩ := sample_reached
  obtain ⟨detailsk, rk, beforek, hk, -, hfoundk, hcontentsk, -, hstays⟩ := of_summary hstream
  obtain ⟨detailsj, rj, beforej, hj, -, hfoundj, hcontentsj, -⟩ := of_summary hask
  refine ⟨cfg, beforej, beforek, by rw [hj]; rfl, by rw [hk]; rfl, ?_⟩
  exact ask_agrees hreach 1 0 rfl rfl [] [] hj hk (hstays rfl)
    (hfoundj.trans hfoundk.symm) (hcontentsj.trans hcontentsk.symm)

theorem groq_asked_sample : ∃ cfg : (askSystem sampleUuid5 sampleRuns sampleRpcs).Config,
    ∃ before, beforeOk (cfg.shared.2 0) = some before ∧
      (cfg.shared.2 0).countP creates ≤ 1 ∧
      before.countP (fun x => x.opens = some true) = 1 ∧
      before.countP (fun x => x.opens = some false) = 1 := by
  obtain ⟨cfg, hreach, hstream, -⟩ := sample_reached
  obtain ⟨details, r, before, hrecord, -, -, -, hopened, -⟩ := of_summary hstream
  obtain ⟨-, hcreates, hclosed⟩ := groq_asked hreach 0
  refine ⟨cfg, before, by rw [hrecord]; rfl, hcreates, hopened, ?_⟩
  exact (hclosed [] before .ok details r hrecord).symm.trans hopened

theorem ended_status_sample : ∃ cfg : (askSystem sampleUuid5 sampleRuns sampleRpcs).Config,
    ∃ before, beforeOk (cfg.shared.2 1) = some before ∧
      ∃ hits, hits ≠ [] ∧ found before = some hits ∧ Complete hits before ∧
        sent before = [⟨(transcript hits before).flatten, hits.map RagEngineServicer.source⟩] := by
  obtain ⟨cfg, hreach, -, hask⟩ := sample_reached
  obtain ⟨details, r, before, hrecord, -, hfound, -⟩ := of_summary hask
  obtain ⟨hits, hhits, hcomplete, hsent⟩ := (ended_status hreach 1 [] hrecord).2
  refine ⟨cfg, before, by rw [hrecord]; rfl, hits, ?_, hhits, hcomplete, hsent⟩
  rintro rfl
  cases hfound.symm.trans hhits

theorem hits_grounded_sample : ∃ cfg : (askSystem sampleUuid5 sampleRuns sampleRpcs).Config,
    ∃ hits, hits ≠ [] ∧ Grounded sampleUuid5 sampleRuns cfg.shared.1 (sampleRpcs 0) hits := by
  obtain ⟨cfg, hreach, hstream, -⟩ := sample_reached
  obtain ⟨details, r, before, hrecord, hsent, -⟩ := of_summary hstream
  have hmem : firstResponse sampleHits ∈ sent (cfg.shared.2 0) := by
    rw [hrecord, sent_cons, hsent]
    exact List.mem_cons_self ..
  rcases (hits_grounded hreach 0).1 _ hmem with hnone | ⟨hits, hgrounded, hsources⟩
  · cases hnone
  · refine ⟨cfg, hits, ?_, hgrounded⟩
    rintro rfl
    cases hsources

end Sample

end Rag
