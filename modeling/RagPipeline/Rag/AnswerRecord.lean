import RagPipeline.Rag.QueryService

/-!
# What an RPC may do next

The record of an RPC holds its calls and their replies, the newest first. What it tells decides
which call may come next, which message may be sent and how the RPC may end.

## Main definitions

* `sent`, `found`, `contents`, `streamOpen`: what a record tells.
* `Permitted`: when a call may be made.
* `Follows`: every call of a record was permitted when it was made.

## Main results

* `Follows.streamed`: what the client of `AskStream` has received.
* `Follows.opens_eq`: every stream of Groq that was opened is closed, or still in use.
-/
namespace Rag

open Wire Interact

/-- A call of an RPC, and the reply it got. -/
abbrev RpcExchange := (c : RpcSig.Cmd) × RpcSig.Reply c

namespace RpcExchange

def issue (c : QueryCmd) (r : QuerySig.Reply c) : RpcExchange := ⟨.inl c, r⟩

def send (response : Response) (r : Resume) : RpcExchange := ⟨.inr response, r⟩

def sent : RpcExchange → List Response
  | ⟨.inr response, _⟩ => [response]
  | ⟨.inl _, _⟩ => []

/-- The hits that a search brought, in the order of the service. -/
def found : RpcExchange → Option (List ScoredHit)
  | ⟨.inl (.queryPoints ..), r⟩ => match (r : Except ClientError (List ScoredPoint)) with
    | .ok points => some (QueryService.bestFirst (points.map QdrantIndex.hitOf))
    | .error _ => none
  | _ => none

/-- What a chunk of the stream adds to the answer. -/
def contents : RpcExchange → List PyStr
  | ⟨.inl .nextChunk, r⟩ => match (r : Except ClientError (Option Chunk)) with
    | .ok (some chunk) => (GroqLLM.delta chunk).toList
    | _ => []
  | _ => []

/-- Whether a stream is open afterwards, if that changes. -/
def opens : RpcExchange → Option Bool
  | ⟨.inl (.createStream ..), r⟩ => match (r : Except ClientError Unit) with
    | .ok _ => some true
    | .error _ => none
  | ⟨.inl .closeStream, _⟩ => some false
  | _ => none

def creates : RpcExchange → Bool
  | ⟨.inl (.createStream ..), _⟩ => true
  | _ => false

/-- The stream has ended. -/
def ends : RpcExchange → Bool
  | ⟨.inl .nextChunk, r⟩ => match (r : Except ClientError (Option Chunk)) with
    | .ok none => true
    | _ => false
  | _ => false

def caughtDetail {α : Type} (service : String) : Except ClientError α → Option PyStr
  | .error (.caught detail) => some (ofString service ++ ofString ": " ++ detail)
  | _ => none

/-- A failure of a service, in the words of its adapter. -/
def refusal : RpcExchange → Option PyStr
  | ⟨.inl (.embed _), r⟩ => match (r : Except ClientError (List Vector)) with
    | .ok vectors => if vectors.length = 1 then none else
        some (ofString ("ollama: " ++ toString vectors.length ++ " vectors for 1 inputs"))
    | .error e => caughtDetail "ollama" (.error e : Except ClientError Unit)
  | ⟨.inl (.queryPoints ..), r⟩ => caughtDetail "qdrant" r
  | ⟨.inl (.createStream ..), r⟩ => caughtDetail "groq" r
  | ⟨.inl .nextChunk, r⟩ => caughtDetail "groq" r
  | _ => none

/-- A client library raised something. -/
def failed : RpcExchange → Bool
  | ⟨.inl (.embed _), r⟩ => !Except.isOk (r : Except ClientError (List Vector))
  | ⟨.inl (.queryPoints ..), r⟩ => !Except.isOk (r : Except ClientError (List ScoredPoint))
  | ⟨.inl (.createStream ..), r⟩ => !Except.isOk (r : Except ClientError Unit)
  | ⟨.inl .nextChunk, r⟩ => !Except.isOk (r : Except ClientError (Option Chunk))
  | ⟨.inl .closeStream, r⟩ => !Except.isOk (r : Except ClientError Unit)
  | _ => false

/-- A call brought a text that no message can hold. -/
def unencodable (x : RpcExchange) : Bool :=
  x.found.any (fun hits => !(hits.map RagEngineServicer.source).all Source.encodable) ||
    x.contents.any fun text => !isUnicode text

/-- An exchange with the client alone. -/
def IsTalk : RpcExchange → Prop
  | ⟨.inl .isActive, _⟩ => True
  | ⟨.inr _, _⟩ => True
  | _ => False

end RpcExchange

open RpcExchange

abbrev RpcRecord := List RpcExchange

/-! ### What a record tells -/

/-- The responses sent, the oldest first. -/
def sent (record : RpcRecord) : List Response := record.foldr (fun x rest => rest ++ x.sent) []

/-- The answer's pieces as Groq sent them, the oldest first. -/
def contents (record : RpcRecord) : List PyStr :=
  record.foldr (fun x rest => rest ++ x.contents) []

/-- The hits of the latest search. -/
def found (record : RpcRecord) : Option (List ScoredHit) :=
  record.foldr (fun x rest => x.found <|> rest) none

def streamOpen (record : RpcRecord) : Bool := record.foldr (fun x rest => x.opens.getD rest) false

def asked (record : RpcRecord) : Bool := record.any RpcExchange.creates

def exhausted (record : RpcRecord) : Bool := record.any RpcExchange.ends

/-- The service failed with such words. -/
def Refused (text : PyStr) (record : RpcRecord) : Prop := ∃ x ∈ record, x.refusal = some text

/-- Some call raised something. -/
def Broken (record : RpcRecord) : Prop := ∃ x ∈ record, x.failed = true

/-- Some call brought a text that no message can hold. -/
def Unencodable (record : RpcRecord) : Prop := ∃ x ∈ record, x.unencodable = true

section Simp

variable {x : RpcExchange} {record : RpcRecord}

@[simp] theorem sent_nil : sent [] = [] := rfl
@[simp] theorem sent_cons : sent (x :: record) = sent record ++ x.sent := rfl
@[simp] theorem contents_nil : contents [] = [] := rfl
@[simp] theorem contents_cons : contents (x :: record) = contents record ++ x.contents := rfl
@[simp] theorem found_nil : found [] = none := rfl
@[simp] theorem found_cons : found (x :: record) = (x.found <|> found record) := rfl
@[simp] theorem streamOpen_nil : streamOpen [] = false := rfl
@[simp] theorem streamOpen_cons : streamOpen (x :: record) = x.opens.getD (streamOpen record) := rfl
@[simp] theorem asked_nil : asked [] = false := rfl
@[simp] theorem asked_cons : asked (x :: record) = (x.creates || asked record) := rfl
@[simp] theorem exhausted_nil : exhausted [] = false := rfl
@[simp] theorem exhausted_cons : exhausted (x :: record) = (x.ends || exhausted record) := rfl

theorem contents_chunk {chunk : Option Chunk} :
    contents (issue .nextChunk (Except.ok chunk) :: record) =
      contents record ++ (chunk.bind GroqLLM.delta).toList := by
  cases chunk <;> rfl

theorem mem_sent {response : Response} (h : response ∈ sent record) :
    ∃ r, send response r ∈ record := by
  induction record with
  | nil => cases h
  | cons x record ih =>
    rcases List.mem_append.1 h with h | h
    · obtain ⟨r, hr⟩ := ih h
      exact ⟨r, List.mem_cons_of_mem _ hr⟩
    · obtain ⟨c | response', r⟩ := x
      · cases h
      · obtain rfl := List.mem_singleton.1 h
        exact ⟨r, List.mem_cons_self ..⟩

theorem Refused.cons {text : PyStr} (h : Refused text record) : Refused text (x :: record) := by
  obtain ⟨y, hy, ht⟩ := h
  exact ⟨y, List.mem_cons_of_mem _ hy, ht⟩

theorem Broken.cons (h : Broken record) : Broken (x :: record) := by
  obtain ⟨y, hy, hf⟩ := h
  exact ⟨y, List.mem_cons_of_mem _ hy, hf⟩

theorem Unencodable.cons (h : Unencodable record) : Unencodable (x :: record) := by
  obtain ⟨y, hy, hu⟩ := h
  exact ⟨y, List.mem_cons_of_mem _ hy, hu⟩

theorem unencodable_of_found {hits : List ScoredHit} (h : found record = some hits)
    (hu : (hits.map RagEngineServicer.source).all Source.encodable = false) :
    Unencodable record := by
  induction record with
  | nil => cases h
  | cons x record ih =>
    rw [found_cons] at h
    cases hx : x.found with
    | none => exact (ih (by rwa [hx] at h)).cons
    | some hits' =>
      rw [hx] at h
      cases h
      exact ⟨x, List.mem_cons_self, by simp only [unencodable, hx, Option.any_some, hu]; rfl⟩

theorem unencodable_of_contents {text : PyStr} (h : text ∈ contents record)
    (hu : isUnicode text = false) : Unencodable record := by
  induction record with
  | nil => cases h
  | cons x record ih =>
    obtain h | h := List.mem_append.1 h
    · exact (ih h).cons
    · refine ⟨x, List.mem_cons_self, ?_⟩
      rw [unencodable, Bool.or_eq_true]
      exact .inr (List.any_eq_true.2 ⟨text, h, by rw [hu]; rfl⟩)

/-- Talking to the client changes nothing but what was sent. -/
theorem talk_append (record : RpcRecord) {new : RpcRecord} (h : ∀ y ∈ new, y.IsTalk) :
    contents (new ++ record) = contents record ∧ found (new ++ record) = found record ∧
    streamOpen (new ++ record) = streamOpen record ∧ asked (new ++ record) = asked record ∧
    exhausted (new ++ record) = exhausted record := by
  induction new with
  | nil => exact ⟨rfl, rfl, rfl, rfl, rfl⟩
  | cons y new ih =>
    obtain ⟨h₁, h₂, h₃, h₄, h₅⟩ := ih fun z hz => h z (List.mem_cons_of_mem _ hz)
    have hy := h y (List.mem_cons_self ..)
    obtain ⟨c | response, r⟩ := y
    · cases c with
      | isActive =>
        simp [h₁, h₂, h₃, h₄, h₅, RpcExchange.contents, RpcExchange.found, RpcExchange.opens,
          RpcExchange.creates, RpcExchange.ends]
      | _ => exact hy.elim
    · simp [h₁, h₂, h₃, h₄, h₅, RpcExchange.contents, RpcExchange.found, RpcExchange.opens,
        RpcExchange.creates, RpcExchange.ends]

end Simp

/-! ### The protocol -/

/-- The message with the sources. -/
def firstResponse (hits : List ScoredHit) : Response := ⟨[], hits.map RagEngineServicer.source⟩

/-- A piece of the answer. -/
def deltaResponse (text : PyStr) : Response := ⟨text, []⟩

/-- The pieces of the answer that are due. -/
def transcript (hits : List ScoredHit) (record : RpcRecord) : List PyStr :=
  if hits = [] then [QueryService.noRelevantAnswer] else contents record

theorem transcript_send {hits : List ScoredHit} {response : Response} {r : Resume}
    {record : RpcRecord} :
    transcript hits (send response r :: record) = transcript hits record := by
  simp [transcript, send, RpcExchange.contents]

/-- Nothing more is due. -/
def Complete (hits : List ScoredHit) (record : RpcRecord) : Prop :=
  hits = [] ∨ exhausted record = true

theorem Complete.cons {x : RpcExchange} {hits : List ScoredHit} {record : RpcRecord}
    (h : Complete hits record) : Complete hits (x :: record) :=
  h.imp_right fun h => by rw [exhausted_cons, h, Bool.or_true]

namespace Rpc

variable (rpc : Rpc)

def validate : Except PyStr Unit := rpc.service.validate rpc.request.query rpc.request.documentIds

/-- How an RPC may end. OK is for a complete answer, or a client of `AskStream` that was gone. A
message that cannot be built is INTERNAL in `AskStream` and UNKNOWN in `Ask`. -/
def Ends (record : RpcRecord) : StatusCode → PyStr → Prop
  | .ok, _ =>
    if rpc.streaming then
      (∃ hits, found record = some hits ∧ Complete hits record ∧
        sent record = firstResponse hits :: (transcript hits record).map deltaResponse) ∨
      issue .isActive false ∈ record
    else ∃ hits, found record = some hits ∧ Complete hits record ∧
      sent record = [⟨(transcript hits record).flatten, hits.map RagEngineServicer.source⟩]
  | .cancelled, _ => ∃ response, send response .close ∈ record
  | .invalidArgument, details => record = [] ∧ rpc.validate = .error details
  | .unavailable, details => Refused details record
  | .internal, details => (Broken record ∨ rpc.streaming = true ∧ Unencodable record) ∧
      details = ofString "internal error"
  | .unknown, _ => rpc.streaming = false ∧ sent record = [] ∧
      ∃ hits, found record = some hits ∧ Complete hits record ∧
        Response.encodable ⟨(transcript hits record).flatten, hits.map RagEngineServicer.source⟩ =
          false

/-- Which messages may be sent. -/
def MaySend (response : Response) (hits : List ScoredHit) (record : RpcRecord) : Prop :=
  if rpc.streaming then
    sent record = [] ∧ response = firstResponse hits ∨
    ∃ texts text, response = deltaResponse text ∧ texts ++ [text] = transcript hits record ∧
      sent record = firstResponse hits :: texts.map deltaResponse
  else sent record = [] ∧ streamOpen record = false ∧ Complete hits record ∧
    response = ⟨(transcript hits record).flatten, hits.map RagEngineServicer.source⟩

def Permitted : RpcSig.Cmd → RpcRecord → Prop
  | .inl (.embed input), record => record = [] ∧ rpc.validate = .ok () ∧
      input = ofString "Instruct: " ++ rpc.service.queryInstruction ++ ofString "\nQuery:" ++
        rpc.request.query
  | .inl (.queryPoints vector limit threshold hashes), record =>
      (∃ input, record = [issue (.embed input) (Except.ok [vector])]) ∧
      limit = rpc.service.topK ∧
      threshold = (if rpc.service.minScore > 0 then some rpc.service.minScore else none) ∧
      hashes = (if rpc.request.documentIds = [] then none else some rpc.request.documentIds)
  | .inl (.createStream system user), record => asked record = false ∧
      system = rpc.service.systemPrompt ∧ ∃ hits, hits ≠ [] ∧ found record = some hits ∧
        user = buildUserMessage rpc.request.query (hits.map ScoredHit.toHit) ∧
        (rpc.streaming = true → sent record = [firstResponse hits])
  | .inl .nextChunk, record => streamOpen record = true
  | .inl .closeStream, record => streamOpen record = true
  | .inl .isActive, record => rpc.streaming = true ∧ ∃ hits, found record = some hits
  | .inl (.ended code details), record => streamOpen record = false ∧ rpc.Ends record code details
  | .inr response, record => ∃ hits, found record = some hits ∧ rpc.MaySend response hits record

/-- Every call was permitted when it was made. -/
def Follows : RpcRecord → Prop
  | [] => True
  | ⟨c, _⟩ :: record => rpc.Permitted c record ∧ Follows record

namespace Follows

variable {rpc : Rpc} {record : RpcRecord}

theorem of_append {after : RpcRecord} (h : rpc.Follows (after ++ record)) : rpc.Follows record := by
  induction after with
  | nil => exact h
  | cons x after ih => exact ih h.2

theorem permitted {after before : RpcRecord} {c : RpcSig.Cmd} {r : RpcSig.Reply c}
    (h : rpc.Follows (after ++ ⟨c, r⟩ :: before)) : rpc.Permitted c before :=
  (of_append h).1

/-- The search comes first, and once. -/
theorem found_of_permitted {c : RpcSig.Cmd} {r : RpcSig.Reply c} {hits : List ScoredHit}
    (hc : rpc.Permitted c record) (h : found record = some hits) :
    found (⟨c, r⟩ :: record) = some hits := by
  obtain c | response := c
  · cases c with
    | queryPoints =>
      obtain ⟨⟨input, rfl⟩, -⟩ := hc
      cases h
    | _ => exact h
  · exact h

/-- What a stream that is open, and one that has ended, say of the past. -/
theorem asked_of_open (h : rpc.Follows record) :
    (streamOpen record = true → asked record = true) ∧
    (exhausted record = true → asked record = true) := by
  induction record with
  | nil => exact ⟨nofun, nofun⟩
  | cons x record ih =>
    obtain ⟨c | response, r⟩ := x
    · obtain ⟨ih₁, ih₂⟩ := ih h.2
      cases c with
      | createStream => exact ⟨fun _ => rfl, fun _ => rfl⟩
      | nextChunk => exact ⟨ih₁, fun _ => ih₁ h.1⟩
      | closeStream => exact ⟨nofun, ih₂⟩
      | _ => exact ⟨ih₁, ih₂⟩
    · exact ih h.2

/-- What the client of `AskStream` has received. -/
def Streamed (record : RpcRecord) : Prop :=
  sent record = [] ∨ ∃ hits texts, found record = some hits ∧ texts <+: transcript hits record ∧
    sent record = firstResponse hits :: texts.map deltaResponse

theorem transcript_cons {hits : List ScoredHit} (x : RpcExchange) :
    transcript hits record <+: transcript hits (x :: record) := by
  unfold transcript
  split
  · exact List.prefix_rfl
  · exact List.prefix_append ..

theorem streamed (hs : rpc.streaming = true) (h : rpc.Follows record) : Streamed record := by
  induction record with
  | nil => exact .inl rfl
  | cons x record ih =>
    obtain ⟨c | response, r⟩ := x
    · rcases ih h.2 with hsent | ⟨hits, texts, hfound, htexts, hsent⟩
      · exact .inl ((List.append_nil _).trans hsent)
      · exact .inr ⟨hits, texts, found_of_permitted h.1 hfound, htexts.trans (transcript_cons _),
          (List.append_nil _).trans hsent⟩
    · obtain ⟨⟨hits, hfound, hmay⟩, -⟩ := h
      rcases (if_pos hs).mp hmay with ⟨hsent, rfl⟩ | ⟨texts, text, rfl, htexts, hsent⟩
      · exact .inr ⟨hits, [], hfound, List.nil_prefix, by rw [sent_cons, hsent]; rfl⟩
      · refine .inr ⟨hits, texts ++ [text], hfound, ?_, ?_⟩
        · rw [htexts]
          exact transcript_cons _
        · rw [sent_cons, hsent, List.map_append]
          rfl

/-- A stream is asked for once. -/
theorem creates_le (h : rpc.Follows record) :
    record.countP RpcExchange.creates = if asked record then 1 else 0 := by
  induction record with
  | nil => rfl
  | cons x record ih =>
    obtain ⟨c | response, r⟩ := x
    · cases c with
      | createStream =>
        rw [List.countP_cons, ih h.2, h.1.1]
        rfl
      | _ => exact ih h.2
    · exact ih h.2

/-- Every stream that was opened was closed, unless it is still in use. -/
theorem opens_eq (h : rpc.Follows record) :
    record.countP (fun x => x.opens = some true) =
      record.countP (fun x => x.opens = some false) + if streamOpen record then 1 else 0 := by
  induction record with
  | nil => rfl
  | cons x record ih =>
    obtain ⟨c | response, r⟩ := x
    · cases c with
      | createStream =>
        have hclosed : streamOpen record = false := by
          refine Bool.eq_false_iff.mpr fun hopen => ?_
          exact Bool.eq_false_iff.mp h.1.1 ((asked_of_open h.2).1 hopen)
        have ih := ih h.2
        rw [hclosed] at ih
        change Except ClientError Unit at r
        cases r with
        | ok _ =>
          rw [List.countP_cons, List.countP_cons, ih]
          rfl
        | error e => rwa [streamOpen_cons, RpcExchange.opens, Option.getD_none, hclosed]
      | closeStream =>
        have hopen : streamOpen record = true := h.1
        have ih := ih h.2
        rw [hopen] at ih
        rw [List.countP_cons, List.countP_cons, ih]
        rfl
      | _ => exact ih h.2
    · exact ih h.2

/-- Nothing is found for a query that is not valid. -/
theorem valid_of_found (h : rpc.Follows record) {hits : List ScoredHit}
    (hfound : found record = some hits) : rpc.validate = .ok () := by
  induction record with
  | nil => cases hfound
  | cons x record ih =>
    obtain ⟨c | response, r⟩ := x
    · cases c with
      | queryPoints =>
        obtain ⟨⟨⟨input, rfl⟩, -⟩, ⟨-, hvalid, -⟩, -⟩ := h
        exact hvalid
      | _ => exact ih h.2 hfound
    · exact ih h.2 hfound

theorem valid_of_asked (h : rpc.Follows record) (hasked : asked record = true) :
    rpc.validate = .ok () := by
  induction record with
  | nil => cases hasked
  | cons x record ih =>
    obtain ⟨c | response, r⟩ := x
    · cases c with
      | createStream =>
        obtain ⟨-, -, hits, -, hfound, -⟩ := h.1
        exact valid_of_found h.2 hfound
      | _ => exact ih h.2 hasked
    · exact ih h.2 hasked

/-- For a query that is not valid nothing is called and nothing is sent. -/
theorem valid_of_mem (h : rpc.Follows record) {x : RpcExchange} (hx : x ∈ record)
    (hne : ∀ code details r, x ≠ issue (.ended code details) r) : rpc.validate = .ok () := by
  induction record with
  | nil => cases hx
  | cons y record ih =>
    rcases List.mem_cons.1 hx with rfl | hx
    · obtain ⟨c | response, r⟩ := x
      · cases c with
        | embed => exact h.1.2.1
        | queryPoints =>
          obtain ⟨⟨⟨input, rfl⟩, -⟩, ⟨-, hvalid, -⟩, -⟩ := h
          exact hvalid
        | createStream =>
          obtain ⟨-, -, hits, -, hfound, -⟩ := h.1
          exact valid_of_found h.2 hfound
        | nextChunk | closeStream => exact valid_of_asked h.2 ((asked_of_open h.2).1 h.1)
        | isActive =>
          obtain ⟨-, hits, hfound⟩ := h.1
          exact valid_of_found h.2 hfound
        | ended code details => exact absurd rfl (hne code details r)
      · obtain ⟨hits, hfound, -⟩ := h.1
        exact valid_of_found h.2 hfound
    · exact ih h.2 hx

/-- The status of an RPC whose query is not valid. -/
theorem invalid_of_ends (h : rpc.Follows record) {code : StatusCode} {details : PyStr}
    (hends : rpc.Ends record code details) (hinvalid : rpc.validate ≠ .ok ()) :
    code = .invalidArgument := by
  have hnone {x : RpcExchange} (hx : x ∈ record)
      (hne : ∀ code details r, x ≠ issue (.ended code details) r) : False :=
    hinvalid (valid_of_mem h hx hne)
  cases code with
  | ok =>
    by_cases hs : rpc.streaming = true
    · rcases (if_pos hs).mp hends with ⟨hits, hfound, -⟩ | hactive
      · exact absurd (valid_of_found h hfound) hinvalid
      · exact (hnone hactive nofun).elim
    · obtain ⟨hits, hfound, -⟩ := (if_neg hs).mp hends
      exact absurd (valid_of_found h hfound) hinvalid
  | cancelled =>
    obtain ⟨response, hclose⟩ := hends
    exact (hnone hclose nofun).elim
  | unknown =>
    obtain ⟨-, -, hits, hfound, -⟩ := hends
    exact absurd (valid_of_found h hfound) hinvalid
  | invalidArgument => rfl
  | internal =>
    obtain ⟨⟨x, hx, hfailed⟩ | ⟨-, x, hx, hfailed⟩, -⟩ := hends
    all_goals
      refine (hnone hx ?_).elim
      rintro _ _ _ rfl
      cases hfailed
  | unavailable =>
    obtain ⟨x, hx, hrefusal⟩ := hends
    refine (hnone hx ?_).elim
    rintro _ _ _ rfl
    cases hrefusal

end Follows

end Rpc

end Rag
