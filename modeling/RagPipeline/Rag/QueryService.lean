import RagPipeline.Interact.Generators
import RagPipeline.Rag.UserMessage
import Mathlib.Data.List.Sort
import Mathlib.Data.Rat.Defs

/-!
# Answering a query

`QueryService` with the adapters it calls and the gRPC servicer that calls it. Each call of a
client library is a command, and so is what gRPC does: a message that is sent, the question
whether the client is still there, and the status at the end. The iterators in between are
generators.

## Main definitions

* `QuerySig`: the calls.
* `GroqLLM.stream`, `QueryService.retrieve`, `QueryService.answer`: the services.
* `RagEngineServicer.build`: a message, whose texts UTF-8 must hold.
* `RagEngineServicer.ask`, `RagEngineServicer.askStream`: the two RPCs.
* `Rpc.main`: one RPC as gRPC runs it.
-/
namespace Rag

open Wire Interact Method

/-- What a client library raises: an exception of the classes that its adapter catches, with what
the adapter says of it, or another one. -/
inductive ClientError where
  | caught (detail : PyStr)
  | other (typeName : PyStr)

/-- A point that Qdrant found, with its score. -/
structure ScoredPoint where
  point : StoredPoint
  score : ℚ

/-- `choices[0].delta.content`, if there are choices and it is not `None`. -/
structure Chunk where
  content : Option PyStr

inductive StatusCode where
  | ok
  | cancelled
  | unknown
  | invalidArgument
  | internal
  | unavailable
  deriving DecidableEq

inductive QueryCmd where
  /-- `ollama.Client.embed` with one input. -/
  | embed (input : PyStr)
  | queryPoints (query : Vector) (limit : Int) (scoreThreshold : Option ℚ)
      (hashes : Option (List PyStr))
  | createStream (system user : PyStr)
  | nextChunk
  | closeStream
  | isActive
  /-- The RPC ends. -/
  | ended (code : StatusCode) (details : PyStr)

def QuerySig : Signature where
  Cmd := QueryCmd
  Reply
    | .embed _ => Except ClientError (List Vector)
    | .queryPoints .. => Except ClientError (List ScoredPoint)
    | .createStream .. | .closeStream => Except ClientError Unit
    | .nextChunk => Except ClientError (Option Chunk)
    | .isActive => Bool
    | .ended .. => Unit

inductive QueryError where
  | client (e : ClientError)
  /-- `DependencyUnavailable`, with its text. -/
  | dependencyUnavailable (text : PyStr)
  | invalidQuery (text : PyStr)
  | queryUnavailable (text : PyStr)
  | indexError
  /-- What the constructor of a message raises for a text that UTF-8 cannot hold. -/
  | unencodable
  /-- What `context.abort` raises, with the status it sets. -/
  | aborted (code : StatusCode) (details : PyStr)

/-- What hands out values of type `α`, with local variables `σ`. -/
abbrev Answering (α σ : Type) := Generator QuerySig α σ QueryError

def fail {α σ β : Type} (e : QueryError) : Answering α σ β := raise (.error e)

def request {α σ : Type} (c : QueryCmd) : Answering α σ (QuerySig.Reply c) := ask (S := QuerySig) c

/-- Raise what a client raised. -/
def ofClient {α σ β : Type} (r : Except ClientError β) : Answering α σ β :=
  ofExcept (r.mapError fun e => .error (.client e))

/-- `except …: raise DependencyUnavailable(service, detail)`. -/
def guarded {α σ β : Type} (service : String) (r : Except ClientError β) : Answering α σ β :=
  ofExcept (r.mapError fun
    | .caught detail =>
      .error (.dependencyUnavailable (ofString service ++ ofString ": " ++ detail))
    | e => .error (.client e))

/-- One retrieved chunk. -/
structure ScoredHit extends Hit where
  hash : PyStr
  chunkIndex : Nat
  score : ℚ
  deriving DecidableEq

/-! ### The adapters -/

namespace OllamaEmbedder

/-- `embed_query`. -/
def embedQuery {α σ : Type} (queryInstruction text : PyStr) : Answering α σ Vector := do
  let vectors ← guarded "ollama" (← request (.embed
    (ofString "Instruct: " ++ queryInstruction ++ ofString "\nQuery:" ++ text)))
  match vectors with
  | [vector] => return vector
  | _ => fail (.dependencyUnavailable (ofString
    ("ollama: " ++ toString vectors.length ++ " vectors for 1 inputs")))

end OllamaEmbedder

namespace QdrantIndex

def hitOf (p : ScoredPoint) : ScoredHit where
  hash := p.point.hash
  filename := p.point.filename
  chunkIndex := p.point.chunkIndex
  text := p.point.text
  score := p.score

def search {α σ : Type} (vector : Vector) (topK : Int) (minScore : ℚ) (hashes : List PyStr) :
    Answering α σ (List ScoredHit) := do
  let points ← guarded "qdrant" (← request (.queryPoints vector topK
    (if minScore > 0 then some minScore else none) (if hashes = [] then none else some hashes)))
  return points.map hitOf

end QdrantIndex

namespace GroqLLM

/-- `_CITATION_BRACKETS`. -/
def citationBracket (c : CodePoint) : CodePoint :=
  if c.val = 0x3010 then .ofChar '[' else if c.val = 0x3011 then .ofChar ']' else c

def translate (content : PyStr) : PyStr := content.map citationBracket

/-- What a chunk makes the stream yield. -/
def delta (chunk : Chunk) : Option PyStr :=
  match chunk.content with
  | some content => if content = [] then none else some (translate content)
  | none => none

def yieldDelta : Option PyStr → Answering PyStr Bool (Unit ⊕ Unit)
  | none => return .inl ()
  | some text => do
    emit text
    return .inl ()

def afterChunk : Option Chunk → Answering PyStr Bool (Unit ⊕ Unit)
  | none => return .inr ()
  | some chunk => yieldDelta (delta chunk)

/-- The `for chunk in stream` loop. -/
def chunks : Answering PyStr Bool Unit :=
  loop () fun _ => do
    afterChunk (← ofClient (← request .nextChunk))

/-- The local variable says that there is a stream to close. -/
def stream (system user : PyStr) : Answering PyStr Bool Unit :=
  andFinally
    (tryExcept (do
        ofClient (← request (.createStream system user))
        assign fun _ => true
        chunks)
      fun
        | .error (.client (.caught detail)) =>
          fail (.dependencyUnavailable (ofString "groq" ++ ofString ": " ++ detail))
        | e => raise e)
    (do
      if ← self then
        ofClient (← request .closeStream))

end GroqLLM

/-! ### The service -/

/-- One streamed message: sources, or an answer delta. -/
structure Message where
  sources : List ScoredHit
  answer : PyStr
  deriving DecidableEq

/-- The settings, and what the embedder is given. -/
structure QueryService where
  topK : Int
  minScore : ℚ
  maxQueryChars : Int
  maxDocumentIds : Int
  systemPrompt : PyStr
  queryInstruction : PyStr

namespace QueryService

variable (service : QueryService)

def noRelevantAnswer : PyStr :=
  ofString "No relevant information was found in the indexed documents."

def validate (query : PyStr) (documentIds : List PyStr) : Except PyStr Unit :=
  if blank query then
    .error (ofString "query is empty")
  else if query.length > service.maxQueryChars then
    .error (ofString ("query is longer than " ++ toString service.maxQueryChars ++ " characters"))
  else if documentIds.length > service.maxDocumentIds then
    .error (ofString ("more than " ++ toString service.maxDocumentIds ++ " document_ids"))
  else .ok ()

/-- `sorted(hits, key=lambda hit: hit.score, reverse=True)`: equal scores keep their order. -/
def bestFirst (hits : List ScoredHit) : List ScoredHit :=
  hits.insertionSort fun a b => b.score ≤ a.score

/-- `except DependencyUnavailable as exc: raise QueryUnavailable(str(exc))`. -/
def unavailable {α σ β : Type} : Thrown QueryError → Answering α σ β
  | .error (.dependencyUnavailable text) => fail (.queryUnavailable text)
  | e => raise e

def retrieve {α σ : Type} (query : PyStr) (documentIds : List PyStr) :
    Answering α σ (List ScoredHit) := do
  ofExcept ((validate service query documentIds).mapError fun text => .error (.invalidQuery text))
  let hits ← tryExcept (do
      let vector ← OllamaEmbedder.embedQuery service.queryInstruction query
      QdrantIndex.search vector service.topK service.minScore documentIds)
    unavailable
  return bestFirst hits

def answer (query : PyStr) (hits : List ScoredHit) : Answering Message Unit Unit := do
  emit ⟨hits, []⟩
  if hits = [] then
    emit ⟨[], noRelevantAnswer⟩
  else
    tryExcept (do
        let _ ← forEach (GroqLLM.stream service.systemPrompt
          (buildUserMessage query (hits.map ScoredHit.toHit))) false fun text => do
            emit ⟨[], text⟩
            return .next
        return ())
      unavailable

/-- `ask`, with its list of messages as the local variable. -/
def ask {α : Type} (query : PyStr) (documentIds : List PyStr) :
    Answering α (List Message) (PyStr × List ScoredHit) := do
  let hits ← retrieve service query documentIds
  let _ ← forEach (answer service query hits) () fun message => do
    assign fun messages => messages ++ [message]
    return .next
  let messages ← self
  match messages.head? with
  | some first => return ((messages.map Message.answer).flatten, first.sources)
  | none => fail .indexError

end QueryService

/-! ### gRPC -/

structure Source where
  documentId : PyStr
  snippet : PyStr
  similarityScore : ℚ
  filename : PyStr
  deriving DecidableEq

/-- `AskResponse` and `AskStreamResponse`. -/
structure Response where
  answer : PyStr
  contextUsed : List Source
  deriving DecidableEq

def Source.encodable (s : Source) : Bool :=
  isUnicode s.documentId && isUnicode s.snippet && isUnicode s.filename

/-- The strings of a message are UTF-8, so none may hold a lone surrogate. -/
def Response.encodable (r : Response) : Bool :=
  isUnicode r.answer && r.contextUsed.all Source.encodable

/-- The fields that are not ignored. -/
structure AskRequest where
  query : PyStr
  documentIds : List PyStr

namespace RagEngineServicer

def source (hit : ScoredHit) : Source := ⟨hit.hash, hit.text, hit.score, hit.filename⟩

def responseOf (message : Message) : Response :=
  ⟨message.answer, message.sources.map source⟩

/-- The constructor of `AskResponse` and `AskStreamResponse`. -/
def build {α σ : Type} (response : Response) : Answering α σ Response :=
  if response.encodable then pure response else fail .unencodable

/-- `_abort`. -/
def abort {α σ β : Type} : Thrown QueryError → Answering α σ β
  | .exit => raise .exit
  | .error (.invalidQuery text) => fail (.aborted .invalidArgument text)
  | .error (.queryUnavailable text) => fail (.aborted .unavailable text)
  | .error _ => fail (.aborted .internal (ofString "internal error"))

variable (service : QueryService) (req : AskRequest)

/-- The response is built after the `try`. -/
def ask : Answering Response (List Message) Unit := do
  let (text, hits) ← tryExcept (service.ask req.query req.documentIds) abort
  let response ← build ⟨text, hits.map source⟩
  emit response

def askStream : Answering Response Unit Unit :=
  tryExcept (do
      let hits ← service.retrieve req.query req.documentIds
      let _ ← forEach (service.answer req.query hits) () fun message => do
        let active : Bool ← request .isActive
        if active then
          let response ← build (responseOf message)
          emit response
          return .next
        else return .close
      return ())
    abort

end RagEngineServicer

structure Rpc where
  streaming : Bool
  service : QueryService
  request : AskRequest

abbrev RpcSig : Signature := QuerySig.yielding Response

namespace Rpc

/-- The status gRPC sends for what a handler came to. The details of UNKNOWN go on with the text of
the exception. -/
def status : Except (Thrown QueryError) Unit → StatusCode × PyStr
  | .ok _ => (.ok, [])
  | .error .exit => (.cancelled, [])
  | .error (.error (.aborted code details)) => (code, details)
  | .error (.error _) => (.unknown, ofString "Exception calling application")

def handle (rpc : Rpc) : Prog RpcSig (Except (Thrown QueryError) Unit) :=
  if rpc.streaming then
    (RagEngineServicer.askStream rpc.service rpc.request ()).bind fun x => .ret x.1
  else
    (RagEngineServicer.ask rpc.service rpc.request []).bind fun x => .ret x.1

def main (rpc : Rpc) : Prog RpcSig Unit :=
  rpc.handle.bind fun r =>
    .call (S := RpcSig) (.inl (.ended (status r).1 (status r).2)) .ret

end Rpc

end Rag
