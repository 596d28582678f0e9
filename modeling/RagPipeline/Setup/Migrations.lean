import RagPipeline.Rag.SqliteManager

/-!
# Preparing the stores

`python -m migration.main` and the buckets of the Go `migrate` command: what creates the table,
the collection with its payload index, and the buckets, before the services start.

## Main definitions

* `migrate`: the three migrations, with the client they share.
* `ensureBuckets`: the two buckets.
-/
namespace Setup

open Wire Interact Method Rag

/-! ### What Qdrant says of a collection -/

inductive Distance where
  | cosine
  | euclid
  | dot
  | manhattan
  deriving DecidableEq

/-- The parameters of one unnamed dense vector. -/
structure VectorParams where
  size : Int
  multivector : Bool
  distance : Distance
  deriving DecidableEq

structure Collection where
  /-- `none` for named or sparse vectors. -/
  vectors : Option VectorParams
  /-- The type of the payload index on `hash`. -/
  hashIndex : Option String
  deriving DecidableEq

/-! ### The Python migrations -/

inductive SqlCmd where
  /-- The names in `PRAGMA table_info(indexed_documents)`. -/
  | tableInfo
  /-- `CREATE TABLE IF NOT EXISTS indexed_documents`. -/
  | createTable

def SqlSig : Signature where
  Cmd := SqlCmd
  Reply
    | .tableInfo => List String
    | .createTable => Unit

inductive QdrantCmd where
  | collectionExists (name : PyStr)
  | getCollection (name : PyStr)
  /-- With one unnamed vector of this size under the cosine distance. -/
  | createCollection (name : PyStr) (size : Int)
  /-- A keyword index on `hash`. -/
  | createPayloadIndex (name : PyStr)
  | closeClient
  /-- The process ends. -/
  | exit (code : Nat)

structure QdrantError where
  typeName : PyStr

def QdrantSig : Signature where
  Cmd := QdrantCmd
  Reply
    | .collectionExists _ => Except QdrantError Bool
    | .getCollection _ => Except QdrantError Collection
    | .createCollection .. | .createPayloadIndex _ | .closeClient => Except QdrantError Unit
    | .exit _ => Unit

abbrev MigrationSig : Signature := (ConnSig SqlSig).sum QdrantSig

/-- What a migration raises. -/
inductive MigrationError where
  | sqlite (e : SqliteError)
  | qdrant (e : QdrantError)
  | oldSchema (path : PyStr) (columns : List String)
  | noEmbeddingDim
  | namedVectors (name : PyStr)
  | otherSize (name : PyStr) (size dim : Int)
  | multivector (name : PyStr)
  | otherDistance (name : PyStr) (distance : Distance)
  | otherIndex (name : PyStr) (type : String)

structure MigrationConfig where
  /-- `<sqlite.dir>/<rag.collection>.db`. -/
  path : PyStr
  collection : PyStr
  embeddingDim : Int

/-- The local variable says that the process has a Qdrant client. -/
abbrev Migration := Method MigrationSig Bool MigrationError

def qdrant (c : QdrantCmd) : Migration (QdrantSig.Reply c) := call (S := MigrationSig) (.inr c)

def sql (path : PyStr) (c : SqlCmd) : Migration (SqlSig.Reply c) :=
  SQLiteManager.conn (T := SqlSig) (U := QdrantSig) .sqlite (.execute path c)

def ofQdrant {α : Type} (r : Except QdrantError α) : Migration α :=
  ofExcept (r.mapError MigrationError.qdrant)

/-- `_COLUMNS`. -/
def columns : List String := ["hash", "filename", "object_path", "chunk_count", "indexed_at"]

/-- Equal as sets. -/
def SameNames (names names' : List String) : Prop :=
  (∀ n ∈ names, n ∈ names') ∧ ∀ n ∈ names', n ∈ names

instance (names names' : List String) : Decidable (SameNames names names') :=
  inferInstanceAs (Decidable (_ ∧ _))

variable (config : MigrationConfig)

namespace CreateSqLiteTables

def indexedDocumentsTable : Migration Unit := do
  let existing : List String ← sql config.path .tableInfo
  if existing ≠ [] ∧ ¬ SameNames existing columns then
    raise (.oldSchema config.path existing)
  else
    sql config.path .createTable

def run : Migration Unit :=
  SQLiteManager.within MigrationError.sqlite config.path (indexedDocumentsTable config)

end CreateSqLiteTables

/-- `qdrant_manager.get_client`: building the client makes no request. -/
def getClient : Migration Unit := assign fun _ => true

namespace QdrantCollection

def checkExisting (name : PyStr) (dim : Int) : Option VectorParams → Except MigrationError Unit
  | none => .error (.namedVectors name)
  | some vectors =>
    if vectors.size ≠ dim then
      .error (.otherSize name vectors.size dim)
    else if vectors.multivector then
      .error (.multivector name)
    else if vectors.distance ≠ .cosine then
      .error (.otherDistance name vectors.distance)
    else .ok ()

def run : Migration Unit := do
  let dim := config.embeddingDim
  if dim ≤ 0 then
    raise .noEmbeddingDim
  else
    getClient
    let name := config.collection
    let found ← ofQdrant (← qdrant (.collectionExists name))
    if found then
      let existing ← ofQdrant (← qdrant (.getCollection name))
      ofExcept (checkExisting name dim existing.vectors)
    else
      ofQdrant (← qdrant (.createCollection name dim))

end QdrantCollection

namespace QdrantPayloadIndex

def keyword : String := "keyword"

def run : Migration Unit := do
  getClient
  let name := config.collection
  let collection ← ofQdrant (← qdrant (.getCollection name))
  match collection.hashIndex with
  | some type => if type ≠ keyword then raise (.otherIndex name type) else pure ()
  | none => ofQdrant (← qdrant (.createPayloadIndex name))

end QdrantPayloadIndex

/-- `MIGRATIONS`, in order. -/
@[irreducible] def migrations : Migration Unit := do
  CreateSqLiteTables.run config
  QdrantCollection.run config
  QdrantPayloadIndex.run config

/-- `_close_client`: a failure is only logged. -/
def closeClient : Migration Unit := do
  if ← self then
    assign fun _ => false
    tryExcept (do ofQdrant (← qdrant .closeClient)) fun _ => pure ()

/-- `main`, from the loaded configuration to its exit code. -/
def migrate : Migration Nat :=
  andFinally (tryExcept (do migrations config; return 0) fun _ => return 1) closeClient

/-! ### The buckets -/

inductive BucketCmd where
  | bucketExists (bucket : String)
  | makeBucket (bucket : String)
  | exit (code : Nat)

/-- `miniogo.ToErrorResponse(err)`. -/
structure ErrorResponse where
  code : String

def BucketSig : Signature where
  Cmd := BucketCmd
  Reply
    | .bucketExists _ => Except ErrorResponse Bool
    | .makeBucket _ => Except ErrorResponse Unit
    | .exit _ => Unit

def bucketCall (c : BucketCmd) : Prog BucketSig (BucketSig.Reply c) :=
  Prog.perform (S := BucketSig) c

/-- Another run has created the bucket in between. -/
def ErrorResponse.AlreadyThere (e : ErrorResponse) : Prop :=
  e.code = "BucketAlreadyOwnedByYou" ∨ e.code = "BucketAlreadyExists"

instance (e : ErrorResponse) : Decidable e.AlreadyThere := inferInstanceAs (Decidable (_ ∨ _))

def ensureBuckets : List String → Prog BucketSig (Except ErrorResponse Unit)
  | [] => return .ok ()
  | bucket :: rest => do
    let found : Except ErrorResponse Bool ← bucketCall (.bucketExists bucket)
    match found with
    | .error e => return .error e
    | .ok true => ensureBuckets rest
    | .ok false =>
      let made : Except ErrorResponse Unit ← bucketCall (.makeBucket bucket)
      match made with
      | .error e => if e.AlreadyThere then ensureBuckets rest else return .error e
      | .ok _ => ensureBuckets rest

end Setup
