import RagPipeline.Settings.Duration
import RagPipeline.Settings.Toml

/-!
# The center's config

`config.Load` decodes the file into structs, with zero values for what is missing, and then
`Config.Validate` checks the values. A failing decode stops at one problem; the library walks a
map in no fixed order, so `decode` lists every problem it may stop at.

## Main definitions

* `Go.decode`, `Go.validate`: the two stages.
* `Go.load`: the config, or the problems `Load` reports.
-/
namespace Settings.Go

structure MinioConfig where
  url : String
  accessKey : String
  secretKey : String
  uploadBucket : String
  ingestionBucket : String

structure SQLiteConfig where
  dir : String

structure QdrantConfig where
  url : String

structure OllamaConfig where
  url : String

structure RAGGRPCConfig where
  port : Int
  maxWorkers : Int

/-- Durations are in nanoseconds. -/
structure RAGConsumerConfig where
  jobTimeout : Int
  watchdogGrace : Int
  minIdle : Int
  recoveryInterval : Int
  poisonThreshold : Int
  consumerCleanupIdle : Int
  maxFileBytes : Int
  allowSkipDimCheck : Bool

structure RAGConfig where
  collection : String
  embeddingModel : String
  embeddingDim : Int
  llmModel : String
  topK : Int
  chunkSize : Int
  chunkOverlap : Int
  callTimeout : Int
  minScore : TomlFloat
  embedBatchSize : Int
  queryInstruction : String
  reasoningEffort : String
  maxQueryChars : Int
  maxDocumentIDs : Int
  systemPrompt : String
  consumer : RAGConsumerConfig

structure RedisConfig where
  host : String
  port : Int
  stream : String
  consumerGroup : String
  streamMaxLen : Int
  statusStream : String
  statusConsumerGroup : String

structure IngestionConfig where
  maxAttempts : Int
  allowedExtensions : List String

structure WorkerConfig where
  interval : Int
  batchSize : Int
  jobTimeout : Int
  maxRetries : Int
  recoveryInterval : Int
  staleThreshold : Int

structure OutboxConfig extends WorkerConfig where
  schemaVersion : Int

structure StatusConsumerConfig where
  entryTimeout : Int
  minIdle : Int
  recoveryInterval : Int
  poisonThreshold : Int
  consumerCleanupIdle : Int

structure GoConfig where
  port : Int
  sqliteDir : String
  statusConsumer : StatusConsumerConfig
  hashing : WorkerConfig
  outbox : OutboxConfig

structure Config where
  minio : MinioConfig
  sqlite : SQLiteConfig
  qdrant : QdrantConfig
  ollama : OllamaConfig
  ragGRPC : RAGGRPCConfig
  rag : RAGConfig
  redis : RedisConfig
  ingestion : IngestionConfig
  go : GoConfig

def maxPort : Int := 65535

/-! ### Decoding -/

/-- What `strings.EqualFold` compares where one side is ASCII: the Kelvin sign and the long s fold
to ASCII letters. -/
def foldCase (s : String) : List Char := s.toList.map fun c =>
  if c = '\u212A' then 'k' else if c = '\u017F' then 's' else c.toLower

/-- The value for a struct tag: the key itself, or one that differs in case. -/
def field (t : Table) (tag : String) : Option Toml :=
  (t.get? tag).or ((t.find? fun m => foldCase m.1 = foldCase tag).map Prod.snd)

abbrev Decoding := Logged Problem

section Decode

variable (raw : Table) (path : List String) (tag : String)

def tableAt (raw : Table) (path : List String) : Table :=
  members (path.foldl (fun node part => field (members node) part) (some (.table raw)))

def refuse {α : Type} (message : String) (zero : α) : Decoding α :=
  .found ⟨dotted path tag, message⟩ zero

def mistyped {α : Type} (zero : α) : Decoding α := refuse path tag "incompatible types" zero

/-- A struct: it needs a table, if anything. -/
def expectTable : Decoding Unit :=
  match field (tableAt raw path) tag with
  | none | some (.table _) => pure ()
  | some _ => mistyped path tag ()

def string : Decoding String :=
  match field (tableAt raw path) tag with
  | none => pure ""
  | some (.str s) => pure s
  | some _ => mistyped path tag ""

/-- `int` and `int64`; the TOML parser refuses larger literals. -/
def int64 : Decoding Int :=
  match field (tableAt raw path) tag with
  | none => pure 0
  | some (.int n) =>
    if -2 ^ 63 ≤ n ∧ n < 2 ^ 63 then pure n else refuse path tag "out of range for int64" 0
  | some _ => mistyped path tag 0

/-- A `float64` takes an integer that is a float for certain. -/
def float : Decoding TomlFloat :=
  match field (tableAt raw path) tag with
  | none => pure (.finite 0)
  | some (.float x) => pure x
  | some (.int n) =>
    if n.natAbs < 2 ^ 53 then pure (.finite n)
    else refuse path tag "out of the safe float64 range" (.finite 0)
  | some _ => mistyped path tag (.finite 0)

def boolean : Decoding Bool :=
  match field (tableAt raw path) tag with
  | none => pure false
  | some (.bool b) => pure b
  | some _ => mistyped path tag false

/-- Through `UnmarshalText`; no text of another type matches its pattern. -/
def duration : Decoding Int :=
  match field (tableAt raw path) tag with
  | none => pure 0
  | some (.str s) => match unmarshalText s with
    | some d => pure d
    | none => invalid
  | some _ => invalid
where
  invalid : Decoding Int :=
    refuse path tag "invalid duration: want an integer and one unit (s, m or h), e.g. \"15m\"" 0

def stringsOf : List Toml → Decoding (List String)
  | [] => pure []
  | .str s :: rest => do return s :: (← stringsOf rest)
  | _ :: _ => mistyped path tag []

def strings : Decoding (List String) :=
  match field (tableAt raw path) tag with
  | none => pure []
  | some (.arr elements) => stringsOf path tag elements
  | some _ => mistyped path tag []

end Decode

def decodeMinio (raw : Table) : Decoding MinioConfig := do
  expectTable raw [] "minio"
  return {
    url := ← string raw ["minio"] "url"
    accessKey := ← string raw ["minio"] "access_key"
    secretKey := ← string raw ["minio"] "secret_key"
    uploadBucket := ← string raw ["minio"] "upload_bucket"
    ingestionBucket := ← string raw ["minio"] "ingestion_bucket" }

def decodeRAGGRPC (raw : Table) : Decoding RAGGRPCConfig := do
  expectTable raw [] "rag_grpc"
  return {
    port := ← int64 raw ["rag_grpc"] "port"
    maxWorkers := ← int64 raw ["rag_grpc"] "max_workers" }

def decodeRAGConsumer (raw : Table) : Decoding RAGConsumerConfig := do
  expectTable raw ["rag"] "consumer"
  return {
    jobTimeout := ← duration raw ["rag", "consumer"] "job_timeout"
    watchdogGrace := ← duration raw ["rag", "consumer"] "watchdog_grace"
    minIdle := ← duration raw ["rag", "consumer"] "min_idle"
    recoveryInterval := ← duration raw ["rag", "consumer"] "recovery_interval"
    poisonThreshold := ← int64 raw ["rag", "consumer"] "poison_threshold"
    consumerCleanupIdle := ← duration raw ["rag", "consumer"] "consumer_cleanup_idle"
    maxFileBytes := ← int64 raw ["rag", "consumer"] "max_file_bytes"
    allowSkipDimCheck := ← boolean raw ["rag", "consumer"] "allow_skip_dim_check" }

def decodeRAG (raw : Table) : Decoding RAGConfig := do
  expectTable raw [] "rag"
  return {
    collection := ← string raw ["rag"] "collection"
    embeddingModel := ← string raw ["rag"] "embedding_model"
    embeddingDim := ← int64 raw ["rag"] "embedding_dim"
    llmModel := ← string raw ["rag"] "llm_model"
    topK := ← int64 raw ["rag"] "top_k"
    chunkSize := ← int64 raw ["rag"] "chunk_size"
    chunkOverlap := ← int64 raw ["rag"] "chunk_overlap"
    callTimeout := ← duration raw ["rag"] "call_timeout"
    minScore := ← float raw ["rag"] "min_score"
    embedBatchSize := ← int64 raw ["rag"] "embed_batch_size"
    queryInstruction := ← string raw ["rag"] "query_instruction"
    reasoningEffort := ← string raw ["rag"] "reasoning_effort"
    maxQueryChars := ← int64 raw ["rag"] "max_query_chars"
    maxDocumentIDs := ← int64 raw ["rag"] "max_document_ids"
    systemPrompt := ← string raw ["rag"] "system_prompt"
    consumer := ← decodeRAGConsumer raw }

def decodeRedis (raw : Table) : Decoding RedisConfig := do
  expectTable raw [] "redis"
  return {
    host := ← string raw ["redis"] "host"
    port := ← int64 raw ["redis"] "port"
    stream := ← string raw ["redis"] "stream"
    consumerGroup := ← string raw ["redis"] "consumer_group"
    streamMaxLen := ← int64 raw ["redis"] "stream_max_len"
    statusStream := ← string raw ["redis"] "status_stream"
    statusConsumerGroup := ← string raw ["redis"] "status_consumer_group" }

def decodeIngestion (raw : Table) : Decoding IngestionConfig := do
  expectTable raw [] "ingestion"
  return {
    maxAttempts := ← int64 raw ["ingestion"] "max_attempts"
    allowedExtensions := ← strings raw ["ingestion"] "allowed_extensions" }

def decodeWorker (raw : Table) (table : String) : Decoding WorkerConfig := do
  expectTable raw ["go"] table
  return {
    interval := ← duration raw ["go", table] "interval"
    batchSize := ← int64 raw ["go", table] "batch_size"
    jobTimeout := ← duration raw ["go", table] "job_timeout"
    maxRetries := ← int64 raw ["go", table] "max_retries"
    recoveryInterval := ← duration raw ["go", table] "recovery_interval"
    staleThreshold := ← duration raw ["go", table] "stale_threshold" }

def decodeStatusConsumer (raw : Table) : Decoding StatusConsumerConfig := do
  expectTable raw ["go"] "status_consumer"
  return {
    entryTimeout := ← duration raw ["go", "status_consumer"] "entry_timeout"
    minIdle := ← duration raw ["go", "status_consumer"] "min_idle"
    recoveryInterval := ← duration raw ["go", "status_consumer"] "recovery_interval"
    poisonThreshold := ← int64 raw ["go", "status_consumer"] "poison_threshold"
    consumerCleanupIdle := ← duration raw ["go", "status_consumer"] "consumer_cleanup_idle" }

def decodeGo (raw : Table) : Decoding GoConfig := do
  expectTable raw [] "go"
  return {
    port := ← int64 raw ["go"] "port"
    sqliteDir := ← string raw ["go"] "sqlite_dir"
    statusConsumer := ← decodeStatusConsumer raw
    hashing := ← decodeWorker raw "hashing"
    outbox := {
      toWorkerConfig := ← decodeWorker raw "outbox"
      schemaVersion := ← int64 raw ["go", "outbox"] "schema_version" } }

def decode (raw : Table) : Decoding Config := do
  expectTable raw [] "sqlite"
  expectTable raw [] "qdrant"
  expectTable raw [] "ollama"
  return {
    minio := ← decodeMinio raw
    sqlite := { dir := ← string raw ["sqlite"] "dir" }
    qdrant := { url := ← string raw ["qdrant"] "url" }
    ollama := { url := ← string raw ["ollama"] "url" }
    ragGRPC := ← decodeRAGGRPC raw
    rag := ← decodeRAG raw
    redis := ← decodeRedis raw
    ingestion := ← decodeIngestion raw
    go := ← decodeGo raw }

/-! ### Checks -/

/-- A problem unless the check passes. -/
def check (key message : String) (ok : Bool) : List Problem := if ok then [] else [⟨key, message⟩]

def checkText (f : String × String) : List Problem := check f.1 "must not be empty" (f.2 ≠ "")

def checkPort (key : String) (port : Int) : List Problem :=
  check key "must be between 1 and 65535" (1 ≤ port ∧ port ≤ maxPort)

def checkPositive (f : String × Int) : List Problem := check f.1 "must be > 0" (0 < f.2)

def checkAtLeastOne (key : String) (n : Int) : List Problem := check key "must be >= 1" (1 ≤ n)

def extensionForbidden : List Char := ['.', '/', '\\', ' ', '\t']

def byteLength (s : String) : Nat := (s.toList.map Char.utf8Size).sum

def validExtension (ext : String) : Bool :=
  ext.toList.head? = some '.' ∧ 2 ≤ byteLength ext ∧
    ¬ (ext.toList.drop 1).any (· ∈ extensionForbidden)

def checkExtension (ext : String) : List Problem :=
  check "ingestion.allowed_extensions" "entry must be one extension such as \".pdf\""
    (validExtension ext)

def checkConsumer (rc : RAGConsumerConfig) : List Problem :=
  [("rag.consumer.job_timeout", rc.jobTimeout), ("rag.consumer.watchdog_grace", rc.watchdogGrace),
    ("rag.consumer.min_idle", rc.minIdle), ("rag.consumer.recovery_interval", rc.recoveryInterval),
    ("rag.consumer.consumer_cleanup_idle", rc.consumerCleanupIdle)].flatMap checkPositive ++
  checkAtLeastOne "rag.consumer.poison_threshold" rc.poisonThreshold ++
  check "rag.consumer.min_idle" "must exceed job_timeout + watchdog_grace"
    (addDuration rc.jobTimeout rc.watchdogGrace < rc.minIdle) ++
  check "rag.consumer.consumer_cleanup_idle" "must exceed job_timeout"
    (rc.jobTimeout < rc.consumerCleanupIdle)

def checkStatusConsumer (sc : StatusConsumerConfig) : List Problem :=
  [("go.status_consumer.entry_timeout", sc.entryTimeout),
    ("go.status_consumer.min_idle", sc.minIdle),
    ("go.status_consumer.recovery_interval", sc.recoveryInterval),
    ("go.status_consumer.consumer_cleanup_idle", sc.consumerCleanupIdle)].flatMap checkPositive ++
  checkAtLeastOne "go.status_consumer.poison_threshold" sc.poisonThreshold

def validateWorker (table : String) (w : WorkerConfig) : List Problem :=
  [(table ++ ".interval", w.interval), (table ++ ".job_timeout", w.jobTimeout),
    (table ++ ".recovery_interval", w.recoveryInterval),
    (table ++ ".stale_threshold", w.staleThreshold)].flatMap checkPositive ++
  checkAtLeastOne (table ++ ".batch_size") w.batchSize ++
  checkAtLeastOne (table ++ ".max_retries") w.maxRetries ++
  check (table ++ ".stale_threshold") "must exceed job_timeout"
    (¬ (0 < w.staleThreshold ∧ w.staleThreshold ≤ w.jobTimeout))

/-- `Config.Validate`. -/
def validate (c : Config) : List Problem :=
  [("minio.url", c.minio.url), ("minio.access_key", c.minio.accessKey),
    ("minio.secret_key", c.minio.secretKey), ("minio.upload_bucket", c.minio.uploadBucket),
    ("minio.ingestion_bucket", c.minio.ingestionBucket), ("redis.host", c.redis.host),
    ("redis.stream", c.redis.stream), ("go.sqlite_dir", c.go.sqliteDir)].flatMap checkText ++
  checkPort "redis.port" c.redis.port ++
  checkPositive ("redis.stream_max_len", c.redis.streamMaxLen) ++
  checkPort "rag_grpc.port" c.ragGRPC.port ++
  checkPort "go.port" c.go.port ++
  checkText ("rag.collection", c.rag.collection) ++
  checkText ("rag.embedding_model", c.rag.embeddingModel) ++
  checkPositive ("rag.call_timeout", c.rag.callTimeout) ++
  checkConsumer c.rag.consumer ++
  checkStatusConsumer c.go.statusConsumer ++
  validateWorker "go.hashing" c.go.hashing ++
  validateWorker "go.outbox" c.go.outbox.toWorkerConfig ++
  checkAtLeastOne "go.outbox.schema_version" c.go.outbox.schemaVersion ++
  checkAtLeastOne "ingestion.max_attempts" c.ingestion.maxAttempts ++
  check "ingestion.allowed_extensions" "must not be empty"
    (0 < c.ingestion.allowedExtensions.length) ++
  c.ingestion.allowedExtensions.flatMap checkExtension ++
  checkText ("redis.status_stream", c.redis.statusStream) ++
  checkText ("redis.status_consumer_group", c.redis.statusConsumerGroup)

/-- The problems `Load` may report: those of decoding, else those of `Validate`. -/
def problems (raw : Table) : List Problem :=
  let decoded := decode raw
  if decoded.log = [] then validate decoded.value else decoded.log

def load (raw : Table) : Except (List Problem) Config :=
  if problems raw = [] then .ok (decode raw).value else .error (problems raw)

end Settings.Go
