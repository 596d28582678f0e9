import Mathlib.Data.List.Basic
import Mathlib.Data.Rat.Floor

/-!
# The decoded config file

Both readers go through the whole file and list every problem, so reading is a computation that
carries on after a problem and logs it.

## Main definitions

* `Logged`: a value with the log of what was found on the way.
* `Toml`, `Table`: a decoded file.
* `Problem`: one complaint, by the dotted name of its key; echoed values are left out.
-/
namespace Settings

/-- A computation that goes on after what it logs. -/
structure Logged (ω α : Type) where
  value : α
  log : List ω

namespace Logged

variable {ω α β : Type}

instance : Monad (Logged ω) where
  pure a := ⟨a, []⟩
  bind x f := ⟨(f x.value).value, x.log ++ (f x.value).log⟩

def found (w : ω) (a : α) : Logged ω α := ⟨a, [w]⟩

@[simp] theorem value_pure (a : α) : (pure a : Logged ω α).value = a := rfl

@[simp] theorem log_pure (a : α) : (pure a : Logged ω α).log = [] := rfl

@[simp] theorem value_bind (x : Logged ω α) (f : α → Logged ω β) :
    (x >>= f).value = (f x.value).value := rfl

@[simp] theorem log_bind (x : Logged ω α) (f : α → Logged ω β) :
    (x >>= f).log = x.log ++ (f x.value).log := rfl

@[simp] theorem value_found (w : ω) (a : α) : (found w a).value = a := rfl

@[simp] theorem log_found (w : ω) (a : α) : (found w a).log = [w] := rfl

end Logged

inductive TomlFloat where
  | finite (q : ℚ)
  | inf (negative : Bool)
  | nan

/-- A decoded TOML value. Integers are unbounded here; each reader has its own bounds. -/
inductive Toml where
  | str (s : String)
  | int (n : Int)
  | float (x : TomlFloat)
  | bool (b : Bool)
  | datetime (text : String)
  | arr (elements : List Toml)
  | table (members : List (String × Toml))

/-- A table has every key once. -/
abbrev Table := List (String × Toml)

def Table.get? (t : Table) (key : String) : Option Toml :=
  (t.find? fun m => m.1 = key).map Prod.snd

/-- The members of a table, none if it is something else. -/
def members : Option Toml → Table
  | some (.table t) => t
  | _ => []

def dotted (path : List String) (key : String) : String := ".".intercalate (path ++ [key])

structure Problem where
  key : String
  message : String
  deriving DecidableEq, Repr

/-- Give a key that is there another value. -/
def Table.put : List String → Toml → Table → Table
  | [], _, t => t
  | [key], value, t => t.map fun m => if m.1 = key then (key, value) else m
  | key :: path, value, t => t.map fun m =>
    if m.1 = key then (key, .table (put path value (members (some m.2)))) else m

/-! ### The file in the repository -/

/-- `config.toml`; its long texts are shortened. -/
def configToml : Table := [
  ("minio", .table [("url", .str "localhost:9000"), ("access_key", .str "minio_user"),
    ("secret_key", .str "minio_password"), ("upload_bucket", .str "upload-bucket"),
    ("ingestion_bucket", .str "ingestion-bucket")]),
  ("sqlite", .table [("dir", .str "./sqlite_db")]),
  ("qdrant", .table [("url", .str "http://localhost:6333")]),
  ("ollama", .table [("url", .str "http://localhost:11434")]),
  ("rag_grpc", .table [("port", .int 50051), ("max_workers", .int 8)]),
  ("rag", .table [("collection", .str "pdf-fixed"), ("embedding_model", .str "qwen3-embedding:4b"),
    ("embedding_dim", .int 2560), ("llm_model", .str "openai/gpt-oss-120b"), ("top_k", .int 5),
    ("chunk_size", .int 1000), ("chunk_overlap", .int 150),
    ("min_score", .float (.finite (38 / 100))), ("embed_batch_size", .int 16),
    ("query_instruction", .str "Given a question, retrieve passages"),
    ("reasoning_effort", .str "low"), ("max_query_chars", .int 2000),
    ("max_document_ids", .int 100), ("system_prompt", .str "Be concise."),
    ("call_timeout", .str "60s"),
    ("consumer", .table [("job_timeout", .str "15m"), ("watchdog_grace", .str "2m"),
      ("min_idle", .str "20m"), ("recovery_interval", .str "1m"), ("poison_threshold", .int 3),
      ("consumer_cleanup_idle", .str "1h"), ("max_file_bytes", .int 10485760)])]),
  ("redis", .table [("host", .str "localhost"), ("port", .int 6379), ("stream", .str "ingest.docs"),
    ("consumer_group", .str "rag-pdf-fixed"), ("stream_max_len", .int 324000),
    ("status_stream", .str "ingest.status"), ("status_consumer_group", .str "center-status")]),
  ("ingestion", .table [("max_attempts", .int 3),
    ("allowed_extensions", .arr [.str ".pdf", .str ".txt", .str ".md"])]),
  ("go", .table [("port", .int 8080), ("sqlite_dir", .str "./go_sqlite_db"),
    ("status_consumer", .table [("entry_timeout", .str "5s"), ("min_idle", .str "60s"),
      ("recovery_interval", .str "30s"), ("poison_threshold", .int 3),
      ("consumer_cleanup_idle", .str "1h")]),
    ("hashing", .table [("interval", .str "2s"), ("batch_size", .int 20),
      ("job_timeout", .str "2m"), ("max_retries", .int 3), ("recovery_interval", .str "30s"),
      ("stale_threshold", .str "5m")]),
    ("outbox", .table [("interval", .str "5s"), ("batch_size", .int 100),
      ("job_timeout", .str "30s"), ("max_retries", .int 3), ("recovery_interval", .str "1m"),
      ("stale_threshold", .str "30m"), ("schema_version", .int 1)])])]

end Settings
