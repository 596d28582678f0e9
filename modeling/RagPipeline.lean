import RagPipeline.Pipeline.Safety
import RagPipeline.Center.Ladder
import RagPipeline.Center.UploadSafety
import RagPipeline.Center.Lifecycle
import RagPipeline.Center.TextColumns
import RagPipeline.Center.Batch
import RagPipeline.Center.Recovery
import RagPipeline.Settings.Agreement
import RagPipeline.Events.StatusContract
import RagPipeline.Events.IngestContract
import RagPipeline.Pipeline.Publications
import RagPipeline.Rag.LiveJobs
import RagPipeline.Rag.IngestFrame
import RagPipeline.Center.Polls
import RagPipeline.Center.RetriesBounded
import RagPipeline.Rag.Standstill
import RagPipeline.Rag.Watchdog
import RagPipeline.Events.StatusSchema
import RagPipeline.Pipeline.FileNames
import RagPipeline.Rag.UserMessage
import RagPipeline.Rag.Lease
import RagPipeline.Pipeline.PoisonReports
import RagPipeline.Pipeline.PoisonDrops
import RagPipeline.Pipeline.Cleanup
import RagPipeline.Rag.AskSystem
import RagPipeline.Setup.Rerun
