import Timelock.Annotation.Json
import Timelock.Config.Json
import Timelock.Config.Resolve
import Timelock.Decoded.Json
import Timelock.Inspection
import Timelock.Proposal.Json
import Timelock.Renderer.Standard
import Timelock.Report.Json
import Timelock.Script
import Timelock.TableDecoder
import Timelock.World.Statistics
import Timelock.World.Step
import Timelock.Proofs.TreePaths
import Timelock.Proofs.Leveling
import Timelock.Proofs.PlanOrder
import Timelock.Proofs.LevelLog
import Timelock.Proofs.RunAccount
import Timelock.Proofs.StepOrder
import Timelock.Proofs.Visibility
import Timelock.Proofs.Provenance
import Timelock.Proofs.Course
import Timelock.Proofs.Completion
import Timelock.Proofs.Scheduling
import Timelock.Proofs.Noninterference
import Timelock.Proofs.GraphErrors
import Timelock.Proofs.LevelPositions
import Timelock.Proofs.Schedule
import Timelock.Proofs.OutcomeOrder
import Timelock.Proofs.StepEvents
import Timelock.Proofs.Rest
import Timelock.Proofs.Permits
import Timelock.Proofs.Cancellation
import Timelock.Proofs.Checkpoints
import Timelock.Proofs.Endings
import Timelock.Proofs.TreeGrowth
import Timelock.Proofs.RunTrees
import Timelock.Proofs.RunResult
import Timelock.Proofs.Sessions
import Timelock.Proofs.Isolation
import Timelock.Proofs.ProposalTexts
import Timelock.Proofs.DecodedTexts
import Timelock.Proofs.PostOrder
import Timelock.Proofs.StoreContents
import Timelock.Proofs.ReportTexts
import Timelock.Proofs.Handles
import Timelock.Proofs.Mappings
import Timelock.Proofs.RegistryHistory
import Timelock.Proofs.Resolution
import Timelock.Proofs.Timeouts
import Timelock.Proofs.PermitLimits
import Timelock.Proofs.HexReading
import Timelock.Proofs.OutlineTexts
import Timelock.Proofs.GraphQueries
import Timelock.Proofs.FlatListing
import Timelock.Proofs.StoreViews
import Timelock.Proofs.RecordForms
import Timelock.Proofs.ProposalForms
import Timelock.Proofs.ContractIdentifiers
import Timelock.Proofs.PathTexts
