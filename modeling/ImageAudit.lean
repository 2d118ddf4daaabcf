import ImageAudit.Main
import ImageAudit.Proofs.Dockerfile.EnvValue
import ImageAudit.Proofs.Dockerfile.Order
import ImageAudit.Proofs.Dockerfile.Rereading
import ImageAudit.Proofs.Layout.Comment
import ImageAudit.Proofs.Layout.Idempotence
import ImageAudit.Proofs.Layout.Stability
import ImageAudit.Proofs.Policy.Registry
import ImageAudit.Proofs.Statement.Agreement
import ImageAudit.Proofs.Instruction.Image
import ImageAudit.Proofs.Dockerfile.Stages
import ImageAudit.Proofs.Policy.Reads
import ImageAudit.Proofs.Policy.Packages
import ImageAudit.Proofs.Shell.Command
import ImageAudit.Proofs.Shell.Quoting
import ImageAudit.Proofs.Policy.Evidence
import ImageAudit.Proofs.Policy.Tightening
import ImageAudit.Proofs.Policy.Configuration
import ImageAudit.Proofs.Statement.InertLine
import ImageAudit.Proofs.Audit.Batch
import ImageAudit.Proofs.Report.Statistics
import ImageAudit.Proofs.CommandLine.Outcome
import ImageAudit.Proofs.Instruction.EscapedRow
import ImageAudit.Proofs.Instruction.ExecArray
import ImageAudit.Proofs.Layout.References
import ImageAudit.Proofs.Layout.Edits
import ImageAudit.Proofs.Statement.Deferred
import ImageAudit.Proofs.Instruction.PairRow
import ImageAudit.Proofs.Instruction.FlagOrder
import ImageAudit.Proofs.Dockerfile.KeywordCase
import ImageAudit.Proofs.Shell.PackageCall
import ImageAudit.Proofs.Shell.Continuation
import ImageAudit.Proofs.Pattern.Occurrence
import ImageAudit.Proofs.Policy.Mentions
import ImageAudit.Proofs.Dockerfile.Opening
import ImageAudit.Proofs.Instruction.Port
import ImageAudit.Proofs.Report.Colours
import ImageAudit.Proofs.Report.Compliance
import ImageAudit.Proofs.Report.Escape
import ImageAudit.Proofs.Policy.Ports
