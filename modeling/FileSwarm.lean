import FileSwarm.ByteCount
import FileSwarm.ByteRange
import FileSwarm.Bytes
import FileSwarm.CommandLine.Configure
import FileSwarm.CommandLine.Describe
import FileSwarm.CommandLine.Invocation
import FileSwarm.CommandLine.Reading
import FileSwarm.CommandLine.Run
import FileSwarm.CommandLine.Shell
import FileSwarm.CommandLine.Summary
import FileSwarm.CommandLine.Sync
import FileSwarm.Decimal
import FileSwarm.Decimal.Numeral
import FileSwarm.Decimal.Shortest
import FileSwarm.Delta.Bench
import FileSwarm.Delta.Copying
import FileSwarm.Delta.Failure
import FileSwarm.Delta.Matching
import FileSwarm.Delta.Plan
import FileSwarm.Delta.Reading
import FileSwarm.Disk.Basic
import FileSwarm.Disk.Cause
import FileSwarm.Disk.Path
import FileSwarm.Hex
import FileSwarm.Logging
import FileSwarm.Logging.Directive
import FileSwarm.Logging.Pattern
import FileSwarm.Logging.Value
import FileSwarm.Main
import FileSwarm.Metrics
import FileSwarm.Offset
import FileSwarm.PartMap
import FileSwarm.Peer.Admission
import FileSwarm.Peer.Capabilities
import FileSwarm.Peer.Selection
import FileSwarm.Peer.Share
import FileSwarm.Proofs.ByteRange
import FileSwarm.Proofs.Bytes
import FileSwarm.Proofs.Delta.Copying
import FileSwarm.Proofs.Delta.Matching
import FileSwarm.Proofs.Delta.Passes
import FileSwarm.Proofs.Delta.Reconstruction
import FileSwarm.Proofs.Disk.Nodes
import FileSwarm.Proofs.PartMap.States
import FileSwarm.Proofs.PartMap.Updates
import FileSwarm.Proofs.RollingSum
import FileSwarm.Proofs.Signature.Builder
import FileSwarm.Proofs.Signature.Codec
import FileSwarm.Proofs.Swarm.Completion
import FileSwarm.Proofs.Swarm.Serving
import FileSwarm.Proofs.Swarm.Settling
import FileSwarm.Proofs.Swarm.Streaming
import FileSwarm.Proofs.Swarm.Swarming
import FileSwarm.Proofs.Swarm.Turns
import FileSwarm.Proofs.Transfer.Advance
import FileSwarm.Proofs.Transfer.Answers
import FileSwarm.Proofs.Transfer.Attempts
import FileSwarm.Proofs.Transfer.Changes
import FileSwarm.Proofs.Transfer.Course
import FileSwarm.Proofs.Transfer.Events
import FileSwarm.Proofs.Transfer.Fidelity
import FileSwarm.Proofs.Transfer.Frames
import FileSwarm.Proofs.Transfer.Ledger
import FileSwarm.Proofs.Transfer.Moves
import FileSwarm.Proofs.Transfer.Requests
import FileSwarm.Proofs.Transfer.Sound
import FileSwarm.Proofs.Transfer.Stages
import FileSwarm.Proofs.Transfer.Steps
import FileSwarm.Proofs.Transfer.Streams
import FileSwarm.Proofs.Transfer.Verdict
import FileSwarm.RollingSum
import FileSwarm.Settings.Access
import FileSwarm.Settings.Basic
import FileSwarm.Settings.File
import FileSwarm.Settings.Ini.Reader
import FileSwarm.Settings.Ini.Writer
import FileSwarm.Settings.Tuning
import FileSwarm.Sha256
import FileSwarm.Signature.Basic
import FileSwarm.Signature.Builder
import FileSwarm.Signature.Codec
import FileSwarm.Swarm.Basic
import FileSwarm.Swarm.Server
import FileSwarm.Tally
import FileSwarm.Text
import FileSwarm.Text.Alphanumeric
import FileSwarm.Text.Runs
import FileSwarm.Text.Visible
import FileSwarm.Transfer.Breakage
import FileSwarm.Transfer.Ending
import FileSwarm.Transfer.Exchange
import FileSwarm.Transfer.Members
import FileSwarm.Transfer.Phase
import FileSwarm.Transfer.Schedule
import FileSwarm.Transfer.Session
import FileSwarm.Transfer.Snapshot
import FileSwarm.Transfer.State
import FileSwarm.Transfer.Target
import FileSwarm.Transfer.Work
import FileSwarm.Proofs.Transfer.Outcomes
import FileSwarm.Proofs.Transfer.Endings
import FileSwarm.Proofs.Transfer.Phases
import FileSwarm.Proofs.Transfer.Scheduling
import FileSwarm.Proofs.Transfer.Requesting
import FileSwarm.Proofs.Transfer.Deliveries
import FileSwarm.Proofs.Signature.Canonical
import FileSwarm.Proofs.Transfer.Membership
import FileSwarm.Proofs.Transfer.Owing
import FileSwarm.Proofs.Transfer.Strangers
import FileSwarm.Proofs.Transfer.Progress
import FileSwarm.Proofs.Transfer.Staged
import FileSwarm.Proofs.Transfer.Routes
import FileSwarm.Proofs.Delta.Planning
import FileSwarm.Proofs.Transfer.Spending
import FileSwarm.Proofs.CommandLine.Survival
import FileSwarm.Proofs.Swarm.Courses
import FileSwarm.Proofs.Disk.Paths
import FileSwarm.Proofs.CommandLine.Prediction
import FileSwarm.Proofs.Transfer.Unfit
import FileSwarm.Proofs.Delta.Patching
import FileSwarm.Proofs.Transfer.Budget
import FileSwarm.Proofs.Text
import FileSwarm.Proofs.Settings.Ini
import FileSwarm.Proofs.Settings.Keys
import FileSwarm.Proofs.Settings.Saving
import FileSwarm.Proofs.Delta.Signing
import FileSwarm.Proofs.Signature.Tiling
import FileSwarm.Proofs.PartMap.Queries
import FileSwarm.Proofs.PartMap.Canonical
import FileSwarm.Proofs.Peer.Orders
import FileSwarm.Proofs.Peer.Remainders
import FileSwarm.Proofs.Peer.Dealings
import FileSwarm.Proofs.Delta.Beginning
import FileSwarm.Proofs.Settings.Access
import FileSwarm.Proofs.Delta.Accounting
import FileSwarm.Proofs.Delta.Reporting
import FileSwarm.Proofs.Transfer.Offers
import FileSwarm.Proofs.Transfer.Fairness
