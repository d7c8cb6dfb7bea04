import LogHarvest.Artifact.Archive
import LogHarvest.Artifact.RunFolder
import LogHarvest.Artifact.Sink
import LogHarvest.Cli.Program
import LogHarvest.Collect.Effort
import LogHarvest.Collect.Tally
import LogHarvest.Fleet.Store
import LogHarvest.Main
import LogHarvest.Protocol.Listing
import LogHarvest.Rate.Timeline
import LogHarvest.Run.Fetch
import LogHarvest.Session.Rehearsal
import LogHarvest.Session.Ssh
import LogHarvest.Shell.Launch
import LogHarvest.Text.Timestamp
import LogHarvest.Proofs.Fleet.Lookup
import LogHarvest.Proofs.Fleet.Recording
import LogHarvest.Run.Course
import LogHarvest.Proofs.Run.Moves
import LogHarvest.Proofs.Fleet.Absorbing
import LogHarvest.Proofs.Run.Ledger
import LogHarvest.Proofs.Run.Driving
import LogHarvest.Proofs.Fleet.History
import LogHarvest.Proofs.Run.Workers
import LogHarvest.Proofs.Run.Delivery
import LogHarvest.Proofs.Run.Cancellation
import LogHarvest.Proofs.Run.Carried
import LogHarvest.Proofs.Artifact.PathStart
import LogHarvest.Proofs.Collect.Filing
import LogHarvest.Proofs.Run.Artifacts
import LogHarvest.Proofs.Tree.Folders
import LogHarvest.Proofs.Run.Alone
import LogHarvest.Proofs.Run.Hosting
import LogHarvest.Proofs.Run.Counting
import LogHarvest.Proofs.Run.FanIn
import LogHarvest.Proofs.Run.Gate
import LogHarvest.Proofs.Run.Admission
import LogHarvest.Proofs.Rate.Cover
import LogHarvest.Proofs.Run.Calls
import LogHarvest.Proofs.Run.Pace
import LogHarvest.Proofs.Tree.Components
import LogHarvest.Proofs.Tree.Contents
import LogHarvest.Proofs.Fleet.Documents
import LogHarvest.Proofs.Run.OnDisk
import LogHarvest.Proofs.Tree.Sound
import LogHarvest.Proofs.Run.Outputs
import LogHarvest.Proofs.Run.Durability
import LogHarvest.Proofs.Text.Digits
import LogHarvest.Proofs.Text.Shortest
import LogHarvest.Proofs.Text.Nearest
import LogHarvest.Proofs.Text.FloatBits
import LogHarvest.Proofs.Text.Number
import LogHarvest.Proofs.Text.Utf8
import LogHarvest.Proofs.Yaml.Meaning
import LogHarvest.Proofs.Yaml.Cursor
import LogHarvest.Proofs.Yaml.Quoted
import LogHarvest.Proofs.Yaml.Spelling
import LogHarvest.Proofs.Yaml.PlainScalar
import LogHarvest.Proofs.Yaml.Literal
import LogHarvest.Proofs.Yaml.Lexing
import LogHarvest.Proofs.Yaml.Manner
import LogHarvest.Proofs.Yaml.Taking
import LogHarvest.Proofs.Yaml.Layout
import LogHarvest.Proofs.Yaml.Parsing
import LogHarvest.Proofs.Yaml.Decoding
import LogHarvest.Proofs.Fleet.Reloading
import LogHarvest.Proofs.Run.Settling
import LogHarvest.Proofs.Fleet.Entries
import LogHarvest.Proofs.Run.Accounts
import LogHarvest.Proofs.Run.Permits
import LogHarvest.Proofs.Run.Sessions
import LogHarvest.Proofs.Run.Flushing
import LogHarvest.Proofs.Run.Serial
import LogHarvest.Proofs.Run.Progress
import LogHarvest.Proofs.Artifact.Copies
import LogHarvest.Proofs.Artifact.Archiving
import LogHarvest.Proofs.Session.Retrying
import LogHarvest.Proofs.Run.Launches
import LogHarvest.Proofs.Fleet.Membership
import LogHarvest.Proofs.Fleet.Namesakes
import LogHarvest.Proofs.Run.FirstRun
import LogHarvest.Proofs.Tree.Leads
import LogHarvest.Proofs.Run.SetUp
import LogHarvest.Proofs.Collect.Trace
import LogHarvest.Proofs.Run.Transcript
import LogHarvest.Proofs.Rate.Turns
import LogHarvest.Proofs.Fleet.Merging
import LogHarvest.Proofs.Run.Confinement
import LogHarvest.Proofs.Artifact.Distinct
import LogHarvest.Proofs.Run.Solitary
import LogHarvest.Proofs.Run.Storing
import LogHarvest.Proofs.Rate.Crowd
import LogHarvest.Proofs.Rate.Queueing
import LogHarvest.Proofs.Rate.Leading
import LogHarvest.Proofs.Rate.Replaying
import LogHarvest.Proofs.Text.Lines
import LogHarvest.Proofs.Text.Words
import LogHarvest.Proofs.Protocol.ServiceTable
import LogHarvest.Proofs.Protocol.PathListing
import LogHarvest.Proofs.Artifact.Claiming
import LogHarvest.Proofs.Artifact.Shortening
import LogHarvest.Proofs.Artifact.PartialArchive
import LogHarvest.Proofs.Text.Boundaries
import LogHarvest.Proofs.Artifact.Slicing
