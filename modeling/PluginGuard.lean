import PluginGuard.Access.Argument
import PluginGuard.Access.Guard
import PluginGuard.Access.Policy
import PluginGuard.Access.Rule
import PluginGuard.Archive
import PluginGuard.Archive.Inflate
import PluginGuard.Archive.Open
import PluginGuard.Archive.Zip.Content
import PluginGuard.Archive.Zip.Directory
import PluginGuard.Archive.Zip.Entry
import PluginGuard.Archive.Zip.Extra
import PluginGuard.Caller
import PluginGuard.ClassFile.Builder
import PluginGuard.ClassFile.Class
import PluginGuard.ClassFile.Code
import PluginGuard.ClassFile.Code.Decode
import PluginGuard.ClassFile.Code.Edit
import PluginGuard.ClassFile.Code.Encode
import PluginGuard.ClassFile.Code.Layout
import PluginGuard.ClassFile.Constant
import PluginGuard.ClassFile.Cursor
import PluginGuard.ClassFile.Fault
import PluginGuard.ClassFile.Opcode
import PluginGuard.ClassFile.Pool
import PluginGuard.Cli.Arguments
import PluginGuard.Cli.Check
import PluginGuard.Cli.Grammar
import PluginGuard.Cli.Program
import PluginGuard.Cli.Report
import PluginGuard.Cli.Terminal
import PluginGuard.Config.Document
import PluginGuard.Config.Files
import PluginGuard.Config.Settings
import PluginGuard.Config.Validation
import PluginGuard.Descriptor
import PluginGuard.Digest
import PluginGuard.Disk
import PluginGuard.Disk.Request
import PluginGuard.Event.Bus
import PluginGuard.Event.Heuristic
import PluginGuard.FileSystem
import PluginGuard.Hook.Builtin
import PluginGuard.Hook.Dispatch
import PluginGuard.Hook.Injection
import PluginGuard.Hook.Loaded
import PluginGuard.Hook.Transformer
import PluginGuard.Identity
import PluginGuard.Inspect.Access
import PluginGuard.Inspect.Analysis
import PluginGuard.Inspect.Class
import PluginGuard.Inspect.Code
import PluginGuard.Inspect.Plugin
import PluginGuard.Inspect.Program
import PluginGuard.Inspect.Scan
import PluginGuard.Inspect.Scratch
import PluginGuard.Inspect.Settings
import PluginGuard.Inspect.Startup
import PluginGuard.Instant
import PluginGuard.Json.Document
import PluginGuard.Json.Double
import PluginGuard.Json.Fields
import PluginGuard.Json.Number
import PluginGuard.Json.Parse
import PluginGuard.Json.Raw
import PluginGuard.Json.Value
import PluginGuard.Main
import PluginGuard.Overflow
import PluginGuard.Path
import PluginGuard.PluginIndex
import PluginGuard.Proofs.Access.Attribution
import PluginGuard.Proofs.Access.Decision
import PluginGuard.Proofs.Access.ExactRules
import PluginGuard.Proofs.Access.Kept
import PluginGuard.Proofs.Access.LastMatch
import PluginGuard.Proofs.Access.Reentry
import PluginGuard.Proofs.Access.Spelling
import PluginGuard.Proofs.Access.Targets
import PluginGuard.Proofs.ClassFile.ClassBytes
import PluginGuard.Proofs.ClassFile.Code.Attributes
import PluginGuard.Proofs.ClassFile.Code.Body
import PluginGuard.Proofs.ClassFile.Code.Consistency
import PluginGuard.Proofs.ClassFile.Code.Distances
import PluginGuard.Proofs.ClassFile.Code.Emission
import PluginGuard.Proofs.ClassFile.Code.Encoding
import PluginGuard.Proofs.ClassFile.Code.Erasure
import PluginGuard.Proofs.ClassFile.Code.Flow
import PluginGuard.Proofs.ClassFile.Code.Frames
import PluginGuard.Proofs.ClassFile.Code.Landmarks
import PluginGuard.Proofs.ClassFile.Code.Moved
import PluginGuard.Proofs.ClassFile.Code.Passes
import PluginGuard.Proofs.ClassFile.Code.Paths
import PluginGuard.Proofs.ClassFile.Code.Places
import PluginGuard.Proofs.ClassFile.Code.References
import PluginGuard.Proofs.ClassFile.Code.Relocation
import PluginGuard.Proofs.ClassFile.Code.Reread
import PluginGuard.Proofs.ClassFile.Code.Rereading
import PluginGuard.Proofs.ClassFile.Code.RoundTrip
import PluginGuard.Proofs.ClassFile.Code.Sequence
import PluginGuard.Proofs.ClassFile.Code.Settled
import PluginGuard.Proofs.ClassFile.Code.Spelling
import PluginGuard.Proofs.ClassFile.Code.Tables
import PluginGuard.Proofs.ClassFile.Code.Targets
import PluginGuard.Proofs.ClassFile.Code.Threaded
import PluginGuard.Proofs.ClassFile.Code.WellFormed
import PluginGuard.Proofs.ClassFile.Edited
import PluginGuard.Proofs.ClassFile.Fields
import PluginGuard.Proofs.ClassFile.Interning
import PluginGuard.Proofs.ClassFile.Methods
import PluginGuard.Proofs.ClassFile.Naming
import PluginGuard.Proofs.ClassFile.Pool
import PluginGuard.Proofs.ClassFile.Reading
import PluginGuard.Proofs.ClassFile.Requests
import PluginGuard.Proofs.Cli.Columns
import PluginGuard.Proofs.Cli.Question
import PluginGuard.Proofs.Config.Directories
import PluginGuard.Proofs.Config.Reported
import PluginGuard.Proofs.Config.Words
import PluginGuard.Proofs.Disk.Contents
import PluginGuard.Proofs.Disk.Files
import PluginGuard.Proofs.Event.Correlation
import PluginGuard.Proofs.Event.Delivery
import PluginGuard.Proofs.Fallible
import PluginGuard.Proofs.Hook.Calls
import PluginGuard.Proofs.Hook.Course
import PluginGuard.Proofs.Hook.Edits
import PluginGuard.Proofs.Hook.Entries
import PluginGuard.Proofs.Hook.Excision
import PluginGuard.Proofs.Hook.Exits
import PluginGuard.Proofs.Hook.Frames
import PluginGuard.Proofs.Hook.Loading
import PluginGuard.Proofs.Hook.Marks
import PluginGuard.Proofs.Hook.Monitored
import PluginGuard.Proofs.Hook.Owners
import PluginGuard.Proofs.Hook.Presence
import PluginGuard.Proofs.Hook.Rejection
import PluginGuard.Proofs.Hook.Repeated
import PluginGuard.Proofs.Hook.Scope
import PluginGuard.Proofs.Hook.Tended
import PluginGuard.Proofs.Path.Location
import PluginGuard.Proofs.PluginIndex.MainClasses
import PluginGuard.Proofs.PluginIndex.Ownership
import PluginGuard.Proofs.Quarantine.Ends
import PluginGuard.Proofs.Quarantine.Evidence
import PluginGuard.Proofs.Registry
import PluginGuard.Proofs.Scan.Accounts
import PluginGuard.Proofs.Scan.Coverage
import PluginGuard.Proofs.Scan.Evidence
import PluginGuard.Proofs.Scan.Found
import PluginGuard.Proofs.Scan.Isolation
import PluginGuard.Proofs.Scan.Moments
import PluginGuard.Proofs.Scan.Names
import PluginGuard.Proofs.Scan.Padding
import PluginGuard.Proofs.Scan.Rerun
import PluginGuard.Proofs.Scan.Reuse
import PluginGuard.Proofs.Scan.Stored
import PluginGuard.Proofs.Scan.Visits
import PluginGuard.Proofs.Scan.Walk
import PluginGuard.Proofs.Security.Credentials
import PluginGuard.Proofs.Security.Redaction
import PluginGuard.Proofs.Security.Replacement
import PluginGuard.Proofs.Table
import PluginGuard.Proofs.Text.Cut
import PluginGuard.Proofs.Text.ModifiedUtf8
import PluginGuard.Proofs.Text.Parts
import PluginGuard.Proofs.Text.Reading
import PluginGuard.Proofs.Text.Utf8
import PluginGuard.Proofs.Text.Wildcard
import PluginGuard.Registry
import PluginGuard.Scan.Analysis
import PluginGuard.Scan.Builtin
import PluginGuard.Scan.Cache
import PluginGuard.Scan.Calls
import PluginGuard.Scan.Contents
import PluginGuard.Scan.Findings
import PluginGuard.Scan.Quarantine
import PluginGuard.Scan.Record
import PluginGuard.Scan.Scanner
import PluginGuard.Scan.Startup
import PluginGuard.Scan.Verdict
import PluginGuard.Security.Event
import PluginGuard.Security.Redaction
import PluginGuard.Table
import PluginGuard.Text.Character
import PluginGuard.Text.Cut
import PluginGuard.Text.Letter
import PluginGuard.Text.ModifiedUtf8
import PluginGuard.Text.Numeral
import PluginGuard.Text.Pattern
import PluginGuard.Text.Quoted
import PluginGuard.Text.Utf8
import PluginGuard.Text.Wildcard
import PluginGuard.Workspace
import PluginGuard.Yaml.Format
import PluginGuard.Yaml.Node
import PluginGuard.Yaml.Place
import PluginGuard.Yaml.Scalar
import PluginGuard.Yaml.Stream
import PluginGuard.Yaml.Token
import PluginGuard.Yaml.Written
