import Curriculum.Binary64.Basic
import Curriculum.Binary64.Decimal
import Curriculum.Binary64.Text
import Curriculum.CommandLine
import Curriculum.CourseFolder.Basic
import Curriculum.CourseFolder.Parsing
import Curriculum.CourseFolder.Seeding
import Curriculum.Csv
import Curriculum.Depth.Relaxation
import Curriculum.Depth.Requirement
import Curriculum.Disk
import Curriculum.Folder
import Curriculum.Graph.Assembly
import Curriculum.Graph.Basic
import Curriculum.Graph.Export
import Curriculum.Graph.Summary
import Curriculum.Json.Basic
import Curriculum.Json.Reader
import Curriculum.Json.Token
import Curriculum.Json.Writer
import Curriculum.Main
import Curriculum.Model.Reply
import Curriculum.Model.Request
import Curriculum.Number
import Curriculum.Path
import Curriculum.Program
import Curriculum.Proofs.Binary64.Numeral
import Curriculum.Proofs.Binary64.Order
import Curriculum.Proofs.Binary64.Power
import Curriculum.Proofs.Binary64.Rounding
import Curriculum.Proofs.Binary64.Shortest
import Curriculum.Proofs.Candidate.Acceptance
import Curriculum.Proofs.Candidate.Denotation
import Curriculum.Proofs.Candidate.Dump
import Curriculum.Proofs.Candidate.Faults
import Curriculum.Proofs.Candidate.Grammar
import Curriculum.Proofs.Candidate.Idempotence
import Curriculum.Proofs.Candidate.Parts
import Curriculum.Proofs.Candidate.Rules
import Curriculum.Proofs.CourseFolder.Conversation
import Curriculum.Proofs.CourseFolder.Loading
import Curriculum.Proofs.CourseFolder.Rerun
import Curriculum.Proofs.CourseFolder.Results
import Curriculum.Proofs.CourseFolder.Seeding
import Curriculum.Proofs.CourseFolder.Workers
import Curriculum.Proofs.Csv
import Curriculum.Proofs.Depth.Course
import Curriculum.Proofs.Depth.Least
import Curriculum.Proofs.Depth.Level
import Curriculum.Proofs.Depth.Met
import Curriculum.Proofs.Depth.Pass
import Curriculum.Proofs.Depth.Resuming
import Curriculum.Proofs.Depth.Rounds
import Curriculum.Proofs.Depth.Settling
import Curriculum.Proofs.Graph.Departments
import Curriculum.Proofs.Graph.Edges
import Curriculum.Proofs.Graph.Files
import Curriculum.Proofs.Graph.Growth
import Curriculum.Proofs.Graph.History
import Curriculum.Proofs.Graph.Nodes
import Curriculum.Proofs.Graph.Offers
import Curriculum.Proofs.Graph.Order
import Curriculum.Proofs.Graph.Paths
import Curriculum.Proofs.Graph.Permutation
import Curriculum.Proofs.Graph.Skeleton
import Curriculum.Proofs.Json.Extent
import Curriculum.Proofs.Json.Nesting
import Curriculum.Proofs.Json.Parsing
import Curriculum.Proofs.Json.Scanning
import Curriculum.Proofs.Json.Word
import Curriculum.Proofs.Model.Reply
import Curriculum.Proofs.Number
import Curriculum.Proofs.Reading.Success
import Curriculum.Proofs.Record.Document
import Curriculum.Proofs.Record.LifeCycle
import Curriculum.Proofs.Record.Messages
import Curriculum.Proofs.Record.Processing
import Curriculum.Proofs.Record.Refusals
import Curriculum.Proofs.Record.RoundTrip
import Curriculum.Proofs.Requirement.Budget
import Curriculum.Proofs.Requirement.Document
import Curriculum.Proofs.Requirement.Named
import Curriculum.Proofs.Requirement.Outline
import Curriculum.Proofs.Requirement.Paths
import Curriculum.Proofs.Requirement.Reading
import Curriculum.Proofs.Requirement.Weights
import Curriculum.Proofs.Statistics.ErrorSorts
import Curriculum.Proofs.Statistics.Rankings
import Curriculum.Proofs.Statistics.Sums
import Curriculum.Proofs.Table
import Curriculum.Proofs.Tally
import Curriculum.Proofs.Text.Lines
import Curriculum.Reading.Basic
import Curriculum.Reading.Scalar
import Curriculum.Record.Basic
import Curriculum.Record.Candidate
import Curriculum.Record.Json
import Curriculum.Record.Listing
import Curriculum.Record.Processing
import Curriculum.Record.Reading
import Curriculum.Requirement.Basic
import Curriculum.Requirement.Candidate
import Curriculum.Requirement.Json
import Curriculum.Requirement.Outline
import Curriculum.Requirement.Reading
import Curriculum.Settings
import Curriculum.Statistics.Basic
import Curriculum.Statistics.Report
import Curriculum.Table
import Curriculum.Tally
import Curriculum.Text.Blank
import Curriculum.Text.Integer
import Curriculum.Text.Lines
import Curriculum.Text.Order
import Curriculum.Text.Printable
import Curriculum.Text.Quoted
import Curriculum.Weight
