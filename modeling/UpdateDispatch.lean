import UpdateDispatch.CommandLine.Arguments
import UpdateDispatch.CommandLine.Run
import UpdateDispatch.Condition
import UpdateDispatch.Context.Basic
import UpdateDispatch.Context.Entities
import UpdateDispatch.Context.Reactions
import UpdateDispatch.Dispatch.Bot
import UpdateDispatch.Dispatch.Chain
import UpdateDispatch.Dispatch.Link
import UpdateDispatch.Dispatch.Machine
import UpdateDispatch.Dispatch.Process
import UpdateDispatch.Dispatch.Record
import UpdateDispatch.Dispatch.Registration
import UpdateDispatch.Dispatch.Script
import UpdateDispatch.Dispatch.World
import UpdateDispatch.Fault
import UpdateDispatch.Filter.Fault
import UpdateDispatch.Filter.Predicate
import UpdateDispatch.Filter.Query
import UpdateDispatch.Filter.Schema
import UpdateDispatch.Filter.Tree
import UpdateDispatch.Identity
import UpdateDispatch.Json.Access
import UpdateDispatch.Json.Basic
import UpdateDispatch.Json.Display
import UpdateDispatch.Json.Printer
import UpdateDispatch.Json.Reader
import UpdateDispatch.Listener
import UpdateDispatch.Main
import UpdateDispatch.Named
import UpdateDispatch.Number.Double
import UpdateDispatch.Number.Shortest
import UpdateDispatch.Pattern.Basic
import UpdateDispatch.Pattern.Parser
import UpdateDispatch.Pattern.Search
import UpdateDispatch.Proofs.Basic
import UpdateDispatch.Proofs.CommandLine.Agreement
import UpdateDispatch.Proofs.Condition.Addressing
import UpdateDispatch.Proofs.Condition.Changes
import UpdateDispatch.Proofs.Condition.Commands
import UpdateDispatch.Proofs.Condition.LastMatch
import UpdateDispatch.Proofs.Condition.Presence
import UpdateDispatch.Proofs.Condition.Reactions
import UpdateDispatch.Proofs.Condition.Straying
import UpdateDispatch.Proofs.Condition.Triggers
import UpdateDispatch.Proofs.Condition.TypedUpdate
import UpdateDispatch.Proofs.Dispatch.Abreast
import UpdateDispatch.Proofs.Dispatch.Access
import UpdateDispatch.Proofs.Dispatch.Accesses
import UpdateDispatch.Proofs.Dispatch.Accord
import UpdateDispatch.Proofs.Dispatch.AllowedKinds
import UpdateDispatch.Proofs.Dispatch.Asides
import UpdateDispatch.Proofs.Dispatch.Associativity
import UpdateDispatch.Proofs.Dispatch.Batches
import UpdateDispatch.Proofs.Dispatch.Boundaries
import UpdateDispatch.Proofs.Dispatch.Branches
import UpdateDispatch.Proofs.Dispatch.Branching
import UpdateDispatch.Proofs.Dispatch.Building
import UpdateDispatch.Proofs.Dispatch.Calls
import UpdateDispatch.Proofs.Dispatch.Closed
import UpdateDispatch.Proofs.Dispatch.Completion
import UpdateDispatch.Proofs.Dispatch.Conditionals
import UpdateDispatch.Proofs.Dispatch.Containers
import UpdateDispatch.Proofs.Dispatch.Continuation
import UpdateDispatch.Proofs.Dispatch.Counterparts
import UpdateDispatch.Proofs.Dispatch.Endings
import UpdateDispatch.Proofs.Dispatch.Evaluation
import UpdateDispatch.Proofs.Dispatch.Failures
import UpdateDispatch.Proofs.Dispatch.Filters
import UpdateDispatch.Proofs.Dispatch.Forest
import UpdateDispatch.Proofs.Dispatch.Forks
import UpdateDispatch.Proofs.Dispatch.Gates
import UpdateDispatch.Proofs.Dispatch.Interleaving
import UpdateDispatch.Proofs.Dispatch.Isolation
import UpdateDispatch.Proofs.Dispatch.KeepsMarks
import UpdateDispatch.Proofs.Dispatch.KeepsOff
import UpdateDispatch.Proofs.Dispatch.Layers
import UpdateDispatch.Proofs.Dispatch.Likeness
import UpdateDispatch.Proofs.Dispatch.Listeners
import UpdateDispatch.Proofs.Dispatch.Lockstep
import UpdateDispatch.Proofs.Dispatch.Lone
import UpdateDispatch.Proofs.Dispatch.Mirrors
import UpdateDispatch.Proofs.Dispatch.Nesting
import UpdateDispatch.Proofs.Dispatch.Observation
import UpdateDispatch.Proofs.Dispatch.Offers
import UpdateDispatch.Proofs.Dispatch.Parallel
import UpdateDispatch.Proofs.Dispatch.Parts
import UpdateDispatch.Proofs.Dispatch.Passages
import UpdateDispatch.Proofs.Dispatch.Places
import UpdateDispatch.Proofs.Dispatch.Positions
import UpdateDispatch.Proofs.Dispatch.Programs
import UpdateDispatch.Proofs.Dispatch.Progress
import UpdateDispatch.Proofs.Dispatch.Quiescence
import UpdateDispatch.Proofs.Dispatch.Realms
import UpdateDispatch.Proofs.Dispatch.Refusals
import UpdateDispatch.Proofs.Dispatch.Registrations
import UpdateDispatch.Proofs.Dispatch.Reports
import UpdateDispatch.Proofs.Dispatch.Requests
import UpdateDispatch.Proofs.Dispatch.Responses
import UpdateDispatch.Proofs.Dispatch.Runs
import UpdateDispatch.Proofs.Dispatch.Sequence
import UpdateDispatch.Proofs.Dispatch.Sharing
import UpdateDispatch.Proofs.Dispatch.Sound
import UpdateDispatch.Proofs.Dispatch.Sparing
import UpdateDispatch.Proofs.Dispatch.Threads
import UpdateDispatch.Proofs.Dispatch.Timelines
import UpdateDispatch.Proofs.Dispatch.Transparency
import UpdateDispatch.Proofs.Dispatch.Turns
import UpdateDispatch.Proofs.Dispatch.Twins
import UpdateDispatch.Proofs.Dispatch.Variants
import UpdateDispatch.Proofs.Dispatch.Work
import UpdateDispatch.Proofs.Filter.Cache
import UpdateDispatch.Proofs.Filter.Denotation
import UpdateDispatch.Proofs.Filter.Expansion
import UpdateDispatch.Proofs.Filter.Kinds
import UpdateDispatch.Proofs.Filter.Merge
import UpdateDispatch.Proofs.Filter.Normal
import UpdateDispatch.Proofs.Filter.Path
import UpdateDispatch.Proofs.Filter.Predicate
import UpdateDispatch.Proofs.Filter.Tokens
import UpdateDispatch.Proofs.Json.Fields
import UpdateDispatch.Proofs.Json.Grammar
import UpdateDispatch.Proofs.Json.Numbers
import UpdateDispatch.Proofs.Json.Reading
import UpdateDispatch.Proofs.Json.Renaming
import UpdateDispatch.Proofs.Json.RoundTrip
import UpdateDispatch.Proofs.Json.Short
import UpdateDispatch.Proofs.Json.Strings
import UpdateDispatch.Proofs.Pattern.Matching
import UpdateDispatch.Proofs.Settings.Loading
import UpdateDispatch.Proofs.Settings.Names
import UpdateDispatch.Proofs.Settings.RoundTrip
import UpdateDispatch.Proofs.Settings.Short
import UpdateDispatch.Proofs.Settings.Validation
import UpdateDispatch.Proofs.Text.Case
import UpdateDispatch.Scenario
import UpdateDispatch.Settings.Basic
import UpdateDispatch.Settings.Environment
import UpdateDispatch.Settings.File
import UpdateDispatch.Settings.Keys
import UpdateDispatch.Settings.Rule
import UpdateDispatch.Text.Case
import UpdateDispatch.Text.Class
import UpdateDispatch.Text.Quoted
import UpdateDispatch.Text.Split
import UpdateDispatch.Text.Table.Case
import UpdateDispatch.Text.Table.Class
import UpdateDispatch.Trigger
