import ScreenHooks.Main
import ScreenHooks.Text.Slice
import ScreenHooks.Proofs.Path.Segments
import ScreenHooks.Proofs.Disk.Places
import ScreenHooks.Proofs.Disk.Writing
import ScreenHooks.Proofs.Disk.Trees
import ScreenHooks.Proofs.Disk.Removing
import ScreenHooks.Proofs.Disk.Editing
import ScreenHooks.Proofs.Output.Writes
import ScreenHooks.Proofs.Run.Companions
import ScreenHooks.Proofs.Run.Passage
import ScreenHooks.Proofs.Run.Collisions
import ScreenHooks.Proofs.Output.Clear
import ScreenHooks.Proofs.Output.Settled
import ScreenHooks.Proofs.Run.Steady
import ScreenHooks.Proofs.Run.Failing
import ScreenHooks.Proofs.Sdk.Answers
import ScreenHooks.Proofs.Sdk.Readings
import ScreenHooks.Proofs.Run.Preparing
import ScreenHooks.Proofs.Run.Rereading
import ScreenHooks.Proofs.Run.Breakage
import ScreenHooks.Proofs.Run.Removal
import ScreenHooks.Proofs.Path.Normal
import ScreenHooks.Proofs.Sdk.Fuel
import ScreenHooks.Proofs.Sdk.Questions
import ScreenHooks.Proofs.Json.Tokens
import ScreenHooks.Proofs.Json.Documents
import ScreenHooks.Proofs.Output.Merge
import ScreenHooks.Proofs.Run.Again
import ScreenHooks.Proofs.Run.Preview
import ScreenHooks.Proofs.Path.Names
import ScreenHooks.Proofs.Path.Extension
import ScreenHooks.Proofs.Path.Relative
import ScreenHooks.Proofs.Output.References
import ScreenHooks.Proofs.Script.Tokens
import ScreenHooks.Proofs.Script.Statements
import ScreenHooks.Proofs.Script.Reading
import ScreenHooks.Proofs.Script.Phrases
import ScreenHooks.Proofs.Script.Values
import ScreenHooks.Proofs.Hook.Identifiers
import ScreenHooks.Proofs.Hook.Written
import ScreenHooks.Proofs.Hook.Exports
import ScreenHooks.Proofs.Hook.Bindings
import ScreenHooks.Proofs.Sdk.Outcomes
import ScreenHooks.Proofs.Sdk.Traversal
import ScreenHooks.Proofs.Sdk.Search
import ScreenHooks.Proofs.Sdk.Limit
import ScreenHooks.Proofs.Sdk.Listing
import ScreenHooks.Proofs.Sdk.Resolvable
import ScreenHooks.Proofs.Sdk.Shadowing
import ScreenHooks.Proofs.Sdk.Specifiers
import ScreenHooks.Proofs.Path.Spelling
import ScreenHooks.Proofs.Output.Spellings
import ScreenHooks.Proofs.Table
import ScreenHooks.Proofs.Sdk.Memory
import ScreenHooks.Proofs.Sdk.Namesakes
import ScreenHooks.Proofs.Run.ClassImport
import ScreenHooks.Proofs.Run.Records
import ScreenHooks.Proofs.Output.Entries
import ScreenHooks.Proofs.Run.Partition
import ScreenHooks.Proofs.Script.Surface
import ScreenHooks.Proofs.Script.Spans
import ScreenHooks.Proofs.Script.Members
import ScreenHooks.Proofs.Script.Interfaces
import ScreenHooks.Proofs.Ascii
import ScreenHooks.Proofs.Naming
import ScreenHooks.Proofs.TypeText.Pieces
import ScreenHooks.Proofs.TypeText.Mentions
import ScreenHooks.Proofs.TypeText.Expressions
import ScreenHooks.Proofs.TypeText.Tuples
import ScreenHooks.Proofs.TypeText.Heads
import ScreenHooks.Proofs.Hook.TypeImports
import ScreenHooks.Proofs.Hook.Usage
import ScreenHooks.Proofs.Hook.Scopes
import ScreenHooks.Proofs.Run.AllowLists
import ScreenHooks.Proofs.Path.Approach
import ScreenHooks.Proofs.Path.Walks
import ScreenHooks.Proofs.Names
import ScreenHooks.Proofs.Screen.AllowList
import ScreenHooks.Proofs.Command.Arguments
import ScreenHooks.Proofs.Command.DryRun
import ScreenHooks.Proofs.Script.Lexemes
import ScreenHooks.Proofs.Script.Expressions
import ScreenHooks.Proofs.Script.Patterns
