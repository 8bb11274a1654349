import DynamicMembers.Command
import DynamicMembers.Adapter.Fixed
import DynamicMembers.Capability
import DynamicMembers.Declaration.Load
import DynamicMembers.Store.Liveness
import DynamicMembers.Proofs.Store.Operations
import DynamicMembers.Proofs.Store.Commands
import DynamicMembers.Proofs.Store.Copies
import DynamicMembers.Proofs.Store.WellNamed
import DynamicMembers.Proofs.Text.BlankNames
import DynamicMembers.Proofs.View.Agreement
import DynamicMembers.Proofs.Alias.Walk
import DynamicMembers.Proofs.Alias.Cycle
import DynamicMembers.Proofs.View.ReservedNames
import DynamicMembers.Proofs.Script.Runs
import DynamicMembers.Proofs.Store.ListChanges
import DynamicMembers.Proofs.Access.Termination
import DynamicMembers.Proofs.Declaration.FailedLoad
import DynamicMembers.Proofs.View.Owners
import DynamicMembers.Proofs.View.Additions
import DynamicMembers.Proofs.View.NestedWrites
import DynamicMembers.Proofs.Declaration.Isolation
import DynamicMembers.Proofs.View.Contents
import DynamicMembers.Proofs.World.Independence
import DynamicMembers.Proofs.View.Surfacing
import DynamicMembers.Proofs.World.Marks
import DynamicMembers.Proofs.Declaration.Templates
import DynamicMembers.Proofs.Text.PatternMeaning
import DynamicMembers.Proofs.World.GroupingMembers
import DynamicMembers.Proofs.World.WrittenValues
import DynamicMembers.Proofs.View.Search
import DynamicMembers.Proofs.Access.Gates
import DynamicMembers.Proofs.Store.ListSearch
import DynamicMembers.Proofs.View.Precedence
import DynamicMembers.Proofs.Text.EscapedSets
import DynamicMembers.Proofs.World.Definitions
import DynamicMembers.Proofs.Access.AdvertisedTypes
import DynamicMembers.Proofs.Access.FailureClasses
import DynamicMembers.Proofs.Value.Integers
import DynamicMembers.Proofs.Access.BagStorage
import DynamicMembers.Answering
import DynamicMembers.Proofs.Declaration.TypeChains
import DynamicMembers.Proofs.Value.References
import DynamicMembers.Proofs.Store.Circles
import DynamicMembers.Proofs.World.Rendering
import DynamicMembers.Proofs.Access.ListedRows
import DynamicMembers.Proofs.Store.SettledLists
import DynamicMembers.Proofs.Declaration.LoadedTypes
import DynamicMembers.Proofs.Value.Equality
import DynamicMembers.Proofs.Value.Transitivity
import DynamicMembers.Proofs.Value.IntegerTexts
import DynamicMembers.Proofs.Text.QuestionMarks
import DynamicMembers.Proofs.Text.StarRuns
import DynamicMembers.Proofs.Text.SameNames
