import ScriptMachine.Assembler
import ScriptMachine.Builtins
import ScriptMachine.Decimal
import ScriptMachine.Execution
import ScriptMachine.Fault
import ScriptMachine.Host
import ScriptMachine.Index
import ScriptMachine.Inspection
import ScriptMachine.Instruction
import ScriptMachine.Iteration
import ScriptMachine.Json
import ScriptMachine.Limits
import ScriptMachine.Listing
import ScriptMachine.Listing.Program
import ScriptMachine.Literal
import ScriptMachine.Machine
import ScriptMachine.Machine.Binding
import ScriptMachine.Machine.Step
import ScriptMachine.Opcode
import ScriptMachine.Registry
import ScriptMachine.Session
import ScriptMachine.Session.Command
import ScriptMachine.Snapshot
import ScriptMachine.Source
import ScriptMachine.Store
import ScriptMachine.Store.Reach
import ScriptMachine.Table
import ScriptMachine.Text.Characters
import ScriptMachine.Text.Combining
import ScriptMachine.Text.Quoted
import ScriptMachine.Text.Unprintable
import ScriptMachine.Text.Utf8
import ScriptMachine.TypeSystem.Mapping
import ScriptMachine.TypeSystem.Members
import ScriptMachine.TypeSystem.Types
import ScriptMachine.Value
import ScriptMachine.Value.Arithmetic
import ScriptMachine.Value.Copy
import ScriptMachine.Value.Display
import ScriptMachine.Value.Equality
import ScriptMachine.Value.Kind
import ScriptMachine.Value.Slice
import ScriptMachine.Proofs.SlotEffects
import ScriptMachine.Proofs.MachineMoves
import ScriptMachine.Proofs.ActLogic
import ScriptMachine.Proofs.CallSafety
import ScriptMachine.Proofs.InstructionSafety
import ScriptMachine.Proofs.FunctionCells
import ScriptMachine.Proofs.LastingInstances
import ScriptMachine.Proofs.HarmlessComputations
import ScriptMachine.Proofs.WorldEffects
import ScriptMachine.Proofs.ExecutionTurns
import ScriptMachine.Proofs.ExecutionSafety
import ScriptMachine.Proofs.Stations
import ScriptMachine.Proofs.NativeCalls
import ScriptMachine.Proofs.BusyFlags
import ScriptMachine.Proofs.SessionHistories
import ScriptMachine.Proofs.CommandHistories
import ScriptMachine.Proofs.Reentrancy
import ScriptMachine.Proofs.Reruns
import ScriptMachine.Proofs.Liveness
import ScriptMachine.Proofs.HostCalls
import ScriptMachine.Proofs.SelfCalls
import ScriptMachine.Proofs.TailCalls
import ScriptMachine.Proofs.DiscardedResults
import ScriptMachine.Proofs.DepthLimits
import ScriptMachine.Proofs.ChargeLogic
import ScriptMachine.Proofs.InstructionCosts
import ScriptMachine.Proofs.Allocations
import ScriptMachine.Proofs.UnchargedObjects
import ScriptMachine.Proofs.TableRelations
import ScriptMachine.Proofs.Similarity
import ScriptMachine.Proofs.Reachability
import ScriptMachine.Proofs.CopyLogic
import ScriptMachine.Proofs.DeepCopy
import ScriptMachine.Proofs.ArgumentBinding
import ScriptMachine.Proofs.CallBinding
import ScriptMachine.Proofs.Aborting
import ScriptMachine.Proofs.AbortRequests
import ScriptMachine.Proofs.TableContents
import ScriptMachine.Proofs.InvariantLogic
import ScriptMachine.Proofs.FrozenCells
import ScriptMachine.Proofs.FrozenMembers
import ScriptMachine.Proofs.FrozenComputations
import ScriptMachine.Proofs.FrozenBuiltins
import ScriptMachine.Proofs.FrozenMachines
import ScriptMachine.Proofs.FrozenInstructions
import ScriptMachine.Proofs.FrozenExecutions
import ScriptMachine.Proofs.FrozenStorage
import ScriptMachine.Proofs.Halting
import ScriptMachine.Proofs.ChildFrames
import ScriptMachine.Proofs.ChildAnswers
import ScriptMachine.Proofs.ChildCalls
import ScriptMachine.Proofs.CopyDepth
import ScriptMachine.Proofs.TraversalDepth
import ScriptMachine.Proofs.SharedStructure
import ScriptMachine.Proofs.KeptCells
import ScriptMachine.Proofs.GrowingStores
import ScriptMachine.Proofs.CopiedValues
import ScriptMachine.Proofs.MappingValues
import ScriptMachine.Proofs.DeclaredMembers
import ScriptMachine.Proofs.MemberForms
import ScriptMachine.Proofs.MemberMappings
import ScriptMachine.Proofs.PropertyStores
import ScriptMachine.Proofs.CopiedProperties
import ScriptMachine.Proofs.PropertyChanges
import ScriptMachine.Proofs.PropertyHistories
import ScriptMachine.Proofs.PropertyMappings
import ScriptMachine.Proofs.ShallowMappings
import ScriptMachine.Proofs.PropertyDeclarations
import ScriptMachine.Proofs.PropertyLoads
import ScriptMachine.Proofs.LoadOrders
import ScriptMachine.Proofs.DecodedInstructions
import ScriptMachine.Proofs.CompletedInstructions
import ScriptMachine.Proofs.StackShifts
import ScriptMachine.Proofs.StackEffects
import ScriptMachine.Proofs.CodeOffsets
import ScriptMachine.Proofs.EmptySlots
import ScriptMachine.Proofs.HeldTables
import ScriptMachine.Proofs.ReloadedContainers
import ScriptMachine.Proofs.AssembledCode
import ScriptMachine.Proofs.NewInstances
import ScriptMachine.Proofs.BlamedOffsets
import ScriptMachine.Proofs.FailedInstructions
import ScriptMachine.Proofs.SourceMarks
import ScriptMachine.Proofs.CallSites
import ScriptMachine.Proofs.Deletions
import ScriptMachine.Proofs.ValueConversions
import ScriptMachine.Proofs.Assignments
import ScriptMachine.Proofs.PatchedJumps
import ScriptMachine.Proofs.MemberAccess
import ScriptMachine.Proofs.Ranges
import ScriptMachine.Proofs.EqualityLaws
import ScriptMachine.Proofs.ByteOrder
import ScriptMachine.Proofs.Iterators
import ScriptMachine.Proofs.Constructors
import ScriptMachine.Proofs.ExactOperators
import ScriptMachine.Proofs.Slices
import ScriptMachine.Proofs.SourcePositions
import ScriptMachine.Proofs.HandedFaults
import ScriptMachine.Proofs.RefusedArguments
import ScriptMachine.Proofs.RegisteredBuiltins
import ScriptMachine.Proofs.DeadlineLooks
