import ClassWeaver.Bytes
import ClassWeaver.Text.Utf16
import ClassWeaver.Text.ModifiedUtf8
import ClassWeaver.Text.Blank
import ClassWeaver.Text.Fields
import ClassWeaver.Descriptor
import ClassWeaver.ClassFile.Malformation
import ClassWeaver.ClassFile.ConstantPool
import ClassWeaver.ClassFile.StackMap
import ClassWeaver.ClassFile.Basic
import ClassWeaver.ClassFile.Printer
import ClassWeaver.ClassFile.Parser
import ClassWeaver.Code.Opcode
import ClassWeaver.Code.Fault
import ClassWeaver.Code.Instruction
import ClassWeaver.Code.Decode
import ClassWeaver.Code.Assemble
import ClassWeaver.Attempt
import ClassWeaver.Code.Relocate
import ClassWeaver.Code.Editor
import ClassWeaver.Failure
import ClassWeaver.ClassName
import ClassWeaver.EditableClass
import ClassWeaver.LittleEndian
import ClassWeaver.Text.CodePage437
import ClassWeaver.Archive.Checksum
import ClassWeaver.Archive.BitReader
import ClassWeaver.Archive.PrefixCode
import ClassWeaver.Archive.Deflate
import ClassWeaver.Text.Utf8
import ClassWeaver.Archive.Record
import ClassWeaver.Archive.Directory
import ClassWeaver.Archive.Entry
import ClassWeaver.Archive.Printer
import ClassWeaver.Search.FilePath
import ClassWeaver.Search.Entry
import ClassWeaver.Transformer.Basic
import ClassWeaver.Transformer.Increment
import ClassWeaver.Transformer.Factory
import ClassWeaver.Transformer.Wrapper
import ClassWeaver.Options
import ClassWeaver.Lock.Holds
import ClassWeaver.Lock.FairLock
import ClassWeaver.Lock.Threads
import ClassWeaver.Search.FileTree
import ClassWeaver.Search.Access
import ClassWeaver.Search.Registry
import ClassWeaver.Workspace
import ClassWeaver.Transformer.Chain
import ClassWeaver.Redefinition
import ClassWeaver.Surroundings
import ClassWeaver.Redefinition.Rehearsal
import ClassWeaver.Vm.Capabilities
import ClassWeaver.Vm.ErrorCode
import ClassWeaver.Vm.Call
import ClassWeaver.Vm.Machine
import ClassWeaver.Vm.Native
import ClassWeaver.Vm.Tool
import ClassWeaver.Vm.Faults
import ClassWeaver.Agent.Loader
import ClassWeaver.Agent.LoadedClass
import ClassWeaver.Agent.Host
import ClassWeaver.Proofs.Parsing
import ClassWeaver.Proofs.Attempt
import ClassWeaver.Proofs.Code.WellFormed
import ClassWeaver.Proofs.Code.Relocation
import ClassWeaver.Proofs.Code.RoundTrip
import ClassWeaver.Proofs.Code.Tables
import ClassWeaver.Proofs.Code.Editing
import ClassWeaver.Proofs.Code.Allocations
import ClassWeaver.Proofs.Text.ModifiedUtf8
import ClassWeaver.Proofs.ClassFile.Spelling
import ClassWeaver.Proofs.ClassFile.Identity
import ClassWeaver.Proofs.ClassFile.Writable
import ClassWeaver.Proofs.ClassFile.Rereading
import ClassWeaver.Proofs.ClassFile.Interning
import ClassWeaver.Proofs.ClassFile.Accepted
import ClassWeaver.Proofs.ClassFile.Additions
import ClassWeaver.Proofs.ClassFile.Truncation
import ClassWeaver.Proofs.Code.Sessions
import ClassWeaver.Proofs.Code.Growth
import ClassWeaver.Proofs.ClassFile.Framing
import ClassWeaver.Proofs.Search.Contents
import ClassWeaver.Proofs.Search.Registration
import ClassWeaver.Proofs.Workspace.Effects
import ClassWeaver.Proofs.Workspace.SearchPath
import ClassWeaver.Proofs.Workspace.Registrations
import ClassWeaver.Proofs.Workspace.Lookup
import ClassWeaver.Proofs.Workspace.Searching
import ClassWeaver.Proofs.EditableClass
import ClassWeaver.Proofs.Workspace.Weaving
import ClassWeaver.Proofs.Transformer.Skipping
import ClassWeaver.Proofs.Workspace.Rewriting
import ClassWeaver.Proofs.Workspace.Chains
import ClassWeaver.Proofs.Lock.Contest
import ClassWeaver.Proofs.Lock.Calls
import ClassWeaver.Proofs.Lock.Counts
import ClassWeaver.Proofs.Lock.Turns
import ClassWeaver.Proofs.Lock.Wakeups
import ClassWeaver.Proofs.Redefinition.Pristine
import ClassWeaver.Proofs.Redefinition.Interleaving
import ClassWeaver.Proofs.Redefinition.Isolation
import ClassWeaver.Proofs.Redefinition.Batches
import ClassWeaver.Proofs.Redefinition.Submission
import ClassWeaver.Proofs.Redefinition.Enactment
import ClassWeaver.Proofs.Redefinition.Originals
import ClassWeaver.Proofs.Descriptor
import ClassWeaver.Proofs.Code.Stopping
import ClassWeaver.Proofs.Code.Substitution
import ClassWeaver.Proofs.Code.StackDepth
import ClassWeaver.Proofs.Transformer.Pairing
import ClassWeaver.Proofs.Transformer.Replacement
import ClassWeaver.Proofs.Transformer.Depths
import ClassWeaver.Proofs.Unmodified
import ClassWeaver.Proofs.Workspace.Restoring
import ClassWeaver.Proofs.ClassFile.ReadBack
import ClassWeaver.Proofs.ClassFile.Appending
import ClassWeaver.Proofs.Agent.Names
import ClassWeaver.Proofs.Workspace.Sharing
import ClassWeaver.Proofs.Code.Expansion
import ClassWeaver.Proofs.Code.Insertions
import ClassWeaver.Proofs.Code.Running
import ClassWeaver.Proofs.Transformer.Selecting
import ClassWeaver.Proofs.Transformer.Increments
import ClassWeaver.Proofs.Code.Flow
import ClassWeaver.Proofs.Transformer.Wrapping
import ClassWeaver.Proofs.Descriptor.Grammar
import ClassWeaver.Proofs.Transformer.Constructions
import ClassWeaver.Proofs.Code.Canonical
import ClassWeaver.Proofs.Freezing
import ClassWeaver.Proofs.Workspace.Widening
import ClassWeaver.Proofs.Text.Groups
import ClassWeaver.Proofs.Code.StackBound
import ClassWeaver.Proofs.Transformer.StackRoom
import ClassWeaver.Proofs.Transformer.StackLimit
import ClassWeaver.Proofs.Agent.Readings
import ClassWeaver.Proofs.Agent.Loaders
import ClassWeaver.Proofs.Text.Fields
import ClassWeaver.Proofs.Options
import ClassWeaver.Proofs.Search.Containment
import ClassWeaver.Proofs.Vm.Setup
import ClassWeaver.Proofs.Agent.Loading
import ClassWeaver.Proofs.Code.CheckedArithmetic
