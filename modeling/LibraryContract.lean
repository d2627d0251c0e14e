import LibraryContract.Main
import LibraryContract.SyntaxTree.Encode
import LibraryContract.Proofs.Isolation
import LibraryContract.Proofs.Run
import LibraryContract.Proofs.Change
import LibraryContract.Proofs.Growth
import LibraryContract.Proofs.Arena
import LibraryContract.Proofs.Traversal
import LibraryContract.Proofs.Lifecycle
import LibraryContract.Proofs.Variables
import LibraryContract.Proofs.ReturnValue
import LibraryContract.Proofs.Signature
import LibraryContract.Proofs.Ledger
import LibraryContract.Proofs.DispatchTarget
import LibraryContract.Proofs.Warnless
import LibraryContract.Proofs.Candid
import LibraryContract.Proofs.Faultless
import LibraryContract.Proofs.DeclaredTypes
import LibraryContract.Proofs.ClosedGraph
import LibraryContract.Proofs.Declarations
import LibraryContract.Proofs.Mirror
import LibraryContract.Proofs.Completion
import LibraryContract.Proofs.NothingLost
import LibraryContract.Proofs.Overload
import LibraryContract.Proofs.Place
import LibraryContract.Proofs.Pending
import LibraryContract.Proofs.Filling
import LibraryContract.Proofs.Origin
import LibraryContract.Proofs.Source
import LibraryContract.Proofs.OldValue
import LibraryContract.Proofs.Member
import LibraryContract.Proofs.Access
import LibraryContract.Proofs.ReservedName
import LibraryContract.Proofs.Accounting
import LibraryContract.Proofs.ForwardReference
import LibraryContract.Proofs.Step
import LibraryContract.Proofs.Transfer
import LibraryContract.Proofs.Renumbering
import LibraryContract.Proofs.WrittenType
import LibraryContract.Proofs.Interface
import LibraryContract.Proofs.SameSteps
import LibraryContract.Proofs.SameKeys
import LibraryContract.Proofs.SameDeclarations
import LibraryContract.Proofs.CleanRun
import LibraryContract.Proofs.SameHeads
import LibraryContract.Proofs.SignatureFace
import LibraryContract.Proofs.Tally
import LibraryContract.Proofs.SameSignatures
import LibraryContract.Proofs.SameBodies
import LibraryContract.Proofs.KnownTypes
import LibraryContract.Proofs.DeclarationOrder
import LibraryContract.Proofs.Nesting
import LibraryContract.Proofs.Callee
import LibraryContract.Proofs.Rehousing
import LibraryContract.Proofs.Provenance
import LibraryContract.Proofs.Qualification
import LibraryContract.Proofs.Requests
import LibraryContract.Proofs.LocalVariables
import LibraryContract.Proofs.Ownership
import LibraryContract.Proofs.Persistence
import LibraryContract.Proofs.Passage
import LibraryContract.Proofs.History
import LibraryContract.Proofs.AliasChain
import LibraryContract.Proofs.Layout
import LibraryContract.Proofs.Reading
import LibraryContract.Proofs.Spelling
import LibraryContract.Proofs.SpelledTree
import LibraryContract.Proofs.Repetition
import LibraryContract.Proofs.Document
import LibraryContract.Proofs.Operand
import LibraryContract.Proofs.FailedStep
import LibraryContract.Proofs.OperationStage
import LibraryContract.Proofs.TypesInTurn
import LibraryContract.Proofs.ShiftExpansion
import LibraryContract.Proofs.TypeName
import LibraryContract.Proofs.ConstructorCall
import LibraryContract.Proofs.AliasSearch
import LibraryContract.Proofs.AliasCycle
import LibraryContract.Proofs.Underline
import LibraryContract.Proofs.InForce
import LibraryContract.Proofs.Parentheses
import LibraryContract.Proofs.Parallel
import LibraryContract.Proofs.RejectedType
