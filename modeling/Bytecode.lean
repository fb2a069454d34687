import Bytecode.Assembler
import Bytecode.Host.Script
import Bytecode.Proofs.FrameOrder
import Bytecode.Proofs.StackForms
import Bytecode.Proofs.FixedPoint
import Bytecode.Proofs.TagMachine
import Bytecode.Proofs.TagSoundness
import Bytecode.Proofs.ConstructorCalls
import Bytecode.Proofs.NewSites
import Bytecode.Proofs.MarkedFrames
import Bytecode.Proofs.SlotRanges
import Bytecode.Proofs.SlotAccess
import Bytecode.Proofs.Substitution
import Bytecode.Proofs.VisitBound
import Bytecode.Proofs.PlacedLabels
import Bytecode.Proofs.VerifiedCode
import Bytecode.Proofs.RangeBounds
import Bytecode.Proofs.VariableRanges
import Bytecode.Proofs.WellFormedCode
import Bytecode.Proofs.InstructionOrigins
import Bytecode.Proofs.DescriptorText
import Bytecode.Proofs.StatementOrder
import Bytecode.Proofs.Renaming
import Bytecode.Proofs.RenamedSlots
import Bytecode.Proofs.NameIndependence
import Bytecode.Proofs.ArgumentSlots
import Bytecode.Proofs.PoolDelivery
import Bytecode.Proofs.FrameShapes
import Bytecode.Proofs.StackBound
import Bytecode.Proofs.UncheckedCompilation
import Bytecode.Proofs.EmittedNames
import Bytecode.Proofs.LabelNumbers
import Bytecode.Proofs.TransferOrder
import Bytecode.Proofs.FrameMerges
import Bytecode.Proofs.StackWords
import Bytecode.Proofs.UnreachedCode
import Bytecode.Proofs.LiveRanges
import Bytecode.Proofs.FirstFit
import Bytecode.Proofs.VariableTable
import Bytecode.Proofs.TableHistory
