import JvmThrows.Assembly.Class
import JvmThrows.LogFilter
import JvmThrows.Main
import JvmThrows.Proofs.ArgumentSlots
import JvmThrows.Proofs.ArgumentTexts
import JvmThrows.Proofs.ArrayNesting
import JvmThrows.Proofs.AssembledClasses
import JvmThrows.Proofs.BreadthFirst
import JvmThrows.Proofs.Callables
import JvmThrows.Proofs.Declarations
import JvmThrows.Proofs.Descriptors
import JvmThrows.Proofs.DialectAgreement
import JvmThrows.Proofs.Discoveries
import JvmThrows.Proofs.ErasedNames
import JvmThrows.Proofs.FileEnds
import JvmThrows.Proofs.FirstDefinitions
import JvmThrows.Proofs.LargerClasspaths
import JvmThrows.Proofs.LargerGraphs
import JvmThrows.Proofs.Lookups
import JvmThrows.Proofs.MergedDocuments
import JvmThrows.Proofs.MethodIds
import JvmThrows.Proofs.ModifiedUtf8
import JvmThrows.Proofs.PoolIndices
import JvmThrows.Proofs.QuestionOrder
import JvmThrows.Proofs.Releases
import JvmThrows.Proofs.SecondSession
import JvmThrows.Proofs.Selections
import JvmThrows.Proofs.SinglePasses
import JvmThrows.Proofs.Spellings
import JvmThrows.Proofs.SuperclassChains
import JvmThrows.Proofs.WideLoads
