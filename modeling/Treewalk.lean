import Treewalk.Session
import Treewalk.Interner.Pool
import Treewalk.Arena.Pool
import Treewalk.Proofs.NoFault
import Treewalk.Proofs.LexicalScope
import Treewalk.Proofs.Encoding
import Treewalk.Proofs.Region
import Treewalk.Proofs.Twins
import Treewalk.Proofs.Confinement
import Treewalk.Proofs.Ends
import Treewalk.Proofs.CallRules
import Treewalk.Proofs.Activity
import Treewalk.Proofs.ErrorTrail
import Treewalk.Proofs.BuiltTree
import Treewalk.Proofs.GrowingNames
import Treewalk.Proofs.Piecewise
import Treewalk.Proofs.NameNumbers
import Treewalk.Proofs.ErrorKinds
import Treewalk.Proofs.Course
import Treewalk.Proofs.PrintedText
import Treewalk.Proofs.Provenance
import Treewalk.Proofs.ClosureIdentity
import Treewalk.Proofs.ReadBack
import Treewalk.Proofs.UnmentionedName
import Treewalk.Proofs.TraceAccount
import Treewalk.Proofs.Hushed
import Treewalk.Proofs.PrintTransparency
import Treewalk.Proofs.Visibility
import Treewalk.Proofs.Assignment
import Treewalk.Proofs.ExactIntegers
import Treewalk.Proofs.StatementLists
import Treewalk.Proofs.LoopUnrolling
import Treewalk.Proofs.ParameterBinding
import Treewalk.Proofs.StraightCode
import Treewalk.Proofs.PrintedScalars
import Treewalk.Proofs.OverlappingCalls
import Treewalk.Proofs.ArenaStorage
import Treewalk.Proofs.HostedSessions
