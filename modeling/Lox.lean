import Lox.Main
import Lox.Proofs.Execution.ScopeRestoration
import Lox.Proofs.Execution.JoinedSources
import Lox.Proofs.Scoping.Chain
import Lox.Proofs.Scoping.WriteVisibility
import Lox.Proofs.Scoping.NameStability
import Lox.Proofs.Execution.ReturnCheck
import Lox.Proofs.Execution.Agreement
import Lox.Proofs.Execution.Locality
import Lox.Proofs.Execution.Parentheses
import Lox.Proofs.Execution.DirectLoop
import Lox.Proofs.Execution.GlobalScope
import Lox.Proofs.Scoping.ScopeTree
import Lox.Proofs.Execution.EchoedLine
import Lox.Proofs.Syntax.ErrorOrder
import Lox.Proofs.Syntax.DeletedSemicolon
import Lox.Proofs.Syntax.MissingEnd
import Lox.Proofs.Syntax.ErrorPlaces
import Lox.Proofs.Syntax.Positions
import Lox.Proofs.Syntax.JoinedPrograms
import Lox.Proofs.Syntax.Layout
import Lox.Proofs.Lexical.Repair
import Lox.Proofs.Syntax.PrecedenceClimbing
import Lox.Proofs.Execution.ReturnUnwinding
import Lox.Proofs.Execution.WrittenValues
import Lox.Proofs.Execution.PipedLines
import Lox.Proofs.Execution.CallFrames
import Lox.Proofs.Execution.FunctionIdentity
