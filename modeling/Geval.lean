import Geval.Core.Expression
import Geval.Result
import Geval.Lexer.Read
import Geval.Lexer.Delimited
import Geval.Lexer.Accessor
import Geval.Lexer.Rounding
import Geval.Syntax.Accepted
import Geval.Syntax.Optimize
import Geval.Planner.Safety
import Geval.Planner.Arguments
import Geval.Planner.Steps
import Geval.Reorder.Mirror
import Geval.Reorder.Chain
import Geval.Evaluate.Ternary
import Geval.Evaluate.Clause
import Geval.Reorder.Shape
import Geval.Evaluate.Checks
import Geval.Evaluate.Fold
import Geval.Planner.Unary
import Geval.Evaluate.Compiled
import Geval.Lexer.Lexed
import Geval.Evaluate.Pipeline
import Geval.Planner.Descent
import Geval.Reorder.Reference
import Geval.Lexer.Spelling
import Geval.Evaluate.Frontend
import Geval.Evaluate.Meaning
import Geval.Evaluate.Footprint
import Geval.Evaluate.Precompile
import Geval.Evaluate.Chains
import Geval.Evaluate.Parentheses
import Geval.Evaluate.Calls
import Geval.Syntax.Checkable
