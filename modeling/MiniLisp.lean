import MiniLisp.Main
import MiniLisp.Workbench
import MiniLisp.Proofs.Node.RoundTrip
import MiniLisp.Proofs.Eval.Soundness
import MiniLisp.Proofs.Eval.Coincidence
import MiniLisp.Proofs.Session.Atomicity
import MiniLisp.Proofs.Session.Soundness
import MiniLisp.Proofs.Token.Layout
import MiniLisp.Proofs.Node.Phrase
import MiniLisp.Proofs.Session.Bindings
import MiniLisp.Proofs.Eval.Inner
import MiniLisp.Proofs.Session.Numbers
import MiniLisp.Proofs.Eval.Renaming
import MiniLisp.Proofs.Session.DeadDefinition
import MiniLisp.Proofs.Session.Pieces
import MiniLisp.Proofs.Command.Debug
import MiniLisp.Proofs.Eval.Locality
import MiniLisp.Proofs.Session.Effects
import MiniLisp.Proofs.Session.Locality
import MiniLisp.Proofs.Session.Depth
import MiniLisp.Proofs.Token.Faults
import MiniLisp.Proofs.Session.Failures
import MiniLisp.Proofs.Command.NormalForm
import MiniLisp.Proofs.Command.Run
import MiniLisp.Proofs.Token.Location
import MiniLisp.Proofs.Node.FirstFault
import MiniLisp.Proofs.Eval.NestedBindings
import MiniLisp.Proofs.Session.Grouping
import MiniLisp.Proofs.Node.DefinitionCalls
import MiniLisp.Proofs.Session.DefinitionCalls
import MiniLisp.Proofs.Token.Alike
import MiniLisp.Proofs.Node.Alike
import MiniLisp.Proofs.Node.Boundary
import MiniLisp.Proofs.Workbench.Log
import MiniLisp.Proofs.Workbench.Refinement
import MiniLisp.Proofs.Workbench.Scopes
import MiniLisp.Proofs.Token.Operations
import MiniLisp.Proofs.Session.Blocks
import MiniLisp.Proofs.Eval.Termination
import MiniLisp.Proofs.Node.Lines
import MiniLisp.Proofs.Eval.Wrapping
import MiniLisp.Proofs.Console.Lines
import MiniLisp.Proofs.Value.Printing
import MiniLisp.Proofs.Eval.StaticScoping
