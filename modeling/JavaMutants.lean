import JavaMutants.Main
import JavaMutants.Proofs.Mutant.Splice
import JavaMutants.Proofs.Fragment.Condition
import JavaMutants.Proofs.Mutant.Distinct
import JavaMutants.Proofs.Mutant.Stability
import JavaMutants.Proofs.Run.Determinism
import JavaMutants.Proofs.Fragment.Located
import JavaMutants.Proofs.FileSystem.Changes
import JavaMutants.Proofs.Fragment.Body
import JavaMutants.Proofs.Fragment.Call
import JavaMutants.Proofs.Mutant.Frame
import JavaMutants.Proofs.Mutant.Duplicate
import JavaMutants.Proofs.Output.Clash
import JavaMutants.Proofs.Candidate.Sieve
import JavaMutants.Proofs.Program.Generate
import JavaMutants.Proofs.Candidate.Site
import JavaMutants.Proofs.Operator.Return
import JavaMutants.Proofs.Operator.Constructor
import JavaMutants.Proofs.Report
import JavaMutants.Proofs.Mutant.Collision
import JavaMutants.Proofs.Fragment.Type
import JavaMutants.Proofs.Operator.Method
import JavaMutants.Proofs.SourceRoot.Discovery
import JavaMutants.Proofs.Output.Below
import JavaMutants.Proofs.Syntax.Identifier
import JavaMutants.Proofs.Fragment.Annotated
import JavaMutants.Proofs.Config.Marker
import JavaMutants.Proofs.Duration
import JavaMutants.Proofs.Syntax.Fault
