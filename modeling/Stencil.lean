import Stencil.Compile
import Stencil.Detect
import Stencil.Proofs.Grammar
import Stencil.Template.Printer
import Stencil.Proofs.Recognition
import Stencil.Proofs.Modes
import Stencil.Proofs.Anchoring
import Stencil.Proofs.Names
import Stencil.Proofs.Spelling
import Stencil.Proofs.Printing
import Stencil.Proofs.Steady
import Stencil.Proofs.Reprinting
import Stencil.Proofs.LongestCondition
import Stencil.Proofs.Gathering
import Stencil.Proofs.Joining
import Stencil.Proofs.PlainScanning
import Stencil.Proofs.Substitution
import Stencil.Proofs.Concatenation
import Stencil.Proofs.Dependence
import Stencil.Proofs.Chains
import Stencil.Proofs.NormalForm
import Stencil.Proofs.WrittenStrings
import Stencil.Proofs.Integers
import Stencil.Proofs.JsonSteps
import Stencil.Proofs.WrittenJson
import Stencil.Proofs.Documents
import Stencil.Proofs.Sources
import Stencil.Proofs.Detection
import Stencil.Proofs.Declaring
import Stencil.Proofs.Clauses
import Stencil.Proofs.Runs
import Stencil.Proofs.Unfinished
import Stencil.Proofs.Faults
import Stencil.Proofs.Resuming
import Stencil.Proofs.Nesting
import Stencil.Proofs.Stretches
import Stencil.Proofs.Discipline
import Stencil.Proofs.Noise
import Stencil.Proofs.Exchange
import Stencil.Proofs.OwnLines
import Stencil.Proofs.Reports
import Stencil.ByteScanner
import Stencil.Proofs.Attempts
import Stencil.Proofs.ByteScanning
import Stencil.Proofs.Descents
