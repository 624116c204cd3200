import PatternAutomata.Compiled
import PatternAutomata.Machine.Path
import PatternAutomata.Pattern.Language
import PatternAutomata.Pattern.Reader.Faithful
import PatternAutomata.Store.Command
import PatternAutomata.Proofs.Paths.Composition
import PatternAutomata.Proofs.Paths.Passages
import PatternAutomata.Proofs.Pattern.Passages
import PatternAutomata.Proofs.Pattern.Numbering
import PatternAutomata.Proofs.Pattern.Wiring
import PatternAutomata.Proofs.Machine.Acceptance
import PatternAutomata.Proofs.Store.Keeping
import PatternAutomata.Proofs.Store.Loops
import PatternAutomata.Proofs.Store.Holding
import PatternAutomata.Proofs.Store.Forms
import PatternAutomata.Proofs.Store.Building
import PatternAutomata.Proofs.Store.Compiling
import PatternAutomata.Proofs.Recognition
import PatternAutomata.Proofs.Pattern.Derivation
import PatternAutomata.Proofs.Pattern.Unambiguity
import PatternAutomata.Store.Descent
import PatternAutomata.Pattern.Scan
import PatternAutomata.Proofs.Pattern.Shape
import PatternAutomata.Proofs.Pattern.Bounds
import PatternAutomata.Proofs.Pattern.Depth
import PatternAutomata.Proofs.Pattern.Foresight
import PatternAutomata.Proofs.Pattern.Nesting
import PatternAutomata.Proofs.Pattern.Refusal
import PatternAutomata.Proofs.Pattern.Labels
import PatternAutomata.Proofs.Store.Failing
import PatternAutomata.Proofs.Store.WellFormed
import PatternAutomata.Proofs.Store.Steadiness
import PatternAutomata.Proofs.Store.Taking
import PatternAutomata.Proofs.Store.Descent
import PatternAutomata.Proofs.Reading
import PatternAutomata.Proofs.Construction
import PatternAutomata.Proofs.Limits
import PatternAutomata.Proofs.Naming
import PatternAutomata.Proofs.Reuse
import PatternAutomata.Proofs.Calls
import PatternAutomata.Proofs.Pattern.Renaming
import PatternAutomata.Proofs.Onward
import PatternAutomata.Proofs.Pattern.Liveness
import PatternAutomata.Proofs.Liveness
import PatternAutomata.Proofs.Store.Asking
import PatternAutomata.Proofs.Store.Edits
import PatternAutomata.Proofs.Store.Editing
import PatternAutomata.Proofs.Store.Performing
import PatternAutomata.Proofs.Ownership
import PatternAutomata.Proofs.Growth
import PatternAutomata.Pattern.Role
import PatternAutomata.Proofs.Pattern.Roles
import PatternAutomata.Proofs.Alphabet
import PatternAutomata.Proofs.Pattern.Occurrences
import PatternAutomata.Proofs.Escaping
import PatternAutomata.Machine.Iteration
import PatternAutomata.Proofs.Machine.Iteration
import PatternAutomata.Proofs.Simulation
import PatternAutomata.Proofs.Closure
import PatternAutomata.Proofs.Operands
import PatternAutomata.Proofs.Repetition
import PatternAutomata.Proofs.Concatenation
import PatternAutomata.Proofs.Alternative
import PatternAutomata.Proofs.Store.Stopping
import PatternAutomata.Proofs.Atomicity
import PatternAutomata.Proofs.Remains
import PatternAutomata.Proofs.Agreement
import PatternAutomata.Proofs.Machine.Printout
import PatternAutomata.Proofs.Pattern.Openings
import PatternAutomata.Proofs.Printing
import PatternAutomata.Proofs.Machine.Lines
import PatternAutomata.Proofs.Legibility
import PatternAutomata.Proofs.Pattern.Quoting
import PatternAutomata.Proofs.Quotation
import PatternAutomata.Proofs.Store.Looping
import PatternAutomata.Proofs.Store.Recursion
import PatternAutomata.Proofs.Cursor
