import BlockScript.Main
import BlockScript.Proofs.Arithmetic
import BlockScript.Proofs.Configuration
import BlockScript.Proofs.ErrorLine
import BlockScript.Proofs.FailedMethods
import BlockScript.Proofs.Lowering
import BlockScript.Proofs.Names.Update
import BlockScript.Proofs.Order.Keys
import BlockScript.Proofs.Order.Sorting
import BlockScript.Proofs.Parameters
import BlockScript.Proofs.Printable
import BlockScript.Proofs.Quoting
import BlockScript.Proofs.ScopeGuards
import BlockScript.Proofs.Slicing
import BlockScript.Proofs.Speculation
import BlockScript.Proofs.Visibility
