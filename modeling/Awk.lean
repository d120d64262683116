import Awk.Main
import Awk.Proofs.Compile.Prepared
import Awk.Proofs.Expr.Substituting
import Awk.Proofs.Machine.Calls
import Awk.Proofs.Machine.NoExec
import Awk.Proofs.Machine.Writing
import Awk.Proofs.Program.Document
import Awk.Proofs.Record.Conservation
import Awk.Proofs.Record.Decoding
import Awk.Proofs.Record.Splitting
import Awk.Proofs.Resolution.Tables
import Awk.Proofs.Script.Display
import Awk.Proofs.Stmt.Blocks
import Awk.Proofs.Text.Positions
import Awk.Proofs.Token.Tiling
import Awk.Proofs.Value.Order
