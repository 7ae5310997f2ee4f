import Lox.Main
import Lox.Proofs.Braces.Runs
import Lox.Proofs.Parse.Containment
import Lox.Proofs.Parse.Unfinished
import Lox.Proofs.Renaming.Locals
import Lox.Proofs.Resolution.Lexical
import Lox.Proofs.Scan.Tiling
import Lox.Proofs.Session.Accesses
import Lox.Proofs.Session.Calls
import Lox.Proofs.Session.ForLoops
import Lox.Proofs.Session.Forms
import Lox.Proofs.Session.Identities
import Lox.Proofs.Session.Pieces
import Lox.Proofs.Session.Termination
import Lox.Proofs.Store.Lookup
import Lox.Proofs.Parse.Progress
import Lox.Proofs.Session.Returns
import Lox.Proofs.Evaluation.Globals
import Lox.Proofs.Session.Globals
import Lox.Proofs.Scan.Lines
import Lox.Proofs.Scan.Rescan
import Lox.Proofs.Parse.Order
import Lox.Proofs.Session.Lines
import Lox.Proofs.Parse.Kinds
import Lox.Proofs.Number.Texts
import Lox.Proofs.Printed.Faithful
import Lox.Proofs.Session.Prompt
import Lox.Proofs.Number.Rounding
