import MacroAsm.Main
import MacroAsm.Proofs.Lowering.Outcome
import MacroAsm.Proofs.Lowering.Capture
import MacroAsm.Proofs.Machine.Simulation
import MacroAsm.Proofs.Lowering.Order
import MacroAsm.Proofs.Machine.Multiplication
import MacroAsm.Proofs.Command.Jobs
import MacroAsm.Proofs.Command.Outputs
import MacroAsm.Proofs.Lowering.Opacity
import MacroAsm.Proofs.Machine.BitTest
import MacroAsm.Proofs.Lowering.Segments
import MacroAsm.Proofs.Listing.Places
import MacroAsm.Proofs.Lowering.Requests
import MacroAsm.Proofs.Session
import MacroAsm.Proofs.Settings.Saved
import MacroAsm.Proofs.Opcode.Spelling
import MacroAsm.Proofs.Listing.Splitting
import MacroAsm.Proofs.Listing.Literals
