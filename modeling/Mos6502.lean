import Mos6502.CommandLine.Directory
import Mos6502.Console
import Mos6502.Main
import Mos6502.Proofs.AcceptedModes
import Mos6502.Proofs.AssemblyText
import Mos6502.Proofs.Boot
import Mos6502.Proofs.Budget
import Mos6502.Proofs.Comparison
import Mos6502.Proofs.Cost
import Mos6502.Proofs.InertFlags
import Mos6502.Proofs.LastWrite
import Mos6502.Proofs.LongShift
import Mos6502.Proofs.LongSum
import Mos6502.Proofs.MemoryListing
import Mos6502.Proofs.Multibyte
import Mos6502.Proofs.NumeralGrammar
import Mos6502.Proofs.Pieces
import Mos6502.Proofs.PrintedOperand
import Mos6502.Proofs.ReadFrame
import Mos6502.Proofs.RegisterLine
import Mos6502.Proofs.SettingsText
import Mos6502.Proofs.Slice
import Mos6502.Proofs.StackDiscipline
import Mos6502.Proofs.StackReturn
import Mos6502.Proofs.StatusInvariant
import Mos6502.Proofs.Stop
import Mos6502.Proofs.StraightLine
import Mos6502.Proofs.Successor
import Mos6502.Proofs.Tracing
import Mos6502.Proofs.Trap
