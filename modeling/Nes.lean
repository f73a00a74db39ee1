import Nes.Bus.Faults
import Nes.Bus.Flat
import Nes.Keyboard
import Nes.Main
import Nes.Proofs.Bare.Machine
import Nes.Proofs.Cartridge.Format
import Nes.Proofs.Controllers.Reports
import Nes.Proofs.Graphics.Pairs
import Nes.Proofs.Graphics.Views
import Nes.Proofs.Machine.Resets
import Nes.Proofs.Machine.Memory
import Nes.Proofs.Machine.Stops
import Nes.Proofs.Machine.VerticalBlank
import Nes.Proofs.Console.Flat
import Nes.Proofs.Console.Refusals
import Nes.Proofs.Cpu.Accesses
import Nes.Proofs.Cpu.Boundaries
import Nes.Proofs.Cpu.Effects
import Nes.Proofs.Cpu.Signs
import Nes.Proofs.Cpu.Subroutines
import Nes.Proofs.Cpu.Interrupts
import Nes.Proofs.Cpu.Operands
import Nes.Proofs.Cpu.Lines
import Nes.Proofs.Cli.Frames
import Nes.Proofs.Cpu.Combined
import Nes.Proofs.Cpu.Shifts
import Nes.Proofs.Cpu.Sums
