import Banked8085.Word
import Banked8085.Text.Hex
import Banked8085.Flags
import Banked8085.Registers
import Banked8085.Alu
import Banked8085.Memory.Basic
import Banked8085.Ports
import Banked8085.Instruction.Basic
import Banked8085.Instruction.Opcode
import Banked8085.Files
import Banked8085.Cpu.Basic
import Banked8085.Cpu.Execute
import Banked8085.Text.Basic
import Banked8085.Text.Quoted
import Banked8085.Text.Numeral
import Banked8085.Assembler.Value
import Banked8085.Assembler.Line
import Banked8085.Assembler.Symbols
import Banked8085.Assembler.Mnemonic
import Banked8085.Assembler.Operand
import Banked8085.Assembler.Error
import Banked8085.Assembler.Layout
import Banked8085.Assembler.Image
import Banked8085.Assembler.Assembly
import Banked8085.Monitor.Console
import Banked8085.Monitor.Settings
import Banked8085.Monitor.Machine
import Banked8085.Command
import Banked8085.Main
import Banked8085.Proofs.Results
import Banked8085.Proofs.Alu.Chain
import Banked8085.Proofs.Alu.Decimal
import Banked8085.Proofs.Text.Utf8
import Banked8085.Proofs.Assembler.Build
import Banked8085.Proofs.Assembler.Size
import Banked8085.Proofs.Assembler.FirstPass
import Banked8085.Proofs.Assembler.Label
import Banked8085.Proofs.Assembler.SecondPass
import Banked8085.Proofs.Assembler.Passes
import Banked8085.Proofs.Execution.Fetch
import Banked8085.Proofs.Execution.Operand
import Banked8085.Proofs.Execution.Flow
import Banked8085.Proofs.Execution.Change
import Banked8085.Proofs.Execution.Operation
import Banked8085.Proofs.Execution.Halting
import Banked8085.Proofs.Execution.Images
import Banked8085.Proofs.Execution.Halted
import Banked8085.Proofs.Monitor.Slices
import Banked8085.Proofs.Monitor.Reachable
import Banked8085.Proofs.Monitor.Operations
import Banked8085.Proofs.Monitor.Reset
import Banked8085.Proofs.Monitor.Loading
import Banked8085.Proofs.Monitor.Conservation
import Banked8085.Proofs.Monitor.Halted
import Banked8085.Proofs.Monitor.Echo
import Banked8085.Proofs.Assembler.Chunks
import Banked8085.Proofs.Assembler.AddressSpace
import Banked8085.Proofs.Execution.Stores
import Banked8085.Proofs.Execution.Words
import Banked8085.Proofs.Execution.Stack
import Banked8085.Proofs.Memory.LastWrite
import Banked8085.Proofs.Execution.PortUse
import Banked8085.Proofs.Execution.PortCalls
import Banked8085.Proofs.Execution.PortTrace
import Banked8085.Proofs.Execution.Isolation
import Banked8085.Proofs.Assembler.Spelling
import Banked8085.Proofs.Text.Respelling
import Banked8085.Proofs.Text.Digits
import Banked8085.Proofs.Text.Trim
import Banked8085.Proofs.Text.Quotation
import Banked8085.Proofs.Assembler.LetterCase
import Banked8085.Proofs.Assembler.Strings
import Banked8085.Proofs.Assembler.Respelled
import Banked8085.Proofs.Assembler.ErrorLine
import Banked8085.Proofs.Command.Assembling
import Banked8085.Proofs.Assembler.DataLine
import Banked8085.Proofs.Assembler.ValueText
import Banked8085.Proofs.Alu.Shift
import Banked8085.Proofs.Assembler.Distance
import Banked8085.Proofs.Execution.FlagUse
import Banked8085.Proofs.Execution.Conditional
import Banked8085.Proofs.Assembler.Comments
import Banked8085.Proofs.Assembler.OperandField
import Banked8085.Proofs.Assembler.Padding
import Banked8085.Proofs.Monitor.Keystrokes
import Banked8085.Proofs.Assembler.Definitions
import Banked8085.Proofs.Assembler.SymbolNames
import Banked8085.Proofs.Monitor.CommandLine
import Banked8085.Proofs.Text.Columns
import Banked8085.Proofs.Memory.Dump
import Banked8085.Proofs.Monitor.Snapshot
import Banked8085.Proofs.Monitor.AddressText
