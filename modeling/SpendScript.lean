import SpendScript.Bytes.Basic
import SpendScript.Bytes.Hex
import SpendScript.Command.Directory
import SpendScript.Command.Error
import SpendScript.Command.Execute
import SpendScript.Command.Exit
import SpendScript.Command.Grammar
import SpendScript.Command.Help
import SpendScript.Command.Input
import SpendScript.Command.Invocation
import SpendScript.Crypto.Block
import SpendScript.Crypto.Curve
import SpendScript.Crypto.Der
import SpendScript.Crypto.Ecdsa
import SpendScript.Crypto.Multisig
import SpendScript.Crypto.Primitives
import SpendScript.Crypto.PublicKey
import SpendScript.Crypto.Ripemd160
import SpendScript.Crypto.ScriptSignature
import SpendScript.Crypto.SecretKey
import SpendScript.Crypto.Sha1
import SpendScript.Crypto.Sha256
import SpendScript.Crypto.SigHash
import SpendScript.Fault
import SpendScript.Http.MediaType
import SpendScript.Http.Service
import SpendScript.Http.Target
import SpendScript.Instruction
import SpendScript.Json.Lexeme
import SpendScript.Json.Magnitude
import SpendScript.Json.Record
import SpendScript.Json.Skip
import SpendScript.Json.Value
import SpendScript.Listing
import SpendScript.Machine.Operand
import SpendScript.Machine.Run
import SpendScript.Machine.State
import SpendScript.Machine.Step
import SpendScript.Main
import SpendScript.Number
import SpendScript.Opcode.Basic
import SpendScript.Opcode.Name
import SpendScript.Report.Data
import SpendScript.Report.Text
import SpendScript.Source.Assembly
import SpendScript.Source.Compiler
import SpendScript.Source.Token
import SpendScript.Spend
import SpendScript.Stack
import SpendScript.Text.Quoted
import SpendScript.Text.Words
import SpendScript.Proofs.Bytes.Width
import SpendScript.Proofs.Bytes.Digits
import SpendScript.Proofs.Instruction.Reading
import SpendScript.Proofs.Multisig.Assignment
import SpendScript.Proofs.Instruction.Program
import SpendScript.Proofs.Number.Width
import SpendScript.Proofs.Number.SignMagnitude
import SpendScript.Proofs.Number.Codec
import SpendScript.Proofs.Stack.Tame
import SpendScript.Proofs.Machine.Obey
import SpendScript.Proofs.Machine.Change
import SpendScript.Proofs.Machine.Move
import SpendScript.Proofs.Machine.Calls
import SpendScript.Proofs.Machine.Limits
import SpendScript.Proofs.Machine.WellFormed
import SpendScript.Proofs.Machine.Follow
import SpendScript.Proofs.Machine.PassOver
import SpendScript.Proofs.Machine.Mirror
import SpendScript.Proofs.Machine.Branches
import SpendScript.Proofs.Machine.Driving
import SpendScript.Proofs.Source.Comment
import SpendScript.Proofs.Instruction.Boundary
import SpendScript.Proofs.Source.Code
import SpendScript.Proofs.Spend.Boundary
import SpendScript.Proofs.Bytes.Hex
import SpendScript.Proofs.Listing.Lines
import SpendScript.Proofs.Listing.Agreement
import SpendScript.Proofs.Instruction.Canonical
import SpendScript.Proofs.Listing.Reassembly
import SpendScript.Proofs.Machine.CheckMultisig
import SpendScript.Proofs.Spend.Verdict
import SpendScript.Proofs.Spend.EntryPoints
import SpendScript.Proofs.Text.Runs
import SpendScript.Proofs.Source.Words
import SpendScript.Proofs.Bytes.HexCase
import SpendScript.Proofs.Source.Grammar
import SpendScript.Proofs.Source.Offender
import SpendScript.Proofs.Stack.Hereditary
import SpendScript.Proofs.Machine.Faults
import SpendScript.Proofs.Spend.Joined
import SpendScript.Proofs.Stack.Operands
import SpendScript.Proofs.Machine.Straight
import SpendScript.Proofs.Machine.Pushes
import SpendScript.Proofs.Spend.Straight
import SpendScript.Proofs.Source.Spaced
import SpendScript.Proofs.Spend.KeyHash
import SpendScript.Proofs.Spend.Multisig
import SpendScript.Proofs.Machine.Flip
import SpendScript.Proofs.Machine.Extension
import SpendScript.Proofs.Stack.Capacity
import SpendScript.Proofs.Machine.Capacity
import SpendScript.Proofs.Machine.Frame
import SpendScript.Proofs.Machine.Rearrangement
import SpendScript.Proofs.Number.Words
import SpendScript.Proofs.Machine.Arithmetic
import SpendScript.Proofs.Machine.ReadBack
import SpendScript.Proofs.Crypto.Modular
import SpendScript.Proofs.Crypto.Primes
import SpendScript.Proofs.Crypto.Ecdsa
import SpendScript.Proofs.Crypto.Der
import SpendScript.Proofs.Crypto.PublicKey
import SpendScript.Proofs.Crypto.Signing
import SpendScript.Proofs.Command.Signing
import SpendScript.Proofs.Machine.Counting
import SpendScript.Proofs.Listing.Lossless
import SpendScript.Proofs.Stack.Refinement
import SpendScript.Proofs.Number.Truth
import SpendScript.Proofs.Machine.Truth
import SpendScript.Proofs.Machine.Expansion
import SpendScript.Proofs.Machine.Digest
import SpendScript.Proofs.Machine.Repetition
import SpendScript.Proofs.Source.Stripping
import SpendScript.Proofs.Spend.Stripping
import SpendScript.Proofs.Stack.Rotation
import SpendScript.Proofs.Crypto.LowForm
import SpendScript.Proofs.Bytes.HexBlame
import SpendScript.Proofs.Command.Digest
import SpendScript.Proofs.Source.Size
import SpendScript.Proofs.Spend.Size
import SpendScript.Proofs.Report.Table
