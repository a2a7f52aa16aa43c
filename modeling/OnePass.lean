import OnePass.Arm64.Machine
import OnePass.Expr.Eval
import OnePass.Expr.Grammar
import OnePass.Main
import OnePass.Proofs.Arm64.Disassembly
import OnePass.Proofs.Arm64.Discipline
import OnePass.Proofs.Compiler.Portability
import OnePass.Proofs.X86.Disassembly
import OnePass.Proofs.Compiler.Capacity
import OnePass.Proofs.Compiler.Blame
import OnePass.Proofs.Artifact.Layout
import OnePass.Proofs.Buffer.Akin
import OnePass.Proofs.X86.Relocation
import OnePass.Proofs.Compiler.Symbols
import OnePass.Proofs.Function.Artifact
import OnePass.Proofs.Token.Lexing
import OnePass.Proofs.Artifact.Exchange
import OnePass.Proofs.Descent.Depth
import OnePass.Proofs.Artifact.Dump
import OnePass.Proofs.Descent.Parentheses
import OnePass.Proofs.Buffer.Uses
import OnePass.Proofs.Function.Lifecycle
import OnePass.Proofs.X86.Operators
import OnePass.Proofs.Arm64.Operators
import OnePass.Proofs.Artifact.Tracing
import OnePass.Proofs.Compiler.Fixups
import OnePass.Proofs.Token.Strings
import OnePass.Proofs.Token.Numbers
import OnePass.Proofs.Token.Lines
import OnePass.Proofs.Session.Lines
import OnePass.Proofs.Text.Distance
import OnePass.Proofs.Text.Nearest
import OnePass.Proofs.Artifact.Listing
import OnePass.Proofs.Settings.Validity
import OnePass.Proofs.OperandStack.History
import OnePass.Proofs.Buffer.Patching
