import LineBasic.LineNumber
import LineBasic.Value

/-!
# Errors of a running program

Why a statement cannot be executed. An error names its cause; the wording is in the `message`
functions. Faults of the channels that a program reads from and writes to are a type of their own,
since files and listings have them too.
-/

namespace LineBasic

/-- Why a channel cannot be read or written. -/
inductive ChannelFault where
  /-- The sink takes no further byte. -/
  | full
  /-- The sink does not flush. -/
  | flush
  /-- What was read is not UTF-8. -/
  | encoding
  /-- The operating system refuses, with its description and its code. -/
  | system (description : String) (code : Nat)
  deriving DecidableEq, Repr

/-- The wording of a channel's fault. -/
def ChannelFault.message : ChannelFault → String
  | .full => "sink full"
  | .flush => "flush failed"
  | .encoding => "stream did not contain valid UTF-8"
  | .system description code => description ++ " (os error " ++ toString code ++ ")"

/-- Why a run stops before its end. -/
inductive RuntimeError where
  /-- A variable would have to hold a value of the other kind. -/
  | variableKind (name : String) (expected : Kind)
  /-- An operator or a sign whose operands have to be numbers. -/
  | operandKind (symbol : String)
  /-- Values of different kinds are neither equal nor different. -/
  | comparisonKinds
  | conditionKind
  | divisionByZero
  | undefinedLine (target : LineNumber)
  | inputFormat (line : String)
  | endOfInput
  | stepLimit (limit : Nat)
  | channel (fault : ChannelFault)
  deriving DecidableEq, Repr

/-- The wording of an error. -/
def RuntimeError.message : RuntimeError → String
  | .variableKind name expected =>
    "type mismatch: " ++ name ++ " is a " ++ expected.word ++ " variable"
  | .operandKind symbol => symbol ++ " requires numeric operands"
  | .comparisonKinds => "type mismatch in comparison"
  | .conditionKind => "IF condition must be numeric"
  | .divisionByZero => "division by zero"
  | .undefinedLine target => "undefined line " ++ toString target
  | .inputFormat line => "INPUT expects a number, got \"" ++ line ++ "\""
  | .endOfInput => "end of input while reading INPUT"
  | .stepLimit limit => "step limit of " ++ toString limit ++ " exceeded (possible infinite loop)"
  | .channel fault => "io error: " ++ fault.message

end LineBasic
