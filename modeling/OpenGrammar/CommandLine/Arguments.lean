import OpenGrammar.Text.Basic

/-! The arguments of the command line: flags of the program, the name of a task, and the
flags and operands of the task. -/
namespace OpenGrammar

inductive Command
  /-- Compose one grammar and write it. -/
  | compose (grammar root out : Text)
  /-- Compose all grammars below a root and write them. -/
  | build (root buildDir : Text)
  /-- Show a composed grammar or its dispatch module. -/
  | print (grammar root : Text) (showModule : Bool)
  deriving DecidableEq, Repr

structure Invocation where
  command : Command
  config : Option Text
  verbosity : Nat
  deriving DecidableEq, Repr

inductive Stop
  | help | version
  /-- The arguments are not understood. -/
  | usage
  deriving DecidableEq, Repr

inductive Flag
  | config | verbose | help | version | root | out | buildDir | module
  deriving DecidableEq, Repr

namespace Flag

def long : Flag → Text
  | .config => "config".toList
  | .verbose => "verbose".toList
  | .help => "help".toList
  | .version => "version".toList
  | .root => "root".toList
  | .out => "out".toList
  | .buildDir => "build-dir".toList
  | .module => "module".toList

def short : Flag → Char
  | .config => 'c'
  | .verbose => 'v'
  | .help => 'h'
  | .version => 'V'
  | .root => 'r'
  | .out => 'o'
  | .buildDir => 'b'
  | .module => 'm'

def takesValue : Flag → Bool
  | .config | .root | .out | .buildDir => true
  | .verbose | .help | .version | .module => false

end Flag

inductive Task
  | compose | build | print
  deriving DecidableEq, Repr

namespace Task

def ofName? (name : Text) : Option Task :=
  if name = "compose".toList then some .compose
  else if name = "build".toList then some .build
  else if name = "print".toList then some .print
  else none

def flags : Task → List Flag
  | .compose => [.root, .out]
  | .build => [.root, .buildDir]
  | .print => [.root, .module]

def operandCount : Task → Nat
  | .compose | .print => 1
  | .build => 0

end Task

structure Given where
  values : List (Flag × Text) := []
  marks : List Flag := []
  operands : List Text := []

namespace Given

def value? (given : Given) (flag : Flag) : Option Text := given.values.lookup flag

/-- A value is not empty and is given once. -/
def put (given : Given) (flag : Flag) (value : Text) : Except Stop Given :=
  if value = [] ∨ (given.value? flag).isSome then .error .usage
  else .ok { given with values := (flag, value) :: given.values }

/-- Only the verbosity may be repeated; the requests for help and version are met at
once. -/
def mark (given : Given) : Flag → Except Stop Given
  | .help => .error .help
  | .version => .error .version
  | flag =>
    if flag ≠ .verbose ∧ flag ∈ given.marks then .error .usage
    else .ok { given with marks := flag :: given.marks }

def operand (room : Nat) (given : Given) (text : Text) : Except Stop Given :=
  if text = [] ∨ room ≤ given.operands.length then .error .usage
  else .ok { given with operands := given.operands ++ [text] }

/-- Reads a flag behind two dashes. A flag whose value is still to come is returned. -/
def readLong (accepted : List Flag) (given : Given) (text : Text) :
    Except Stop (Given × Option Flag) := do
  let (name, attached) := match Text.cut? ['='] text with
    | some (name, value) => (name, some value)
    | none => (text, none)
  match accepted.find? (·.long == name), attached with
  | none, _ => .error .usage
  | some flag, some value =>
    if flag.takesValue then return (← given.put flag value, none) else .error .usage
  | some flag, none =>
    if flag.takesValue then return (given, some flag) else return (← given.mark flag, none)

/-- Reads the flags behind one dash. What follows the letter of a flag with a value is
that value. -/
def readShort (accepted : List Flag) : Given → Text → Except Stop (Given × Option Flag)
  | given, [] => .ok (given, none)
  | given, c :: cs =>
    match accepted.find? (·.short == c) with
    | none => .error .usage
    | some flag =>
      if flag.takesValue then
        match cs with
        | [] => .ok (given, some flag)
        | '=' :: value | value => do return (← given.put flag value, none)
      else do readShort accepted (← given.mark flag) cs

/-- Reads arguments. Without room for operands at all, the first of them ends the reading
and is left over; behind two dashes all are operands. -/
def read (accepted : List Flag) (room : Option Nat) :
    Option Flag → Given → List Text → Except Stop (Given × List Text)
  | none, given, [] => .ok (given, [])
  | some _, _, [] => .error .usage
  | some flag, given, arg :: args =>
    match arg with
    | '-' :: _ :: _ => .error .usage
    | value => do read accepted room none (← given.put flag value) args
  | none, given, arg :: args =>
    match arg with
    | ['-', '-'] =>
      match room with
      | none => .error .usage
      | some n => do return (← args.foldlM (operand n) given, [])
    | '-' :: '-' :: text => do
      let (given, pending) ← readLong accepted given text
      read accepted room pending given args
    | '-' :: c :: cs => do
      let (given, pending) ← readShort accepted given (c :: cs)
      read accepted room pending given args
    | text =>
      match room with
      | none => .ok (given, text :: args)
      | some n => do read accepted room none (← given.operand n text) args

def command? (given : Given) : Task → Option Command
  | .compose => do
    return .compose (← given.operands.head?) (← given.value? .root) (← given.value? .out)
  | .build => do return .build (← given.value? .root) (← given.value? .buildDir)
  | .print => do
    return .print (← given.operands.head?) (← given.value? .root) (.module ∈ given.marks)

def verbosity (given : Given) : Nat := given.marks.count .verbose

end Given

namespace Invocation

/-- A request for help names at most one task. -/
def helpStop (args : List Text) : Stop :=
  match args with
  | [] => .help
  | [name] => if (Task.ofName? name).isSome || name == "help".toList then .help else .usage
  | _ => .usage

/-- Reads a command line. Settings given with the task win over those in front of it. -/
def parse (args : List Text) : Except Stop Invocation := do
  let (top, rest) ← Given.read [.config, .verbose, .help, .version] none none {} args
  match rest with
  | [] => .error .usage
  | name :: args =>
    match Task.ofName? name with
    | none => .error (if name = "help".toList then helpStop args else .usage)
    | some task =>
      let accepted := [.config, .verbose, .help] ++ task.flags
      let (given, _) ← Given.read accepted (some task.operandCount) none {} args
      match given.command? task with
      | none => .error .usage
      | some command =>
        return {
          command
          config := given.value? .config <|> top.value? .config
          verbosity := max top.verbosity given.verbosity }

end Invocation
end OpenGrammar
