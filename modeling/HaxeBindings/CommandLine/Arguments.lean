import HaxeBindings.Files.Path
import HaxeBindings.Options
import HaxeBindings.Text.Digit

/-!
# Arguments of the command

The command takes one dump and a few options.  A long option may be shortened as
long as one option only begins with it, and takes its value from behind an equals
sign or from the next argument.  Flags of one letter may be run together, with or
without an equals sign behind the first.  After a double dash everything is a
value.

Arguments are classified first, each on its own, and then consumed from left to
right.  What follows an option as its value must be a value by itself.  What
cannot be used (a second value, an unknown option) is left over, and is an error
once everything else has been consumed; a request for help comes before that.

A double dash behind an equals sign is no value either.  It leaves its option
without one, which shows only when the run needs it.

## What is a value

An argument that starts with a dash is a value all the same when it is the dash
alone, a negative number, or a text with a space in it that begins no option.  One
line break behind a negative number does not count.
-/

namespace HaxeBindings
namespace CommandLine

open Text

/-- Options without a value. -/
inductive Flag where
  | help
  | verbose
  deriving DecidableEq

/-- What an option name stands for. -/
inductive Choice where
  | flag (f : Flag)
  | setting (s : Setting)
  deriving DecidableEq

/-- The option names, dashes included. -/
def optionNames : List (Text × Choice) :=
  [("-h", .flag .help), ("--help", .flag .help), ("--out", .setting .out),
    ("--root-namespace", .setting .rootNamespace), ("--root-package", .setting .rootPackage),
    ("--extension", .setting .extension), ("-v", .flag .verbose),
    ("--verbose", .flag .verbose)].map fun e => (String.toList e.1, e.2)

/-- What is attached to an option within its argument. -/
inductive Attached where
  | nothing
  /-- The text behind an equals sign. -/
  | value (t : Text)
  /-- The letters behind the one of a short option, at least one. -/
  | letters (t : Text)
  deriving DecidableEq

/-- What one argument is. -/
inductive Argument where
  | value (t : Text)
  /-- The double dash; all later arguments are values. -/
  | mark
  | option (choice : Choice) (attached : Attached)
  | unknown
  deriving DecidableEq

/-- Whether an argument has two dashes in front. -/
def isLong : Text → Bool
  | '-' :: '-' :: _ => true
  | _ => false

/-- What an argument has attached by an equals sign.  Behind a short option that is a run of
letters, unless it is empty. -/
def attachedValue (arg : Text) : Attached :=
  if arg.contains '=' then
    let t := afterFirst '=' arg
    if isLong arg || t.isEmpty then .value t else .letters t
  else .nothing

/-- The options a shortened argument may mean, with what is attached to them. -/
def candidates (arg : Text) : List Argument :=
  if isLong arg then
    (optionNames.filter fun e => (before '=' arg).isPrefixOf e.1).map fun e =>
      .option e.2 (attachedValue arg)
  else
    optionNames.filterMap fun e =>
      if e.1 = arg.take 2 then some (.option e.2 (.letters (arg.drop 2)))
      else if arg.isPrefixOf e.1 then some (.option e.2 .nothing)
      else none

/-- Whether a text is a run of positional digits. -/
def isNumeral (t : Text) : Bool := t.all fun c => (decimalValue? c).isSome

/-- The text without the line break it ends with. -/
def dropLineBreak (t : Text) : Text := if t.getLast? = some '\n' then t.dropLast else t

/-- Whether an argument is a negative number, with or without a fraction. -/
def isNegativeNumber (arg : Text) : Bool :=
  match dropLineBreak arg with
  | '-' :: rest =>
    let whole := before '.' rest
    let fraction := afterFirst '.' rest
    if rest.contains '.' then isNumeral whole && !fraction.isEmpty && isNumeral fraction
    else !rest.isEmpty && isNumeral rest
  | _ => false

/-- Classifies an argument that starts with a dash and is no option name in full; `none` when it
may mean several options. -/
def classifyShortened (arg : Text) : Option Argument :=
  match candidates arg with
  | [a] => some a
  | _ :: _ :: _ => none
  | [] => some (if isNegativeNumber arg || arg.contains ' ' then .value arg else .unknown)

/-- The option whose name stands in full in front of the equals sign of an argument, or is the
whole argument. -/
def named? (arg : Text) : Option Argument :=
  match optionNames.lookup arg with
  | some choice => some (.option choice .nothing)
  | none =>
    (optionNames.lookup (before '=' arg)).map fun choice => .option choice (attachedValue arg)

/-- Classifies one argument; `none` when it may mean several options. -/
def classify (arg : Text) : Option Argument :=
  match arg with
  | '-' :: _ :: _ =>
    match named? arg with
    | some a => some a
    | none => classifyShortened arg
  | _ => some (.value arg)

/-- Classifies the arguments up to a double dash, and takes all others as values. -/
def classifyAll : List Text → Option (List Argument)
  | [] => some []
  | arg :: rest =>
    if arg = ['-', '-'] then some (.mark :: rest.map .value)
    else match classify arg with
      | none => none
      | some a => (classifyAll rest).map (a :: ·)

/-- The values of the options that have one, and the dump once it is known. -/
structure Arguments where
  dump : Option Text := none
  out : Option Text := some ".haxe/extern/sbox".toList
  rootNamespace : Option Text := some ({} : Options).rootNamespace
  rootPackage : Option Text := ({} : Options).rootPackage
  extension : Option Text := some ({} : Options).extension
  verbose : Bool := false
  /-- Whether something was left over. -/
  surplus : Bool := false
  deriving DecidableEq

/-- Why the arguments start no run. -/
inductive Stop where
  | usage
  | help
  deriving DecidableEq

/-- The flag of one letter. -/
def flagLetter? (c : Char) : Option Flag :=
  match optionNames.lookup ['-', c] with
  | some (.flag f) => some f
  | _ => none

/-- The flags that an argument sets.  A flag takes no value, and every letter attached to it has to
be a flag as well. -/
def flagsOf (f : Flag) : Attached → Option (List Flag)
  | .nothing => some [f]
  | .value _ => none
  | .letters t => (t.mapM flagLetter?).map (f :: ·)

/-- The value that stands behind an equals sign; a double dash is none. -/
def valueBehind (t : Text) : Option Text := if t = ['-', '-'] then none else some t

namespace Arguments

/-- Sets the value of an option, or leaves the option without one. -/
def set (a : Arguments) (s : Setting) (value : Option Text) : Arguments :=
  match s with
  | .out => { a with out := value }
  | .rootNamespace => { a with rootNamespace := value }
  | .rootPackage => { a with rootPackage := value }
  | .extension => { a with extension := value }

/-- Sets flags in order; a request for help stops. -/
def setFlags (a : Arguments) : List Flag → Except Stop Arguments
  | [] => .ok a
  | .help :: _ => .error .help
  | .verbose :: rest => setFlags { a with verbose := true } rest

/-- Takes a value that belongs to no option. -/
def take (a : Arguments) (value : Text) : Arguments :=
  match a.dump with
  | none => { a with dump := some value }
  | some _ => { a with surplus := true }

/-- Consumes classified arguments. -/
def consume (a : Arguments) : List Argument → Except Stop Arguments
  | [] => .ok a
  | .value v :: .mark :: rest =>
    if a.dump.isNone then consume (a.take v) rest
    else consume { a with surplus := true } rest
  | .value v :: rest => consume (a.take v) rest
  | .mark :: .value v :: rest =>
    if a.dump.isNone then consume (a.take v) rest
    else consume { a with surplus := true } rest
  | .mark :: rest => consume { a with surplus := true } rest
  | .unknown :: rest => consume { a with surplus := true } rest
  | .option (.flag f) attached :: rest =>
    match flagsOf f attached with
    | none => .error .usage
    | some flags =>
      match a.setFlags flags with
      | .error stop => .error stop
      | .ok a => consume a rest
  | .option (.setting s) (.value v) :: rest => consume (a.set s (valueBehind v)) rest
  | .option (.setting s) .nothing :: .value v :: rest => consume (a.set s (some v)) rest
  | .option (.setting _) _ :: _ => .error .usage

/-- Reads the arguments of the command, with the dump they name. -/
def read (args : List Text) : Except Stop (Arguments × Text) :=
  match classifyAll args with
  | none => .error .usage
  | some classified =>
    match consume {} classified with
    | .error stop => .error stop
    | .ok a =>
      match a.dump with
      | some dump => if a.surplus then .error .usage else .ok (a, dump)
      | none => .error .usage

/-- The options of a run with the given root namespace and extension.  Dots in front of the
extension are dropped. -/
def options (a : Arguments) (rootNamespace extension : Text) : Options :=
  { rootNamespace
    rootPackage := a.rootPackage
    extension := extension.dropWhile (· == '.') }

end Arguments

end CommandLine
end HaxeBindings
