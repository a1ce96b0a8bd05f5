import ScoreSynth.Number.Decimal

/-!
# Command-line arguments

Options of the whole program may stand before the command or among its own; given in both places,
the one of the command counts, and given twice in one place they are refused. A value follows its
option or is joined to it by an equals sign; only the latter may begin with a dash. After `--` all
is input.
-/

namespace ScoreSynth.Command

inductive Task where
  | play (input : String)
  | render (input output : String) (rate : Option Nat)
  | parse (input : String) (json : Bool)
  | fromText (text : String) (generated : Option String)

structure Request where
  settingsPath : Option String
  volume : Option Float32
  seed : Option UInt64
  task : Task

inductive Flag where
  | config
  | volume
  | seed
  | output
  | rate
  | json
  | generated
  deriving DecidableEq, Repr

namespace Flag

def takesValue : Flag → Bool
  | json => false
  | _ => true

def anywhere : List (String × Flag) :=
  [("config", config), ("volume", volume), ("seed", seed)]

end Flag

inductive Verb where
  | play
  | render
  | parse
  | fromText
  deriving DecidableEq, Repr

namespace Verb

def name : Verb → String
  | play => "play"
  | render => "render"
  | parse => "parse"
  | fromText => "from-text"

def all : List Verb := [play, render, parse, fromText]

def ofName? (s : String) : Option Verb := all.find? fun v => v.name == s

def flags : Verb → List (String × Flag)
  | play => Flag.anywhere
  | render => [("output", .output), ("sample-rate", .rate)] ++ Flag.anywhere
  | parse => ("json", .json) :: Flag.anywhere
  | fromText => ("generated", .generated) :: Flag.anywhere

def letters : Verb → List (Char × Flag)
  | render => [('o', .output)]
  | _ => []

end Verb

inductive Topic where
  | program
  | verb (v : Verb)
  | help

inductive Invocation where
  | run (r : Request)
  | version
  | help (topic : Topic)
  /-- The arguments make no sense. -/
  | misuse

namespace Arguments

/-! ### Words -/

inductive Word where
  | dashes
  | long (name : String) (joined : Option String)
  | short (letter : Char) (rest : String)
  | plain (text : String)

def cutAt (sep : Char) : List Char → List Char × Option (List Char)
  | [] => ([], none)
  | c :: s =>
    if c = sep then ([], some s)
    else
      let (a, b) := cutAt sep s
      (c :: a, b)

def word (s : String) : Word :=
  match s.toList with
  | ['-', '-'] => .dashes
  | '-' :: '-' :: r =>
    let (name, joined) := cutAt '=' r
    .long (String.ofList name) (joined.map String.ofList)
  | '-' :: c :: r => .short c (String.ofList r)
  | _ => .plain s

def isPlain (s : String) : Bool :=
  match word s with
  | .plain _ => true
  | _ => false

/-- The value joined to a one-letter option: an equals sign in front does not count. -/
def joinedTo (rest : String) : Option String :=
  match rest.toList with
  | [] => none
  | '=' :: r => some (String.ofList r)
  | r => some (String.ofList r)

/-! ### Values -/

def path? (s : String) : Option String := if s.isEmpty then none else some s

def seed? (s : String) : Option UInt64 :=
  (Number.unsigned? Number.max64 s.toList).map UInt64.ofNat

/-- A whole number with either sign, which must not lie below zero. -/
def rate? (s : String) : Option Nat :=
  match s.toList with
  | '-' :: r => (Number.natural? r).filter (· == 0)
  | r => Number.unsigned? Number.max32 r

def volume? (s : String) : Option Float32 := Number.parseFloat32? s.toList

structure Given where
  options : List (Flag × String)
  inputs : List String

def Given.find? (g : Given) (f : Flag) : Option String :=
  (g.options.find? fun o => o.1 == f).map (·.2)

def Given.has (g : Given) (f : Flag) : Bool := g.options.any fun o => o.1 == f

def readable : Flag → String → Bool
  | .config, s | .output, s => (path? s).isSome
  | .volume, s => (volume? s).isSome
  | .seed, s => (seed? s).isSome
  | .rate, s => (rate? s).isSome
  | .json, _ | .generated, _ => true

def Given.add? (g : Given) (f : Flag) (value : String) : Option Given :=
  if g.has f || !readable f value then none
  else some { g with options := g.options ++ [(f, value)] }

/-- The value of an option, which may be the next argument; and the arguments after it. -/
def value? (f : Flag) (joined : Option String) (rest : List String) :
    Option (String × List String) :=
  match joined, rest with
  | some v, _ => if f.takesValue then some (v, rest) else none
  | none, next :: more =>
    if !f.takesValue then some ("", rest) else if isPlain next then some (next, more) else none
  | none, [] => if f.takesValue then none else some ("", rest)

def lookup {κ : Type} [BEq κ] (table : List (κ × Flag)) (key : κ) : Option Flag :=
  (table.find? fun e => e.1 == key).map (·.2)

/-- A word asks for help, whatever follows it. -/
def asksHelp : Word → Bool
  | .long name joined => name == "help" && joined.isNone
  | .short letter _ => letter == 'h'
  | _ => false

/--
All arguments of a command; nothing inside if one asks for help. Each step leaves fewer, so their
number bounds the steps.
-/
def ofVerb? (v : Verb) : Nat → Given → List String → Option (Option Given)
  | _, g, [] => some (some g)
  | 0, _, _ => none
  | fuel + 1, g, a :: rest =>
    if asksHelp (word a) then some none
    else match word a with
    | .dashes => some (some { g with inputs := g.inputs ++ rest })
    | .plain text => ofVerb? v fuel { g with inputs := g.inputs ++ [text] } rest
    | .long name joined =>
      (lookup v.flags name).bind fun f =>
        (value? f joined rest).bind fun (value, rest) =>
          (g.add? f value).bind fun g => ofVerb? v fuel g rest
    | .short letter joined =>
      (lookup v.letters letter).bind fun f =>
        (value? f (joinedTo joined) rest).bind fun (value, rest) =>
          (g.add? f value).bind fun g => ofVerb? v fuel g rest

def task? (v : Verb) (g : Given) : Option Task :=
  match v, g.inputs with
  | .play, [input] => some (.play input)
  | .render, [input] =>
    (g.find? .output).map fun o => .render input o ((g.find? .rate).bind rate?)
  | .parse, [input] => some (.parse input (g.has .json))
  | .fromText, [text] => some (.fromText text (g.find? .generated))
  | _, _ => none

/-- The options of the command count before those of the program. -/
def request (before after : Given) (task : Task) : Request :=
  let find (f : Flag) := (after.find? f).or (before.find? f)
  { settingsPath := find .config
    volume := (find .volume).bind volume?
    seed := (find .seed).bind seed?
    task := task }

def ofCommand (before : Given) (v : Verb) (rest : List String) : Invocation :=
  match ofVerb? v rest.length ⟨[], []⟩ rest with
  | none => .misuse
  | some none => .help (.verb v)
  | some (some g) =>
    match task? v g with
    | some t => .run (request before g t)
    | none => .misuse

def topic? : List String → Option Topic
  | [] => some .program
  | [name] => if name == "help" then some .help else (Verb.ofName? name).map .verb
  | _ => none

/-- What a command and its arguments ask for, after the options of the program. -/
def ofName (before : Given) (name : String) (rest : List String) : Invocation :=
  if name == "help" then ((topic? rest).map .help).getD .misuse
  else match Verb.ofName? name with
    | some v => ofCommand before v rest
    | none => .misuse

/--
What is left of a request with a bad option right before the command: a value of its own is looked
at only after the command, which can ask for help before.
-/
def afterBadOption : List String → Invocation
  | [] => .misuse
  | name :: rest =>
    match ofName ⟨[], []⟩ name rest with
    | .help t => .help t
    | _ => .misuse

/-- The arguments before the command, and then those of the command. -/
def readFrom : Nat → Given → List String → Invocation
  | _, _, [] => .misuse
  | 0, _, _ => .misuse
  | fuel + 1, g, a :: rest =>
    if asksHelp (word a) then .help .program
    else match word a with
    | .plain text => ofName g text rest
    | .long name joined =>
      match lookup Flag.anywhere name with
      | some f =>
        match value? f joined rest with
        | some (value, rest) =>
          match g.add? f value with
          | some g => readFrom fuel g rest
          | none => if joined.isSome then .misuse else afterBadOption rest
        | none => .misuse
      | none => if name == "version" && joined.isNone then .version else .misuse
    | .short letter _ => if letter == 'V' then .version else .misuse
    | .dashes => .misuse

def read (args : List String) : Invocation := readFrom args.length ⟨[], []⟩ args

end Arguments

end ScoreSynth.Command
