/-!
# Arguments

What the words after the name of the program ask for. Before the verb only switches may stand; after
it stand its options and at most one operand, in any order. A switch or option goes by a long name
after two dashes or by a letter after one; letters may be run together, and the last may have a
value. The value of an option is joined to it, behind an equals sign or, after a letter, directly,
or is the word that follows. After a word of two dashes every word is an operand.

Words are taken one after the other, and the first that cannot be taken decides why all are refused.
What an option was given is looked at only when something else is taken or all is at an end.
-/

namespace Quire.CommandLine

/-! ## 1. Options and verbs -/

/-- What may be given by name. -/
inductive Opt where
  | verbose
  | help
  | version
  | config
  | out
  | lang
  | user
  | force
  deriving Repr, DecidableEq

namespace Opt

/-- The long name. -/
def long : Opt → String
  | verbose => "verbose"
  | help => "help"
  | version => "version"
  | config => "config"
  | out => "out"
  | lang => "lang"
  | user => "user"
  | force => "force"

/-- The letter, if there is one. -/
def short? : Opt → Option Char
  | verbose => some 'v'
  | help => some 'h'
  | version => some 'V'
  | config => some 'c'
  | out => some 'o'
  | lang => some 'l'
  | user => none
  | force => some 'f'

/-- Whether a value goes with it. -/
def takesValue : Opt → Bool
  | config => true
  | out => true
  | lang => true
  | _ => false

/-- Whether its value is a path, and so cannot be empty. -/
def isPath : Opt → Bool
  | config => true
  | _ => false

end Opt

/-- What the program is asked to do. -/
inductive Verb where
  | build
  | init
  | highlight
  deriving Repr, DecidableEq

namespace Verb

/-- Every verb. -/
def all : List Verb :=
  [build, init, highlight]

/-- A verb as a word. -/
def word : Verb → String
  | build => "build"
  | init => "init"
  | highlight => "highlight"

/-- What may be given after a verb. -/
def options : Verb → List Opt
  | build => [.verbose, .help, .config, .out, .lang]
  | init => [.verbose, .help, .user, .force]
  | highlight => [.verbose, .help, .lang]

end Verb

/-- What may be given before the verb. -/
def leadingOptions : List Opt :=
  [.verbose, .help, .version]

/-- The verb that asks how another is used. -/
def helpWord : String := "help"

/-! ## 2. Refusals -/

/-- Why the words are not followed. Some only ask to be told about the program. -/
inductive Refusal where
  | unknownArgument
  | invalidValue
  | invalidVerb
  | asksForHelp
  | asksForVersion
  | argumentConflict
  | missingRequired
  | missingVerb
  | nothingGiven
  | tooManyValues
  deriving Repr, DecidableEq

/-! ## 3. Words -/

/-- A word, by how it begins. -/
inductive Word where
  /-- Two dashes alone. -/
  | escape
  | long (name : String) (value : Option String)
  | letters (cs : List Char)
  | plain
  deriving Repr, DecidableEq

/-- A text before the first equals sign and, if there is one, after it. -/
def splitAtEquals : List Char → List Char × Option (List Char)
  | [] => ([], none)
  | '=' :: s => ([], some s)
  | c :: s =>
    let (name, value) := splitAtEquals s
    (c :: name, value)

/-- What a word is. -/
def Word.ofString (word : String) : Word :=
  match word.toList with
  | ['-', '-'] => escape
  | '-' :: '-' :: s =>
    let (name, value) := splitAtEquals s
    long (String.ofList name) (value.map String.ofList)
  | '-' :: c :: s => letters (c :: s)
  | _ => plain

/-! ## 4. Taking words -/

/-- What was taken last and not looked at yet. -/
inductive Pending where
  | nothing
  | option (o : Opt) (value : Option String)
  | operand (s : String)
  deriving Repr, DecidableEq

/-- What was given so far. -/
structure Given where
  switches : List Opt := []
  values : List (Opt × String) := []
  operand : Option String := none
  pending : Pending := .nothing
  /-- Whether every further word is an operand. -/
  escaped : Bool := false
  deriving Repr, DecidableEq

namespace Given

/-- A value given to an option, which has none yet. -/
def addValue (g : Given) (o : Opt) (value : String) : Except Refusal Given :=
  if (g.values.lookup o).isSome then .error .argumentConflict
  else if o.isPath && value.isEmpty then .error .invalidValue
  else .ok { g with values := g.values ++ [(o, value)] }

/-- What was taken last looked at. -/
def settle (g : Given) : Except Refusal Given :=
  let g' := { g with pending := .nothing }
  match g.pending with
  | .nothing => .ok g'
  | .option _ none => .error .invalidValue
  | .option o (some value) => g'.addValue o value
  | .operand s => if s.isEmpty then .error .invalidValue else .ok { g' with operand := some s }

/-- A switch. -/
def addSwitch (g : Given) (o : Opt) : Except Refusal Given := do
  let g ← g.settle
  match o with
  | .help => .error .asksForHelp
  | .version => .error .asksForVersion
  | _ =>
    if g.switches.contains o then .error .argumentConflict
    else .ok { g with switches := g.switches ++ [o] }

/-- An option, with its value if that is joined to it. -/
def addOption (g : Given) (o : Opt) (value : Option String) : Except Refusal Given := do
  let g ← g.settle
  match value with
  | some value => g.addValue o value
  | none => .ok { g with pending := .option o none }

/-- Letters run together. -/
def addLetters (options : List Opt) (g : Given) : List Char → Except Refusal Given
  | [] => .ok g
  | c :: cs =>
    match options.find? fun o => o.short? == some c with
    | none => .error .unknownArgument
    | some o =>
      if o.takesValue then
        g.addOption o (match cs with
          | [] => none
          | '=' :: value => some (String.ofList value)
          | value => some (String.ofList value))
      else
        match g.addSwitch o with
        | .error e => .error e
        | .ok g => addLetters options g cs

/-- Whether an operand was given. -/
def hasOperand (g : Given) : Bool :=
  match g.pending with
  | .operand _ => true
  | _ => g.operand.isSome

/-- An operand. `refusal` says why if there is no place for one. -/
def addOperand (places : Nat) (refusal : Refusal) (g : Given) (word : String) :
    Except Refusal Given := do
  if places = 0 || g.hasOperand then .error refusal
  else
    let g ← g.settle
    .ok { g with pending := .operand word }

/-- One more word, where some options and so many operands have a place. -/
def take (options : List Opt) (places : Nat) (refusal : Refusal) (g : Given) (word : String) :
    Except Refusal Given :=
  if g.escaped then g.addOperand places refusal word
  else
    match Word.ofString word with
    | .escape => .ok { g with escaped := true }
    | .long name value =>
      match options.find? fun o => o.long == name with
      | none => .error .unknownArgument
      | some o =>
        if o.takesValue then g.addOption o value
        else if value.isSome then .error .tooManyValues
        else g.addSwitch o
    | .letters cs => addLetters options g cs
    | .plain =>
      match g.pending with
      | .option o none => .ok { g with pending := .option o (some word) }
      | _ => g.addOperand places refusal word

end Given

/-! ## 5. Commands -/

/-- What is to be done, with all that is needed for it. -/
inductive Command where
  | build (dir : String) (config out lang : Option String)
  | init (dir : String) (user force : Bool)
  | highlight (file lang : String)
  deriving Repr, DecidableEq

/-- A command, and whether all that is noted should be told. -/
structure Invocation where
  verbose : Bool
  command : Command
  deriving Repr, DecidableEq

/-- The directory of a command for which none is given. -/
def standardDir : String := "."

/-- The command of a verb and what was given after it. -/
def Verb.command (v : Verb) (g : Given) : Except Refusal Command :=
  let dir := g.operand.getD standardDir
  match v with
  | build => .ok (.build dir (g.values.lookup .config) (g.values.lookup .out) (g.values.lookup .lang))
  | init => .ok (.init dir (g.switches.contains .user) (g.switches.contains .force))
  | highlight =>
    match g.operand, g.values.lookup .lang with
    | some file, some lang => .ok (.highlight file lang)
    | _, _ => .error .missingRequired

/-- The words after a verb. -/
def Verb.read (v : Verb) (verbose : Bool) (words : List String) : Except Refusal Invocation := do
  let g ← words.foldlM (Given.take v.options 1 .unknownArgument) {}
  let g ← g.settle
  let command ← v.command g
  return ⟨verbose || g.switches.contains .verbose, command⟩

/-- The words after the verb that asks how others are used: at most one verb, which may be that one
itself. -/
def helpOn : List String → Refusal
  | [] => .asksForHelp
  | [word] =>
    if word = helpWord || Verb.all.any fun v => v.word == word then .asksForHelp else .invalidVerb
  | _ => .invalidVerb

/-- The verb of a word. -/
def Verb.ofWord? (word : String) : Option Verb :=
  all.find? fun v => v.word == word

/-- All words, where `g` was given before them. -/
def readFrom (g : Given) : List String → Except Refusal Invocation
  | [] => if g.switches.isEmpty then .error .nothingGiven else .error .missingVerb
  | word :: words =>
    let isVerb := word = helpWord || (Verb.ofWord? word).isSome
    if !g.escaped && word = helpWord then .error (helpOn words)
    else
      match if g.escaped then none else Verb.ofWord? word with
      | some v => v.read (g.switches.contains .verbose) words
      | none =>
        match g.take leadingOptions 0 (if isVerb then .unknownArgument else .invalidVerb) word with
        | .error e => .error e
        | .ok g => readFrom g words

/-- What the words after the name of the program ask for. -/
def read (words : List String) : Except Refusal Invocation :=
  readFrom {} words

end Quire.CommandLine
