import ReadingBench.Config.Basic
import ReadingBench.Decimal.Digits

namespace ReadingBench.Cli

inductive Format where
  | table
  | json
  deriving DecidableEq

inductive Command where
  | seed
  | rollup
  | rank
  | all
  deriving DecidableEq

/-- What the flags of a command line ask for. -/
structure Options where
  config : Option String := none
  host : Option String := none
  port : Option UInt16 := none
  user : Option String := none
  password : Option String := none
  embedded : Bool := false
  format : Format := .table
  users : Option UInt64 := none
  articles : Option UInt64 := none
  reads : Option UInt64 := none
  userBatchSize : Option UInt64 := none
  articleBatchSize : Option UInt64 := none
  readBatchSize : Option UInt64 := none
  seed : Option UInt64 := none
  queueDepth : Option UInt64 := none
  truncate : Bool := false
  dryRun : Bool := false
  readsOnly : Bool := false
  rollupBatchSize : Option UInt64 := none
  topN : Option UInt64 := none
  deriving DecidableEq

/-- A variable of the environment that stands in for a flag. -/
structure Variable where
  name : String
  /-- Whether help says nothing of its value. -/
  secret : Bool := false

/-- What help says of a variable that is not set. -/
def Variable.note (v : Variable) : String := if v.secret then s!"[env: {v.name}]" else s!"[env: {v.name}=]"

/-- A flag with a note for the help text, and what it sets. A flag without a value is a switch; a value
has a name in the help text, may come from a variable, and may be refused. -/
inductive Flag where
  | switch (name note : String) (set : Options → Options)
  | valued (name value note : String) (standIn : Option Variable) (set : String → Options → Option Options)

namespace Flag

def name : Flag → String
  | switch name _ _ => name
  | valued name _ _ _ _ => name

def note : Flag → String
  | switch _ note _ => note
  | valued _ _ note standIn _ =>
    " ".intercalate ((note :: standIn.toList.map Variable.note).filter (!·.isEmpty))

/-- How the flag is written. -/
def usage : Flag → String
  | switch name _ _ => "--" ++ name
  | valued name value _ _ _ => s!"--{name} <{value}>"

/-- Sets the flag to what its variable holds, if there is a variable and it is set. -/
def fill (environment : String → Option String) (o : Options) : Flag → Option Options
  | valued _ _ _ (some v) set => (environment v.name).elim (some o) (set · o)
  | _ => some o

end Flag

/-- Digits after an optional plus sign, below `bound`. -/
def readNat? (bound : Nat) (s : String) : Option Nat :=
  let ds := match s.toList with
    | '+' :: ds => ds
    | ds => ds
  if ds.isEmpty ∨ ¬ds.all Decimal.isDigit then none
  else if Decimal.value ds < bound then some (Decimal.value ds)
  else none

def readUInt64? (s : String) : Option UInt64 := (readNat? UInt64.size s).map UInt64.ofNat

/-- A port may carry any sign that leaves it in range. -/
def readPort? (s : String) : Option UInt16 :=
  match s.toList with
  | '-' :: ds => (readNat? 1 (String.ofList ('+' :: ds))).map UInt16.ofNat
  | _ => (readNat? UInt16.size s).map UInt16.ofNat

def readFormat? : String → Option Format
  | "table" => some .table
  | "json" => some .json
  | _ => none

def textFlag (name value note : String) (standIn : Option Variable) (set : String → Options → Options) :
    Flag := .valued name value note standIn fun s o => some (set s o)

def wordFlag (name value note : String) (set : UInt64 → Options → Options) : Flag :=
  .valued name value note none fun s o => (readUInt64? s).map (set · o)

/-- The flags of every command. -/
def globalFlags : List Flag :=
  [.valued "config" "CONFIG" "YAML configuration file; flags override its values"
      (some { name := "HELVETIA_CONFIG" })
      fun s o => if s.isEmpty then none else some { o with config := some s },
    textFlag "host" "HOST" "" (some { name := "HELVETIA_HOST" }) fun s o => { o with host := some s },
    .valued "port" "PORT" "" (some { name := "HELVETIA_PORT" })
      fun s o => (readPort? s).map fun n => { o with port := some n },
    textFlag "user" "USER" "" (some { name := "HELVETIA_USER" }) fun s o => { o with user := some s },
    textFlag "password" "PASSWORD" "" (some { name := "HELVETIA_PASSWORD", secret := true })
      fun s o => { o with password := some s },
    .switch "embedded" "Use an in-process store instead of a server"
      fun o => { o with embedded := true },
    .valued "format" "FORMAT" "Output format [default: table] [possible values: table, json]" none
      fun s o => (readFormat? s).map fun f => { o with format := f }]

/-- The names of the variables that stand in for flags. -/
def variableNames : List String := globalFlags.filterMap fun
  | .valued _ _ _ standIn _ => standIn.map (·.name)
  | .switch .. => none

def seedFlags : List Flag :=
  [wordFlag "users" "USERS" "" fun n o => { o with users := some n },
    wordFlag "articles" "ARTICLES" "" fun n o => { o with articles := some n },
    wordFlag "reads" "READS" "Accepted reads to produce" fun n o => { o with reads := some n },
    wordFlag "user-batch-size" "USER_BATCH_SIZE" "" fun n o => { o with userBatchSize := some n },
    wordFlag "article-batch-size" "ARTICLE_BATCH_SIZE" ""
      fun n o => { o with articleBatchSize := some n },
    wordFlag "read-batch-size" "READ_BATCH_SIZE" "" fun n o => { o with readBatchSize := some n },
    wordFlag "seed" "SEED" "Fixed RNG seed for reproducible data" fun n o => { o with seed := some n },
    wordFlag "queue-depth" "QUEUE_DEPTH"
      "Read batches buffered ahead of insertion; 0 generates inline"
      fun n o => { o with queueDepth := some n },
    .switch "truncate" "Empty each table before loading it" fun o => { o with truncate := true },
    .switch "dry-run" "Generate every batch without connecting" fun o => { o with dryRun := true },
    .switch "reads-only" "Only generate reads, for users and articles already stored"
      fun o => { o with readsOnly := true }]

def rollupFlags : List Flag :=
  [wordFlag "beread-batch-size" "BATCH_SIZE" "Rows per BeRead upsert"
    fun n o => { o with rollupBatchSize := some n }]

def rankFlags : List Flag :=
  [wordFlag "top-n" "TOP_N" "Articles kept per bucket" fun n o => { o with topN := some n }]

namespace Command

def list : List Command := [seed, rollup, rank, all]

def word : Command → String
  | seed => "seed"
  | rollup => "beread"
  | rank => "rank"
  | all => "all"

def note : Command → String
  | seed => "Generate and insert users, articles and reads"
  | rollup => "Recompute the per-article BeRead table"
  | rank => "Rebuild the PopularRank table"
  | all => "Seed, then BeRead, then PopularRank"

def ofWord? (s : String) : Option Command := list.find? (·.word = s)

def flags : Command → List Flag
  | seed => seedFlags
  | rollup => rollupFlags
  | rank => rankFlags
  | all => seedFlags ++ rollupFlags ++ rankFlags

def seeds : Command → Bool
  | seed | all => true
  | _ => false

def rollsUp : Command → Bool
  | rollup | all => true
  | _ => false

def ranks : Command → Bool
  | rank | all => true
  | _ => false

end Command

/-- How the flags on one side of the command end. -/
inductive Side where
  /-- At a word that is no flag, with the words after it. There are no options where the last value
  before the word is refused, or that of a variable. -/
  | word (options : Option Options) (word : String) (rest : List String)
  | finished (options : Options)
  | help
  | version
  | refused

/-- Splits `name=value` behind two dashes. -/
def splitFlag (cs : List Char) : String × Option String :=
  match cs.dropWhile (· ≠ '=') with
  | _ :: value => (String.ofList (cs.takeWhile (· ≠ '=')), some (String.ofList value))
  | [] => (String.ofList cs, none)

/-- A word that starts with a dash is no value, unless it is a dash alone. -/
def isValue (s : String) : Bool := s.toList.head? ≠ some '-' || s = "-"

/-- Where a flag asks for a text and for nothing else, by its long or its short name. -/
def asks (root : Bool) (name : String) : Option Side :=
  match name with
  | "help" | "h" => some .help
  | "version" | "V" => if root then some .version else none
  | _ => none

/-- Behind a refused value. A value of its own is looked at when the next flag comes or the words end, so
a word that is no flag is still seen. -/
def Side.afterRefusal : List String → Side
  | next :: rest => if isValue next then .word none next rest else .refused
  | [] => .refused

/-- The options of a side with what variables say of the flags for all commands that it does not give. Both
sides look at the variables, but on the right they are in use already. -/
def fillSide (environment : String → Option String) (root : Bool) (seen : List String) (o : Options) :
    Option Options :=
  let missing := globalFlags.filter (·.name ∉ seen)
  (missing.foldlM (Flag.fill environment) o).map fun filled => if root then filled else o

/-- Reads flags up to a word that is none. No flag may be given twice on one side, and two dashes alone
allow no more flags. Of a word of short names the first counts. The version is told on the left only. -/
def readSide (environment : String → Option String) (flags : List Flag) (root : Bool) :
    List String → List String → Options → Side
  | [], seen, o => (fillSide environment root seen o).elim .refused .finished
  | word :: rest, seen, o =>
    match word.toList with
    | ['-', '-'] =>
      if rest.isEmpty then (fillSide environment root seen o).elim .refused .finished else .refused
    | '-' :: '-' :: cs =>
      let (name, attached) := splitFlag cs
      if name.length > 1 ∧ (asks root name).isSome then
        if attached.isNone then (asks root name).getD .refused else .refused
      else
        let once (o : Option Options) : Option Options := if name ∈ seen then none else o
        match flags.find? (·.name = name), attached, rest with
        | some (.switch _ _ set), none, rest =>
          match once (some (set o)) with
          | some o => readSide environment flags root rest (name :: seen) o
          | none => .refused
        | some (.valued _ _ _ _ set), some value, rest =>
          match once (set value o) with
          | some o => readSide environment flags root rest (name :: seen) o
          | none => .refused
        | some (.valued _ _ _ _ set), none, value :: rest =>
          if isValue value then
            match once (set value o) with
            | some o => readSide environment flags root rest (name :: seen) o
            | none => .afterRefusal rest
          else .refused
        | _, _, _ => .refused
    | '-' :: c :: _ => (asks root c.toString).getD .refused
    | _ => .word (fillSide environment root seen o) word rest

/-- What help is about. -/
inductive Topic where
  | program
  | command (c : Command)
  | help
  deriving DecidableEq

/-- The topic that the words behind `help` name. -/
def Topic.ofWords? : List String → Option Topic
  | [] => some program
  | ["help"] => some help
  | [word] => (Command.ofWord? word).map command
  | _ => none

/-- What a command line asks for. -/
inductive Request where
  | run (command : Command) (options : Options)
  | help (topic : Topic)
  | version
  | refused
  deriving DecidableEq

/-- Reads a command line, without the program's name. Flags for all commands may stand on either side of the
command; where both sides give one, the right one counts, and where none does, its variable. -/
def readArguments (environment : String → Option String) (words : List String) : Request :=
  match readSide environment globalFlags true words [] {} with
  | .word _ "help" rest => (Topic.ofWords? rest).elim .refused .help
  | .word o word rest =>
    match Command.ofWord? word with
    | some command =>
      match readSide environment (globalFlags ++ command.flags) false rest [] (o.getD {}) with
      | .finished r => if o.isSome then .run command r else .refused
      | .help => .help (.command command)
      | _ => .refused
    | none => .refused
  | .finished _ => .refused
  | .help => .help .program
  | .version => .version
  | .refused => .refused

/-- What a flag leaves open is taken from the configuration. -/
def Options.apply (o : Options) (c : Config) : Config :=
  { connection := { c.connection with
      host := o.host.getD c.connection.host
      port := o.port.getD c.connection.port
      user := o.user.getD c.connection.user
      password := o.password.getD c.connection.password }
    seed := { c.seed with
      users := o.users.getD c.seed.users
      articles := o.articles.getD c.seed.articles
      reads := o.reads.getD c.seed.reads
      userBatchSize := o.userBatchSize.getD c.seed.userBatchSize
      articleBatchSize := o.articleBatchSize.getD c.seed.articleBatchSize
      readBatchSize := o.readBatchSize.getD c.seed.readBatchSize
      readQueueDepth := o.queueDepth.getD c.seed.readQueueDepth
      rngSeed := o.seed.or c.seed.rngSeed
      truncate := c.seed.truncate || o.truncate
      dryRun := c.seed.dryRun || o.dryRun
      readsOnly := c.seed.readsOnly || o.readsOnly }
    rollup := ⟨o.rollupBatchSize.getD c.rollup.batchSize⟩
    rank := ⟨o.topN.getD c.rank.topN⟩
    retry := c.retry }

end ReadingBench.Cli
