/-!
# Problems

Problems found while a description is expanded do not stop the expansion; they are collected and
reported together.  A report with warnings alone is a success.
-/

namespace BuildGraph

/-- Stable names of what can go wrong in a deployment. -/
inductive DeployCode where
  | configInvalidSchema
  | configParseError
  | configReadError
  | configWriteError
  | inputIsDirectory
  | inputNotFound
  | inputOutsideSrcDir
  | srcDirNotDirectory
  | srcDirNotFound
  | unexpectedFile
  deriving DecidableEq, Repr, Inhabited

namespace DeployCode

/-- Every code. -/
def all : List DeployCode :=
  [.configInvalidSchema, .configParseError, .configReadError, .configWriteError,
   .inputIsDirectory, .inputNotFound, .inputOutsideSrcDir, .srcDirNotDirectory,
   .srcDirNotFound, .unexpectedFile]

/-- The spelling of a code in messages. -/
def name : DeployCode → String
  | .configInvalidSchema => "CONFIG_INVALID_SCHEMA"
  | .configParseError => "CONFIG_PARSE_ERROR"
  | .configReadError => "CONFIG_READ_ERROR"
  | .configWriteError => "CONFIG_WRITE_ERROR"
  | .inputIsDirectory => "INPUT_IS_DIRECTORY"
  | .inputNotFound => "INPUT_NOT_FOUND"
  | .inputOutsideSrcDir => "INPUT_OUTSIDE_SRC_DIR"
  | .srcDirNotDirectory => "SRC_DIR_NOT_DIRECTORY"
  | .srcDirNotFound => "SRC_DIR_NOT_FOUND"
  | .unexpectedFile => "UNEXPECTED_FILE"

/-- The code with a given spelling. -/
def ofName? (s : String) : Option DeployCode := all.find? (·.name == s)

end DeployCode

/-- What was done with a deployment config when it failed. -/
inductive ConfigAction where
  | read
  | write
  deriving DecidableEq, Repr, Inhabited

/-- The verb of an action. -/
def ConfigAction.verb : ConfigAction → String
  | .read => "read"
  | .write => "write"

/-- A problem that does not stop an expansion. -/
inductive Problem where
  /-- A name that is no keyword, or a keyword without a value. -/
  | missingKeyword (name : String)
  /-- A rule whose name holds another body. -/
  | ruleConflict (name : String)
  /-- A deployment config that cannot be used. -/
  | unusableConfig (action : ConfigAction) (path : String) (code : DeployCode)
  /-- A whitelisted input that the deployment command cannot name. -/
  | unnameableInput (input : String)
  /-- An output declared more than once. -/
  | repeatedOutput (path : String)
  deriving DecidableEq, Repr, Inhabited

/-- The text that is shown for a problem. -/
def Problem.message : Problem → String
  | .missingKeyword name => "keyword " ++ name ++ " is not defined in this context"
  | .ruleConflict name => "duplicate rule found: " ++ name ++ ". ignoring"
  | .unusableConfig action path code =>
    "cannot " ++ action.verb ++ " " ++ path ++ " (error-code: " ++ code.name ++ ")"
  | .unnameableInput input =>
    "spaces and EOL in rsync input '" ++ input ++ "' is unsupported"
  | .repeatedOutput path => "output '" ++ path ++ "' is produced by more than one target"

/-- The problems collected up to a point. -/
structure Report where
  errors : List Problem := []
  warnings : List Problem := []
  deriving DecidableEq, Repr, Inhabited

/-- Whether a report holds no error. -/
def Report.succeeded (r : Report) : Bool := r.errors.isEmpty

end BuildGraph
