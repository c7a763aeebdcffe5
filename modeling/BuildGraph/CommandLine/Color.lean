/-!
# Colours

Notes are coloured where a terminal shows them, unless the environment says otherwise.
`FORCE_COLOR` and then `CLICOLOR_FORCE` ask for colours wherever the notes go; `NO_COLOR` and a
dumb terminal refuse them.  Any other kind of terminal shows them, as do some programs in place of
one, and the logs of services that build or test software.
-/

namespace BuildGraph.CommandLine

/-- A colour of text. -/
inductive Color where
  | red
  | green
  | yellow
  | blue
  deriving DecidableEq, Repr, Inhabited

/-- The number of a colour in control sequences. -/
def Color.number : Color → String
  | .red => "31"
  | .green => "32"
  | .yellow => "33"
  | .blue => "34"

/-- A text in a colour, after which the usual one comes back. -/
def Color.paint (colored : Bool) (c : Color) (s : String) : String :=
  if colored then "\x1b[" ++ c.number ++ "m" ++ s ++ "\x1b[39m" else s

/-! ## The environment -/

/-- Whether a text is a number that is zero; it may begin with a plus sign. -/
def isZero (s : String) : Bool :=
  let digits := match s.toList with
    | '+' :: ds => ds
    | ds => ds
  !digits.isEmpty && digits.all (· == '0')

/-- Whether the environment asks for colours, a terminal or not. -/
def forcesColor (env : String → Option String) : Bool :=
  match env "FORCE_COLOR", env "CLICOLOR_FORCE" with
  | some level, _ => level ≠ "false" ∧ !isZero level
  | none, some force => force ≠ "0"
  | none, none => false

/-- Whether a variable is set to something other than `0`. -/
def isOn (env : String → Option String) (name : String) : Bool := (env name).any (· ≠ "0")

/-- Variables that are set, to whatever value, where a service builds or tests software. -/
def serviceVariables : List String :=
  ["APPVEYOR", "BITBUCKET_DEPLOYMENT", "BITRISE_IO", "BUDDY_WORKSPACE_ID", "BUILDER_OUTPUT",
   "BUILDKITE", "CIRCLECI", "CIRRUS_CI", "CI_NAME", "CODEBUILD_SRC_DIR", "DRONE", "DSARI",
   "GERRIT_PROJECT", "GITHUB_ACTION", "GITLAB_CI", "GITLAB_DEPLOYMENT", "GO_PIPELINE_NAME",
   "HUDSON_URL", "JENKINS_URL", "MAGNUM", "NETLIFY", "NEVERCODE", "NOW_BUILDER",
   "NOW_GITHUB_DEPLOYMENT", "RENDER", "SAIL_CI", "SEMAPHORE", "SHIPPABLE", "STRIDER",
   "SYSTEM_TEAMFOUNDATIONCOLLECTIONURI", "TASKCLUSTER_ROOT_URL", "TDDIUM", "TRAVIS", "WERCKER",
   "bamboo.buildKey"]

/-- Values of the variable `CI` where a service builds or tests software. -/
def serviceValues : List String := ["true", "1", "woodpecker"]

/-- How the path in the variable `NODE` ends at a service that has no variable of its own. -/
def servicePath : String := "//heroku/node/bin/node"

/-- Whether a service that builds or tests software runs the program; there colours are shown. -/
def isService (env : String → Option String) : Bool :=
  (env "CI").any (serviceValues.contains ·)
    || serviceVariables.any (fun name => (env name).isSome)
    || (env "NODE").any (·.endsWith servicePath)

/-- Whether notes are coloured. -/
def showsColor (env : String → Option String) (terminal : Bool) : Bool :=
  if forcesColor env then true
  else if isOn env "NO_COLOR" ∨ env "TERM" = some "dumb" then false
  else if !terminal ∧ !isOn env "IGNORE_IS_TERMINAL" then false
  else
    (env "COLORTERM").isSome || (env "TERM").isSome
      || (env "TERM_PROGRAM").any (fun p => p = "iTerm.app" ∨ p = "Apple_Terminal")
      || isOn env "CLICOLOR" || isService env

/-- Variables of the environment that colours depend on. -/
def colorVariables : List String :=
  ["FORCE_COLOR", "CLICOLOR_FORCE", "NO_COLOR", "TERM", "IGNORE_IS_TERMINAL", "COLORTERM",
   "TERM_PROGRAM", "CLICOLOR", "CI", "NODE"] ++ serviceVariables

end BuildGraph.CommandLine
