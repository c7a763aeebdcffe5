import BuildGraph.Script.Value
import BuildGraph.Text

/-!
# The library of descriptions

What every description sees besides its own names: functions, which it can pass on but has no use
for, tables of functions, and a few constants.  Texts have the functions on texts as their fields.
-/

namespace BuildGraph.Script.Library

/-- The functions that have no table of their own. -/
def functions : List String :=
  ["assert", "collectgarbage", "dofile", "error", "getmetatable", "ipairs", "load", "loadfile",
   "next", "pairs", "pcall", "print", "rawequal", "rawget", "rawlen", "rawset", "select",
   "setmetatable", "tonumber", "tostring", "type", "warn", "xpcall"]

/-- The functions on texts. -/
def textFunctions : List String :=
  ["byte", "char", "dump", "find", "format", "gmatch", "gsub", "len", "lower", "match", "pack",
   "packsize", "rep", "reverse", "sub", "unpack", "upper"]

/-- The tables of functions. -/
def tables : List (String × List String) :=
  [("coroutine",
     ["close", "create", "isyieldable", "resume", "running", "status", "wrap", "yield"]),
   ("io", ["close", "flush", "input", "lines", "open", "output", "popen", "read", "tmpfile",
     "type", "write"]),
   ("math", ["abs", "acos", "asin", "atan", "ceil", "cos", "cosh", "deg", "exp", "floor", "fmod",
     "frexp", "ldexp", "log", "log10", "max", "min", "modf", "pow", "rad", "random", "randomseed",
     "sin", "sinh", "sqrt", "tan", "tanh", "tointeger", "type", "ult"]),
   ("os", ["clock", "date", "difftime", "execute", "exit", "getenv", "remove", "rename",
     "setlocale", "time", "tmpname"]),
   ("package", ["loadlib", "searchpath"]),
   ("string", textFunctions),
   ("table", ["concat", "insert", "move", "pack", "remove", "sort", "unpack"]),
   ("utf8", ["char", "codepoint", "codes", "len", "offset"])]

/-- Where the files of modules lie for every description; a question mark stands for the name of a
module. -/
def ownPath : String := "./lua/?.lua;./lua/?/init.lua;"

/-- Where else they may lie, unless the environment says otherwise. -/
def usualPath : String :=
  "/usr/local/share/lua/5.4/?.lua;/usr/local/share/lua/5.4/?/init.lua;"
    ++ "/usr/local/lib/lua/5.4/?.lua;/usr/local/lib/lua/5.4/?/init.lua;./?.lua;./?/init.lua"

/-- Where the files of modules may lie.  A path that is asked for takes the place of the usual one,
which comes back where the first empty place between two others would be. -/
def searchPath (asked : Option String) : String :=
  ownPath ++ match asked with
    | none => usualPath
    | some path => match path.splitOn ";;" with
      | before :: after :: more =>
        let after := Text.join ";;" (after :: more)
        (if before = "" then "" else before ++ ";") ++ usualPath
          ++ (if after = "" then "" else ";" ++ after)
      | _ => path

/-- The pattern of one character in UTF-8. -/
def characterPattern : ByteArray :=
  ⟨#[0x5b, 0x00, 0x2d, 0x7f, 0xc2, 0x2d, 0xfd, 0x5d, 0x5b, 0x80, 0x2d, 0xbf, 0x5d, 0x2a]⟩

/-- The constants in the tables of functions. -/
def constants (path : String) : List (String × List (String × Value)) :=
  [("math", [("huge", .number (.infinite false)), ("maxinteger", .integer (Int.pow 2 63 - 1)),
     ("mininteger", .integer (-Int.pow 2 63)),
     ("pi", .number (.ofDecimal false 31415926535897931 (-16)))]),
   ("package", [("config", .ofString "/\n;\n?\n!\n-\n"),
     ("cpath", .ofString "/usr/local/lib/lua/5.4/?.so;/usr/local/lib/lua/5.4/loadall.so;./?.so"),
     ("path", .ofString path),
     ("preload", .table { identity := .known "package.preload" } [] [])]),
   ("utf8", [("charpattern", .text characterPattern)])]

/-- The name of an entry of a table. -/
def entryName (table entry : String) : String := table ++ "." ++ entry

/-- The functions of a table. -/
def functionFields (table : String) (names : List String) : List (Key × Value) :=
  names.map fun name => (.text name.toUTF8, .function (.named (entryName table name)))

/-- The constants of a table. -/
def constantFields (path table : String) : List (Key × Value) :=
  match (constants path).find? (·.1 == table) with
  | none => []
  | some c => c.2.map fun f => (.text f.1.toUTF8, f.2)

/-- A table of functions and constants. -/
def table (path name : String) (names : List String) : Value :=
  .table { identity := .known name } [] (functionFields name names ++ constantFields path name)

/-- What every description sees, by name; `path` tells where the files of modules may lie. -/
def entries (path : String) : List (String × Value) :=
  functions.map (fun name => (name, .function (.named name)))
    ++ tables.map (fun t => (t.1, table path t.1 t.2))
    ++ [("require", .function .require), ("_VERSION", .ofString "Lua 5.4")]

/-- The field of a text under a key. -/
def textFunction (key : Value) : Value :=
  match key.key? with
  | none => .nil
  | some k => Value.findField (functionFields "string" textFunctions) k

end BuildGraph.Script.Library
