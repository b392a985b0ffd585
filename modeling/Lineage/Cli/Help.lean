import Lineage.Cli.Arguments

/-!
# Help

What the program says about itself: its commands, and the options of each.
-/

namespace Lineage.Cli

/-- What a command does. -/
def CommandName.about : CommandName → String
  | .graph => "Print the level-by-level ancestor graph of a token"
  | .paths => "Print every ancestor path of a token"
  | .refresh => "Print the tokens refreshed when a child is added below a parent"

/-- What the command that prints help does. -/
def helpAbout : String := "Print this message or the help of the given subcommand(s)"

namespace Opt

/-- How the value of an option is called. -/
def valueName (o : Opt) : String := (o.text.map Char.toUpper).map fun c => if c = '-' then '_' else c

/-- What an option of a command is for. -/
def about (name : CommandName) : Opt → String
  | .config => "Settings file (default: built-in defaults plus environment overrides)"
  | .fixture => "Ancestry fixture (TOML)"
  | .root =>
    match name with
    | .paths => "Start token: fixture key or serialized token"
    | .graph | .refresh => "Root token: fixture key or serialized token"
  | .search => "Ancestor categories to follow [default: both] [possible values: native, hooked, both]"
  | .user => "Resolve as this user (enables caching); anonymous when omitted"
  | .parent => "Token the child is added below"
  | .child => "The newly added token"
  | .requestId => "Log under this correlation id instead of a fresh one"

/-- An option with the name of its value. -/
def usage (o : Opt) : String := "--" ++ o.text ++ " <" ++ o.valueName ++ ">"

end Opt

/-- A row of a table: a name, and what is said about it. -/
structure Row where
  indent : String
  name : String
  about : String

/-- The rows of a table, with what is said beginning in one column. -/
def rows (rs : List Row) : String :=
  let width := (rs.map fun r => r.indent.length + r.name.length).foldl max 0
  String.join (rs.map fun r =>
    let used := r.indent.length + r.name.length
    r.indent ++ r.name ++ String.ofList (List.replicate (width - used + 2) ' ') ++ r.about ++ "\n")

/-- The row of an option that has no letter. -/
def optionRow (name : CommandName) (o : Opt) : Row := ⟨"      ", o.usage, o.about name⟩

/-- The row of the request for help. -/
def helpRow : Row := ⟨"  ", "-h, --help", "Print help"⟩

/-- The help of a command. -/
def CommandName.help (name : CommandName) : String :=
  let required := name.required.map Opt.usage
  name.about ++ "\n\nUsage: tokengraph " ++ name.text ++ " [OPTIONS] " ++ " ".intercalate required ++
    "\n\nOptions:\n" ++ rows ((Opt.config :: name.options).map (optionRow name) ++ [helpRow])

/-- The row of a command. -/
def CommandName.row (name : CommandName) : Row := ⟨"  ", name.text, name.about⟩

/-- The help about a topic. -/
def Topic.text : Topic → String
  | .program =>
    "tokengraph - Entity ancestor graphs and refresh propagation\n\nUsage: tokengraph [OPTIONS] <COMMAND>\n\nCommands:\n" ++
      rows ([CommandName.graph, .paths, .refresh].map CommandName.row ++ [⟨"  ", "help", helpAbout⟩]) ++
      "\nOptions:\n" ++ rows [optionRow .graph .config, helpRow]
  | .command name => name.help
  | .help =>
    helpAbout ++ "\n\nUsage: tokengraph help [COMMAND]...\n\nArguments:\n" ++
      rows [⟨"  ", "[COMMAND]...", "Print help for the subcommand(s)"⟩]

end Lineage.Cli
