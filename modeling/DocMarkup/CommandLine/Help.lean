import DocMarkup.CommandLine.Arguments

/-!
# Help

## Main definitions

* `Topic.text` : the help about a topic.
* `versionLine` : the name and the version of the program.
-/

namespace DocMarkup

/-- The name and the version of the program. -/
def versionLine : String := "dj 0.1.0"

namespace Topic

/-- The lines of the help about a topic. -/
def lines : Topic → List String
  | program =>
    ["Djot document tree renderer - CLI",
      "",
      "Usage: dj <COMMAND>",
      "",
      "Commands:",
      "  render    Render djot JSON ASTs to HTML",
      "  sanitize  Sanitize a raw HTML fragment",
      "  help      Print this message or the help of the given subcommand(s)",
      "",
      "Options:",
      "  -h, --help     Print help",
      "  -V, --version  Print version"]
  | render =>
    ["Render djot JSON ASTs to HTML",
      "",
      "Usage: dj render [OPTIONS] [FILES]...",
      "",
      "Arguments:",
      "  [FILES]...  JSON AST files to render (default: read stdin)",
      "",
      "Options:",
      "  -c, --config <CONFIG>",
      "          Path to configuration file (default: auto-discover dj.toml)",
      "      --cache-capacity <CACHE_CAPACITY>",
      "          Compile cache capacity (overrides config) [env: DJ_CACHE_CAPACITY=]",
      "  -v, --verbose",
      "          Enable verbose output (debug logs and a summary line)",
      "  -h, --help",
      "          Print help"]
  | sanitize =>
    ["Sanitize a raw HTML fragment",
      "",
      "Usage: dj sanitize [FILE]",
      "",
      "Arguments:",
      "  [FILE]  HTML fragment file (default: read stdin)",
      "",
      "Options:",
      "  -h, --help  Print help"]
  | help =>
    ["Print this message or the help of the given subcommand(s)",
      "",
      "Usage: dj help [COMMAND]...",
      "",
      "Arguments:",
      "  [COMMAND]...  Print help for the subcommand(s)"]

end Topic

end DocMarkup
