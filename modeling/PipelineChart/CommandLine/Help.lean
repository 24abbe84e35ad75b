/-!
The texts that the command line shows on request.
-/

namespace PipelineChart.Help

def lines (texts : List String) : String := String.join (texts.map (· ++ "\n"))

def version : String := lines ["stagegraph-cli 0.1.0"]

def usage : List String :=
  ["Command-line interface turning Jenkinsfiles into stage graphs", "",
    "Usage: stagegraph [OPTIONS] <INPUT>", ""]

def short : String := lines (usage ++
  ["Arguments:",
    "  <INPUT>  Path to the input file",
    "",
    "Options:",
    "  -o, --output <OUTPUT>        Path to the output JSON file [default: out.json]",
    "  -c, --config <CONFIG>        Path to configuration file (TOML)",
    "      --log-level <LOG_LEVEL>  Log level (off, error, warn, info, debug, trace) [default: info]",
    "  -f, --format <FORMAT>        Shape of the output document [default: flow] " ++
      "[possible values: flow, layout]",
    "      --pretty                 Indent the output JSON",
    "      --strict                 Fail instead of skipping malformed stages",
    "  -h, --help                   Print help (see more with '--help')",
    "  -V, --version                Print version"])

def long : String := lines (usage ++
  ["Arguments:",
    "  <INPUT>",
    "          Path to the input file",
    "",
    "Options:",
    "  -o, --output <OUTPUT>",
    "          Path to the output JSON file",
    "          ",
    "          [default: out.json]",
    "",
    "  -c, --config <CONFIG>",
    "          Path to configuration file (TOML)",
    "",
    "      --log-level <LOG_LEVEL>",
    "          Log level (off, error, warn, info, debug, trace)",
    "          ",
    "          [default: info]",
    "",
    "  -f, --format <FORMAT>",
    "          Shape of the output document",
    "",
    "          Possible values:",
    "          - flow:   Renderer-ready flow-chart document",
    "          - layout: Bare nodes and edges",
    "          ",
    "          [default: flow]",
    "",
    "      --pretty",
    "          Indent the output JSON",
    "",
    "      --strict",
    "          Fail instead of skipping malformed stages",
    "",
    "  -h, --help",
    "          Print help (see a summary with '-h')",
    "",
    "  -V, --version",
    "          Print version"])

end PipelineChart.Help
