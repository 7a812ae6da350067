import RegAtlas.CommandLine.Command

namespace RegAtlas.CommandLine

def versionLine : String := "reggen 0.1.0"

def sharedOptions : List String := [
  "  -v, --verbose...  More log output (-v info, -vv debug, -vvv trace)",
  "  -q, --quiet       Only log errors",
  "  -h, --help        Print help"]

def genOptions : List String := [
  "      --dump <FILE>                    Register dump to decode (md.regdumpanalysis)",
  "  -v, --verbose...                     More log output (-v info, -vv debug, -vvv trace)",
  "      --config <FILE>                  TOML file with generator options. Flags below override it",
  "  -q, --quiet                          Only log errors",
  "      --clang-format-guard <BOOL>      Surround C output with clang-format off/on [possible values:",
  "                                       true, false]",
  "      --registers-as-bitfields <BOOL>  Make C register structs bitfields [possible values: true,",
  "                                       false]",
  "      --generic-funcs <BOOL>           Generate C `_Generic` pack/unpack macros [possible values:",
  "                                       true, false]",
  "      --field-enum-prefix <BOOL>       Prefix local C field enums with the register name [possible",
  "                                       values: true, false]",
  "      --macro-prefix <PREFIX>          Prefix for C identifiers instead of the map name",
  "      --add-include <HEADER>           Extra header to include in C output, may be repeated",
  "  -h, --help                           Print help"]

def helpLines : Topic → List String
  | .program => [
    "Validate register listings and generate headers and documentation from them", "",
    "Usage: reggen [OPTIONS] <COMMAND>", "",
    "Commands:",
    "  gen       Run a generator on a register listing",
    "  validate  Check a register listing without generating anything",
    "  list      List all generators",
    "  help      Print this message or the help of the given subcommand(s)", "",
    "Options:"] ++ sharedOptions ++ [
    "  -V, --version     Print version"]
  | .gen => [
    "Run a generator on a register listing", "",
    "Usage: reggen gen [OPTIONS] <INPUT> <OUTPUT> <GENERATOR>", "",
    "Arguments:",
    "  <INPUT>      Register listing (YAML, or HJSON for .hjson/.json files)",
    "  <OUTPUT>     Output file, or `-` for stdout",
    "  <GENERATOR>  Generator name, see `reggen list`", "",
    "Options:"] ++ genOptions
  | .validate => [
    "Check a register listing without generating anything", "",
    "Usage: reggen validate [OPTIONS] <INPUT>", "",
    "Arguments:",
    "  <INPUT>  Register listing (YAML, or HJSON for .hjson/.json files)", "",
    "Options:"] ++ sharedOptions
  | .list => [
    "List all generators", "",
    "Usage: reggen list [OPTIONS]", "",
    "Options:"] ++ sharedOptions
  | .help => [
    "Print this message or the help of the given subcommand(s)", "",
    "Usage: reggen help [COMMAND]...", "",
    "Arguments:",
    "  [COMMAND]...  Print help for the subcommand(s)"]

def refusalLines : List String := [
  "error: the arguments make no sense", "",
  "Usage: reggen [OPTIONS] <COMMAND>", "",
  "For more information, try '--help'."]

end RegAtlas.CommandLine
