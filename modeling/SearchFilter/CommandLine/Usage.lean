import SearchFilter.CommandLine.Values

/-!
# What is said of command lines

The name and the version of the program, how it is used, and why a command line is not carried out.
-/

namespace SearchFilter.CommandLine

def programName : String := "tdjobs"

def programTitle : String := "TD Jobs"

def version : String := "0.4.0"

def versionText : String := s!"{programName} {version}\n"

def usage : String :=
  "\n".intercalate
    ["Compile and run JSON search filters for jobs, offers and invitations", "",
      s!"Usage: {programName} [OPTIONS] <COMMAND>", "",
      "Commands:",
      "  fields <ENTITY>            List the fields an entity can be filtered on",
      "  compile <ENTITY> <FILTER>  Compile a filter and print the predicate",
      "  search <ENTITY> <FILTER>   Run a filter and print matching ids",
      "  help                       Print this message", "",
      "Options:",
      "  -c, --config <CONFIG>                      Path to config file",
      "      --backend <BACKEND>                    Database backend (sqlite or postgres)",
      "      --database-url <DATABASE_URL>          Database connection URL",
      "      --max-filter-bytes <MAX_FILTER_BYTES>  Maximum accepted filter size in bytes",
      "      --dialect <DIALECT>                    Bind a compiled filter for a dialect",
      "  -h, --help                                 Print help",
      "  -V, --version                              Print version", ""]

def Rejection.message : Rejection → String
  | .helpWanted | .versionWanted => ""
  | .nothingGiven | .commandMissing => "a command is required"
  | .commandUnknown => "unrecognized command"
  | .argumentUnknown => "unexpected argument"
  | .argumentMissing => "a required argument was not provided"
  | .valueMissing => "a value is required"
  | .valueUnwanted => "an option takes no value"
  | .valueInvalid => "invalid value"
  | .argumentRepeated => "an argument cannot be used multiple times"

/-- The questions are answered; everything else is a wrong use of the program. -/
def Rejection.exitCode : Rejection → Nat
  | .helpWanted | .versionWanted => 0
  | _ => 2

end SearchFilter.CommandLine
