/-!
# Environment variables

Names with their values. The first value of a name counts.
-/

namespace SearchFilter.Environment

abbrev Variables := List (String × String)

namespace Variables

def get? (vars : Variables) (name : String) : Option String := vars.lookup name

def supply (vars : Variables) (name value : String) : Variables :=
  if (vars.get? name).isSome then vars else vars ++ [(name, value)]

end Variables

/-- Where the path of a settings file is given. -/
def configVariable : String := "TDJOBS_CONFIG"

/-- Where the level of the log is given. -/
def logVariable : String := "TDJOBS_LOG"

def backendVariable : String := "TDJOBS_DB_BACKEND"

def databaseUrlVariable : String := "TDJOBS_DATABASE_URL"

def maxFilterBytesVariable : String := "TDJOBS_MAX_FILTER_BYTES"

end SearchFilter.Environment
