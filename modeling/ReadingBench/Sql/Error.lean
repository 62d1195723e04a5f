namespace ReadingBench.Sql

/-- Faults of the connection's driver. -/
inductive DriverFault where
  | io
  | tls
  | poolTimedOut
  | poolClosed
  | workerCrashed
  | rowNotFound
  | protocol
  deriving DecidableEq

inductive Error where
  /-- The server refused the statement; its number is not always known. -/
  | database (number : Option UInt16) (message : String)
  | connection (message : String)
  | parse (message : String)
  | decode (message : String)
  | unknownTable (table : String)
  | driver (fault : DriverFault)
  deriving DecidableEq

/-- The classes of errors that callers tell apart. -/
inductive ErrorKind where
  /-- A lock or transaction conflict: the statement may succeed when it is repeated later. -/
  | transient
  /-- A violated constraint. -/
  | constraint
  /-- The session could not be established or was lost. -/
  | connection
  | other
  deriving DecidableEq

namespace Error

def server (number : UInt16) (message : String) : Error := database (some number) message

def unknownColumn (column table : String) : Error :=
  server 1054 s!"Unknown column '{column}' in '{table}'"

def duplicateEntry (table : String) : Error := server 1062 s!"Duplicate entry for key in '{table}'"

def sessionClosed : Error := connection "session is closed"

def unsupported (verb : String) : Error := parse s!"unsupported statement: {verb}"

def number? : Error → Option UInt16
  | database number _ => number
  | _ => none

/-- The kind of a server error, by its number. -/
def kindOfNumber : UInt16 → ErrorKind
  | 1205 | 1213 | 1637 => .transient
  | 1062 => .constraint
  | 2006 | 2013 => .connection
  | _ => .other

def kind : Error → ErrorKind
  | database (some number) _ => kindOfNumber number
  | connection _ => .connection
  | driver .io | driver .tls | driver .poolTimedOut | driver .poolClosed => .connection
  | _ => .other

def isTransient (e : Error) : Bool := e.kind = .transient

def message : Error → String
  | database (some number) m => s!"Database error {number.toNat}: {m}"
  | database none m => s!"Database error ?: {m}"
  | connection m => s!"Connection error: {m}"
  | parse m => s!"Parse error: {m}"
  | decode m => s!"Decode error: {m}"
  | unknownTable table => s!"Unknown table: {table}"
  | driver _ => "Driver error"

end Error
end ReadingBench.Sql
