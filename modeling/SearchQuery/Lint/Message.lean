import SearchQuery.Document

/-! # Lint messages

What a lint reports: messages, each with a level and the place in the request it is about. -/
namespace SearchQuery.Lint

inductive Level
  | warn
  | error
deriving DecidableEq, Repr

namespace Level

def name : Level → String
  | warn => "warn"
  | error => "error"

def ofName? (s : String) : Option Level :=
  if s = "warn" then some warn else if s = "error" then some error else none

def read : Document.Reader Level := .choice ofName?

end Level

structure Message where
  level : Level
  message : String
  path : String
deriving DecidableEq

namespace Message

def warn (message path : String) : Message := ⟨.warn, message, path⟩

def error (message path : String) : Message := ⟨.error, message, path⟩

/-- The message on one line. -/
def line (m : Message) : String := m.level.name ++ ": " ++ m.message ++ " (" ++ m.path ++ ")"

def toJson (m : Message) : Json :=
  .obj [("level", .str m.level.name), ("message", .str m.message), ("path", .str m.path)]

def read : Document.Reader Message := fun d doc => do
  let r ← Document.record? ["level", "message", "path"] d doc
  pure ⟨← r.required "level" Level.read, ← r.required "message" .text, ← r.required "path" .text⟩

end Message

/-- The outcome of a lint. -/
structure Report where
  ok : Bool
  messages : List Message
deriving DecidableEq

namespace Report

/-- A request is fine as long as there is no error. -/
def ofMessages (ms : List Message) : Report := ⟨!ms.any fun m => m.level = .error, ms⟩

def errors (r : Report) : List Message := r.messages.filter fun m => m.level = .error

def warnings (r : Report) : List Message := r.messages.filter fun m => m.level = .warn

def hasWarnings (r : Report) : Bool := !r.warnings.isEmpty

def toJson (r : Report) : Json :=
  .obj [("ok", .bool r.ok), ("messages", .arr (r.messages.map Message.toJson))]

def read : Document.Reader Report := fun d doc => do
  let r ← Document.record? ["ok", "messages"] d doc
  pure ⟨← r.required "ok" .bool, ← r.required "messages" (.list Message.read)⟩

end Report
end SearchQuery.Lint
