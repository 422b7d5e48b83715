import ActionCatalogue.App.Inquiry
import ActionCatalogue.Data.Record

/-!
What a deferred function is given when the host calls it: the connection, its options, and the
option values chosen so far. It may ask the world outside before it answers or fails with a text.
-/

namespace ActionCatalogue

open Json

structure ActionContext where
  connection : String := ""
  /-- The options of the connection, its access token among them. -/
  connectionOptions : Object := []
  options : Object := []

/-- A function that is kept until the host asks for its answer. -/
abbrev Deferred (α : Type) := ActionContext → Inquiry String α

namespace ActionContext

def fieldNames : List String := ["conn_name", "conn_opts", "opts"]

def ofNode (n : Node) : Reading ActionContext :=
  n.asRecord fieldNames fun r =>
    ActionContext.mk <$> r.text "conn_name" <*> r.orDefault "conn_opts" [] Node.asObject
      <*> r.orDefault "opts" [] Node.asObject

def toJson (c : ActionContext) : Value :=
  .object [("conn_name", .text c.connection), ("conn_opts", .object c.connectionOptions),
    ("opts", .object c.options)]

def token? (c : ActionContext) : Option String :=
  (Entries.lookup "token" c.connectionOptions).bind Value.text?

end ActionContext

end ActionCatalogue
