import LineSearch.Search.Walk

namespace LineSearch.Search

/-!
# Calls on one channel

One search can be called several times, each time for something else, and all
calls share one channel. A call that failed leaves the channel as it is, and the
next call goes on from there.
-/

/-- What a search is called for. -/
inductive Call where
  /-- Paths, one after the other. -/
  | operands (paths : List String)
  /-- A path to a file or a directory. -/
  | operand (path : String)
  /-- A directory and all that is below it. -/
  | directory (path : String)
  | file (path : String)
  /-- A source that goes by a label, or by none. -/
  | source (label? : Option String) (source : Source)

/-- What is done in a call. -/
def action (search : Search) : Call → Output.Action Bool
  | .operands paths => search.operands paths
  | .operand path => search.operand path
  | .directory path => search.directory path
  | .file path => search.file path
  | .source label? source => search.source label? source

/-- Call a search, with its lines going to a channel. -/
def perform
    (search : Search)
    (channel : Output.Channel)
    (call : Call) :
    Output.Delivery :=
  (search.action call).deliver channel

/-- Call a search again and again, each time on the channel the call before left. -/
def performAll
    (search : Search)
    (channel : Output.Channel) :
    List Call → List Output.Delivery
  | [] => []
  | call :: rest =>
      let delivery := search.perform channel call
      delivery :: search.performAll delivery.channel rest

end LineSearch.Search
