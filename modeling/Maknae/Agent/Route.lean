import Maknae.Kernel.Mutation
import Maknae.Proto.EgressFrame

/-!
# From a proposed call to a request

The two tools of the loop, and what a call of one asks for. A call that cannot be routed is answered
to the model as a tool error and nothing is asked of the kernel. The decoding of the arguments is
the JSON library's.
-/

namespace Maknae.Agent

open Config (byteLength)
open Kernel (PageRequest isWhitespace maxMutationPathBytes)
open Proto Text

/-- What a call asks of the kernel. -/
inductive ToolRequest
  | read (callId path : String) (page : PageRequest)
  | write (callId path : String) (content : List UInt8)

/-- Why a call is not routed. -/
inductive RouteError
  | unknownTool (name : String)
  | badArguments (message : String)
  | argumentsOverBound (bytes : ℕ)
  | emptyPath
  | relativePath
  | malformedPath
  | homeUnavailable
deriving DecidableEq, Repr

structure ReadArgs where
  path : String
  offset : Option UInt64
  limit : Option UInt32
  column : Option UInt64

structure WriteArgs where
  path : String
  content : String

/-- The decoding of a tool's arguments, with the library's message where it fails. -/
structure ArgsDecoder where
  readArgs : String → Except String ReadArgs
  writeArgs : String → Except String WriteArgs

def pageRequestIsAcceptable (p : PageRequest) : Bool := 1 ≤ p.offsetLine && 1 ≤ p.limitLines

def firstLine : UInt64 := 1
def defaultLimit : UInt32 := 2000

/-- An object is asked for by its first character: a list would decode too. -/
def requireObject (args : String) : Except RouteError Unit :=
  if (args.toList.dropWhile isWhitespace).head? = some '\x7b' then .ok ()
  else .error (.badArguments "tool arguments must be a JSON object")

/-- `~` and `~/rest` stand for the home; no other `~` is expanded. -/
def expandHome (p : String) (home : Option String) : Except RouteError String :=
  if !startsWithChar '~' p then .ok p
  else
    match p.toList with
    | ['~'] => (home.map Except.ok).getD (.error .homeUnavailable)
    | '~' :: '/' :: rest =>
      (home.map fun h ↦ .ok (h ++ "/" ++ String.ofList rest)).getD (.error .homeUnavailable)
    | _ => .error .relativePath

/-- An absolute path in canonical form. -/
def checkedPath (p : String) (home : Option String) : Except RouteError String :=
  if p = "" then .error .emptyPath
  else do
    let p ← expandHome p home
    if maxMutationPathBytes < byteLength p ∨ '\x00' ∈ p.toList then .error .malformedPath
    else if !startsWithChar '/' p then .error .relativePath
    else if p = "/" then .ok p
    else if ∃ seg ∈ split '/' (drop 1 p), seg = "" ∨ seg = "." ∨ seg = ".." then
      .error .malformedPath
    else .ok p

variable (decoder : ArgsDecoder)

/-- A read of a page, from the first line where none is named. -/
def routeRead (call : ProposedToolCall) (home : Option String) : Except RouteError ToolRequest := do
  requireObject call.arguments
  let a ← (decoder.readArgs call.arguments).mapError .badArguments
  let page : PageRequest := ⟨a.offset.getD firstLine, a.limit.getD defaultLimit, a.column.getD 0⟩
  if !pageRequestIsAcceptable page then
    .error (.badArguments "offset and limit must be at least 1")
  else return .read call.callId (← checkedPath a.path home) page

def routeWrite (call : ProposedToolCall) (home : Option String) :
    Except RouteError ToolRequest := do
  requireObject call.arguments
  let a ← (decoder.writeArgs call.arguments).mapError .badArguments
  let path ← checkedPath a.path home
  return .write call.callId path (utf8Bytes a.content)

/-- What a call asks for. A call that lost its arguments on the way is refused first. -/
def route (call : ProposedToolCall) (home : Option String) : Except RouteError ToolRequest :=
  match call.refused with
  | some (.argumentsOverBound bytes) => .error (.argumentsOverBound bytes)
  | none =>
    if call.name = "read_file" then routeRead decoder call home
    else if call.name = "write_file" then routeWrite decoder call home
    else .error (.unknownTool call.name)

end Maknae.Agent
