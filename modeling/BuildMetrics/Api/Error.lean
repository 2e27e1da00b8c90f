import BuildMetrics.Config.Codec
import BuildMetrics.Sink.Basic

/-!
# Errors of the interface

A request that was understood may still be answered with an error. Each kind of error has a
status, a code for programs and a title for people.
-/

namespace BuildMetrics.Api

/-- The kinds of errors. -/
inductive ErrorKind where
  /-- what was asked for is not there -/
  | notFound
  /-- what was asked for makes no sense -/
  | badRequest
  /-- no sink can be opened -/
  | sinkUnavailable
  /-- something else went wrong -/
  | internalError
  deriving DecidableEq, Repr

namespace ErrorKind

/-- The status of the answer. -/
def status : ErrorKind → Nat
  | notFound => 404
  | badRequest => 400
  | sinkUnavailable => 503
  | internalError => 500

/-- The code for programs. -/
def code : ErrorKind → String
  | notFound => "NOT_FOUND"
  | badRequest => "BAD_REQUEST"
  | sinkUnavailable => "SINK_UNAVAILABLE"
  | internalError => "INTERNAL_ERROR"

/-- The title for people. -/
def title : ErrorKind → String
  | notFound => "not found"
  | badRequest => "bad request"
  | sinkUnavailable => "sink unavailable"
  | internalError => "internal error"

end ErrorKind

/-- An error with its wording. -/
structure Error where
  /-- the kind -/
  kind : ErrorKind
  /-- what went wrong -/
  message : String
  deriving DecidableEq, Repr

namespace Error

/-- The error as people read it. -/
def text (e : Error) : String := e.kind.title ++ ": " ++ e.message

/-- The error as it is answered. -/
def body (e : Error) : Json :=
  .object
    [("success", .bool false),
      ("error", .object [("code", .string e.kind.code), ("message", .string e.message)])]

/-- A configuration that cannot be used was a bad request, unless it is a file that cannot be
read. -/
def ofConfigError (e : ConfigError) : Error :=
  match e with
  | .unreadable _ _ => ⟨.internalError, e.message⟩
  | _ => ⟨.badRequest, e.message⟩

/-- A sink that fails is not available. -/
def ofSinkError (e : SinkError) : Error := ⟨.sinkUnavailable, e.message⟩

end Error

end BuildMetrics.Api
