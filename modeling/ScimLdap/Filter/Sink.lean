import ScimLdap.Filter.Parser

/-!
# Sinks — where syntax errors go

A caller that reads several texts hands a sink along and looks at it in the end. Each reading reports at
most one error to it. `FailFast` keeps the first error of a whole run; a list keeps them all.
-/

namespace ScimLdap.Filter

/-- A place for syntax errors, seen through the one thing that a reading does with it. -/
class ErrorSink (σ : Type) where
  report : σ → SyntaxError → σ

instance : ErrorSink (List SyntaxError) where
  report errors e := errors ++ [e]

/-- The first error of a run. Later errors are dropped: they are often no more than consequences of the
    first. -/
structure FailFast where
  error : Option SyntaxError := none
  deriving DecidableEq, Repr, Inhabited

namespace FailFast

def report (sink : FailFast) (e : SyntaxError) : FailFast :=
  ⟨sink.error.or (some e)⟩

instance : ErrorSink FailFast where
  report := report

/-- The outcome of a run: the error that was kept, else the value. With neither there is nothing to say but
    that. -/
def intoResult {α : Type} (sink : FailFast) (value : Option α) : Except SyntaxError α :=
  match sink.error, value with
  | some e, _ => .error e
  | none, some v => .ok v
  | none, none => .error ⟨.unparsed, 0, none⟩

end FailFast

section
variable {σ : Type} [ErrorSink σ]

/-- The value of an outcome, with its error given to the sink. What the sink holds already makes no difference
    to the value. -/
def deliver {α : Type} (outcome : Except SyntaxError α) (sink : σ) : Option α × σ :=
  match outcome with
  | .ok value => (some value, sink)
  | .error e => (none, ErrorSink.report sink e)

def parseTokensInto (options : Options) (tokens : List Token) (sink : σ) : Option Filter × σ :=
  deliver (parseTokens options tokens) sink

def parseInto (options : Options) (text : String) (sink : σ) : Option Filter × σ :=
  match tokenize options text with
  | .ok tokens => parseTokensInto options tokens sink
  | .error e => (none, ErrorSink.report sink e)

end

def parseTokensFailFast (options : Options) (tokens : List Token) : Except SyntaxError Filter :=
  let (value, sink) := parseTokensInto options tokens ({} : FailFast)
  sink.intoResult value

/-- What a text spells, read with a sink of its own, so that the error is the one of this text. -/
def parseFailFast (options : Options) (text : String) : Except SyntaxError Filter :=
  let (value, sink) := parseInto options text ({} : FailFast)
  sink.intoResult value

end ScimLdap.Filter
