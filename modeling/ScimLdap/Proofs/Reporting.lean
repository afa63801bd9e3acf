import ScimLdap.Filter.Sink
import ScimLdap.Service

/-!
# Reporting — one error for each failed reading, and the first one of a run

However a text or tokens are read into a sink, what comes of it is `deliver` of one outcome, and that outcome
is fixed before the sink is looked at (`parseInto_eq_deliver`). The rest follows from there. A sink of any
kind gets the errors of a run one by one, in order (`snd_run`), `FailFast` keeps the first of them, and of a
reading with a sink of its own there is always either a tree or an error to tell.
-/

namespace ScimLdap.Filter

/-! ## One reading -/

/-- Gives a tree and reports nothing, or gives none and reports one error, to sinks of every kind alike. -/
def ReportsOnce (read : (σ : Type) → [ErrorSink σ] → σ → Option Filter × σ) : Prop :=
  (∃ f, ∀ (σ : Type) [ErrorSink σ] (sink : σ), read σ sink = (some f, sink)) ∨
    ∃ e, ∀ (σ : Type) [ErrorSink σ] (sink : σ), read σ sink = (none, ErrorSink.report sink e)

theorem reportsOnce_deliver (outcome : Except SyntaxError Filter) :
    ReportsOnce fun _ _ sink => deliver outcome sink := by
  cases outcome with
  | ok f => exact .inl ⟨f, fun _ _ _ => rfl⟩
  | error e => exact .inr ⟨e, fun _ _ _ => rfl⟩

section
variable {σ : Type} [ErrorSink σ]

/-- The errors of the tokens and of the tree come to the sink on the same way. -/
theorem parseInto_eq_deliver (options : Options) (text : String) (sink : σ) :
    parseInto options text sink = deliver (parse options text) sink := by
  rw [parseInto, parse]
  cases tokenize options text with
  | ok tokens => rfl
  | error e => rfl

/-! ## Runs -/

/-- A use of a sink: to report to it directly, or to read something into it. -/
inductive Use where
  | report (e : SyntaxError)
  | readTokens (options : Options) (tokens : List Token)
  | readText (options : Options) (text : String)

namespace Use

/-- What there is to tell of a use, whichever sink it is of. -/
def outcome : Use → Except SyntaxError Filter
  | report e => .error e
  | readTokens options tokens => parseTokens options tokens
  | readText options text => parse options text

def error? (use : Use) : Option SyntaxError :=
  match use.outcome with
  | .ok _ => none
  | .error e => some e

/-- The value and the sink after a use. A direct report leaves the value as it was. -/
def apply (use : Use) (current : Option Filter × σ) : Option Filter × σ :=
  match use with
  | report e => (current.1, ErrorSink.report current.2 e)
  | readTokens options tokens => parseTokensInto options tokens current.2
  | readText options text => parseInto options text current.2

/-- The value and the sink after several uses. -/
def run (uses : List Use) (current : Option Filter × σ) : Option Filter × σ :=
  uses.foldl (fun current use => use.apply current) current

theorem snd_apply (use : Use) (current : Option Filter × σ) :
    (use.apply current).2 = use.error?.toList.foldl ErrorSink.report current.2 := by
  cases use with
  | report e => rfl
  | readTokens options tokens =>
    simp only [apply, error?, outcome, parseTokensInto]
    cases parseTokens options tokens <;> rfl
  | readText options text =>
    simp only [apply, error?, outcome, parseInto_eq_deliver]
    cases parse options text <;> rfl

theorem fst_apply_of_ok {use : Use} {f : Filter} (h : use.outcome = .ok f) (current : Option Filter × σ) :
    (use.apply current).1 = some f := by
  cases use with
  | report e => cases h
  | readTokens options tokens =>
    rw [outcome] at h
    rw [apply, parseTokensInto, h]
    rfl
  | readText options text =>
    rw [outcome] at h
    rw [apply, parseInto_eq_deliver, h]
    rfl

/-- A sink of any kind gets the errors of all uses, each once, and nothing else. -/
theorem snd_run (uses : List Use) (current : Option Filter × σ) :
    (run uses current).2 = (uses.filterMap error?).foldl ErrorSink.report current.2 := by
  induction uses generalizing current with
  | nil => rfl
  | cons use uses ih =>
    rw [run, List.foldl_cons, ← run, ih, snd_apply]
    cases h : use.error? with
    | none => rw [List.filterMap_cons_none h, Option.toList_none, List.foldl_nil]
    | some e => rw [List.filterMap_cons_some h, Option.toList_some, List.foldl_cons, List.foldl_cons,
        List.foldl_nil]

theorem fst_run_concat {last : Use} {f : Filter} (h : last.outcome = .ok f) (uses : List Use)
    (current : Option Filter × σ) : (run (uses ++ [last]) current).1 = some f := by
  rw [run, List.foldl_append, List.foldl_cons, List.foldl_nil, fst_apply_of_ok h]

end Use

end

/-! ## The first error -/

namespace FailFast

theorem error_foldl_report (errors : List SyntaxError) (sink : FailFast) :
    (errors.foldl ErrorSink.report sink).error = sink.error.or errors.head? := by
  induction errors generalizing sink with
  | nil => simp
  | cons e errors ih =>
    rw [List.foldl_cons, ih]
    show (sink.error.or (some e)).or errors.head? = _
    cases sink.error <;> simp

variable {α : Type} {sink : FailFast} {value : Option α}

theorem intoResult_of_error {e : SyntaxError} (h : sink.error = some e) :
    sink.intoResult value = .error e := by
  simp [intoResult, h]

theorem intoResult_of_value {a : α} (h : sink.error = none) (ha : value = some a) :
    sink.intoResult value = .ok a := by
  simp [intoResult, h, ha]

/-- An outcome is what it was after it has gone through a sink of its own. -/
theorem intoResult_deliver (outcome : Except SyntaxError α) :
    (deliver outcome ({} : FailFast)).2.intoResult (deliver outcome ({} : FailFast)).1 = outcome := by
  cases outcome with
  | ok a => exact intoResult_of_value rfl rfl
  | error e => exact intoResult_of_error rfl

end FailFast

theorem Use.outcome_of_error?_eq_none {use : Use} (h : use.error? = none) : ∃ f, use.outcome = .ok f := by
  unfold error? at h
  split at h
  · next f hf => exact ⟨f, hf⟩
  · cases h

theorem parseTokensFailFast_eq (options : Options) (tokens : List Token) :
    parseTokensFailFast options tokens = parseTokens options tokens :=
  FailFast.intoResult_deliver (parseTokens options tokens)

theorem parseFailFast_eq (options : Options) (text : String) :
    parseFailFast options text = parse options text := by
  have h := parseInto_eq_deliver options text ({} : FailFast)
  simp only [parseFailFast, h]
  exact FailFast.intoResult_deliver (parse options text)

theorem ReportsOnce.value_or_error {read : (σ : Type) → [ErrorSink σ] → σ → Option Filter × σ}
    (h : ReportsOnce read) (sink : FailFast) :
    (read FailFast sink).1 ≠ none ∨ (read FailFast sink).2.error ≠ none := by
  rcases h with ⟨f, hf⟩ | ⟨e, he⟩
  · simp [hf]
  · right
    rw [he]
    show sink.error.or (some e) ≠ none
    simp

/-- **A reading that fails reports one error, and of a run the first one is told.** This is so for texts and for
    tokens, and for sinks of every kind. After any uses of one `FailFast`, what it holds is the first error
    there was; that is the result, and where there was none the result is what the last use read. So a text that
    is read with a sink of its own is never left without a result, and the service, which takes the tokens
    first, says the same of it. -/
theorem first_error_of_run :
    (∀ options text, ReportsOnce fun _ _ sink => parseInto options text sink) ∧
    (∀ options tokens, ReportsOnce fun _ _ sink => parseTokensInto options tokens sink) ∧
    (∀ uses : List Use, ∃ value sink, Use.run uses (none, ({} : FailFast)) = (value, sink) ∧
      sink.error = (uses.filterMap Use.error?).head? ∧
      (∀ e, sink.error = some e → sink.intoResult value = .error e) ∧
      (sink.error = none → ∀ last, uses.getLast? = some last →
        ∃ f, last.outcome = .ok f ∧ value = some f ∧ sink.intoResult value = .ok f)) ∧
    (∀ options text, (parseInto options text ({} : FailFast)).1 ≠ none ∨
      (parseInto options text ({} : FailFast)).2.error ≠ none) ∧
    ∀ (s : FilterService) (text : String), s.parse text = parseFailFast s.options text ∧
      s.parse text = (tokenize s.options text).bind (parseTokensFailFast s.options) := by
  have htext : ∀ options text, ReportsOnce fun _ _ sink => parseInto options text sink := by
    intro options text
    simp only [parseInto_eq_deliver]
    exact reportsOnce_deliver (parse options text)
  refine ⟨htext, fun options tokens => reportsOnce_deliver (parseTokens options tokens), fun uses => ?_,
    fun options text => (htext options text).value_or_error {}, fun s text => ⟨?_, ?_⟩⟩
  · have herror : (Use.run uses (none, ({} : FailFast))).2.error = (uses.filterMap Use.error?).head? := by
      rw [Use.snd_run, FailFast.error_foldl_report, Option.none_or]
    refine ⟨_, _, rfl, herror, fun e he => FailFast.intoResult_of_error he, fun hnone last hlast => ?_⟩
    obtain ⟨earlier, rfl⟩ := List.getLast?_eq_some_iff.mp hlast
    -- Without an error no use has one, so the last was not a report and what it read is the value.
    have hall := List.head?_eq_none_iff.mp (herror.symm.trans hnone)
    have hlast := List.filterMap_eq_nil_iff.mp hall last (by simp)
    obtain ⟨f, hf⟩ := Use.outcome_of_error?_eq_none hlast
    have hvalue := Use.fst_run_concat hf earlier (none, ({} : FailFast))
    exact ⟨f, hf, hvalue, FailFast.intoResult_of_value hnone hvalue⟩
  · rw [parseFailFast_eq, FilterService.parse]
  · rw [funext (parseTokensFailFast_eq s.options), FilterService.parse, parse]

end ScimLdap.Filter
