import ScimLdap.Proofs.Reading

/-!
# Renaming — the machine does not look into names

Reading copies names into the tree and never asks what they are, nor which of the two separators stands in a
path, nor where a token stands. `Token.outline ν` keeps of a token what is left, with names renamed by `ν`.
Reading the outlines of tokens yields the renamed tree (`toOption_parseTokens_outline`), for any `ν`: one
that folds case says that the case of names cannot change what is accepted, and one that is constant says
that names do not matter at all. One step commutes with renaming (`next?_rename`), and so does every run.
-/

namespace ScimLdap

/-- A path with its names renamed. -/
def AttrPath.rename (ν : String → String) (p : AttrPath) : AttrPath :=
  ⟨ν p.attr, p.sub.map ν⟩

namespace Filter

/-! ## Trees -/

mutual

/-- A tree with the names in its paths renamed. -/
def rename (ν : String → String) : Filter → Filter
  | .compare path op value => .compare (path.rename ν) op value
  | .present path => .present (path.rename ν)
  | .logical connective operands => .logical connective (renameAll ν operands)
  | .group inner => .group (rename ν inner)

def renameAll (ν : String → String) : List Filter → List Filter
  | [] => []
  | f :: fs => rename ν f :: renameAll ν fs

end

variable {ν : String → String}

theorem renameAll_eq_map (fs : List Filter) : renameAll ν fs = fs.map (rename ν) := by
  induction fs with
  | nil => rfl
  | cons f fs ih => rw [renameAll, ih, List.map_cons]

theorem rename_combine (c : Connective) (fs : List Filter) :
    (combine c fs).rename ν = combine c (fs.map (rename ν)) := by
  match fs with
  | [] | [_] => rfl
  | f :: g :: fs =>
    show rename ν (.logical c (f :: g :: fs)) = .logical c ((f :: g :: fs).map (rename ν))
    rw [rename, renameAll_eq_map]

/-! ## States -/

def Operands.rename (ν : String → String) (os : Operands) : Operands :=
  ⟨os.conjunctions.map (Filter.rename ν), os.current.map (Filter.rename ν)⟩

theorem Operands.rename_endConjunction (os : Operands) :
    os.endConjunction.rename ν = (os.rename ν).endConjunction := by
  simp [endConjunction, Operands.rename, rename_combine]

theorem Operands.rename_toFilter (os : Operands) : os.toFilter.rename ν = (os.rename ν).toFilter := by
  rw [toFilter, rename_combine, toFilter, ← rename_endConjunction, Operands.rename, List.map_reverse]

def Scope.rename (ν : String → String) (scope : Scope) : Scope :=
  ⟨scope.opening, scope.outer.rename ν⟩

theorem Opening.rename_close (opening : Opening) (f : Filter) :
    (opening.close f).rename ν = opening.close (f.rename ν) := by
  cases opening <;> rfl

def Place.rename (ν : String → String) : Place → Place
  | .operand => .operand
  | .negated => .negated
  | .name attr => .name (ν attr)
  | .separator attr => .separator (ν attr)
  | .path p => .path (p.rename ν)
  | .operator p op => .operator (p.rename ν) op
  | .joint => .joint

/-- What reading takes from a token: its kind, with one separator for both, and its text if it is a name, which
    is renamed. -/
def Token.outline (ν : String → String) (t : Token) : Token where
  kind := if t.kind = .dot then .colon else t.kind
  text := if t.kind = .name then ν t.text else ""
  position := 0

@[simp] theorem Token.isEof_outline (t : Token) : (t.outline ν).isEof = t.isEof := by
  by_cases h : t.kind = .dot
  · rw [isEof, isEof, outline, if_pos h, h]
    rfl
  · rw [isEof, isEof, outline, if_neg h]

namespace State

def rename (ν : String → String) (s : State) : State :=
  ⟨s.scopes.map (Scope.rename ν), s.operands.rename ν, s.place.rename ν⟩

variable {s : State} {t : Token}

theorem rename_push (s : State) (f : Filter) : (s.push f).rename ν = (s.rename ν).push (f.rename ν) := by
  simp [push, Operands.push, rename, Operands.rename, Place.rename]

theorem afterPath?_rename (s : State) (p : AttrPath) (t : Token) :
    (s.rename ν).afterPath? (p.rename ν) (t.outline ν).kind
      = (s.afterPath? p t.kind).map (rename ν) := by
  cases hk : t.kind with
  | present =>
    simp [Token.outline, hk, afterPath?, rename_push, Filter.rename]
  | compareOp op => simp [Token.outline, hk, afterPath?, moveTo, rename, Place.rename]
  | _ => simp [Token.outline, hk, afterPath?]

theorem afterOperand?_rename (s : State) (t : Token) :
    (s.rename ν).afterOperand? (t.outline ν).kind = (s.afterOperand? t.kind).map (rename ν) := by
  obtain ⟨scopes, os, place⟩ := s
  cases hk : t.kind with
  | and => simp [Token.outline, hk, afterOperand?, moveTo, rename, Place.rename]
  | or =>
    simp [Token.outline, hk, afterOperand?, rename, Place.rename, Operands.rename_endConjunction]
  | closeParen =>
    cases scopes with
    | nil => simp [Token.outline, hk, afterOperand?, rename]
    | cons scope scopes =>
      simp [Token.outline, hk, afterOperand?, rename, Place.rename, Scope.rename, Operands.push,
        Operands.rename, Opening.rename_close, Operands.rename_toFilter]
  | _ => simp [Token.outline, hk, afterOperand?]

/-- One step of the renamed state on the outline of a token is the renamed step. -/
theorem next?_rename (s : State) (t : Token) :
    (s.rename ν).next? (t.outline ν) = (s.next? t).map (rename ν) := by
  have hpath := afterPath?_rename (ν := ν) s
  have hoperand := afterOperand?_rename (ν := ν) s
  obtain ⟨scopes, os, place⟩ := s
  cases place with
  | operand =>
    cases hk : t.kind <;>
      simp [next?, rename, Place.rename, Token.outline, hk, moveTo, enter, Scope.rename,
        Operands.rename]
  | negated =>
    cases hk : t.kind <;>
      simp [next?, rename, Place.rename, Token.outline, hk, enter, Scope.rename, Operands.rename]
  | name attr =>
    have hsep : (t.outline ν).kind = .colon ∨ (t.outline ν).kind = .dot ↔
        t.kind = .colon ∨ t.kind = .dot := by
      cases hk : t.kind <;> simp [Token.outline, hk]
    by_cases h : t.kind = .colon ∨ t.kind = .dot
    · simp [next?, rename, Place.rename, if_pos (hsep.mpr h), if_pos h, moveTo]
    · have := hpath ⟨attr, none⟩ t
      simp only [next?, rename, Place.rename, if_neg (fun h' => h (hsep.mp h')), if_neg h]
      exact this
  | separator attr =>
    cases hk : t.kind <;>
      simp [next?, rename, Place.rename, Token.outline, hk, moveTo, AttrPath.rename]
  | path p => exact hpath p t
  | operator p op =>
    have hlit : (t.outline ν).kind.literal? = t.kind.literal? := by
      cases hk : t.kind <;> simp [Token.outline, hk, TokenKind.literal?]
    simp only [next?, rename, Place.rename, hlit, Option.map_map]
    rfl
  | joint => exact hoperand t

theorem tooDeep_rename (d : Nat) (s : State) : (s.rename ν).tooDeep d = s.tooDeep d := by
  have hplace : (s.place.rename ν == .operand) = (s.place == .operand) := by
    cases hp : s.place <;> rfl
  rw [tooDeep, tooDeep, rename, hplace, List.length_map]

theorem finished?_rename (s : State) : (s.rename ν).finished? = s.finished?.map (Filter.rename ν) := by
  obtain ⟨scopes, os, place⟩ := s
  cases place <;> cases scopes <;> simp [finished?, rename, Place.rename, Operands.rename_toFilter]

theorem step_rename (d : Nat) (s : State) (t : Token) :
    ((s.rename ν).step d (t.outline ν)).toOption = (s.step d t).toOption.map (rename ν) := by
  rw [step, step, tooDeep_rename, next?_rename]
  cases s.tooDeep d <;> cases s.next? t <;> rfl

/-- A run on outlines accepts what the run on the tokens accepts, and yields the renamed tree. -/
theorem toOption_run_outline (d : Nat) (s : State) (ts : List Token) :
    (run d (s.rename ν) (ts.map (Token.outline ν))).toOption
      = (run d s ts).toOption.map (Filter.rename ν) := by
  induction ts generalizing s with
  | nil => rfl
  | cons t ts ih =>
    have hend : (if (t.outline ν).isEof = true then (s.rename ν).finished? else none)
        = (if t.isEof = true then s.finished? else none).map (Filter.rename ν) := by
      rw [Token.isEof_outline, finished?_rename]
      split <;> rfl
    rw [List.map_cons, run, run, hend]
    cases if t.isEof = true then s.finished? else none with
    | some f => rfl
    | none =>
      simp only [Option.map_none]
      rw [Outcome.toOption_bind, Outcome.toOption_bind, step_rename, Option.bind_map, Option.map_bind]
      congr 1
      funext s'
      exact ih s'

/-! ### Steps without limits -/

/-- The state after several tokens when parentheses may nest as they like. -/
def follow (s : State) : List Token → Option State
  | [] => some s
  | t :: ts => (s.next? t).bind (fun s' => follow s' ts)

theorem follow_of_feed {d : Nat} {s s' : State} {ts : List Token} (h : feed d s ts = .ok s') :
    s.follow ts = some s' := by
  induction ts generalizing s with
  | nil => cases h; rfl
  | cons t ts ih =>
    obtain ⟨s₁, hs, h⟩ := Outcome.bind_eq_ok_iff.mp h
    rw [follow, (step_eq_ok_iff.mp hs).2]
    exact ih h

theorem follow_rename (s : State) (ts : List Token) :
    (s.rename ν).follow (ts.map (Token.outline ν)) = (s.follow ts).map (rename ν) := by
  induction ts generalizing s with
  | nil => rfl
  | cons t ts ih =>
    rw [List.map_cons, follow, follow, next?_rename, Option.bind_map, Option.map_bind]
    congr 1
    funext s'
    exact ih s'

end State

/-! ## Token lists -/

/-- **Reading the outlines yields the renamed tree**, and nothing where the tokens yield nothing. -/
theorem toOption_parseTokens_outline (options : Options) (tokens : List Token) :
    (parseTokens options (tokens.map (Token.outline ν))).toOption
      = (parseTokens options tokens).toOption.map (Filter.rename ν) := by
  rw [parseTokens, parseTokens, List.getLast?_map]
  cases tokens.getLast? with
  | none => rfl
  | some last =>
    simp only [Option.map_some, Token.isEof_outline]
    split
    · exact State.toOption_run_outline options.maxDepth {} tokens
    · rfl

end Filter

end ScimLdap
