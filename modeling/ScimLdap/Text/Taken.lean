/-!
# Taken — a piece off the front of a text

What a reader takes off a text comes with the rest of it, and with the fact that the rest is shorter. So a
reader that goes on with the rest comes to an end, and nothing has to be proved where it does.
-/

namespace ScimLdap.Text

/-- A piece taken off the front of a text, and what is left. That the rest is shorter is a field, so a reader
    that takes no character cannot be written. -/
structure Taken (cs : List Char) (α : Type) where
  piece : α
  rest : List Char
  shorter : rest.length < cs.length

namespace Taken

section
variable {α β : Type} {cs : List Char}

def map (f : α → β) (t : Taken cs α) : Taken cs β :=
  ⟨f t.piece, t.rest, t.shorter⟩

/-- The second of two pieces taken one after the other, as taken off the text of the first. -/
def andThen (t : Taken cs α) (u : Taken t.rest β) : Taken cs β :=
  ⟨u.piece, u.rest, Nat.lt_trans u.shorter t.shorter⟩

def widen {ds : List Char} (u : Taken ds β) (h : ds.length ≤ cs.length) : Taken cs β :=
  ⟨u.piece, u.rest, Nat.lt_of_lt_of_le u.shorter h⟩

end

def one {α : Type} (piece : α) (c : Char) (cs : List Char) : Taken (c :: cs) α :=
  ⟨piece, cs, Nat.lt_succ_self _⟩

def two {α : Type} (piece : α) (c d : Char) (cs : List Char) : Taken (c :: d :: cs) α :=
  ⟨piece, cs, Nat.lt_succ_of_lt (Nat.lt_succ_self _)⟩

end Taken

theorem length_dropWhile_le (p : Char → Bool) (cs : List Char) :
    (cs.dropWhile p).length ≤ cs.length :=
  (List.dropWhile_sublist p).length_le

end ScimLdap.Text
