/-!
# Width — how long a text is in UTF-8

Positions in a filter are counted in bytes of its UTF-8 form. `width` measures a run of characters;
`width_append` lets a reader add up what it has passed.
-/

namespace ScimLdap.Text

/-- The number of bytes in which a run of characters is written in UTF-8. -/
def width (cs : List Char) : Nat :=
  cs.foldr (fun c n => c.utf8Size + n) 0

@[simp] theorem width_nil : width [] = 0 := rfl

@[simp] theorem width_cons (c : Char) (cs : List Char) : width (c :: cs) = c.utf8Size + width cs := rfl

@[simp] theorem width_append (a b : List Char) : width (a ++ b) = width a + width b := by
  induction a with
  | nil => simp
  | cons c a ih => rw [List.cons_append, width_cons, width_cons, ih, Nat.add_assoc]

/-- A position that moves on by two runs moves on by both at once. -/
theorem add_width_add (n : Nat) (a b : List Char) : n + width a + width b = n + width (a ++ b) := by
  rw [width_append, Nat.add_assoc]

theorem add_width_singleton_add (n : Nat) (c : Char) (cs : List Char) :
    n + width [c] + width cs = n + width (c :: cs) :=
  add_width_add n [c] cs

/-- The characters of a text are as wide as the text is long. -/
theorem width_toList (s : String) : width s.toList = s.utf8ByteSize := by
  have hall : ∀ cs : List Char, (String.ofList cs).utf8ByteSize = width cs := by
    intro cs
    induction cs with
    | nil => rfl
    | cons c cs ih =>
      have hsplit : String.ofList (c :: cs) = String.singleton c ++ String.ofList cs := by
        apply String.toList_inj.mp
        simp
      rw [hsplit, String.utf8ByteSize_append, String.utf8ByteSize_singleton, ih, width_cons]
  rw [← hall, String.ofList_toList]

example : width "é😀".toList = 6 := by decide

end ScimLdap.Text
