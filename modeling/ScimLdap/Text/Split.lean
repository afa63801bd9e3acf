import ScimLdap.Text.Blank

/-!
# Split — a text cut at a separator

`splitOn` cuts at every occurrence, so `n` separators give `n + 1` pieces; `splitOnce` cuts at the first
one only and says whether there was one.
-/

namespace ScimLdap.Text

/-- The pieces between the characters of a class; never an empty list. -/
def splitOn (isSep : Char → Bool) : List Char → List (List Char)
  | [] => [[]]
  | c :: cs =>
    if isSep c then [] :: splitOn isSep cs
    else match splitOn isSep cs with
      | [] => [[c]]
      | piece :: pieces => (c :: piece) :: pieces

theorem splitOn_ne_nil (isSep : Char → Bool) (cs : List Char) : splitOn isSep cs ≠ [] := by
  cases cs with
  | nil => simp [splitOn]
  | cons c cs => simp only [splitOn]; split <;> simp; split <;> simp

section
variable {isSep : Char → Bool} {front : List Char}

theorem splitOn_of_none (h : ∀ d ∈ front, isSep d = false) : splitOn isSep front = [front] := by
  induction front with
  | nil => rfl
  | cons d front ih =>
    rw [splitOn, if_neg (by simp [h d List.mem_cons_self]), ih fun e he => h e (List.mem_cons_of_mem _ he)]

theorem splitOn_append (h : ∀ d ∈ front, isSep d = false) {c : Char} (hc : isSep c = true)
    (rest : List Char) : splitOn isSep (front ++ c :: rest) = front :: splitOn isSep rest := by
  induction front with
  | nil => rw [List.nil_append, splitOn, if_pos hc]
  | cons d front ih =>
    rw [List.cons_append, splitOn, if_neg (by simp [h d List.mem_cons_self]),
      ih fun e he => h e (List.mem_cons_of_mem _ he)]

end

/-- The part before the first character of a class, and the part after it if there is one. -/
def splitOnce (isSep : Char → Bool) : List Char → List Char × Option (List Char)
  | [] => ([], none)
  | c :: cs =>
    if isSep c then ([], some cs)
    else ((c :: (splitOnce isSep cs).1), (splitOnce isSep cs).2)

/-- The items of a comma-separated list, trimmed, blank ones left out. Nothing can stand for a comma inside an
    item. -/
def commaList (s : String) : List String :=
  (((splitOn (· == ',') s.toList).map trimChars).filter (fun item => !item.isEmpty)).map String.ofList

example : commaList " uid, ,mail ,," = ["uid", "mail"] := by decide +kernel

end ScimLdap.Text
