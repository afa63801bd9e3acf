/-!
# Caseless — ASCII letters without their case

Keywords, table keys and the names of entities are compared without regard to ASCII case. Only the
letters `A` to `Z` fold; every other character, also a letter with a case of its own, stands for itself.
-/

namespace ScimLdap.Text

/-- The text with `A` to `Z` made small. It keeps its length in characters and in bytes, so positions in it are
    those of the text. -/
def foldCase (s : String) : String :=
  s.map Char.toLower

def sameFold (a b : String) : Bool :=
  foldCase a == foldCase b

@[simp] theorem toList_foldCase (s : String) : (foldCase s).toList = s.toList.map Char.toLower :=
  String.toList_map

theorem foldCase_append (a b : String) : foldCase (a ++ b) = foldCase a ++ foldCase b := by
  apply String.toList_inj.mp
  simp

theorem sameFold_iff {a b : String} : sameFold a b = true ↔ foldCase a = foldCase b := by
  simp [sameFold]

example : foldCase "AÉz_9" = "aÉz_9" := by decide +kernel

end ScimLdap.Text
