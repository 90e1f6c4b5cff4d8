/-!
The two spellings of a class name: with dots, as in `a.b.C`, and with slashes, as in `a/b/C`.
-/

set_option autoImplicit false
set_option relaxedAutoImplicit false

namespace ClassWeaver.ClassName

/-- The name with every `old` replaced by `new`. -/
def respell (old new : Char) (name : String) : String :=
  String.ofList (name.toList.map fun c ↦ if c = old then new else c)

def dotted (name : String) : String :=
  respell '/' '.' name

def slashed (name : String) : String :=
  respell '.' '/' name

/-- The resource that holds the class file of `name`. -/
def resource (name : String) : String :=
  slashed name ++ ".class"

/-- The name in a signature such as `La/b/C;`. Any other signature stands for itself. -/
def ofSignature (signature : String) : String :=
  match signature.toList with
  | 'L' :: rest => if rest.getLast? = some ';' then String.ofList rest.dropLast else signature
  | _ => signature

/-- Respelling first does not matter if both spellings of that character end up the same. -/
theorem respell_respell {old new other spelled : Char}
    (h : (if spelled = old then new else spelled) = if other = old then new else other)
    (name : String) : respell old new (respell other spelled name) = respell old new name := by
  simp only [respell, String.toList_ofList, List.map_map]
  congr 1
  apply List.map_congr_left
  intro c _
  simp only [Function.comp_apply]
  split
  · rename_i hc
    rw [h, hc]
  · rfl

end ClassWeaver.ClassName
