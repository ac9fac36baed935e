/-!
# Cutting text

Pieces between separators, the two sides of the first or last separator, and
searching and replacing in character lists.
-/
namespace PluginGuard.Text

def pieces (sep : Char → Bool) (cs : List Char) : List (List Char) :=
  let (done, open_) := cs.foldl
    (fun (st : List (List Char) × List Char) c =>
      if sep c then (st.2.reverse :: st.1, []) else (st.1, c :: st.2)) ([], [])
  (open_.reverse :: done).reverse

def cutWhere? (sep : Char → Bool) (cs : List Char) : Option (List Char × List Char) :=
  match cs.dropWhile (!sep ·) with
  | [] => none
  | _ :: after => some (cs.takeWhile (!sep ·), after)

def cutFirst? (sep : Char) (cs : List Char) : Option (List Char × List Char) :=
  cutWhere? (· == sep) cs

def cutLast? (sep : Char) (cs : List Char) : Option (List Char × List Char) :=
  (cutFirst? sep cs.reverse).map fun (after, before) => (before.reverse, after.reverse)

def after? : (lead cs : List Char) → Option (List Char)
  | [], cs => some cs
  | _ :: _, [] => none
  | p :: ps, c :: cs => if p = c then after? ps cs else none

def startsWith (lead cs : List Char) : Bool := (after? lead cs).isSome

def endsWith (tail cs : List Char) : Bool := startsWith tail.reverse cs.reverse

def contains (part : List Char) : List Char → Bool
  | [] => part.isEmpty
  | c :: cs => startsWith part (c :: cs) || contains part cs

def swapChar (old new : Char) (s : String) : String :=
  String.ofList (s.toList.map fun c => if c = old then new else c)

def dropRepeated (lead : List Char) (cs : List Char) : List Char :=
  match lead with
  | [] => cs
  | p :: ps =>
    match h : after? (p :: ps) cs with
    | some rest =>
      have : rest.length < cs.length := by
        have key : ∀ (l c r : List Char), after? l c = some r → r.length + l.length = c.length := by
          intro l
          induction l with
          | nil => intro c r hr; simp [after?] at hr; simp [hr]
          | cons q qs ih =>
            intro c r hr
            cases c with
            | nil => simp [after?] at hr
            | cons d ds =>
              simp only [after?] at hr
              split at hr
              · have := ih ds r hr; simp; omega
              · simp at hr
        have := key _ _ _ h
        simp at this
        omega
      dropRepeated (p :: ps) rest
    | none => cs
termination_by cs.length

def dropRepeatedEnd (tail : List Char) (cs : List Char) : List Char :=
  (dropRepeated tail.reverse cs.reverse).reverse

end PluginGuard.Text
