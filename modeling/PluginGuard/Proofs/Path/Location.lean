import Mathlib.Data.List.Basic
import PluginGuard.Path

/-!
# Where paths lead

The names that lead to a location from the root, read off the text of a path: it is
cut at its slashes, empty pieces and dots are passed over, and two dots take the
name before them away. A normalized path is these names with slashes in front, so
any two ways to write a location come out as one text. The file name is the last piece
that is not empty.
-/
namespace PluginGuard

/-- The piece that is still open is kept backwards, and so are the pieces before it. -/
theorem Text.foldl_pieces (sep : Char → Bool) (cs : List Char) (done : List (List Char))
    (piece : List Char) :
    (fun st : List (List Char) × List Char => (st.2.reverse :: st.1).reverse)
        (cs.foldl (fun (st : List (List Char) × List Char) c =>
          if sep c then (st.2.reverse :: st.1, []) else (st.1, c :: st.2)) (done, piece)) =
      done.reverse ++ cs.splitOnPPrepend sep piece := by
  induction cs generalizing done piece with
  | nil => simp
  | cons c cs ih =>
    rw [List.foldl_cons, List.splitOnPPrepend_cons_eq_if]
    by_cases hc : sep c = true
    · rw [if_pos hc, if_pos hc, ih, List.splitOnPPrepend_nil_right, List.reverse_cons,
        List.append_assoc, List.singleton_append]
    · rw [if_neg hc, if_neg hc, ih]

theorem Text.pieces_slash (cs : List Char) : pieces (· == '/') cs = cs.splitOn '/' :=
  (foldl_pieces (· == '/') cs [] []).trans List.splitOnPPrepend_nil_right

namespace Path

/-! ### Names along a text -/

def enter (names : List String) (piece : List Char) : List String :=
  if piece = [] ∨ piece = ['.'] then names
  else if piece = ['.', '.'] then names.dropLast
  else names ++ [String.ofList piece]

def follow (names : List String) (text : List Char) : List String :=
  (text.splitOn '/').foldl enter names

def names (p : Path) : List String := follow [] p.text.toList

def namesFrom (base p : Path) : List String :=
  follow (if p.isAbsolute then [] else base.names) p.text.toList

theorem enter_nil (ns : List String) : enter ns [] = ns := by
  simp [enter]

theorem follow_nil (ns : List String) : follow ns [] = ns := by
  simp [follow, enter_nil]

theorem follow_append (ns : List String) (cs rest : List Char) :
    follow ns (cs ++ '/' :: rest) = follow (follow ns cs) rest := by
  rw [follow, List.splitOn_append_cons_self, List.foldl_append]
  rfl

theorem isAbsolute_iff {p : Path} : p.isAbsolute = true ↔ ∃ cs, p.text.toList = '/' :: cs := by
  rw [isAbsolute, beq_iff_eq, List.head?_eq_some_iff]

theorem toList_join {base p : Path} (hbase : base.text ≠ "") (hrelative : p.isAbsolute = false) :
    (∃ cs, base.text.toList = cs ++ ['/'] ∧
      (base.join p).text.toList = cs ++ '/' :: p.text.toList) ∨
    (base.join p).text.toList = base.text.toList ++ '/' :: p.text.toList := by
  have hempty : base.text.isEmpty = false := by simpa using hbase
  rw [join, hrelative, hempty, Bool.or_self, if_neg Bool.false_ne_true]
  cases hlast : base.text.toList.getLast? == some '/' with
  | true =>
    obtain ⟨cs, hcs⟩ := List.getLast?_eq_some_iff.mp (beq_iff_eq.mp hlast)
    exact .inl ⟨cs, hcs, by simp [hcs]⟩
  | false => exact .inr (by simp)

theorem names_join {base p : Path} (hbase : base.text ≠ "") (hrelative : p.isAbsolute = false) :
    (base.join p).names = follow base.names p.text.toList := by
  rcases toList_join hbase hrelative with ⟨cs, hcs, hjoin⟩ | hjoin
  · rw [names, hjoin, follow_append, names, hcs, follow_append, follow_nil]
  · rw [names, hjoin, follow_append, names]

/-! ### Locations -/

theorem foldl_ofPiece (rooted : Bool) (ns : List String) (piece : List Char) :
    (ofPiece piece).foldl Location.step ⟨rooted, ns⟩ = ⟨rooted, enter ns piece⟩ := by
  unfold ofPiece
  split
  · simp [enter]
  · simp [enter]
  · simp [enter, Location.step]
  · simp_all [enter, Location.step]

theorem foldl_name (rooted : Bool) (ms ns : List String) :
    (ns.map Component.name).foldl Location.step ⟨rooted, ms⟩ = ⟨rooted, ms ++ ns⟩ := by
  induction ns generalizing ms with
  | nil => rw [List.append_nil]; rfl
  | cons n ns ih => rw [List.map_cons, List.foldl_cons, Location.step, ih, List.append_assoc]; rfl

theorem foldl_pieces (rooted : Bool) (ns : List String) (cs : List Char) :
    ((Text.pieces (· == '/') cs).flatMap ofPiece).foldl Location.step ⟨rooted, ns⟩ =
      ⟨rooted, follow ns cs⟩ := by
  rw [Text.pieces_slash, List.foldl_flatMap, follow]
  induction cs.splitOn '/' generalizing ns with
  | nil => rfl
  | cons piece pieces ih => rw [List.foldl_cons, foldl_ofPiece, ih, List.foldl_cons]

theorem location_of_isAbsolute {p : Path} (h : p.isAbsolute = true) :
    p.location = ⟨true, p.names⟩ := by
  obtain ⟨cs, hcs⟩ := isAbsolute_iff.mp h
  have hstart : start p.text.toList = [.root] := by
    rw [hcs]
    rfl
  rw [location, components, hstart, List.singleton_append, List.foldl_cons]
  exact foldl_pieces true [] p.text.toList

/-! ### Normalized paths -/

structure IsName (n : String) : Prop where
  nonempty : n.toList ≠ []
  noDot : n.toList ≠ ['.']
  noDots : n.toList ≠ ['.', '.']
  noSlash : '/' ∉ n.toList

theorem slash_not_mem_of_splitOn {cs piece : List Char} (h : piece ∈ cs.splitOn '/') :
    '/' ∉ piece := by
  induction cs generalizing piece with
  | nil => simp_all
  | cons c cs ih =>
    rw [List.splitOn_cons_eq_if_modifyHead] at h
    by_cases hc : c = '/'
    · simp only [hc, beq_self_eq_true, if_true, List.mem_cons] at h
      rcases h with rfl | h
      · simp
      · exact ih h
    · cases hsplit : cs.splitOn '/' with
      | nil => exact absurd hsplit (List.splitOn_ne_nil _ _)
      | cons p ps =>
        rw [if_neg (by simpa using hc), hsplit, List.modifyHead_cons] at h
        rcases List.mem_cons.mp h with rfl | h
        · simp [Ne.symm hc, ih (hsplit ▸ List.mem_cons_self)]
        · exact ih (hsplit ▸ List.mem_cons_of_mem p h)

theorem isName_of_mem_enter {ns : List String} (hns : ∀ n ∈ ns, IsName n) {piece : List Char}
    (hpiece : '/' ∉ piece) : ∀ n ∈ enter ns piece, IsName n := by
  intro n hn
  unfold enter at hn
  split_ifs at hn with hskip hback
  · exact hns n hn
  · exact hns n (List.dropLast_subset _ hn)
  · rw [not_or] at hskip
    rcases List.mem_append.mp hn with hn | hn
    · exact hns n hn
    · obtain rfl := List.mem_singleton.mp hn
      rw [← String.toList_ofList (l := piece)] at hskip hback hpiece
      exact ⟨hskip.1, hskip.2, hback, hpiece⟩

theorem isName_of_mem_follow {ns : List String} (hns : ∀ n ∈ ns, IsName n) (cs : List Char) :
    ∀ n ∈ follow ns cs, IsName n := by
  have hpieces : ∀ piece ∈ cs.splitOn '/', '/' ∉ piece := fun _ => slash_not_mem_of_splitOn
  rw [follow]
  generalize cs.splitOn '/' = pieces at hpieces
  induction pieces generalizing ns with
  | nil => exact hns
  | cons piece pieces ih =>
    rw [List.forall_mem_cons] at hpieces
    exact ih (isName_of_mem_enter hns hpieces.1) hpieces.2

theorem isName_of_mem_names {p : Path} : ∀ n ∈ p.names, IsName n :=
  isName_of_mem_follow (by simp) _

theorem isName_of_mem_namesFrom {base p : Path} : ∀ n ∈ base.namesFrom p, IsName n := by
  refine isName_of_mem_follow ?_ _
  cases p.isAbsolute with
  | true => simp
  | false => exact isName_of_mem_names

theorem ofPiece_of_isName {n : String} (h : IsName n) : ofPiece n.toList = [.name n] := by
  unfold ofPiece
  split
  · exact absurd ‹_› h.nonempty
  · exact absurd ‹_› h.noDot
  · exact absurd ‹_› h.noDots
  · rw [String.ofList_toList]

theorem toList_locationText (ns : List String) :
    (Location.text ⟨true, ns⟩).toList = '/' :: List.intercalate ['/'] (ns.map (·.toList)) := by
  simp [Location.text, String.toList_intercalate]

theorem components_of_names {ns : List String} (h : ∀ n ∈ ns, IsName n) :
    (Path.mk (Location.text ⟨true, ns⟩)).components = .root :: ns.map .name := by
  rw [components, toList_locationText, Text.pieces_slash, List.splitOn_cons_eq_if_modifyHead,
    if_pos (beq_self_eq_true '/'), List.flatMap_cons]
  refine congrArg (Component.root :: ·) ?_
  cases ns with
  | nil => rfl
  | cons n ns =>
    have hslash : ∀ cs ∈ (n :: ns).map (·.toList), '/' ∉ cs :=
      List.forall_mem_map.mpr fun m hm => (h m hm).noSlash
    rw [List.splitOn_intercalate '/' hslash (by simp), List.flatMap_map, List.map_eq_flatMap]
    exact List.flatMap_congr fun m hm => ofPiece_of_isName (h m hm)

theorem isAbsolute_of_names (ns : List String) :
    (Path.mk (Location.text ⟨true, ns⟩)).isAbsolute = true := by
  rw [isAbsolute, toList_locationText]
  rfl

theorem names_of_names {ns : List String} (h : ∀ n ∈ ns, IsName n) :
    (Path.mk (Location.text ⟨true, ns⟩)).names = ns := by
  have hlocation := location_of_isAbsolute (isAbsolute_of_names ns)
  rw [location, components_of_names h, List.foldl_cons] at hlocation
  exact congrArg Location.names (hlocation.symm.trans (foldl_name true [] ns))

theorem normalize_eq {p : Path} (h : p.isAbsolute = true) :
    p.normalize = ⟨Location.text ⟨true, p.names⟩⟩ := by
  rw [normalize, location_of_isAbsolute h]

theorem components_normalize {p : Path} (h : p.isAbsolute = true) :
    p.normalize.components = .root :: p.names.map .name := by
  rw [normalize_eq h, components_of_names isName_of_mem_names]

/-! ### Paths against a base -/

theorem text_ne_empty {p : Path} (h : p.isAbsolute = true) : p.text ≠ "" := by
  obtain ⟨cs, hcs⟩ := isAbsolute_iff.mp h
  intro hempty
  simp [hempty] at hcs

theorem isAbsolute_join {base p : Path} (h : base.isAbsolute = true)
    (hrelative : p.isAbsolute = false) : (base.join p).isAbsolute = true := by
  obtain ⟨start, hstart⟩ := isAbsolute_iff.mp h
  refine isAbsolute_iff.mpr ?_
  rcases toList_join (text_ne_empty h) hrelative with ⟨cs, hcs, hjoin⟩ | hjoin
  · cases cs with
    | nil => exact ⟨_, hjoin⟩
    | cons c cs =>
      rw [hstart, List.cons_append, List.cons.injEq] at hcs
      exact ⟨_, hjoin.trans (by rw [← hcs.1, List.cons_append])⟩
  · exact ⟨_, hjoin.trans (by rw [hstart, List.cons_append])⟩

theorem resolveAgainst_eq {base : Path} (h : base.isAbsolute = true) (p : Path) :
    base.resolveAgainst p = ⟨Location.text ⟨true, base.namesFrom p⟩⟩ := by
  rw [resolveAgainst, namesFrom]
  cases hp : p.isAbsolute with
  | true => rw [if_pos rfl, if_pos rfl, normalize_eq hp, names]
  | false =>
    rw [if_neg Bool.false_ne_true, if_neg Bool.false_ne_true,
      normalize_eq (isAbsolute_join h hp), names_join (text_ne_empty h) hp]

/-! ### File names -/

section FileNames

variable {p : Path} {n : String}

theorem flatMap_ofPiece_filter (pieces : List (List Char)) :
    (pieces.filter (!·.isEmpty)).flatMap ofPiece = pieces.flatMap ofPiece := by
  induction pieces with
  | nil => rfl
  | cons piece pieces ih =>
    cases piece with
    | nil => exact ih
    | cons c cs => rw [List.filter_cons_of_pos rfl, List.flatMap_cons, List.flatMap_cons, ih]

theorem fileName?_of_getLast?
    (h : ((Text.pieces (· == '/') p.text.toList).filter (!·.isEmpty)).getLast? = some n.toList)
    (hname : IsName n) : p.fileName? = some n := by
  obtain ⟨front, hpieces⟩ := List.getLast?_eq_some_iff.mp h
  rw [fileName?, components, ← flatMap_ofPiece_filter, hpieces, List.flatMap_append,
    List.flatMap_singleton, ofPiece_of_isName hname, ← List.append_assoc,
    List.getLast?_append_of_ne_nil _ (List.cons_ne_nil _ _)]
  rfl

theorem isName_of_mem {c : Char} (hmem : c ∈ n.toList) (hdot : c ≠ '.') (hslash : '/' ∉ n.toList) :
    IsName n where
  nonempty h := by simp [h] at hmem
  noDot h := by simp [h, hdot] at hmem
  noDots h := by simp [h, hdot] at hmem
  noSlash := hslash

theorem IsName.isAbsolute (h : IsName n) : (Path.mk n).isAbsolute = false := by
  refine Bool.eq_false_iff.mpr fun habsolute => ?_
  obtain ⟨cs, hcs⟩ := isAbsolute_iff.mp habsolute
  have hcs : n.toList = '/' :: cs := hcs
  exact h.noSlash (hcs ▸ List.mem_cons_self ..)

theorem toList_child (h : IsName n) (dir : Path) :
    (dir.child n).text.toList = n.toList ∨
      ∃ cs, (dir.child n).text.toList = cs ++ '/' :: n.toList := by
  by_cases hdir : dir.text = ""
  · exact .inl (by simp [child, join, hdir])
  · rcases toList_join hdir h.isAbsolute with ⟨cs, -, hjoin⟩ | hjoin
    · exact .inr ⟨cs, hjoin⟩
    · exact .inr ⟨_, hjoin⟩

theorem getLast?_splitOn_child (h : IsName n) (dir : Path) :
    ((dir.child n).text.toList.splitOn '/').getLast? = some n.toList := by
  have hsplit := List.splitOn_eq_singleton h.noSlash
  rcases toList_child h dir with hchild | ⟨cs, hchild⟩
  · rw [hchild, hsplit]
    rfl
  · rw [hchild, List.splitOn_append_cons_self, hsplit]
    exact List.getLast?_concat

theorem fileName?_child (h : IsName n) (dir : Path) : (dir.child n).fileName? = some n := by
  obtain ⟨front, hpieces⟩ := List.getLast?_eq_some_iff.mp (getLast?_splitOn_child h dir)
  have hkept : [n.toList].filter (!·.isEmpty) = [n.toList] :=
    List.filter_cons_of_pos (by simpa using h.nonempty)
  refine fileName?_of_getLast? ?_ h
  rw [Text.pieces_slash, hpieces, List.filter_append, hkept]
  exact List.getLast?_concat

end FileNames

end Path

end PluginGuard
