import Mathlib.Algebra.GroupWithZero.Nat
import Mathlib.Data.List.Forall2
import Mathlib.Data.String.Basic
import PluginGuard.Archive.Open
import PluginGuard.Cli.Report
import PluginGuard.Proofs.Text.Cut

/-!
# Lines and columns of a report

A table has two lines of heading and one line for each row, with every cell in its
column, unless a cell breaks its line or leaves an escape open that hides the blanks
behind it. The names in a report come from archives and settings, and can do both.
-/
namespace PluginGuard.Terminal

open Text (isBlank NoBlankEnd trimEndChars)

/-! ### Escapes -/

def openAfter : Bool → List Char → Bool
  | o, [] => o
  | true, c :: cs => openAfter (c != 'm') cs
  | false, c :: cs => openAfter (c == '\x1b') cs

theorem visibleFrom_append (o : Bool) (cs ds : List Char) :
    visibleFrom o (cs ++ ds) = visibleFrom o cs ++ visibleFrom (openAfter o cs) ds := by
  induction cs generalizing o with
  | nil => cases o <;> rfl
  | cons c cs ih =>
    cases o with
    | true => simp only [List.cons_append, visibleFrom, openAfter, ih]
    | false =>
      by_cases hc : c = '\x1b'
      · simp only [List.cons_append, visibleFrom, openAfter, hc, if_true, beq_self_eq_true, ih]
      · simp only [List.cons_append, visibleFrom, openAfter, hc, if_false, beq_eq_false_iff_ne.mpr hc,
          ih]

theorem visibleFrom_true_suffix (cs : List Char) : visibleFrom true cs <:+ visibleFrom false cs := by
  -- From the first m on both see the same, for there no escape is open in either.
  induction cs with
  | nil => exact List.suffix_refl _
  | cons c cs ih =>
    by_cases hm : c = 'm'
    · subst hm
      exact List.suffix_cons 'm' (visibleFrom false cs)
    · have hopen : visibleFrom true (c :: cs) = visibleFrom true cs := by
        rw [visibleFrom, bne_iff_ne.mpr hm]
      rw [hopen, visibleFrom]
      split
      · exact List.suffix_refl _
      · exact ih.trans (List.suffix_cons c _)

theorem visibleFrom_of_not_mem {cs : List Char} (h : '\x1b' ∉ cs) : visibleFrom false cs = cs := by
  induction cs with
  | nil => rfl
  | cons c cs ih =>
    obtain ⟨hc, hcs⟩ := not_or.mp (List.mem_cons.not.mp h)
    rw [visibleFrom, if_neg (Ne.symm hc), ih hcs]

theorem openAfter_of_not_mem {cs : List Char} (h : '\x1b' ∉ cs) : openAfter false cs = false := by
  induction cs with
  | nil => rfl
  | cons c cs ih =>
    obtain ⟨hc, hcs⟩ := not_or.mp (List.mem_cons.not.mp h)
    rw [openAfter, beq_eq_false_iff_ne.mpr (Ne.symm hc), ih hcs]

theorem visibleFrom_blanks_append (n : Nat) (cs : List Char) :
    visibleFrom false (List.replicate n ' ' ++ cs) = List.replicate n ' ' ++ visibleFrom false cs := by
  have hblanks : '\x1b' ∉ List.replicate n ' ' := by simp
  rw [visibleFrom_append, visibleFrom_of_not_mem hblanks, openAfter_of_not_mem hblanks]

theorem visibleFrom_true_blanks_append (n : Nat) (cs : List Char) :
    visibleFrom true (List.replicate n ' ' ++ cs) = visibleFrom true cs := by
  induction n with
  | zero => rfl
  | succ n ih => exact ih

/-! ### Cells -/

/-- A cell that stays in its line and closes its escapes. -/
structure Tame (cell : String) : Prop where
  oneLine : '\n' ∉ cell.toList
  closed : openAfter false cell.toList = false

instance (cell : String) : Decidable (Tame cell) :=
  decidable_of_iff ('\n' ∉ cell.toList ∧ openAfter false cell.toList = false)
    ⟨fun h => ⟨h.1, h.2⟩, fun h => ⟨h.oneLine, h.closed⟩⟩

/-- A cell that can end a row: no blank of it is trimmed and all of it is seen. -/
structure Plain (cell : String) : Prop where
  nonempty : cell.toList ≠ []
  noBlank : ∀ c ∈ cell.toList, isBlank c = false
  noEscape : '\x1b' ∉ cell.toList

instance (cell : String) : Decidable (Plain cell) :=
  decidable_of_iff (cell.toList ≠ [] ∧ cell.toList.any isBlank = false ∧ '\x1b' ∉ cell.toList)
    ⟨fun h => ⟨h.1, by simpa using h.2.1, h.2.2⟩,
      fun h => ⟨h.nonempty, by simpa using h.noBlank, h.noEscape⟩⟩

theorem Plain.tame {cell : String} (h : Plain cell) : Tame cell :=
  ⟨fun hmem => absurd (h.noBlank _ hmem) (by decide), openAfter_of_not_mem h.noEscape⟩

theorem Plain.visible {cell : String} (h : Plain cell) :
    visibleFrom false cell.toList = cell.toList := visibleFrom_of_not_mem h.noEscape

theorem width_le_length (cell : String) : width cell ≤ cell.toList.length := by
  have hlength : ∀ (o : Bool) (cs : List Char), (visibleFrom o cs).length ≤ cs.length := by
    intro o cs
    induction cs generalizing o with
    | nil => cases o <;> exact Nat.le_refl 0
    | cons c cs ih =>
      cases o with
      | true => exact Nat.le_succ_of_le (ih _)
      | false =>
        rw [visibleFrom]
        split
        · exact Nat.le_succ_of_le (ih _)
        · exact Nat.succ_le_succ (ih _)
  exact hlength false cell.toList

abbrev Fits : List String → List Nat → Prop := List.Forall₂ fun cell w => width cell ≤ w

/-! ### Columns -/

def shown (w : Nat) (cell : String) : List Char :=
  visibleFrom false cell.toList ++ List.replicate (w - width cell) ' '

def place (ws : List Nat) (j : Nat) : Nat := 2 + ((ws.take j).map (· + 2)).sum

/-- On the screen, with blanks behind it, the line has every cell at the place of its column. -/
def Aligned (ws : List Nat) (line : List Char) (cells : List String) : Prop :=
  ∃ n, ∀ (j w : Nat) (cell : String), ws[j]? = some w → cells[j]? = some cell →
    shown w cell <+: (visibleFrom false line ++ List.replicate n ' ').drop (place ws j)

def lead (ws : List Nat) (cells : List String) : List Char :=
  (List.zipWith (fun cell w => cell.toList ++ List.replicate (w - width cell + 2) ' ')
    cells ws).flatten

def screen (ws : List Nat) (cells : List String) : List Char :=
  (List.zipWith (fun cell w => shown w cell ++ [' ', ' ']) cells ws).flatten

theorem length_shown {w : Nat} {cell : String} (h : width cell ≤ w) : (shown w cell).length = w := by
  rw [shown, List.length_append, List.length_replicate]
  change width cell + (w - width cell) = w
  omega

theorem shown_prefix_screen {ws : List Nat} {cells : List String} (fits : Fits cells ws)
    {j w : Nat} {cell : String} (hw : ws[j]? = some w) (hcell : cells[j]? = some cell) :
    shown w cell <+: (screen ws cells).drop ((ws.take j).map (· + 2)).sum := by
  induction fits generalizing j with
  | nil => simp at hw
  | @cons c v cells ws hfits _ ih =>
    cases j with
    | zero =>
      obtain rfl : v = w := by simpa using hw
      obtain rfl : c = cell := by simpa using hcell
      exact ⟨[' ', ' '] ++ screen ws cells, by simp [screen]⟩
    | succ j =>
      have hlength : (shown v c ++ [' ', ' ']).length = v + 2 := by
        rw [List.length_append, length_shown hfits]
        rfl
      have hdrop : (screen (v :: ws) (c :: cells)).drop (((v :: ws).take (j + 1)).map (· + 2)).sum =
          (screen ws cells).drop ((ws.take j).map (· + 2)).sum := by
        rw [List.take_succ_cons, List.map_cons, List.sum_cons, ← hlength, ← List.drop_drop]
        exact congrArg _ List.drop_left
      rw [hdrop]
      exact ih (by simpa using hw) (by simpa using hcell)

theorem lead_cons (w : Nat) (ws : List Nat) (cell : String) (cells : List String) :
    lead (w :: ws) (cell :: cells) =
      cell.toList ++ (List.replicate (w - width cell + 2) ' ' ++ lead ws cells) := by
  rw [lead, List.zipWith_cons_cons, List.flatten_cons, List.append_assoc]
  rfl

theorem visibleFrom_lead {ws : List Nat} {cells : List String}
    (closed : ∀ cell ∈ cells, openAfter false cell.toList = false) (rest : List Char) :
    visibleFrom false (lead ws cells ++ rest) = screen ws cells ++ visibleFrom false rest := by
  induction cells generalizing ws with
  | nil => rfl
  | cons cell cells ih =>
    cases ws with
    | nil => rfl
    | cons w ws =>
      obtain ⟨hcell, hcells⟩ := List.forall_mem_cons.mp closed
      rw [lead_cons, List.append_assoc, List.append_assoc, visibleFrom_append, hcell,
        visibleFrom_blanks_append, ih hcells, ← List.replicate_append_replicate]
      simp [screen, shown]

theorem closed_of_length_lead {ws : List Nat} {cells : List String} (fits : Fits cells ws)
    (rest : List Char) :
    (visibleFrom false (lead ws cells ++ rest)).length ≤
        (ws.map (· + 2)).sum + (visibleFrom false rest).length ∧
      ((ws.map (· + 2)).sum + (visibleFrom false rest).length ≤
          (visibleFrom false (lead ws cells ++ rest)).length →
        ∀ cell ∈ cells, openAfter false cell.toList = false) := by
  induction fits with
  | nil => simp [lead]
  | @cons cell w cells ws hfits _ ih =>
    obtain ⟨hle, hclosed⟩ := ih
    rw [lead_cons, List.append_assoc, List.append_assoc, visibleFrom_append, List.length_append,
      List.map_cons, List.sum_cons]
    change width cell + _ ≤ _ ∧ (_ ≤ width cell + _ → _)
    cases hopen : openAfter false cell.toList with
    | false =>
      rw [visibleFrom_blanks_append, List.length_append, List.length_replicate]
      refine ⟨by omega, fun h => List.forall_mem_cons.mpr ⟨hopen, hclosed (by omega)⟩⟩
    | true =>
      -- The gap of two blanks is missing on the screen, whatever closes the escape.
      have hshort := (visibleFrom_true_suffix (lead ws cells ++ rest)).length_le
      rw [visibleFrom_true_blanks_append]
      refine ⟨by omega, fun h => absurd h (by omega)⟩

theorem newline_mem_lead {ws : List Nat} {cells : List String} (fits : Fits cells ws) :
    '\n' ∈ lead ws cells ↔ ∃ cell ∈ cells, '\n' ∈ cell.toList := by
  induction fits with
  | nil => simp [lead]
  | cons _ _ ih => simp [lead_cons, ih]

/-! ### Rows -/

def Ended (cells : List String) : Prop := ∃ front last, cells = front ++ [last] ∧ Plain last

def rowLine (ws : List Nat) (cells : List String) : List Char :=
  [' ', ' '] ++ trimEndChars
    (List.intercalate [' ', ' '] ((List.zipWith padded cells ws).map String.toList))

theorem toList_line (ws : List Nat) (cells : List String) :
    (line ws cells).toList = rowLine ws cells ++ ['\n'] := by
  simp [line, rowLine, Text.trimEnd, String.toList_intercalate]

theorem intercalate_concat {α : Type} (sep x : List α) (xs : List (List α)) :
    List.intercalate sep (xs ++ [x]) = (xs.map (· ++ sep)).flatten ++ x := by
  induction xs with
  | nil => simp
  | cons y ys ih =>
    rw [List.cons_append, List.intercalate_cons_of_ne_nil (by simp), ih, List.map_cons,
      List.flatten_cons]
    simp only [List.append_assoc]

theorem fits_concat {front : List String} {last : String} {ws : List Nat}
    (fits : Fits (front ++ [last]) ws) :
    ∃ ws' w, ws = ws' ++ [w] ∧ Fits front ws' ∧ width last ≤ w := by
  induction front generalizing ws with
  | nil =>
    obtain ⟨w, rest, hlast, hrest, rfl⟩ := List.forall₂_cons_left_iff.mp fits
    obtain rfl := List.forall₂_nil_left_iff.mp hrest
    exact ⟨[], w, rfl, .nil, hlast⟩
  | cons cell front ih =>
    obtain ⟨v, rest, hcell, hrest, rfl⟩ := List.forall₂_cons_left_iff.mp fits
    obtain ⟨ws', w, rfl, hfront, hlast⟩ := ih hrest
    exact ⟨v :: ws', w, rfl, .cons hcell hfront, hlast⟩

section Row

variable {front : List String} {last : String} {ws : List Nat} {w : Nat}

theorem lead_eq_flatten (ws : List Nat) (front : List String) :
    (((List.zipWith padded front ws).map String.toList).map (· ++ [' ', ' '])).flatten =
      lead ws front := by
  have hcell : ∀ cell w, (padded cell w).toList ++ [' ', ' '] =
      cell.toList ++ List.replicate (w - width cell + 2) ' ' := by
    intro cell w
    rw [← List.replicate_append_replicate]
    simp [padded, spaces]
  simp only [lead, List.map_zipWith, hcell]

theorem rowLine_concat (fits : Fits front ws) (plain : Plain last) :
    rowLine (ws ++ [w]) (front ++ [last]) = [' ', ' '] ++ (lead ws front ++ last.toList) := by
  have hend : NoBlankEnd (lead ws front ++ last.toList) := by
    intro c hc
    rw [List.getLast?_append_of_ne_nil _ plain.nonempty] at hc
    exact plain.noBlank c (List.mem_of_getLast? hc)
  have hblanks : ∀ c ∈ List.replicate (w - width last) ' ', isBlank c = true := by
    intro c hc
    rw [List.eq_of_mem_replicate hc]
    rfl
  have hlast : (padded last w).toList = last.toList ++ List.replicate (w - width last) ' ' := by
    simp [padded, spaces]
  rw [rowLine, List.zipWith_append fits.length_eq, List.map_append]
  simp only [List.zipWith_cons_cons, List.zipWith_nil_left, List.map_cons, List.map_nil]
  rw [intercalate_concat, lead_eq_flatten, hlast, ← List.append_assoc,
    Text.trimEndChars_append_blanks hend hblanks]

theorem length_le_of_prefix_drop {seen cs : List Char} {k n : Nat} (hne : cs ≠ [])
    (hcs : ∀ c ∈ cs, c ≠ ' ') (h : cs <+: (seen ++ List.replicate n ' ').drop k) :
    k + cs.length ≤ seen.length := by
  have hpos := List.length_pos_iff.mpr hne
  by_contra hshort
  have hlast : cs.length - 1 < cs.length := by omega
  have hblank := h.getElem hlast
  rw [List.getElem_drop, List.getElem_append_right (by omega), List.getElem_replicate] at hblank
  exact hcs _ (List.getElem_mem hlast) hblank

theorem aligned_iff (fits : Fits front ws) (hw : width last ≤ w) (plain : Plain last) :
    Aligned (ws ++ [w]) ([' ', ' '] ++ (lead ws front ++ last.toList)) (front ++ [last]) ↔
      ∀ cell ∈ front, openAfter false cell.toList = false := by
  have hmargin : visibleFrom false ([' ', ' '] ++ (lead ws front ++ last.toList)) =
      [' ', ' '] ++ visibleFrom false (lead ws front ++ last.toList) :=
    visibleFrom_blanks_append 2 _
  constructor
  · -- The last column is enough: it cannot reach its place when something before it is hidden.
    rintro ⟨n, h⟩
    have hlast := h ws.length w last (by simp) (by simp [← fits.length_eq])
    rw [shown, plain.visible, hmargin, place, List.take_left, List.append_assoc,
      ← List.drop_drop] at hlast
    have hlength := length_le_of_prefix_drop plain.nonempty
      (fun c hc => ?_) ((List.prefix_append _ _).trans hlast)
    · refine (closed_of_length_lead fits last.toList).2 ?_
      rwa [plain.visible]
    · rintro rfl
      exact absurd (plain.noBlank _ hc) (by decide)
  · intro closed
    refine ⟨w - width last + 2, fun j v cell hv hcell => ?_⟩
    have hscreen : screen (ws ++ [w]) (front ++ [last]) =
        screen ws front ++ (shown w last ++ [' ', ' ']) := by
      rw [screen, List.zipWith_append fits.length_eq, List.flatten_append]
      simp [screen]
    have hfull : visibleFrom false ([' ', ' '] ++ (lead ws front ++ last.toList)) ++
        List.replicate (w - width last + 2) ' ' =
          [' ', ' '] ++ screen (ws ++ [w]) (front ++ [last]) := by
      rw [hmargin, visibleFrom_lead closed, hscreen, shown, ← List.replicate_append_replicate]
      simp only [List.append_assoc]
      rfl
    have hfits : Fits (front ++ [last]) (ws ++ [w]) := List.rel_append fits (.cons hw .nil)
    rw [hfull, place, ← List.drop_drop]
    exact shown_prefix_screen hfits hv hcell

theorem keeps_iff_tame {cells : List String} {ws : List Nat} (fits : Fits cells ws)
    (ended : Ended cells) :
    '\n' ∉ rowLine ws cells ∧ Aligned ws (rowLine ws cells) cells ↔ ∀ cell ∈ cells, Tame cell := by
  obtain ⟨front, last, rfl, plain⟩ := ended
  obtain ⟨ws, w, rfl, hfront, hlast⟩ := fits_concat fits
  rw [rowLine_concat hfront plain, aligned_iff hfront hlast plain]
  have hnewline : '\n' ∉ [' ', ' '] ++ (lead ws front ++ last.toList) ↔
      ∀ cell ∈ front, '\n' ∉ cell.toList := by
    simp [newline_mem_lead hfront, plain.tame.oneLine]
  rw [hnewline]
  constructor
  · rintro ⟨oneLine, closed⟩ cell hcell
    rcases List.mem_append.mp hcell with hcell | hcell
    · exact ⟨oneLine cell hcell, closed cell hcell⟩
    · exact List.mem_singleton.mp hcell ▸ plain.tame
  · intro h
    have hfront' := fun cell hcell => h cell (List.mem_append_left _ hcell)
    exact ⟨fun cell hcell => (hfront' cell hcell).oneLine,
      fun cell hcell => (hfront' cell hcell).closed⟩

end Row

/-! ### Widths -/

theorem length_le_utf8ByteSize (s : String) : s.toList.length ≤ s.utf8ByteSize := by
  have hlen : ∀ cs : List Char, cs.length ≤ String.utf8Len cs := by
    intro cs
    induction cs with
    | nil => exact Nat.le_refl 0
    | cons c cs ih =>
      have := c.utf8Size_pos
      rw [List.length_cons, String.utf8Len_cons]
      omega
  rw [← String.utf8Len_toList]
  exact hlen s.toList

theorem foldl_max_le {α : Type} (f : α → Nat) (as : List α) (w : Nat) :
    w ≤ as.foldl (fun w a => max w (f a)) w ∧
      ∀ a ∈ as, f a ≤ as.foldl (fun w a => max w (f a)) w := by
  induction as generalizing w with
  | nil => simp
  | cons a as ih =>
    obtain ⟨hstart, hmem⟩ := ih (max w (f a))
    refine ⟨Nat.le_trans (Nat.le_max_left _ _) hstart, List.forall_mem_cons.mpr ⟨?_, hmem⟩⟩
    exact Nat.le_trans (Nat.le_max_right _ _) hstart

section Table

variable {headers : List String} {rows : List (List String)}

theorem length_widths : (widths headers rows).length = headers.length := by
  simp [widths]

theorem fits_headers : Fits headers (widths headers rows) := by
  refine List.forall₂_iff_get.mpr ⟨length_widths.symm, fun i h₁ h₂ => ?_⟩
  have hwidth := (foldl_max_le (fun row : List String => ((row[i]?).map width).getD 0) rows
    headers[i].utf8ByteSize).1
  have hlength := Nat.le_trans (width_le_length headers[i]) (length_le_utf8ByteSize headers[i])
  simpa [widths] using Nat.le_trans hlength hwidth

theorem fits_row {row : List String} (hrow : row ∈ rows) (hlength : row.length = headers.length) :
    Fits row (widths headers rows) := by
  refine List.forall₂_iff_get.mpr ⟨hlength.trans length_widths.symm, fun i h₁ h₂ => ?_⟩
  have hi : i < headers.length := hlength ▸ h₁
  have hwidth := (foldl_max_le (fun row : List String => ((row[i]?).map width).getD 0) rows
    headers[i].utf8ByteSize).2 row hrow
  rw [List.getElem?_eq_getElem h₁, Option.map_some, Option.getD_some] at hwidth
  simpa [widths] using hwidth

def ruler (ws : List Nat) : List String := ws.map fun w => String.ofList (List.replicate w '-')

theorem tame_ruler (ws : List Nat) : ∀ cell ∈ ruler ws, Tame cell := by
  intro cell hcell
  obtain ⟨w, -, rfl⟩ := List.mem_map.mp hcell
  exact ⟨by simp, openAfter_of_not_mem (by simp)⟩

theorem fits_ruler (ws : List Nat) : Fits (ruler ws) ws := by
  refine List.forall₂_map_left_iff.mpr (List.forall₂_same.mpr fun w _ => ?_)
  rw [width, visibleFrom_of_not_mem (by simp)]
  simp

/-- The ruler has a dash at least in its last column, for the heading takes room there. -/
theorem ended_ruler {ws : List Nat} (fits : Fits headers ws) (ended : Ended headers) :
    Ended (ruler ws) := by
  obtain ⟨front, last, rfl, plain⟩ := ended
  obtain ⟨ws, w, rfl, -, hlast⟩ := fits_concat fits
  rw [width, plain.visible] at hlast
  have hpos : w ≠ 0 := by
    have := List.length_pos_iff.mpr plain.nonempty
    omega
  refine ⟨ruler ws, _, by rw [ruler, List.map_append]; rfl, ⟨?_, ?_, ?_⟩⟩
  · simpa using hpos
  · intro c hc
    rw [String.toList_ofList] at hc
    rw [List.eq_of_mem_replicate hc]
    rfl
  · simp

/-! ### Lines -/

/-- The text is one line for each of the rows, and every line has its cells in the columns. -/
def LaidOut (headers : List String) (rows : List (List String)) (text : String) : Prop :=
  ∃ lines : List (List Char), text.toList.splitOn '\n' = lines ++ [[]] ∧
    List.Forall₂ (Aligned (widths headers rows)) lines
      (headers :: ruler (widths headers rows) :: rows)

theorem fitted_of_length {row : List String} {n : Nat} (h : row.length = n) : fitted n row = row := by
  subst h
  refine List.ext_getElem (by simp [fitted]) fun i h₁ h₂ => ?_
  simp [fitted, h₂]

theorem toList_table (hrows : ∀ row ∈ rows, row.length = headers.length) :
    (table headers rows).toList = (headers :: ruler (widths headers rows) :: rows).flatMap
      fun cells => rowLine (widths headers rows) cells ++ ['\n'] := by
  have hlines : (rows.map fun row => line (widths headers rows) (fitted headers.length row)) =
      rows.map (line (widths headers rows)) :=
    List.map_congr_left fun row hrow => by rw [fitted_of_length (hrows row hrow)]
  rw [table, hlines, String.toList_join]
  simp only [List.flatMap_cons, List.flatMap_map, toList_line, ruler]

theorem splitOn_line_append (l text : List Char) :
    (l ++ ['\n'] ++ text).splitOn '\n' = l.splitOn '\n' ++ text.splitOn '\n' := by
  rw [List.append_assoc, List.singleton_append, List.splitOn_append_cons_self]

theorem length_lt_length_splitOn (written : List (List Char)) :
    written.length < ((written.flatMap (· ++ ['\n'])).splitOn '\n').length := by
  induction written with
  | nil => simp
  | cons l written ih =>
    have hl := List.length_pos_iff.mpr (List.splitOn_ne_nil '\n' l)
    rw [List.flatMap_cons, splitOn_line_append, List.length_append, List.length_cons]
    omega

theorem splitOn_flatMap_iff {written lines : List (List Char)}
    (hlength : lines.length = written.length) :
    (written.flatMap (· ++ ['\n'])).splitOn '\n' = lines ++ [[]] ↔
      (∀ l ∈ written, '\n' ∉ l) ∧ lines = written := by
  induction written generalizing lines with
  | nil =>
    obtain rfl := List.length_eq_zero_iff.mp hlength
    simp
  | cons l written ih =>
    obtain ⟨first, lines, rfl⟩ := List.exists_cons_of_length_eq_add_one hlength
    have hrest : lines.length = written.length := by simpa using hlength
    rw [List.flatMap_cons, splitOn_line_append, List.forall_mem_cons]
    by_cases hl : '\n' ∈ l
    · -- Cut at its line end, this line alone reads as two.
      obtain ⟨before, after, rfl⟩ := List.append_of_mem hl
      have hbefore := List.length_pos_iff.mpr (List.splitOn_ne_nil '\n' before)
      have hafter := List.length_pos_iff.mpr (List.splitOn_ne_nil '\n' after)
      have hlt := length_lt_length_splitOn written
      refine iff_of_false (fun heq => ?_) (fun h => h.1.1 hl)
      have hcount := congrArg List.length heq
      simp only [List.splitOn_append_cons_self, List.length_append, List.length_cons,
        List.length_nil] at hcount
      omega
    · rw [List.splitOn_eq_singleton hl, List.singleton_append, List.cons_append, List.cons.injEq,
        ih hrest, List.cons.injEq]
      constructor
      · rintro ⟨rfl, hwritten, rfl⟩
        exact ⟨⟨hl, hwritten⟩, rfl, rfl⟩
      · rintro ⟨⟨-, hwritten⟩, rfl, rfl⟩
        exact ⟨rfl, hwritten, rfl⟩

theorem laidOut_table_iff (ended : Ended headers) (tame : ∀ h ∈ headers, Tame h)
    (hrows : ∀ row ∈ rows, row.length = headers.length ∧ Ended row) :
    LaidOut headers rows (table headers rows) ↔ ∀ row ∈ rows, ∀ cell ∈ row, Tame cell := by
  generalize hws : widths headers rows = ws
  have keeps : ∀ cells ∈ headers :: ruler ws :: rows,
      ('\n' ∉ rowLine ws cells ∧ Aligned ws (rowLine ws cells) cells ↔
        ∀ cell ∈ cells, Tame cell) := by
    subst hws
    simp only [List.forall_mem_cons]
    exact ⟨keeps_iff_tame fits_headers ended,
      keeps_iff_tame (fits_ruler _) (ended_ruler fits_headers ended),
      fun row hrow => keeps_iff_tame (fits_row hrow (hrows row hrow).1) (hrows row hrow).2⟩
  have htable : (table headers rows).toList =
      ((headers :: ruler ws :: rows).map (rowLine ws)).flatMap (· ++ ['\n']) := by
    rw [toList_table fun row hrow => (hrows row hrow).1, List.flatMap_map, hws]
  have hall : (∀ cells ∈ headers :: ruler ws :: rows, ∀ cell ∈ cells, Tame cell) ↔
      ∀ row ∈ rows, ∀ cell ∈ row, Tame cell := by
    rw [List.forall_mem_cons, List.forall_mem_cons]
    exact (and_iff_right tame).trans (and_iff_right (tame_ruler ws))
  rw [← hall, LaidOut, htable, hws]
  constructor
  · rintro ⟨lines, hlines, aligned⟩
    have hlength : lines.length = ((headers :: ruler ws :: rows).map (rowLine ws)).length := by
      rw [aligned.length_eq, List.length_map]
    obtain ⟨oneLine, rfl⟩ := (splitOn_flatMap_iff hlength).mp hlines
    rw [List.forall₂_map_left_iff, List.forall₂_same] at aligned
    exact fun cells hcells => (keeps cells hcells).mp
      ⟨oneLine _ (List.mem_map_of_mem hcells), aligned cells hcells⟩
  · intro h
    have kept := fun cells hcells => (keeps cells hcells).mpr (h cells hcells)
    refine ⟨_, (splitOn_flatMap_iff rfl).mpr ⟨?_, rfl⟩, ?_⟩
    · intro l hl
      obtain ⟨cells, hcells, rfl⟩ := List.mem_map.mp hl
      exact (kept cells hcells).1
    · rw [List.forall₂_map_left_iff, List.forall₂_same]
      exact fun cells hcells => (kept cells hcells).2

end Table

end PluginGuard.Terminal

namespace PluginGuard.StartupReport

open Terminal

theorem tame_verdict (colored : Bool) (v : Verdict) :
    Tame (paint colored (verdictStyle v) v.name) := by
  cases colored <;> cases v <;> decide

theorem tame_digits (n : Nat) : Tame (toString n) := by
  have hdigit : ∀ c ∈ (toString n).toList, Text.Ascii.isDigit c = true := by
    rw [Nat.toString_eq_ofList_toDigits, String.toList_ofList]
    exact fun c => Text.Numeral.isDigit_of_mem_toDigits
  exact ⟨fun hmem => absurd (hdigit _ hmem) (by decide),
    openAfter_of_not_mem fun hmem => absurd (hdigit _ hmem) (by decide)⟩

theorem plain_countermeasure (c : Option Countermeasure) :
    Plain (match c with
      | some c => c.name
      | none => "-") := by
  cases c with
  | none => decide
  | some c => cases c <;> decide

theorem ended_headers : Ended headers :=
  ⟨["Plugin", "Scanner", "Verdict", "Confidence", "Result"], _, rfl, by decide⟩

theorem ended_rows (colored : Bool) (r : StartupReport) :
    ∀ row ∈ r.rows colored, row.length = headers.length ∧ Ended row := by
  simp only [rows, List.forall_mem_flatMap, List.forall_mem_map]
  exact fun p _ o _ =>
    ⟨rfl, [p.plugin, o.scanner, _, _, _], _, rfl, plain_countermeasure o.countermeasure⟩

theorem tame_row_iff (colored : Bool) (plugin : String) (o : ScanOutcome) :
    (∀ cell ∈ row colored plugin o, Tame cell) ↔ Tame plugin ∧ Tame o.scanner := by
  have horigin : Tame (if o.fromCache then "cached" else "fresh") := by
    cases o.fromCache <;> decide
  have hcountermeasure := (plain_countermeasure o.countermeasure).tame
  simp only [row, List.forall_mem_cons]
  constructor
  · intro h
    exact ⟨h.1, h.2.1⟩
  · intro h
    exact ⟨h.1, h.2, tame_verdict _ _, tame_digits _, horigin, hcountermeasure,
      List.forall_mem_nil _⟩

theorem length_rows (colored : Bool) (r : StartupReport) :
    (r.rows colored).length = (r.plugins.map (·.outcomes.length)).sum := by
  simp [rows, List.length_flatMap]

/-- The table of a report has one line for each outcome below its heading, and its columns stand
in line, exactly when every name in it stays in its line and closes its escapes. -/
theorem laidOut_iff (colored : Bool) (r : StartupReport) :
    (r.rows colored).length = (r.plugins.map (·.outcomes.length)).sum ∧
      (LaidOut headers (r.rows colored) (table headers (r.rows colored)) ↔
        ∀ p ∈ r.plugins, ∀ o ∈ p.outcomes, Tame p.plugin ∧ Tame o.scanner) := by
  refine ⟨length_rows colored r, ?_⟩
  rw [laidOut_table_iff ended_headers (by decide) (ended_rows colored r)]
  simp only [rows, List.forall_mem_flatMap, List.forall_mem_map, tame_row_iff]

/-- The name of a plugin that brings the row of another plugin with it. -/
def forgedName : String := "Good  static  CLEAN  100  fresh  -\n  Evil"

def forgedDescriptor : String := "name: \"Good  static  CLEAN  100  fresh  -\\n  Evil\"\n"

def forged : StartupReport where
  plugins := [{
    plugin := forgedName
    jar := ⟨"plugins/evil.jar"⟩
    outcomes := [⟨"static", ⟨.malicious, 95, [], some .warn⟩, false, some .warn⟩]
    enforcement := ⟨forgedName, some .warn, ["static"], none, none⟩ }]
  excluded := []
  unreadable := []

/-- A descriptor can give the name, and the table of its only, malicious outcome then has a line
that reports a clean one. -/
theorem not_laidOut_forged :
    Archive.nameIn? forgedDescriptor = some forgedName ∧
      (forged.plugins.map (·.outcomes.length)).sum = 1 ∧
      "  Good  static  CLEAN  100  fresh  -".toList ∈
        (table headers (forged.rows false)).toList.splitOn '\n' ∧
      ¬ LaidOut headers (forged.rows false) (table headers (forged.rows false)) := by
  have hrows := ended_rows false forged
  refine ⟨by decide +kernel, rfl, ?_, fun h => ?_⟩
  · rw [toList_table fun row hrow => (hrows row hrow).1]
    decide +kernel
  have tame := (laidOut_table_iff ended_headers (by decide) hrows).mp h _ (List.mem_singleton.mpr rfl)
    forgedName List.mem_cons_self
  exact absurd tame.oneLine (by decide)

end PluginGuard.StartupReport
