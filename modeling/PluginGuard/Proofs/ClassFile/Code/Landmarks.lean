import PluginGuard.Proofs.ClassFile.Code.References
import PluginGuard.Proofs.ClassFile.Code.RoundTrip

/-!
# Reading edited bodies

Handlers, lines, frames and makers of values have to name instructions. That a branch does is
asked when the body is laid out, but for the others whatever offset they stand for is written,
and the end of the body is only refused when it is read. Of all edits, those that take out the
instructions up to the end can send such a reference there, and no other can.
-/
namespace PluginGuard.ClassFile

/-! ### Landmarks -/

def Handler.landmarks (h : Handler) : List Nat := [h.start, h.entry]

def CodeAttribute.landmarks : CodeAttribute → List Nat
  | .lines _ es => es.map (·.at_)
  | .stackMap _ fs => fs.flatMap Frame.references
  | .locals .. => []
  | .raw .. => []

/-- What the tables refer to that has to be an instruction. -/
def Code.landmarks (c : Code) : List Nat :=
  c.handlers.flatMap Handler.landmarks ++ c.attributes.flatMap CodeAttribute.landmarks

section Landmarks

variable {f : Nat → Nat} {n m : Nat} {pool : Pool}

theorem CodeAttribute.landmarks_moved (f : Nat → Nat) (a : CodeAttribute) :
    (a.moved f).landmarks = a.landmarks.map f := by
  cases a with
  | lines name es => simp [moved, landmarks, LineEntry.moved, Function.comp_def]
  | stackMap name fs => exact flatMap_moved f (Frame.references_moved f) fs
  | _ => rfl

theorem CodeAttribute.landmarks_subset (a : CodeAttribute) : a.landmarks ⊆ a.references := by
  cases a with
  | locals | raw => exact List.nil_subset _
  | _ => exact List.Subset.refl _

theorem Frame.Within.references_lt {fr : Frame} (h : fr.Within n) : ∀ r ∈ fr.references, r < n := by
  refine List.forall_mem_cons.mpr ⟨h.target, fun r hr => ?_⟩
  obtain ⟨t, ht, hr⟩ := List.mem_flatMap.mp hr
  have hwithin := h.types t ht
  cases t with
  | uninitialized origin =>
    obtain rfl := List.mem_singleton.mp hr
    exact hwithin
  | _ => cases hr

theorem Frame.within_of_references {fr : Frame} (sized : fr.kind.Sized)
    (h : ∀ r ∈ fr.references, r < n) : fr.Within n := by
  obtain ⟨htarget, horigins⟩ := List.forall_mem_cons.mp h
  refine ⟨htarget, sized, fun t ht => ?_⟩
  cases t with
  | uninitialized origin =>
    exact horigins origin (List.mem_flatMap.mpr ⟨_, ht, List.mem_singleton_self origin⟩)
  | _ => trivial

theorem CodeAttribute.Within.landmarks_lt {a : CodeAttribute} (h : a.Within n) :
    ∀ r ∈ a.landmarks, r < n := by
  cases a with
  | lines name es => exact List.forall_mem_map.mpr h
  | stackMap name fs =>
    exact List.forall_mem_flatMap.mpr fun fr hfr => (h.1 fr hfr).references_lt
  | locals | raw => exact List.forall_mem_nil _

theorem CodeAttribute.Within.references_le {a : CodeAttribute} (h : a.Within n) :
    ∀ r ∈ a.references, r ≤ n := by
  cases a with
  | locals name vs =>
    refine List.forall_mem_flatMap.mpr fun v hv => ?_
    obtain ⟨hle, hstop⟩ := h v hv
    simp only [LocalVariable.references, List.forall_mem_cons]
    exact ⟨hle.trans hstop, hstop, List.forall_mem_nil _⟩
  | _ => exact fun r hr => (landmarks_lt h r hr).le

theorem CodeAttribute.Within.moved_of_landmarks {a : CodeAttribute} (h : a.Within n)
    (ordered : (a.moved f).Ordered) (marks : ∀ r ∈ (a.moved f).landmarks, r < m)
    (monotone : ∀ r ∈ a.references, ∀ s ∈ a.references, r ≤ s → f r ≤ f s)
    (within : ∀ r ∈ a.references, f r ≤ m) : (a.moved f).Within m := by
  cases a with
  | lines name es => exact List.forall_mem_map.mp marks
  | locals name vs =>
    refine List.forall_mem_map.mpr fun v hv => ?_
    have hstart : v.start ∈ vs.flatMap LocalVariable.references :=
      List.mem_flatMap.mpr ⟨v, hv, List.mem_cons_self⟩
    have hstop : v.stop ∈ vs.flatMap LocalVariable.references :=
      List.mem_flatMap.mpr ⟨v, hv, List.mem_cons_of_mem _ List.mem_cons_self⟩
    exact ⟨monotone _ hstart _ hstop (h v hv).1, within _ hstop⟩
  | stackMap name fs =>
    refine ⟨fun fr' hfr' => ?_, ordered⟩
    obtain ⟨fr, hfr, rfl⟩ := List.mem_map.mp hfr'
    exact Frame.within_of_references (FrameKind.sized_moved.mpr (h.1 fr hfr).sized)
      (List.forall_mem_flatMap.mp marks _ hfr')
  | raw name info => trivial

theorem Code.mem_references_of_handler {c : Code} {h : Handler} (hh : h ∈ c.handlers) {r : Nat}
    (hr : r ∈ h.references) : r ∈ c.references :=
  List.mem_append_right _ (List.mem_append_left _ (List.mem_flatMap.mpr ⟨h, hh, hr⟩))

theorem Code.WellFormed.landmarks_lt {c : Code} (wf : c.WellFormed pool) :
    ∀ r ∈ c.landmarks, r < c.size := by
  refine List.forall_mem_append.mpr ⟨List.forall_mem_flatMap.mpr fun h hh => ?_,
    List.forall_mem_flatMap.mpr fun a ha => (wf.attributes a ha).landmarks_lt⟩
  obtain ⟨hstart, -, hentry⟩ := wf.handlers h hh
  simp only [Handler.landmarks, List.forall_mem_cons]
  exact ⟨hstart, hentry, List.forall_mem_nil _⟩

end Landmarks

/-! ### Bodies after an edit -/

namespace Splice

variable {e : Splice} {c c' : Code} {pool : Pool} {r s : Nat}

theorem ordered_of_apply (happly : e.apply c = .ok c') : ∀ a ∈ c'.attributes, a.Ordered := by
  rw [attributes_of_apply happly]
  refine List.forall_mem_map.mpr ?_
  cases e with
  | insert position new =>
    obtain ⟨-, ordered, -⟩ := Code.insert_eq_ok.mp happly
    exact fun a ha => (CodeAttribute.ordered_moved (Code.strictMono_shift _ _)).mpr (ordered a ha)
  | prepend new =>
    obtain ⟨ordered, -⟩ := Code.prepend_eq_ok.mp happly
    exact fun a ha => (CodeAttribute.ordered_moved (Code.strictMono_add _)).mpr (ordered a ha)
  | remove start stop => exact (Code.remove_eq_ok.mp happly).2.2.1

theorem handlers_of_apply (happly : e.apply c = .ok c') :
    ∀ h' ∈ c'.handlers, ∃ h ∈ c.handlers, h' = h.moved e.move := by
  cases e with
  | insert position new =>
    obtain ⟨-, -, rfl⟩ := Code.insert_eq_ok.mp happly
    exact fun h' hh' => (List.mem_map.mp hh').imp fun h hh => ⟨hh.1, hh.2.symm⟩
  | prepend new =>
    obtain ⟨-, rfl⟩ := Code.prepend_eq_ok.mp happly
    exact fun h' hh' => (List.mem_map.mp hh').imp fun h hh => ⟨hh.1, hh.2.symm⟩
  | remove start stop =>
    obtain ⟨-, -, -, rfl⟩ := Code.remove_eq_ok.mp happly
    intro h' hh'
    exact (List.mem_map.mp (List.mem_filter.mp hh').1).imp fun h hh => ⟨hh.1, hh.2.symm⟩

theorem conforms_of_apply (happly : e.apply c = .ok c') (added : ∀ i ∈ e.added, i.Conforms)
    (conforms : ∀ i ∈ c.instructions, i.Conforms) : ∀ i ∈ c'.instructions, i.Conforms := by
  have moved {is : List Instruction} (hsubset : is ⊆ c.instructions) :
      ∀ i ∈ is.map (Instruction.mapTargets e.move), i.Conforms :=
    List.forall_mem_map.mpr fun i hi => (conforms i (hsubset hi)).mapTargets e.move
  cases e with
  | insert position new =>
    obtain ⟨-, -, rfl⟩ := Code.insert_eq_ok.mp happly
    exact List.forall_mem_append.mpr ⟨List.forall_mem_append.mpr
      ⟨moved (List.take_subset _ _), added⟩, moved (List.drop_subset _ _)⟩
  | prepend new =>
    obtain ⟨-, rfl⟩ := Code.prepend_eq_ok.mp happly
    exact List.forall_mem_append.mpr ⟨added, moved (List.Subset.refl _)⟩
  | remove start stop =>
    obtain ⟨-, -, -, rfl⟩ := Code.remove_eq_ok.mp happly
    exact moved (List.append_subset.mpr ⟨List.take_subset _ _, List.drop_subset _ _⟩)

theorem move_le_move (happly : e.apply c = .ok c') (hr : r ∈ (e.kept c).references)
    (hs : s ∈ (e.kept c).references) (hle : r ≤ s) : e.move r ≤ e.move s := by
  cases e with
  | insert position new => exact (Code.strictMono_shift _ _).monotone hle
  | prepend new => exact (Code.strictMono_add _).monotone hle
  | remove start stop =>
    obtain ⟨⟨hrange, -⟩, hreferences, -⟩ := Code.remove_eq_ok.mp happly
    exact Code.closeUp_le_closeUp (hreferences r hr) (hreferences s hs) hrange hle

/-- Only an edit that takes out the last instructions can send a reference to the end that was
none to the end before. -/
theorem move_lt_size (happly : e.apply c = .ok c') (hr : r ∈ (e.kept c).references)
    (hlt : r < c.size) :
    e.move r < c'.size ∨ ∃ start, e = .remove start c.size ∧ e.move r = start := by
  cases e with
  | insert position new =>
    have hsize := Code.size_insert happly
    simp only [move, Code.shift]
    split_ifs <;> omega
  | prepend new =>
    have hsize := Code.size_prepend happly
    simp only [move]
    omega
  | remove start stop =>
    obtain ⟨⟨hrange, hwithin⟩, hreferences, -, rfl⟩ := Code.remove_eq_ok.mp happly
    have haccepted := hreferences r hr
    rw [Code.size_removed hrange hwithin]
    by_cases hend : stop = c.size ∧ r = start
    · obtain ⟨rfl, rfl⟩ := hend
      exact .inr ⟨r, rfl, if_pos (Nat.le_refl r)⟩
    · left
      simp only [move, Code.closeUp]
      split_ifs <;> omega

theorem move_le_size (happly : e.apply c = .ok c') (hr : r ∈ (e.kept c).references)
    (hle : r ≤ c.size) : e.move r ≤ c'.size := by
  cases e with
  | insert position new =>
    have hsize := Code.size_insert happly
    simp only [move, Code.shift]
    split_ifs <;> omega
  | prepend new =>
    have hsize := Code.size_prepend happly
    simp only [move]
    omega
  | remove start stop =>
    obtain ⟨⟨hrange, hwithin⟩, hreferences, -, rfl⟩ := Code.remove_eq_ok.mp happly
    have haccepted := hreferences r hr
    rw [Code.size_removed hrange hwithin]
    simp only [move, Code.closeUp]
    split_ifs <;> omega

theorem exists_landmark {r' : Nat} (happly : e.apply c = .ok c') (hr' : r' ∈ c'.landmarks) :
    ∃ r ∈ c.landmarks, r ∈ (e.kept c).references ∧ r' = e.move r := by
  obtain hr' | hr' := List.mem_append.mp hr'
  · obtain ⟨h', hh', hr'⟩ := List.mem_flatMap.mp hr'
    obtain ⟨h, hh, rfl⟩ := handlers_of_apply happly h' hh'
    obtain ⟨r, hr, rfl⟩ : ∃ r ∈ h.landmarks, e.move r = r' := List.mem_map.mp hr'
    refine ⟨r, List.mem_append_left _ (List.mem_flatMap.mpr ⟨h, hh, hr⟩), ?_, rfl⟩
    rw [← e.handlers_kept c] at hh
    refine Code.mem_references_of_handler hh ?_
    obtain rfl | hr := List.mem_cons.mp hr
    · exact List.mem_cons_self
    · exact List.mem_cons_of_mem _ (List.mem_cons_of_mem _ hr)
  · rw [attributes_of_apply happly] at hr'
    obtain ⟨a', ha', hr'⟩ := List.mem_flatMap.mp hr'
    obtain ⟨a, ha, rfl⟩ := List.mem_map.mp ha'
    rw [CodeAttribute.landmarks_moved] at hr'
    obtain ⟨r, hr, rfl⟩ := List.mem_map.mp hr'
    refine ⟨r, List.mem_append_right _ (List.mem_flatMap.mpr ⟨a, ha, hr⟩), ?_, rfl⟩
    rw [← e.attributes_kept c] at ha
    exact Code.mem_references_of_attribute ha (a.landmarks_subset hr)

theorem landmarks_lt_of_apply (wf : c.WellFormed pool) (happly : e.apply c = .ok c')
    (hend : ∀ start, e = .remove start c.size → start ∉ c'.landmarks) :
    ∀ r ∈ c'.landmarks, r < c'.size := by
  intro r' hr'
  obtain ⟨r, hr, hkept, rfl⟩ := exists_landmark happly hr'
  obtain hlt | ⟨start, hremove, hstart⟩ := move_lt_size happly hkept (wf.landmarks_lt r hr)
  · exact hlt
  · exact absurd (hstart ▸ hr') (hend start hremove)

theorem wellFormed_of_apply {l : BodyLayout} (wf : c.WellFormed pool)
    (added : ∀ i ∈ e.added, i.Conforms) (happly : e.apply c = .ok c') (hlayout : c'.layout = .ok l)
    (marks : ∀ r ∈ c'.landmarks, r < c'.size) : c'.WellFormed pool where
  nonempty := Code.nonempty_of_layout hlayout
  conforms := conforms_of_apply happly added wf.conforms
  targets := Code.targets_of_layout hlayout
  handlers := by
    intro h' hh'
    have hmarks := List.forall_mem_flatMap.mp (List.forall_mem_append.mp marks).1 h' hh'
    obtain ⟨h, hh, rfl⟩ := handlers_of_apply happly h' hh'
    have hstop : h.stop ∈ (e.kept c).references := by
      rw [← e.handlers_kept c] at hh
      exact Code.mem_references_of_handler hh (List.mem_cons_of_mem _ List.mem_cons_self)
    refine ⟨hmarks _ List.mem_cons_self, move_le_size happly hstop (wf.handlers h hh).2.1, ?_⟩
    exact hmarks _ (List.mem_cons_of_mem _ List.mem_cons_self)
  attributes := by
    intro a' ha'
    have hmarks := List.forall_mem_flatMap.mp (List.forall_mem_append.mp marks).2 a' ha'
    have hordered := ordered_of_apply happly a' ha'
    rw [attributes_of_apply happly] at ha'
    obtain ⟨a, ha, rfl⟩ := List.mem_map.mp ha'
    have within := wf.attributes a ha
    have held {r : Nat} (hr : r ∈ a.references) : r ∈ (e.kept c).references := by
      rw [← e.attributes_kept c] at ha
      exact Code.mem_references_of_attribute ha hr
    exact within.moved_of_landmarks hordered hmarks
      (fun r hr s hs hle => move_le_move happly (held hr) (held hs) hle)
      (fun r hr => move_le_size happly (held hr) (within.references_le r hr))
  named := by
    rw [attributes_of_apply happly]
    exact List.forall_mem_map.mpr fun a ha => CodeAttribute.named_moved.mpr (wf.named a ha)

/-- What an edit leaves of a well-formed body is read as what it was written for, unless the last
instructions were taken out from under a landmark. -/
theorem decode_iff_of_apply {bytes : List UInt8} (wf : c.WellFormed pool)
    (added : ∀ i ∈ e.added, i.Conforms) (happly : e.apply c = .ok c')
    (hencode : c'.encode = .ok bytes) :
    ∃ l, c'.layout = .ok l ∧ (Code.decode bytes pool = .ok (c'.written l) ↔
      c'.ContentsFit l ∧ ∀ start, e = .remove start c.size → start ∉ c'.landmarks) := by
  obtain ⟨l, _, _, hlayout, -⟩ := Code.encode_eq_ok.mp hencode
  have settled := Code.settled_of_layout hlayout
  have wellFormed := wellFormed_of_apply wf added happly hlayout
  have hread (marks : ∀ r ∈ c'.landmarks, r < c'.size) :
      Code.decode bytes pool = .ok (c'.written l) ↔ c'.ContentsFit l := by
    obtain ⟨l', body, tail, hlayout', hspells, htail, rfl⟩ :=
      Code.encode_parts (wellFormed marks) hencode
    cases hlayout.symm.trans hlayout'
    have hsize : (c'.written l).instructions.length = c'.size := Code.size_written settled
    rw [Code.decode_assembled hspells, hsize, ← htail.spelled_iff (wellFormed marks)]
    exact ⟨fun h => h.2.2.2, fun h => ⟨rfl, rfl, rfl, h⟩⟩
  refine ⟨l, hlayout, ?_⟩
  constructor
  · intro h
    -- Bytes that are read are read as a well-formed body, which has its landmarks inside.
    have marks : ∀ r ∈ c'.landmarks, r < c'.size := by
      rw [← Code.size_written settled]
      exact (Code.wellFormed_of_decode h).landmarks_lt
    refine ⟨(hread marks).mp h, fun start hremove hmem => ?_⟩
    subst hremove
    obtain ⟨⟨hrange, hwithin⟩, -, -, rfl⟩ := Code.remove_eq_ok.mp happly
    have hlt := marks start hmem
    rw [Code.size_removed hrange hwithin] at hlt
    omega
  · rintro ⟨fits, hend⟩
    exact (hread (landmarks_lt_of_apply wf happly hend)).mpr fits

def trailing (behind : Nat) : Code :=
  { Code.ofInstructions 0 0 (.simple 0xB1 :: List.replicate behind nop) with
    attributes := [.lines 1 [⟨0, 1⟩, ⟨1, 2⟩]] }

theorem size_trailing {behind : Nat} : (trailing behind).size = behind + 1 := by
  simp [trailing, Code.size, Code.ofInstructions]

theorem conforms_trailing (behind : Nat) :
    ∀ i ∈ (trailing behind).instructions, i.Conforms ∧ i.targets = [] := by
  refine List.forall_mem_cons.mpr ⟨⟨⟨_, rfl, trivial⟩, rfl⟩, fun i hi => ?_⟩
  obtain rfl := List.eq_of_mem_replicate hi
  exact ⟨⟨_, rfl, trivial⟩, rfl⟩

theorem wellFormed_trailing {behind : Nat} (h : 0 < behind) :
    (trailing behind).WellFormed Code.specimenPool where
  nonempty := Nat.succ_pos _
  conforms := fun i hi => (conforms_trailing behind i hi).1
  targets := by
    intro i hi t ht
    rw [(conforms_trailing behind i hi).2] at ht
    cases ht
  handlers := List.forall_mem_nil _
  attributes := by
    rw [size_trailing]
    exact List.forall_mem_singleton.mpr (List.forall_mem_cons.mpr
      ⟨Nat.succ_pos behind, List.forall_mem_singleton.mpr (Nat.succ_lt_succ h)⟩)
  named := List.forall_mem_singleton.mpr rfl

def trailingBytes : List UInt8 :=
  [0, 0, 0, 0, 0, 0, 0, 2, 0xB1, 0, 0, 0, 0, 1, 0, 1, 0, 0, 0, 10, 0, 2, 0, 0, 0, 1, 0, 1, 0, 2]

theorem decode_iff_of_apply_trailing :
    (trailing 2).WellFormed Code.specimenPool ∧
      (remove 2 3).apply (trailing 2) = .ok (trailing 1) ∧
      (trailing 1).encode = .ok trailingBytes ∧
      ∃ l, (trailing 1).layout = .ok l ∧ (trailing 1).ContentsFit l ∧
        Code.decode trailingBytes Code.specimenPool = .ok ((trailing 1).written l) := by
  have wf := wellFormed_trailing Nat.two_pos
  have happly : (remove 2 3).apply (trailing 2) = .ok (trailing 1) :=
    Fallible.eq_ok_of_toOption (by decide)
  have hencode : (trailing 1).encode = .ok trailingBytes :=
    Fallible.eq_ok_of_toOption (by decide +kernel)
  obtain ⟨l, hlayout, hread⟩ :=
    decode_iff_of_apply wf (List.forall_mem_nil _) happly hencode
  have fits : (trailing 1).ContentsFit l := Code.contentsFit_of_encode hlayout hencode (by decide)
  refine ⟨wf, happly, hencode, l, hlayout, fits, hread.mpr ⟨fits, fun start hremove => ?_⟩⟩
  obtain rfl : 2 = start := (Splice.remove.inj hremove).1
  decide

def danglingBytes : List UInt8 :=
  [0, 0, 0, 0, 0, 0, 0, 1, 0xB1, 0, 0, 0, 1, 0, 1, 0, 0, 0, 10, 0, 2, 0, 0, 0, 1, 0, 1, 0, 2]

/-- The line of an instruction that was taken out has none to go to, and yet the edit is accepted
and written. -/
theorem unreadable_of_remove :
    (trailing 1).WellFormed Code.specimenPool ∧
      (trailing 1).remove 1 2 = .ok (trailing 0) ∧ (trailing 0).encode = .ok danglingBytes ∧
      Code.decode danglingBytes Code.specimenPool = .error (.malformed (.offsetInside 1)) := by
  refine ⟨wellFormed_trailing Nat.one_pos, ?_, ?_, ?_⟩
  · exact Fallible.eq_ok_of_toOption (by decide)
  · exact Fallible.eq_ok_of_toOption (by decide +kernel)
  · rfl

end Splice

end PluginGuard.ClassFile
