import PluginGuard.Proofs.ClassFile.ClassBytes
import PluginGuard.Proofs.ClassFile.Interning

/-!
# Edited classes

A class that was parsed and then edited, by interning into its pool and by
setting bodies, still has a sound pool and a name that resolves. Whatever it is
written as is therefore read back as the same class.
-/
namespace PluginGuard.ClassFile.ClassDef

inductive Edited : ClassDef → Prop
  | parsed {bytes : List UInt8} {k : ClassDef} : parse bytes = .ok k → Edited k
  | interned {k : ClassDef} (r : Pool.Request) :
    Edited k → Edited { k with pool := r.after k.pool }
  | bodySet {k k' : ClassDef} {method : Nat} {code : Code} :
    Edited k → k.setBody method code = .ok k' → Edited k'

/-- What parsing promises of a class and every edit keeps. -/
structure Whole (k : ClassDef) : Prop where
  sound : k.pool.Sound
  named : ∃ name, k.name = .ok name

theorem Whole.extend {k k' : ClassDef} (h : k.Whole) (hp : k.pool.Extends k'.pool)
    (hthis : k'.thisClass = k.thisClass) : k'.Whole := by
  obtain ⟨name, hname⟩ := h.named
  refine ⟨hp.sound h.sound, name, ?_⟩
  rw [ClassDef.name, hthis]
  exact hp.className hname

theorem extends_of_setEncodedBody {k k' : ClassDef} {method : Nat} {info : List UInt8}
    (h : k.setEncodedBody method info = .ok k') :
    k.pool.Extends k'.pool ∧ k'.thisClass = k.thisClass := by
  unfold setEncodedBody at h
  split at h
  · cases h
  · split at h
    · cases h
      exact ⟨.refl _, rfl⟩
    · have adds := Pool.adds_internUtf8 "Code" k.pool
      split at h
      · cases h
      · next name pool hrun =>
        cases h
        rw [hrun] at adds
        exact ⟨adds, rfl⟩

theorem whole_of_setBody {k k' : ClassDef} {method : Nat} {code : Code} (hk : k.Whole)
    (h : k.setBody method code = .ok k') : k'.Whole := by
  obtain ⟨info, -, hset⟩ := Fallible.bind_eq_ok.mp h
  obtain ⟨hext, hthis⟩ := extends_of_setEncodedBody hset
  exact hk.extend hext hthis

theorem Edited.whole {k : ClassDef} (h : k.Edited) : k.Whole := by
  induction h with
  | parsed hparse =>
    obtain ⟨sound, -, named⟩ := parse_eq_ok.mp hparse
    exact ⟨sound, named⟩
  | interned r _ ih => exact ih.extend (r.extends_after _) rfl
  | bodySet _ hset ih => exact whole_of_setBody ih hset

/-- What an edited class is written as is read back as the same class: pool with
all texts, members and attributes. -/
theorem parse_write_of_edited {k : ClassDef} {bytes : List UInt8} (h : k.Edited)
    (hw : k.write = .ok bytes) : parse bytes = .ok k :=
  parse_eq_ok.mpr ⟨h.whole.sound, hw, h.whole.named⟩

def specimenEdited : ClassDef :=
  { specimen with
    pool := ⟨specimen.pool.slots ++ #[some (.utf8 [0x42] "B"), some (.classRef 7)]⟩
    methods := [⟨0x0001, 5, 1, [⟨6, [0, 0, 0, 1, 0, 0, 0, 2, 0, 0xB1, 0, 0, 0, 0]⟩]⟩] }

theorem edited_specimenEdited : specimenEdited.Edited := by
  have hinterned := Edited.interned (.classRef "B") (.parsed parse_specimen)
  refine @Edited.bodySet _ _ 0 (.ofInstructions 0 1 [.simple 0x00, .simple 0xB1]) hinterned ?_
  exact Fallible.eq_ok_of_toOption (by decide +kernel)

theorem parse_write_of_edited_specimen :
    specimenEdited.Edited ∧ ∃ bytes, specimenEdited.write = .ok bytes ∧
      parse bytes = .ok specimenEdited := by
  obtain ⟨bytes, hw⟩ : ∃ bytes, specimenEdited.write = .ok bytes := ⟨_, rfl⟩
  exact ⟨edited_specimenEdited, bytes, hw, parse_write_of_edited edited_specimenEdited hw⟩

end PluginGuard.ClassFile.ClassDef
