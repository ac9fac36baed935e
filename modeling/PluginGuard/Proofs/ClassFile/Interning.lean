import PluginGuard.Proofs.ClassFile.Pool
import PluginGuard.Proofs.Text.ModifiedUtf8

/-!
# Interning only adds

Whatever an interning step does, and whether it succeeds or fails, the pool
afterwards is the pool before with filled slots behind it. So what an index
named before it still names, and sound pools stay sound.
-/
namespace PluginGuard.ClassFile

theorem Constant.decoded_ofText (text : String) : (Constant.ofText text).Decoded :=
  (Text.ModifiedUtf8.decode_encode text).symm

namespace Pool

theorem Cells.append {cells more : List (Option Constant)} (h : Cells cells) (h' : Cells more) :
    Cells (cells ++ more) := by
  induction h with
  | nil => exact h'
  | narrow hnarrow hdec _ ih => exact .narrow hnarrow hdec ih
  | wide hwide hdec _ ih => exact .wide hwide hdec ih

theorem get?_eq_some {p : Pool} {index : UInt16} {k : Constant} :
    p.get? index = some k ↔ p.slots.toList[index.toNat]? = some (some k) := by
  simp [Pool.get?, Option.join_eq_some_iff]

def Extends (p p' : Pool) : Prop :=
  ∃ more, p'.slots.toList = p.slots.toList ++ more ∧ Cells more

namespace Extends

variable {p p' q : Pool}

theorem refl (p : Pool) : p.Extends p := ⟨[], by simp, .nil⟩

theorem trans (h : p.Extends q) (h' : q.Extends p') : p.Extends p' := by
  obtain ⟨more, hq, hmore⟩ := h
  obtain ⟨more', hp', hmore'⟩ := h'
  exact ⟨more ++ more', by rw [hp', hq, List.append_assoc], hmore.append hmore'⟩

theorem sound (h : p.Extends p') (sound : p.Sound) : p'.Sound := by
  obtain ⟨more, hp', hmore⟩ := h
  obtain ⟨cells, hp, hcells⟩ := sound
  exact ⟨cells ++ more, by rw [hp', hp, List.cons_append], hcells.append hmore⟩

theorem get? (h : p.Extends p') {index : UInt16} {k : Constant} (hk : p.get? index = some k) :
    p'.get? index = some k := by
  obtain ⟨more, hp', -⟩ := h
  rw [get?_eq_some] at hk ⊢
  have hlt := (List.getElem?_eq_some_iff.mp hk).1
  rw [hp', List.getElem?_append_left hlt, hk]

theorem utf8 (h : p.Extends p') {index : UInt16} {text : String} (ht : p.utf8 index = .ok text) :
    p'.utf8 index = .ok text := by
  unfold Pool.utf8 at ht
  split at ht
  · next raw t hk =>
    cases ht
    rw [Pool.utf8, h.get? hk]
  · cases ht

theorem className (h : p.Extends p') {index : UInt16} {name : String}
    (hn : p.className index = .ok name) : p'.className index = .ok name := by
  unfold Pool.className at hn
  split at hn
  · next utf8 hk =>
    rw [Pool.className, h.get? hk]
    exact h.utf8 hn
  · cases hn

end Extends

/-- Every run of the step, failed ones too, only adds to the pool. -/
def Interning.Adds {α : Type} (m : Interning α) : Prop :=
  ∀ p : Pool, p.Extends (m.run.run p).2

namespace Interning.Adds

variable {α β : Type}

theorem bind {m : Interning α} {f : α → Interning β} (hm : m.Adds) (hf : ∀ a, (f a).Adds) :
    (m >>= f).Adds := by
  intro p
  have h := hm p
  rw [ExceptT.run_bind, StateT.run_bind]
  generalize m.run.run p = x at h ⊢
  obtain ⟨r, q⟩ := x
  cases r with
  | ok a => exact h.trans (hf a q)
  | error e => exact h

end Interning.Adds

theorem extends_push (p : Pool) {k : Constant} (hdec : k.Decoded) : p.Extends (p.push k) := by
  cases hk : k.isWide with
  | false => exact ⟨[some k], by simp [push, hk], .narrow hk hdec .nil⟩
  | true => exact ⟨[some k, none], by simp [push, hk], .wide hk hdec .nil⟩

theorem adds_intern {k : Constant} (hdec : k.Decoded) : (intern k).Adds := by
  intro p
  change p.Extends (intern k p).2
  rw [intern]
  split
  · exact .refl p
  · split
    · exact .refl p
    · exact extends_push p hdec

inductive Request
  | utf8 (text : String)
  | classRef (name : String)
  | string (text : String)
  | nameAndType (name descriptor : String)
  | member (kind : MemberKind) (m : MemberRef)
  deriving DecidableEq, Repr

def Request.intern : Request → Interning UInt16
  | .utf8 text => internUtf8 text
  | .classRef name => internClass name
  | .string text => internString text
  | .nameAndType name descriptor => internNameAndType name descriptor
  | .member kind m => internMember kind m

/-- The pool that the request leaves, also when it is refused. -/
def Request.after (r : Request) (p : Pool) : Pool := (r.intern.run.run p).2

theorem adds_internUtf8 (text : String) : (internUtf8 text).Adds :=
  adds_intern (Constant.decoded_ofText text)

theorem adds_internClass (name : String) : (internClass name).Adds :=
  (adds_internUtf8 name).bind fun _ => adds_intern trivial

theorem adds_internNameAndType (name descriptor : String) :
    (internNameAndType name descriptor).Adds :=
  (adds_internUtf8 name).bind fun _ => (adds_internUtf8 descriptor).bind fun _ =>
    adds_intern trivial

theorem Request.adds_intern (r : Request) : r.intern.Adds := by
  cases r with
  | utf8 text => exact adds_internUtf8 text
  | classRef name => exact adds_internClass name
  | string text => exact (adds_internUtf8 text).bind fun _ => Pool.adds_intern trivial
  | nameAndType name descriptor => exact adds_internNameAndType name descriptor
  | member _ m =>
    exact (adds_internClass m.owner).bind fun _ =>
      (adds_internNameAndType m.name m.descriptor).bind fun _ => Pool.adds_intern trivial

theorem Request.extends_after (r : Request) (p : Pool) : p.Extends (r.after p) :=
  r.adds_intern p

end Pool

end PluginGuard.ClassFile
